import DealerPay.Pay.Evaluation

/-!
# Rollups

Several consultants, each with a plan and deals, looked at together.

* `Consultant` is one of them.
* `rollup` checks every plan before it pays by any of them: the first plan that is refused refuses
  the whole, and the refusal says whose plan it is (`startAll`).
* Then each consultant is paid by themselves: one after the other up to the first failure
  (`payInTurn`), or all of them whatever happens to the others (`payTogether`). `Mode` says which.
-/

namespace DealerPay

open Journal (Noted)

/-- A consultant with the rules and deals that pay follows from. -/
structure Consultant where
  /-- The name. -/
  name : String
  /-- The rules of the plan. -/
  rules : List Rule
  /-- The deals. -/
  deals : List Deal
deriving DecidableEq, Repr

/-- Why a rollup has no result. -/
inductive RollupError where
  /-- A plan is refused. -/
  | plan (e : PlanError)
  /-- An evaluation has no result. -/
  | failure (f : Failure)
deriving Repr

namespace Rollup

/-- A consultant's plan, put to use. -/
def start (strict : Bool) (c : Consultant) : Noted (Except PlanError Plan) :=
  let started := Plan.start strict c.rules
  ⟨started.result.mapError fun e => e.ofConsultant c.name, started.notes⟩

/-- The plans of all consultants, put to use one after the other up to the first that is refused. -/
def startAll (strict : Bool) : List Consultant → Noted (Except PlanError (List (Consultant × Plan)))
  | [] => pure (.ok [])
  | c :: rest => do
    match ← start strict c with
    | .error e => return .error e
    | .ok p => return (← startAll strict rest).map fun started => (c, p) :: started

/-- What each consultant is paid, one after the other up to the first failure. -/
def payInTurn : List (Consultant × Plan) → Noted (Except Failure (List (String × Breakdown)))
  | [] => pure (.ok [])
  | (c, p) :: rest => do
    match ← p.run c.deals with
    | .error e => return .error e
    | .ok b => return (← payInTurn rest).map fun paid => (c.name, b) :: paid

/-- What each consultant is paid, all of them whatever happens to the others. -/
def payTogether (started : List (Consultant × Plan)) :
    Noted (Except Failure (List (String × Breakdown))) :=
  let runs := started.map fun (c, p) => (c.name, p.run c.deals)
  ⟨runs.mapM fun (name, run) => run.result.map fun b => (name, b),
    runs.flatMap fun (_, run) => run.notes⟩

/-- In which way consultants are paid. -/
inductive Mode where
  /-- One after the other. -/
  | inTurn
  /-- All of them at once. -/
  | together
deriving DecidableEq, Repr

/-- What each consultant is paid. -/
def pay : Mode → List (Consultant × Plan) → Noted (Except Failure (List (String × Breakdown)))
  | .inTurn => payInTurn
  | .together => payTogether

end Rollup

/-- What each consultant is paid, in order. -/
def rollup (mode : Rollup.Mode) (strict : Bool) (consultants : List Consultant) :
    Noted (Except RollupError (List (String × Breakdown))) := do
  match ← Rollup.startAll strict consultants with
  | .error e => return .error (.plan e)
  | .ok started => return (← Rollup.pay mode started).mapError .failure

end DealerPay
