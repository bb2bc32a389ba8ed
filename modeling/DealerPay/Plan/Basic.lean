import DealerPay.Journal
import DealerPay.Plan.Flaw

/-!
# Pay plans

A pay plan is an ordered list of rules without a flaw.

* `Rule.readAll` reads the rules of a plan from anything that can be gone through item by item. What
  it reads are rules, which may still be flawed; an unreadable rule refuses the whole.
* `Plan` is the list with the fact that no rule is flawed, `Plan.ofRules` the check. In strict mode
  a plan with more than one salary or draw is refused as well.
* `Plan.warnings` are notes on plans that can be read in more than one way.
* `Rule.standard` is the rule of each kind that a plan starts out with.
-/

namespace DealerPay

/-! ## Reading rules -/

/-- Why the rules of a plan are not read. -/
inductive RulesError where
  /-- There is nothing to go through, only a value of this sort. -/
  | notIterable (sort : String)
  /-- Arithmetic broke the reading off. -/
  | signal (s : Signal)
  /-- A rule cannot be read. -/
  | refused (e : PlanError)
deriving Repr

/-- The items of a value that can be gone through: those of a list, the names of an object's
fields, the points of a text. -/
def Value.iterate? : Value → Option (List Value)
  | .list items => some items
  | .object fields => some (fields.map fun f => .text f.1)
  | .text s => some ((Text.points s).map fun p => .text (Text.spell [p]))
  | _ => none

/-- The refusal of a plan for a fault found in its rules: the first step of the path is the
position of a rule. -/
def PlanError.ofUnreadable (f : Fault) : PlanError :=
  match f.path with
  | .item i :: rest => .ofFault (.unreadable rest f.refusal) (some i)
  | path => .ofFault (.unreadable (path.drop 1) f.refusal) none

/-- The rules that items spell; the first fault found refuses them all. -/
def Rule.readList (items : List Value) : Except RulesError (List Rule) :=
  match Value.readEach (Rule.ofValue .direct) 0 items with
  | .accepted rules => .ok rules
  | .refused first _ => .error (.refused (.ofUnreadable first))
  | .halted s => .error (.signal s)

/-- The rules that a value spells. -/
def Rule.readAll (v : Value) : Except RulesError (List Rule) :=
  match v.iterate? with
  | some items => Rule.readList items
  | none => .error (.notIterable v.kindName)

/-! ## Checking rules -/

/-- The refusal of a rule for its first flaw. -/
def Rule.check (position : Int) (r : Rule) : Except PlanError Unit :=
  match r.terms.flaws with
  | [] => .ok ()
  | flaw :: _ => .error (.ofFault (.flawed flaw) (some position))

/-- Whether a rule has no flaw. -/
def Rule.isSound (r : Rule) : Bool := r.terms.flaws.isEmpty

/-- The position and the flaw of the first rule that has one. -/
def firstFlaw? : Nat → List Rule → Option (Nat × Flaw)
  | _, [] => none
  | i, r :: rest =>
    match r.terms.flaws with
    | flaw :: _ => some (i, flaw)
    | [] => firstFlaw? (i + 1) rest

/-- Where no flaw is found, no rule has one. -/
theorem isSound_of_firstFlaw?_eq_none {i : Nat} {rules : List Rule}
    (h : firstFlaw? i rules = none) : ∀ r ∈ rules, r.isSound = true := by
  induction rules generalizing i with
  | nil => simp
  | cons r rest ih =>
    rw [firstFlaw?] at h
    split at h
    · simp at h
    · next hf =>
      intro x hx
      rcases List.mem_cons.1 hx with rfl | hx
      · simp [Rule.isSound, hf]
      · exact ih h x hx

/-- Whether a rule is a salary or a draw. -/
def Rule.isBase (r : Rule) : Bool := r.kind == .base

/-- Whether a rule is a guarantee. -/
def Rule.isGuarantee (r : Rule) : Bool := r.kind == .guarantee

/-- The positions of the rules for which a test holds. -/
def positionsOf (p : Rule → Bool) (rules : List Rule) : List Nat :=
  (rules.zipIdx.filter fun (r, _) => p r).map (·.2)

/-- A plan whose rules have no flaw. -/
structure Plan where
  /-- The rules, in order. -/
  rules : List Rule
  /-- No rule has a flaw. -/
  sound : ∀ r ∈ rules, r.isSound = true

namespace Plan

/-- A plan without rules. -/
def empty : Plan := ⟨[], by simp⟩

/-- The plan of these rules. The first flaw refuses it; in strict mode, so does a second salary or
draw, which then no single rule is blamed for. -/
def ofRules (strict : Bool) (rules : List Rule) : Except PlanError Plan :=
  match h : firstFlaw? 0 rules with
  | some (i, flaw) => .error (.ofFault (.flawed flaw) (some i))
  | none =>
    let bases := positionsOf Rule.isBase rules
    if strict && 1 < bases.length then .error (.ofFault (.severalBases bases) none)
    else .ok ⟨rules, isSound_of_firstFlaw?_eq_none h⟩

/-- Notes on what can be read in more than one way in a list of rules. -/
def ambiguities (rules : List Rule) : List String :=
  let bases := rules.countP Rule.isBase
  let guarantees := rules.countP Rule.isGuarantee
  (if 1 < bases then
    [toString bases
      ++ " base salary/draw rules configured; the last one sets base pay and draw mode"]
   else []) ++
  (if 1 < guarantees then
    [toString guarantees
      ++ " minimum commission rules configured; each guarantee is applied in turn"]
   else [])

/-- The notes on a plan. -/
def warnings (p : Plan) : List String := ambiguities p.rules

/-- The name under which pay is computed and noted down. -/
def author : String := "payplan"

/-- What is noted down when a plan is put to use. -/
def notes (p : Plan) : List Journal.Entry :=
  p.warnings.map fun w => ⟨author, .warning, "Ambiguous pay plan: " ++ w⟩

/-- The plan of these rules, put to use. -/
def start (strict : Bool) (rules : List Rule) : Journal.Noted (Except PlanError Plan) :=
  match ofRules strict rules with
  | .ok p => ⟨.ok p, p.notes⟩
  | .error e => ⟨.error e, []⟩

/-- The rules of a plan as values. -/
def toValues (p : Plan) : List Value := p.rules.map Rule.toValue

/-- What is handed on to share a plan: its rules and the notes on them. -/
def toValue (p : Plan) : Value :=
  .object [("rules", .list p.toValues), ("warnings", .list (p.warnings.map .text))]

end Plan

/-! ## Standard rules -/

/-- The terms of the standard rule of a kind. -/
def Terms.standard : RuleKind → Terms
  | .base => .base (.ofNat 2000) false
  | .flatRate => .flatRate .all (.ofNat 250)
  | .unitTiers => .unitTiers .all [⟨.ofNat 1, some (.ofNat 8), .ofNat 100⟩] false
  | .grossShare => .grossShare (.ofNat 25) (.ofNat 5) (some .zero) (some .zero)
  | .grossTiers => .grossTiers .all [⟨.ofNat 1, some (.ofNat 8), .ofNat 20⟩] false .total
  | .volumeBonus => .volumeBonus .all [⟨.ofNat 15, .ofNat 500⟩]
  | .addOn => .addOn .all (.ofNat 10) (.ofNat 100) (.ofNat 100)
  | .guarantee => .guarantee (.ofNat 150)

/-- The standard rule of a kind. -/
def Rule.standard (kind : RuleKind) : Rule := ⟨"", Terms.standard kind⟩

/-- The standard rule of the kind that a value names. -/
def Rule.standardNamed (v : Value) : Except PlanError Rule :=
  match RuleKind.named? v with
  | some kind => .ok (Rule.standard kind)
  | none => .error (.ofFault (.unknownKind v.shown) none)

end DealerPay
