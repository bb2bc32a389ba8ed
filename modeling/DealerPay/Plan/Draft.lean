import DealerPay.Plan.Basic

/-!
# Drafts of plans

A plan while it is being edited: a list of rules that may still be flawed.

* `Draft.add`, `Draft.update`, `Draft.remove` and `Draft.move` change the list, and
  `Draft.edit` changes fields of one rule and reads it anew. Each gives a new draft.
* `DraftError` says why an edit is refused: there is no rule at the position, or the new rule cannot
  be read.
* `Draft.build` checks the rules and makes a plan of them.

Positions are integers; those below zero and from the length on hold no rule.
-/

namespace DealerPay

/-- A plan while it is being edited. -/
structure Draft where
  /-- The rules, in order. -/
  rules : List Rule
deriving DecidableEq, Repr

/-- Why a draft is not changed. -/
inductive DraftError where
  /-- There is no rule at this position of a draft of this length. -/
  | noRule (position : Int) (length : Nat)
  /-- Rules cannot be read. -/
  | unread (e : RulesError)
deriving Repr

/-- What is said of a position without a rule. -/
def noRuleMessage (position : Int) (length : Nat) : String :=
  "no rule at position " ++ toString position ++ " (plan has " ++ toString length ++ ")"

namespace Draft

/-- A draft without rules. -/
def empty : Draft := ⟨[]⟩

/-- The draft of the rules that a value spells. -/
def ofValue (v : Value) : Except RulesError Draft := return ⟨← Rule.readAll v⟩

/-- How many rules there are. -/
def length (d : Draft) : Nat := d.rules.length

/-- The position as an index into the rules, if there is a rule. -/
def index? (d : Draft) (position : Int) : Option (Fin d.rules.length) :=
  if h : 0 ≤ position ∧ position.toNat < d.rules.length then some ⟨position.toNat, h.2⟩ else none

/-- The position as an index into the rules. -/
def index (d : Draft) (position : Int) : Except DraftError (Fin d.rules.length) :=
  match d.index? position with
  | some i => .ok i
  | none => .error (.noRule position d.length)

/-- The draft with a rule at its end. -/
def add (d : Draft) (r : Rule) : Draft := ⟨d.rules ++ [r]⟩

/-- The draft with the standard rule of the kind that a value names at its end. -/
def addStandard (d : Draft) (kind : Value) : Except PlanError Draft :=
  return d.add (← Rule.standardNamed kind)

/-- The draft with another rule at a position. -/
def update (d : Draft) (position : Int) (r : Rule) : Except DraftError Draft :=
  return ⟨d.rules.set (← d.index position) r⟩

/-- The draft without the rule at a position. -/
def remove (d : Draft) (position : Int) : Except DraftError Draft :=
  return ⟨d.rules.eraseIdx (← d.index position)⟩

/-- The rules with the one at index `i` moved to index `j`. -/
def relocate (rules : List Rule) (i : Fin rules.length) (j : Nat) : List Rule :=
  (rules.eraseIdx i).insertIdx j rules[i]

/-- The draft with the rule at one position moved to another. -/
def move (d : Draft) (position target : Int) : Except DraftError Draft := do
  let i ← d.index position
  let j ← d.index target
  return ⟨relocate d.rules i j⟩

/-- The rule that a value spells, read as the first of a plan of its own. -/
def readRule (v : Value) : Except RulesError Rule :=
  match Rule.ofValue .direct v with
  | .accepted r => .ok r
  | .refused first _ => .error (.refused (.ofUnreadable (first.within (.item 0))))
  | .halted s => .error (.signal s)

/-- A rule with some of its fields changed. A field that rules of its kind do not have is left
out. -/
def changed (r : Rule) (changes : Fields) : Except RulesError Rule :=
  readRule (.object (r.toFields.overlay changes))

/-- The draft with fields of the rule at a position changed. -/
def edit (d : Draft) (position : Int) (changes : Fields) : Except DraftError Draft := do
  let i ← d.index position
  let r ← (changed d.rules[i] changes).mapError .unread
  return ⟨d.rules.set i r⟩

/-- The plan of a draft, put to use. -/
def build (strict : Bool) (d : Draft) : Journal.Noted (Except PlanError Plan) :=
  Plan.start strict d.rules

/-- The rules of a draft as values. -/
def toValues (d : Draft) : List Value := d.rules.map Rule.toValue

end Draft

end DealerPay
