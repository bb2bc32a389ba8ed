import DealerPay.Plan.Draft
import DealerPay.Proofs.Outcome
import DealerPay.Proofs.Reading

/-!
# Edits that are refused

A rule of a draft is edited by reading it anew from its fields, as the only rule of a plan of its
own. Whether the edit goes through, and what is said where it does not, are the same as if the whole
plan were read with the changed rule in its place. The rule that is blamed is not.

* `Rule.readInPlace` is the reading of a value in the place of one rule, with the position that is
  blamed where it cannot be read.
* `Rule.readList_set`: reading a plan with one of its values replaced blames the place of that
  value.
* `Draft.edit_eq_readInPlace`: an edit blames the first place, whichever rule it is about.
* `Draft.edit_of_rewritten` compares the two, outcome by outcome.
-/

namespace DealerPay

namespace Rule

/-- The rules with the one in a place read from a value. Where the value cannot be read, the
position `blamed` is given for it. -/
def readInPlace (rules : List Rule) (place : Nat) (blamed : Int) (v : Value) :
    Except RulesError (List Rule) :=
  match ofValue .direct v with
  | .accepted r => .ok (rules.set place r)
  | .refused first _ =>
    .error (.refused (.ofFault (.unreadable first.path first.refusal) (some blamed)))
  | .halted s => .error (.signal s)

/-- A plan of which one value is replaced is read in the place of that value, and it is this place
that is blamed. -/
theorem readList_set {items : List Value} {rules : List Rule} (h : readList items = .ok rules)
    {i : Nat} (hi : i < rules.length) (v : Value) :
    readList (items.set i v) = readInPlace rules i i v := by
  have hread : Value.readEach (ofValue .direct) 0 items = .accepted rules := by
    unfold readList at h
    split at h
    · next hitems =>
      cases h
      exact hitems
    · cases h
    · cases h
  unfold readList readInPlace
  rw [Value.readEach_set hread hi, Nat.zero_add]
  cases ofValue .direct v <;> rfl

end Rule

namespace Draft

variable (d : Draft) (i : Fin d.rules.length) (changes : Fields)

/-- What the rule at an index is read from again where some of its fields are changed. -/
def rewritten : Value := .object ((d.rules.get i).toFields.overlay changes)

/-- An edit reads the changed rule in its place, and it is the first place that is blamed. -/
theorem edit_eq_readInPlace :
    d.edit (i : Nat) changes =
      ((Rule.readInPlace d.rules i 0 (d.rewritten i changes)).map Draft.mk).mapError .unread := by
  have hindex : d.index (i : Nat) = .ok i := by
    unfold index index?
    rw [dif_pos ⟨Int.natCast_nonneg _, i.isLt⟩]
    rfl
  unfold edit
  rw [hindex]
  show (readRule (d.rewritten i changes)).mapError DraftError.unread >>= _ = _
  unfold readRule Rule.readInPlace
  cases Rule.ofValue .direct (d.rewritten i changes) <;> rfl

/-- Editing a rule of a draft and reading the plan again with the changed rule in its place have the
same outcome, however the other rules were written, with one difference: of a changed rule that
cannot be read, the edit says that it is the first one, and the reading says where it is. The edit
names the rule that was edited exactly where that is the first. -/
theorem edit_of_rewritten :
    (∀ r, Rule.ofValue .direct (d.rewritten i changes) = .accepted r →
      d.edit (i : Nat) changes = .ok ⟨d.rules.set i r⟩ ∧
      ∀ items, Rule.readList items = .ok d.rules →
        Rule.readList (items.set i (d.rewritten i changes)) = .ok (d.rules.set i r)) ∧
    (∀ first rest, Rule.ofValue .direct (d.rewritten i changes) = .refused first rest →
      ∃ e, d.edit (i : Nat) changes = .error (.unread (.refused e)) ∧
        e = ⟨.unreadable first.path first.refusal, some 0, none⟩ ∧
        (e.position = some ((i : Nat) : Int) ↔ (i : Nat) = 0) ∧
        ∀ items, Rule.readList items = .ok d.rules →
          Rule.readList (items.set i (d.rewritten i changes)) =
            .error (.refused { e with position := some ((i : Nat) : Int) })) ∧
    ∀ s, Rule.ofValue .direct (d.rewritten i changes) = .halted s →
      d.edit (i : Nat) changes = .error (.unread (.signal s)) ∧
      ∀ items, Rule.readList items = .ok d.rules →
        Rule.readList (items.set i (d.rewritten i changes)) = .error (.signal s) := by
  have hreread : ∀ items, Rule.readList items = .ok d.rules →
      Rule.readList (items.set i (d.rewritten i changes)) =
        Rule.readInPlace d.rules i (i : Nat) (d.rewritten i changes) :=
    fun items hitems => Rule.readList_set hitems i.isLt _
  rw [edit_eq_readInPlace]
  refine ⟨fun r hr => ⟨?_, fun items hitems => ?_⟩, fun first rest hrefused => ?_,
    fun s hs => ⟨?_, fun items hitems => ?_⟩⟩
  · rw [Rule.readInPlace, hr]
    rfl
  · rw [hreread items hitems, Rule.readInPlace, hr]
  · refine ⟨_, ?_, rfl, ?_, fun items hitems => ?_⟩
    · rw [Rule.readInPlace, hrefused]
      rfl
    · rw [Option.some_inj]
      omega
    · rw [hreread items hitems, Rule.readInPlace, hrefused]
      rfl
  · rw [Rule.readInPlace, hs]
    rfl
  · rw [hreread items hitems, Rule.readInPlace, hs]

/-- A rate for every unit and a salary behind it. -/
def ratedAndPaid : Draft :=
  ⟨[⟨"", .flatRate .all (.ofNat 100)⟩, ⟨"", .base (.ofNat 1000) false⟩]⟩

/-- The two rules as they are typed. -/
def ratedAndPaidTyped : List Value :=
  [.object [("kind", .text "flat_rate"), ("amount_per_unit", .int 100)],
   .object [("kind", .text "base_salary"), ("amount", .text "1000")]]

/-- A salary that is no number is refused at the second position where the plan is read, and at the
first one where it is edited. -/
theorem edit_of_rewritten_ratedAndPaid :
    Rule.readList ratedAndPaidTyped = .ok ratedAndPaid.rules ∧
      ∃ e, ratedAndPaid.edit 1 [("amount", .text "a lot")] = .error (.unread (.refused e)) ∧
        e.position = some 0 ∧
        Rule.readList (ratedAndPaidTyped.set 1
            (ratedAndPaid.rewritten ⟨1, by decide⟩ [("amount", .text "a lot")])) =
          .error (.refused { e with position := some 1 }) := by
  have hread : Rule.readList ratedAndPaidTyped = .ok ratedAndPaid.rules :=
    eq_ok_of_toOption (by decide +kernel)
  obtain ⟨e, he, rfl, -, hreread⟩ :=
    (edit_of_rewritten ratedAndPaid ⟨1, by decide⟩ [("amount", .text "a lot")]).2.1 _ _ rfl
  exact ⟨hread, _, he, rfl, hreread _ hread⟩

/-- An edit does not name the rule that was edited: a salary behind a rate is refused as the first
rule of the plan. -/
theorem edit_blames_another_rule :
    ∃ e, ratedAndPaid.edit 1 [("amount", .text "a lot")] = .error (.unread (.refused e)) ∧
      e.message = "rule 0: base_salary.amount: Value error, not a number: 'a lot'" ∧
      e.position ≠ some 1 :=
  ⟨⟨.unreadable [.field "base_salary", .field "amount"] (.amount (.notNumber (.text "a lot"))),
    some 0, none⟩, rfl, rfl, by decide⟩

end Draft

end DealerPay
