import DealerPay.Proofs.Completion.Evaluation
import DealerPay.Proofs.Refusal
import DealerPay.Proofs.RoundTrip
import DealerPay.Proofs.Steps
import DealerPay.Pay.Milestone
import DealerPay.Pay.Projection

/-!
# Texts of what is written down

Which texts stand in a record that is written down. What a plan pays is told in plain texts, so that
it can be sent and comes back; a rule has a label besides, and a deal a number and a name.

* Each of `Rule.allTexts_toValue`, `Deal.allTexts_toValue` and `Breakdown.allTexts_toValue` brings a
  test of texts that plain texts pass to those that are the record's own.
* `Rule.allTexts_of_readAll`, `Deal.allTexts_of_ofValue` and `Breakdown.allTexts_of_ofValue`: these
  stood in the data that the record was read of, if it was.
* `Breakdown.HasPlainTexts` is what a plan pays and would pay
  (`Breakdown.hasPlainTexts_of_evaluate`, `Breakdown.hasPlainTexts_of_project`); it can be sent, and
  so can the texts for its bonuses.
* `Plan.IsRefusal.isPlain_detail`: what is said of a plan that is refused is plain as well.
-/

namespace DealerPay

open Text (IsPlain)

/-! ## Words -/

/-- The word for a condition is plain. -/
theorem Condition.isPlain_text (c : Condition) : IsPlain c.text := by
  cases c <;> decide

/-- The word for a status is plain. -/
theorem DealStatus.isPlain_text (s : DealStatus) : IsPlain s.text := by
  cases s <;> decide

/-- The word for a scope is plain. -/
theorem Scope.isPlain_text (s : Scope) : IsPlain s.text := by
  cases s with
  | all => decide
  | only c => exact c.isPlain_text

/-- The word for a basis is plain. -/
theorem GrossBasis.isPlain_text (g : GrossBasis) : IsPlain g.text := by
  cases g <;> decide

/-- The word for a kind is plain. -/
theorem RuleKind.isPlain_text (k : RuleKind) : IsPlain k.text := by
  cases k <;> decide

/-- The word for a category is plain. -/
theorem Category.isPlain_text (c : Category) : IsPlain c.text := by
  cases c <;> decide

/-! ## Records -/

section Records

variable {p : String → Bool}

/-- There are no texts in a number. -/
@[simp] theorem Value.allTexts_ofDecimal (d : Decimal) : (ofDecimal d).allTexts p = true := rfl

/-- Nor in one that may be absent. -/
@[simp] theorem Value.allTexts_ofDecimal? (o : Option Decimal) :
    (ofDecimal? o).allTexts p = true := by
  cases o <;> rfl

variable (hp : ∀ s, IsPlain s → p s = true)
include hp

/-- The texts of a tier are names of fields. -/
theorem Tier.allTexts_toValue (kind : TierKind) (t : Tier) :
    (t.toValue kind).allTexts p = true := by
  cases kind <;> simp (disch := decide) [toValue, TierKind.rateKey, hp]

/-- The texts of a threshold are names of fields. -/
theorem Threshold.allTexts_toValue (t : Threshold) : t.toValue.allTexts p = true := by
  simp (disch := decide) [toValue, hp]

/-- The texts of terms are names of fields and words. -/
theorem Terms.allTexts_termFields (t : Terms) :
    (Rule.termFields t).all (fun f => p f.1 && f.2.allTexts p) = true := by
  cases t with
  | unitTiers s tiers retroactive =>
    simp (disch := decide) [Rule.termFields, hp, hp _ s.isPlain_text, Tier.allTexts_toValue hp]
  | grossTiers s tiers retroactive basis =>
    simp (disch := decide) [Rule.termFields, hp, hp _ s.isPlain_text, hp _ basis.isPlain_text,
      Tier.allTexts_toValue hp]
  | volumeBonus s thresholds =>
    simp (disch := decide) [Rule.termFields, hp, hp _ s.isPlain_text, Threshold.allTexts_toValue hp]
  | flatRate s perUnit => simp (disch := decide) [Rule.termFields, hp, hp _ s.isPlain_text]
  | addOn s accessory spiff tradeSpiff =>
    simp (disch := decide) [Rule.termFields, hp, hp _ s.isPlain_text]
  | _ => simp (disch := decide) [Rule.termFields, hp]

/-- All texts of a rule but its label are names of fields and words. -/
theorem Rule.allTexts_toValue (r : Rule) : r.toValue.allTexts p = p r.label := by
  simp (disch := decide) [toValue, toFields, kindKey, hp, hp _ r.kind.isPlain_text,
    Terms.allTexts_termFields hp r.terms]

/-- The texts of rules are their labels, names of fields and words. -/
theorem Rule.allTexts_list (rules : List Rule) :
    (Value.list (rules.map toValue)).allTexts p = rules.all fun r => p r.label := by
  rw [Value.allTexts_list, List.all_map]
  exact congrArg (List.all rules) (funext (Rule.allTexts_toValue hp))

/-- The texts of a deal that are not its own are names of fields, words and its date. -/
theorem Deal.allTexts_toValue (d : Deal) :
    d.toValue.allTexts p = (p d.stockNumber && p d.customer) := by
  cases hday : d.soldOn with
  | none =>
    simp (disch := decide) [toValue, toFields, hp, hp _ d.condition.isPlain_text,
      hp _ d.status.isPlain_text, hday]
  | some day =>
    simp (disch := decide) [toValue, toFields, hp, hp _ d.condition.isPlain_text,
      hp _ d.status.isPlain_text, hp _ day.isPlain_toText, hday]

/-- All texts of a line but its description are names of fields and words. -/
theorem LineItem.allTexts_toValue (i : LineItem) : i.toValue.allTexts p = p i.description := by
  simp (disch := decide) [toValue, hp, hp _ i.category.isPlain_text]

/-- The texts of a breakdown are those of its lines and its notes, and names of fields. -/
theorem Breakdown.allTexts_toValue (b : Breakdown) :
    b.toValue.allTexts p = (b.items.all (fun i => p i.description) && b.warnings.all p) := by
  simp (disch := decide) [toValue, hp, LineItem.allTexts_toValue hp, Function.comp_def]

end Records

/-! ## What was read -/

section Read

variable {p : String → Bool}

/-- The texts of a field are among those of the object. -/
theorem Value.allTexts_of_get? {fs : Fields} {key : String} {v : Value}
    (hfs : (object fs).allTexts p = true) (hv : fs.get? key = some v) : v.allTexts p = true := by
  rw [allTexts_object, List.all_eq_true] at hfs
  exact (Bool.and_eq_true_iff.1 (hfs _ (Fields.mem_of_get? hv))).2

/-- The texts of an item are among those of the list. -/
theorem Value.allTexts_of_mem {items : List Value} {v : Value}
    (hitems : (list items).allTexts p = true) (hv : v ∈ items) : v.allTexts p = true := by
  rw [allTexts_list, List.all_eq_true] at hitems
  exact hitems v hv

/-- An object that is gone through in a value has its texts there. -/
theorem Value.allTexts_of_iterate? {v : Value} {items : List Value} {fs : Fields}
    (hv : v.allTexts p = true) (hitems : v.iterate? = some items) (hfs : object fs ∈ items) :
    (object fs).allTexts p = true := by
  cases v with
  | list items' =>
    cases hitems
    exact allTexts_of_mem hv hfs
  | object fields =>
    cases hitems
    obtain ⟨f, -, hf⟩ := List.mem_map.1 hfs
    cases hf
  | text s =>
    cases hitems
    obtain ⟨c, -, hc⟩ := List.mem_map.1 hfs
    cases hc
  | _ => cases hitems

/-- A text that is read is the one that is there. -/
theorem Value.ensures_readText {v : Value} (hv : v.allTexts p = true) :
    v.readText.Ensures fun s => p s = true := by
  intro s hs
  cases v <;> cases hs
  exact hv

/-- The description of a line is one of the texts of the data that it is read of. -/
theorem LineItem.ensures_description (source : Source) {v : Value} (hv : v.allTexts p = true) :
    (ofValue source v).Ensures fun i => p i.description = true := by
  intro i hread
  obtain ⟨fs, rfl, hi⟩ : ∃ fs, v = .object fs ∧ ofFields fs = .accepted i :=
    Value.readRecord_eq_accepted hread
  simp only [ofFields, Reading.seq_eq_accepted_iff, Reading.map_eq_accepted_iff] at hi
  obtain ⟨_, _, ⟨_, _, ⟨_, hdescription, rfl⟩, -, rfl⟩, -, rfl⟩ := hi
  exact Fields.ensures_required
    (fun _ hw => Value.ensures_readText (Value.allTexts_of_get? hv hw)) _ hdescription

variable (hp : ∀ s, IsPlain s → p s = true)
include hp

/-- A text among the fields of a record passes the test, or it is empty. -/
theorem Fields.ensures_text {fs : Fields} (hfs : (Value.object fs).allTexts p = true)
    (key : String) : (fs.optional key "" Value.readText).Ensures fun s => p s = true :=
  ensures_optional (hp "" (by decide)) fun _ hv =>
    Value.ensures_readText (Value.allTexts_of_get? hfs hv)

/-- The label of a rule passes the test, or it is empty. -/
theorem Rule.ensures_label {source : Source} {kind : RuleKind} {fs : Fields}
    (hfs : (Value.object fs).allTexts p = true) :
    (ofFields source kind fs).Ensures fun r => p r.label = true := by
  have hlabel : (readLabel fs).Ensures fun s => p s = true := Fields.ensures_text hp hfs "label"
  -- it is read first, whatever the kind is, and kept to the end
  cases kind
  all_goals
    repeat refine Reading.Ensures.seq ?_
    exact hlabel.map fun _ h => by intros; exact h

/-- So do the labels of all rules that are read of data, and so all texts that are written down of
them. -/
theorem Rule.allTexts_of_readAll {v : Value} {rules : List Rule} (hv : v.allTexts p = true)
    (h : readAll v = .ok rules) : (Value.list (rules.map toValue)).allTexts p = true := by
  rw [Value.allTexts_list, List.all_eq_true, List.forall_mem_map]
  unfold readAll at h
  split at h
  · next items hitems =>
    refine forall_mem_readList (fun x hx r hr => ?_) h
    obtain ⟨kind, fs, rfl, hfs⟩ := exists_ofFields_of_ofValue hr
    rw [allTexts_toValue hp]
    exact ensures_label hp (Value.allTexts_of_iterate? hv hitems hx) r hfs
  · cases h

/-- The texts that are written down of a deal are those of the data that it is read of, and plain
ones. -/
theorem Deal.allTexts_of_ofValue {source : Source} {v : Value} {d : Deal} (hv : v.allTexts p = true)
    (h : ofValue source v = .accepted d) : d.toValue.allTexts p = true := by
  obtain ⟨fs, rfl, hd⟩ : ∃ fs, v = .object fs ∧ ofFields fs = .accepted d :=
    Value.readRecord_eq_accepted h
  simp only [ofFields, Reading.seq_eq_accepted_iff, Reading.map_eq_accepted_iff] at hd
  obtain ⟨_, _, ⟨_, _, ⟨_, _, ⟨_, _, ⟨_, _, ⟨_, _, ⟨_, _, ⟨_, _, ⟨_, _, ⟨_, _, ⟨_, -, rfl⟩, -, rfl⟩,
    -, rfl⟩, -, rfl⟩, -, rfl⟩, -, rfl⟩, -, rfl⟩, -, rfl⟩, -, rfl⟩, hstock, rfl⟩, hcustomer,
    rfl⟩ := hd
  rw [allTexts_toValue hp, Bool.and_eq_true]
  exact ⟨Fields.ensures_text hp hv _ _ hstock, Fields.ensures_text hp hv _ _ hcustomer⟩

/-- The texts that are written down of a breakdown are those of the data that it is read of, and
plain ones. -/
theorem Breakdown.allTexts_of_ofValue {source : Source} {v : Value} {b : Breakdown}
    (hv : v.allTexts p = true) (h : ofValue source v = .accepted b) :
    b.toValue.allTexts p = true := by
  obtain ⟨fs, rfl, hb⟩ : ∃ fs, v = .object fs ∧ ofFields source fs = .accepted b :=
    Value.readRecord_eq_accepted h
  have hlines : (Fields.optional fs "line_items" []
      (Value.readItems .notSequence (LineItem.ofValue source))).Ensures
        fun items => ∀ i ∈ items, p i.description = true := by
    refine Fields.ensures_optional (List.forall_mem_nil _) fun w hw => Value.ensures_readItems ?_
    rintro items rfl x hx
    exact LineItem.ensures_description source
      (Value.allTexts_of_mem (Value.allTexts_of_get? hv hw) hx)
  have hnotes : (Fields.optional fs "warnings" []
      (Value.readItems .notSequence Value.readText)).Ensures
        fun notes => ∀ w ∈ notes, p w = true := by
    refine Fields.ensures_optional (List.forall_mem_nil _) fun w hw => Value.ensures_readItems ?_
    rintro items rfl x hx
    exact Value.ensures_readText (Value.allTexts_of_mem (Value.allTexts_of_get? hv hw) hx)
  simp only [ofFields, Reading.seq_eq_accepted_iff, Reading.map_eq_accepted_iff] at hb
  obtain ⟨_, _, ⟨_, _, ⟨_, _, ⟨_, _, ⟨_, _, ⟨_, _, ⟨_, _, ⟨_, _, ⟨_, hitems, rfl⟩, -, rfl⟩, -, rfl⟩,
    -, rfl⟩, -, rfl⟩, -, rfl⟩, -, rfl⟩, -, rfl⟩, hwarnings, rfl⟩ := hb
  rw [allTexts_toValue hp, Bool.and_eq_true, List.all_eq_true, List.all_eq_true]
  exact ⟨hlines _ hitems, hnotes _ hwarnings⟩

end Read

/-! ## What plans pay -/

/-- The notes on a plan are plain. -/
theorem Plan.isPlain_of_mem_warnings (plan : Plan) : ∀ w ∈ plan.warnings, IsPlain w := by
  intro w hw
  rcases List.mem_append.1 hw with hw | hw
  · split at hw
    · rw [List.mem_singleton.1 hw]
      exact (Text.isPlain_toString _).append (by decide)
    · cases hw
  · split at hw
    · rw [List.mem_singleton.1 hw]
      exact (Text.isPlain_toString _).append (by decide)
    · cases hw

/-- The texts of a plan are the labels of its rules, plain notes, and names of fields and words. -/
theorem Plan.allTexts_toValue {p : String → Bool} (hp : ∀ s, IsPlain s → p s = true) (plan : Plan) :
    plan.toValue.allTexts p = plan.rules.all fun r => p r.label := by
  have hnotes : plan.warnings.all p = true :=
    List.all_eq_true.2 fun w hw => hp w (plan.isPlain_of_mem_warnings w hw)
  simp (disch := decide) [toValue, toValues, hp, hnotes, Rule.allTexts_toValue hp,
    Function.comp_def]

namespace Breakdown

/-- Whether a breakdown is told in plain texts. -/
structure HasPlainTexts (b : Breakdown) : Prop where
  /-- What its lines are for. -/
  items : ∀ i ∈ b.items, IsPlain i.description
  /-- Its notes. -/
  warnings : ∀ w ∈ b.warnings, IsPlain w

variable {b : Breakdown}

/-- The texts of such a breakdown pass all tests that plain texts pass. -/
theorem HasPlainTexts.allTexts_toValue (h : b.HasPlainTexts) {p : String → Bool}
    (hp : ∀ s, IsPlain s → p s = true) : b.toValue.allTexts p = true := by
  rw [Breakdown.allTexts_toValue hp, Bool.and_eq_true, List.all_eq_true, List.all_eq_true]
  exact ⟨fun i hi => hp _ (h.items i hi), fun w hw => hp _ (h.warnings w hw)⟩

/-- Such a breakdown can be sent. -/
theorem HasPlainTexts.isWritable_toValue (h : b.HasPlainTexts) :
    Json.isWritable b.toValue = true := by
  rw [Json.isWritable_eq_allTexts (b.isDocument_toValue 0)]
  exact h.allTexts_toValue fun _ => IsPlain.isWhole

/-- What a plan pays is told in plain texts. -/
theorem hasPlainTexts_of_evaluate {plan : Plan} {deals : List Deal}
    (h : plan.evaluate deals = .ok b) : b.HasPlainTexts := by
  obtain ⟨s⟩ := Plan.exists_steps h
  refine ⟨fun i hi => (s.isBooked_of_mem_items i hi).isPlain, ?_⟩
  rw [Plan.warnings_of_evaluate h]
  exact plan.isPlain_of_mem_warnings

/-- So is what it would pay. -/
theorem hasPlainTexts_of_project {plan : Plan} {x : Projection} (h : plan.project x = .ok b) :
    b.HasPlainTexts := by
  unfold Plan.project Plan.runProjection at h
  split at h
  · cases h
    exact ⟨List.forall_mem_nil _, List.forall_mem_nil _⟩
  · split at h
    · rw [Plan.result_run] at h
      exact hasPlainTexts_of_evaluate h
    · cases h

/-- The texts for the bonuses of such a breakdown are plain. -/
theorem HasPlainTexts.isPlain_of_mem_milestones (h : b.HasPlainTexts) {texts : List String}
    (htexts : b.milestones = .ok texts) : ∀ t ∈ texts, IsPlain t := by
  intro t ht
  obtain ⟨i, hi, hline⟩ := exists_of_mem_mapM htexts ht
  simp only [LineItem.milestone, bind_eq_ok, pure_eq_ok] at hline
  obtain ⟨dollars, hdollars, rfl⟩ := hline
  have hplain : IsPlain dollars := by
    unfold Amount.dollars at hdollars
    split at hdollars
    · cases hdollars
      exact IsPlain.append (by decide) (Decimal.isPlain_grouped _)
    · cases hdollars
      decide
    · cases hdollars
  exact ((h.items i (List.mem_of_mem_filter hi)).append (by decide)).append hplain

end Breakdown

/-! ## Refusals -/

/-- What is said of a figure below zero is plain if its name is. -/
theorem Flaw.isPlain_of_mem_ofNegative {figure : Figure} {value : Decimal}
    (hfigure : IsPlain figure.text) : ∀ flaw ∈ ofNegative figure value, IsPlain flaw.message := by
  intro flaw hflaw
  unfold ofNegative at hflaw
  split at hflaw
  · rw [List.mem_singleton.1 hflaw]
    exact (hfigure.append (by decide)).append (Numeral.isPlain_toText (.finite value))
  · cases hflaw

/-- What is said of the bounds of a tier is plain. -/
theorem Tier.isPlain_of_mem_boundFlaws (t : Tier) (index : Nat) :
    ∀ flaw ∈ t.boundFlaws index, IsPlain flaw.message := by
  have hindex := Text.isPlain_toString index
  refine List.forall_mem_append.2 ⟨Flaw.isPlain_of_mem_ofNegative ?_, ?_⟩
  · exact (IsPlain.append (by decide) hindex).append (by decide)
  · intro flaw hflaw
    unfold inversion at hflaw
    split at hflaw
    · next upper _ =>
      split at hflaw
      · rw [List.mem_singleton.1 hflaw]
        exact ((((((IsPlain.append (by decide) hindex).append (by decide)).append
          (Numeral.isPlain_toText (.finite upper))).append (by decide)).append
            (Numeral.isPlain_toText (.finite t.lower))).append (by decide))
      · cases hflaw
    · cases hflaw

/-- What is said of tiers is plain. -/
theorem Tier.isPlain_of_mem_flaws (kind : TierKind) (tiers : List Tier) :
    ∀ flaw ∈ flaws kind tiers, IsPlain flaw.message := by
  have hrate : IsPlain kind.rateKey := by cases kind <;> decide
  refine List.forall_mem_append.2 ⟨?_, ?_⟩ <;> intro flaw hflaw <;>
    obtain ⟨⟨t, i⟩, -, hflaw⟩ := List.mem_flatMap.1 hflaw
  · exact t.isPlain_of_mem_boundFlaws i flaw hflaw
  · refine Flaw.isPlain_of_mem_ofNegative ?_ flaw hflaw
    exact ((IsPlain.append (by decide) (Text.isPlain_toString i)).append (by decide)).append hrate

/-- What is said of a threshold is plain. -/
theorem Threshold.isPlain_of_mem_flaws (t : Threshold) (index : Nat) :
    ∀ flaw ∈ t.flaws index, IsPlain flaw.message := by
  have hlead : IsPlain ("threshold " ++ toString index) :=
    IsPlain.append (by decide) (Text.isPlain_toString index)
  exact List.forall_mem_append.2
    ⟨Flaw.isPlain_of_mem_ofNegative (hlead.append (by decide)),
      Flaw.isPlain_of_mem_ofNegative ((hlead.append (by decide)).append (by decide))⟩

/-- What is said of terms is plain. -/
theorem Terms.isPlain_of_mem_flaws (t : Terms) : ∀ flaw ∈ t.flaws, IsPlain flaw.message := by
  have hfield : ∀ (name : String) (x : Decimal), IsPlain name →
      ∀ flaw ∈ Flaw.ofNegative (.field name) x, IsPlain flaw.message :=
    fun _ _ hname => Flaw.isPlain_of_mem_ofNegative hname
  cases t with
  | base amount isDraw => exact hfield _ amount (by decide)
  | flatRate s perUnit => exact hfield _ perUnit (by decide)
  | unitTiers s tiers retroactive => exact Tier.isPlain_of_mem_flaws .unit tiers
  | grossShare front back frontCap backCap =>
    exact List.forall_mem_append.2 ⟨hfield _ front (by decide), hfield _ back (by decide)⟩
  | grossTiers s tiers retroactive basis => exact Tier.isPlain_of_mem_flaws .gross tiers
  | volumeBonus s thresholds =>
    intro flaw hflaw
    obtain ⟨⟨t, i⟩, -, hflaw⟩ := List.mem_flatMap.1 hflaw
    exact t.isPlain_of_mem_flaws i flaw hflaw
  | addOn s accessory spiff tradeSpiff =>
    exact List.forall_mem_append.2
      ⟨List.forall_mem_append.2 ⟨hfield _ accessory (by decide), hfield _ spiff (by decide)⟩,
        hfield _ tradeSpiff (by decide)⟩
  | guarantee perUnit => exact hfield _ perUnit (by decide)

/-- Numbers between brackets are plain. -/
theorem isPlain_bracketed (ns : List Nat) : IsPlain (bracketed ns) := by
  refine Text.isPlain_enclosed (by decide) (by decide) (by decide) ?_
  exact List.forall_mem_map.2 fun n _ => Text.isPlain_toString n

/-- What is said of a plan that is refused is plain. -/
theorem Plan.IsRefusal.isPlain_detail {strict : Bool} {rules : List Rule} {e : PlanError}
    (h : IsRefusal strict rules e) : IsPlain e.detail := by
  cases h with
  | flawed _ _ hfirst =>
    exact Terms.isPlain_of_mem_flaws _ _ (List.mem_of_mem_head? hfirst)
  | severalBases =>
    exact (((IsPlain.append (by decide) (Text.isPlain_toString _)).append (by decide)).append
      (isPlain_bracketed _)).append (by decide)

end DealerPay
