import DealerPay.Proofs.Acceptance
import DealerPay.Proofs.Json.Apart
import DealerPay.Proofs.RoundTrip
import DealerPay.Proofs.Service.BadAmounts
import DealerPay.Proofs.Writing

/-!
# Sharing plans

A plan that is handed on as JSON arrives as it was, and so do deals and breakdowns.

* `Json.Carries` says that what comes back of a value has a property, by way of its text as well.
* `Rule.readAll_dumped` is the round trip of the rules of a plan,
  `Service.CheckRequest.ofValue_dumped` that of a check of them.
* `Service.Body.value_render` brings a document through the body of a call.
* `Service.exists_of_status_validate` says what a check has found that is answered with a plan, and
  `Service.answer_of_validated` that this plan gets the same answer again.
* `Service.dumps_come_back` has all of it together.

Data that was JSON comes back in every way. Data that came some other way has to be spellable:
there is no numeral for a number out of reach. A text comes back as data whatever is in it; as JSON
it does unless the halves of a character stand next to each other in it, since they are read as that
character. What can be sent has no halves in it at all.
-/

namespace DealerPay

open Json (dumped isDocument)

/-! ## Values on their way -/

/-- Whether what comes back of a value has a property. By its text it comes back as well, at all
depths that five levels can be followed to, exactly if the texts in it do. -/
structure Json.Carries (v : Value) (P : Value → Prop) : Prop where
  /-- What comes back has the property. -/
  holds : P (dumped v)
  /-- The text of the value is read as what comes back of it. -/
  parse : ∀ depth, 5 ≤ depth →
    (parse depth (render v) = .ok (dumped v) ↔ v.allTexts Text.comesBack = true)

/-- A document of five levels carries what holds of what comes back of it. -/
theorem Json.carries_of_isDocument {v : Value} {P : Value → Prop}
    (h : ∀ depth, isDocument (depth + 5) v = true) (hP : P (dumped v)) : Carries v P where
  holds := hP
  parse depth hdepth := by
    obtain ⟨k, rfl⟩ := Nat.exists_eq_add_of_le' hdepth
    exact parse_render_iff (h k)

/-! ## Plans -/

/-- The rules of a plan are a document of four levels. -/
theorem Rule.isDocument_list (depth : Nat) (rules : List Rule) :
    isDocument (depth + 4) (.list (rules.map toValue)) = true := by
  rw [Json.isDocument_list_iff, List.forall_mem_map]
  exact fun r _ => r.isDocument_toValue depth

/-- The rules of a plan that were written down are read as those rules. -/
theorem Rule.readAll_dumped {rules : List Rule}
    (h : ∀ r ∈ rules, ∀ x ∈ r.terms.figures, x.ReadsBack) :
    readAll (dumped (.list (rules.map toValue))) = .ok rules := by
  show readList (Json.dumpedItems (rules.map toValue)) = _
  rw [Json.dumpedItems_eq_map, List.map_map]
  exact readList_dumped h

/-- What is handed on to share a plan is a document of five levels. -/
theorem Plan.isDocument_toValue (depth : Nat) (p : Plan) :
    isDocument (depth + 5) p.toValue = true := by
  have hrules := Rule.isDocument_list depth p.rules
  simp [toValue, toValues] at hrules ⊢
  exact hrules

namespace Service

/-! ## Bodies -/

/-- A document whose texts come back is found in the body that holds its text. -/
theorem Body.value_render {v : Value} (h : Json.ComesBack deepestBody v) :
    (text (Json.render v)).value = .ok (dumped v) := by
  have hplain := Json.isPlain_render h.isDocument
  have hempty : (Json.render v).isEmpty = false := by
    obtain ⟨c, rest, hcons, -⟩ := Json.exists_render_eq_cons h.isDocument
    rw [Bool.eq_false_iff, Ne, String.isEmpty_iff]
    intro hnil
    rw [hnil] at hcons
    cases hcons
  have hparse : Json.parsePoints deepestBody (Text.points (Json.render v)) = .ok (dumped v) := by
    rw [hplain.points_eq]
    exact Json.parsePoints_render h
  simp only [value, hempty, Bool.false_eq_true, if_false, parse, Text.reread?_of_isPlain hplain,
    Option.map_some, hparse]

/-- What a text spells is spellable, so that only data has to be asked. -/
theorem Body.isSpellable_of_value {b : Body} {v : Value}
    (hdata : ∀ v, b = .data v → v.isSpellable = true) (h : b.value = .ok v) :
    v.isSpellable = true := by
  cases b with
  | absent => cases h
  | data w =>
    cases h
    exact hdata _ rfl
  | text s =>
    simp only [value] at h
    split at h
    · cases h
    · unfold parse at h
      split at h
      · next w hparse =>
        cases h
        obtain ⟨ps, -, hps⟩ := Option.map_eq_some_iff.1 hparse
        exact Json.isSpellable_of_parsePoints hps
      · cases h
      · cases h

/-- Faults are not answered with success. -/
theorem Response.status_faulty (faults : List Fault) : (faulty faults).status ≠ 200 := by
  unfold faulty
  split
  · exact (by decide : (422 : Nat) ≠ 200)
  · exact (by decide : (500 : Nat) ≠ 200)

/-- What is no answer of success is not sent as one. -/
theorem Response.status_sent {r : Response} (h : r.status ≠ 200) : (sent r).status ≠ 200 := by
  unfold sent
  split
  · exact h
  · exact (by decide : (500 : Nat) ≠ 200)

/-- Nor is a refusal. -/
theorem Response.status_rejected (e : PlanError) : (rejected e).status ≠ 200 :=
  status_sent (by decide : (422 : Nat) ≠ 200)

/-- What can be sent is sent. -/
theorem Response.ok_of_isWritable {v : Value} (h : Json.isWritable v = true) : ok v = ⟨200, v⟩ :=
  if_pos h

/-- What cannot be sent ends in an answer that says no more than that. -/
theorem Response.ok_of_not_isWritable {v : Value} (h : Json.isWritable v = false) :
    ok v = internal :=
  if_neg (by rw [h]; exact Bool.false_ne_true)

/-- An answer to what could be done is one of success exactly if it can be sent. -/
theorem Response.status_ok_iff {v : Value} : (ok v).status = 200 ↔ Json.isWritable v = true := by
  cases hv : Json.isWritable v with
  | true => exact iff_of_true (congrArg status (ok_of_isWritable hv)) rfl
  | false =>
    rw [ok_of_not_isWritable hv]
    exact iff_of_false (by decide : (500 : Nat) ≠ 200) Bool.false_ne_true

/-- Nor is a body without data. -/
theorem Body.status_of_value_eq_error {b : Body} {r : Response} (h : b.value = .error r) :
    r.status ≠ 200 := by
  cases b with
  | absent =>
    cases h
    exact Response.status_faulty _
  | data w => cases h
  | text s =>
    simp only [value] at h
    split at h
    · cases h
      exact Response.status_faulty _
    · unfold parse at h
      split at h
      · cases h
      · cases h
        exact Response.status_faulty _
      · cases h
        exact (by decide : (400 : Nat) ≠ 200)

/-- Where a body is read, the answer goes on with it. -/
theorem withBody_eq {α : Type} {b : Body} {v : Value} {read : Value → Reading α} {a : α}
    (hb : b.value = .ok v) (hread : read v = .accepted a) (next : α → Journal.Noted Response) :
    withBody b read next = next a := by
  have hwithin : (read v).within bodyStep = .accepted a := Reading.within_eq_accepted_iff.2 hread
  simp only [withBody, hb, hwithin]

/-- An answer with success has gone on with what was read. -/
theorem exists_of_status_withBody {α : Type} {b : Body} {read : Value → Reading α}
    {next : α → Journal.Noted Response} (h : (withBody b read next).result.status = 200) :
    ∃ v a, b.value = .ok v ∧ read v = .accepted a := by
  unfold withBody at h
  split at h
  · next hb => exact absurd h (Body.status_of_value_eq_error hb)
  · next v hb =>
    split at h
    · next a hread => exact ⟨v, a, hb, Reading.within_eq_accepted_iff.1 hread⟩
    · exact absurd h (Response.status_faulty _)
    · exact absurd h (by decide)

/-! ## Checks -/

namespace CheckRequest

/-- The figures of rules that are read of a spellable value to be checked are amounts that can be
spelled. -/
theorem readsBack_of_ofValue {source : Source} {v : Value} {r : CheckRequest}
    (hv : v.isSpellable = true) (h : ofValue source v = .accepted r) :
    ∀ rule ∈ r.rules, ∀ x ∈ rule.terms.figures, x.ReadsBack := by
  obtain ⟨fs, rfl, hfs⟩ := Value.readRecord_eq_accepted h
  obtain ⟨rules, hrules, rfl⟩ := Reading.map_eq_accepted_iff.1 hfs
  have hensures : (readRules source fs).Ensures
      fun rules => ∀ rule ∈ rules, ∀ x ∈ rule.terms.figures, x.ReadsBack := by
    refine Fields.ensures_optional (List.forall_mem_nil _) fun w hw => Value.ensures_readItems ?_
    rintro items rfl x hx rule hrule
    exact Rule.readsBack_of_ofValue
      (Value.isSpellable_of_mem (Value.isSpellable_of_get? hv hw) hx) hrule
  exact hensures rules hrules

/-- A check that was written down is read as that check. -/
theorem ofValue_dumped (source : Source) {r : CheckRequest}
    (h : ∀ rule ∈ r.rules, ∀ x ∈ rule.terms.figures, x.ReadsBack) :
    ofValue source (dumped r.toValue) = .accepted r := by
  let fs : Fields := [("rules", rulesToValue r.rules)]
  have hrules : readRules source (Json.dumpedFields fs) = .accepted r.rules :=
    Fields.optional_dumped fs "rules" _ rfl
      (Value.readItems_dumped fun rule hrule => Rule.ofValue_dumped source (h rule hrule))
  show CheckRequest.mk <$> readRules source (Json.dumpedFields fs) = _
  rw [hrules]
  rfl

/-- A check is a document of five levels. -/
theorem isDocument_toValue (depth : Nat) (r : CheckRequest) :
    isDocument (depth + 5) r.toValue = true := by
  have hrules := Rule.isDocument_list depth r.rules
  simp [toValue, rulesToValue] at hrules ⊢
  exact hrules

end CheckRequest

/-- The texts of a check are the labels of its rules, and names and words. -/
theorem CheckRequest.allTexts_toValue {p : String → Bool}
    (hp : ∀ s, Text.IsPlain s → p s = true) (r : CheckRequest) :
    r.toValue.allTexts p = r.rules.all fun rule => p rule.label := by
  simp (disch := decide) [toValue, rulesToValue, hp, Rule.allTexts_toValue hp, Function.comp_def]

/-- The answer to a check. -/
theorem answer_validate_eq (s : Settings) (b : Body) :
    answer s ⟨"POST", "/api/payplan/validate", b⟩ =
      withBody b (CheckRequest.ofValue .request) (Answer.validate s "/api/payplan/validate") :=
  answer_of_mem_fixed (e := .validate) (by decide) s b

/-- What is answered to a check of a plan that is accepted. -/
def validated (p : Plan) : Value :=
  .object
    [("ok", .bool true),
     ("warnings", .list (p.warnings.map .text)),
     ("plan", .list p.toValues)]

/-- What is answered to a check is a document of five levels. -/
theorem isDocument_validated (depth : Nat) (p : Plan) :
    isDocument (depth + 5) (validated p) = true := by
  have hrules := Rule.isDocument_list depth p.rules
  simp [validated, Plan.toValues] at hrules ⊢
  exact hrules

/-- The texts of such an answer are the labels of the rules, plain notes, and names and words. -/
theorem allTexts_validated {q : String → Bool} (hq : ∀ s, Text.IsPlain s → q s = true) (p : Plan) :
    (validated p).allTexts q = p.rules.all fun r => q r.label := by
  rw [← p.allTexts_toValue hq]
  simp (disch := decide) [validated, Plan.toValue, hq, Bool.and_comm]

/-- A check of a plan can be answered if its labels can be sent. -/
theorem isWritable_validated (p : Plan) :
    Json.isWritable (validated p) = p.rules.all fun r => Text.isWhole r.label := by
  rw [Json.isWritable_eq_allTexts (isDocument_validated 0 p)]
  exact allTexts_validated (fun _ => Text.IsPlain.isWhole) p

/-- A check that is answered with success has read rules that are those of a plan, and the plan is
in the answer. -/
theorem exists_of_status_validate {s : Settings} {b : Body}
    (h : (answer s ⟨"POST", "/api/payplan/validate", b⟩).result.status = 200) :
    ∃ v r p, b.value = .ok v ∧ CheckRequest.ofValue .request v = .accepted r ∧ p.rules = r.rules ∧
      (answer s ⟨"POST", "/api/payplan/validate", b⟩).result.body = validated p ∧
      Json.isWritable (validated p) = true := by
  rw [answer_validate_eq] at h ⊢
  obtain ⟨v, r, hb, hread⟩ := exists_of_status_withBody h
  rw [withBody_eq hb hread] at h ⊢
  cases hp : Plan.ofRules s.strict r.rules with
  | ok p =>
    have hanswer : (Answer.validate s "/api/payplan/validate" r).result = .ok (validated p) := by
      simp only [Answer.validate, withPlan, Plan.start, hp, Journal.Noted.result_bind]
      rfl
    rw [hanswer] at h ⊢
    have hsent := Response.status_ok_iff.1 h
    rw [Response.ok_of_isWritable hsent]
    exact ⟨v, r, p, hb, hread, (Plan.ofRules_eq_ok_iff.1 hp).1, rfl, hsent⟩
  | error e =>
    have hanswer : (Answer.validate s "/api/payplan/validate" r).result = .rejected e := by
      simp only [Answer.validate, withPlan, Plan.start, hp, Journal.Noted.result_bind]
      rfl
    rw [hanswer] at h
    exact absurd h (Response.status_rejected e)

/-- A check of the plan in such an answer gets that answer again. -/
theorem answer_of_validated {s : Settings} {b again : Body} {v : Value} {r : CheckRequest}
    (hb : b.value = .ok v) (hread : CheckRequest.ofValue .request v = .accepted r)
    (hfigures : ∀ rule ∈ r.rules, ∀ x ∈ rule.terms.figures, x.ReadsBack)
    (hagain : again.value = .ok (dumped r.toValue)) :
    answer s ⟨"POST", "/api/payplan/validate", again⟩ =
      answer s ⟨"POST", "/api/payplan/validate", b⟩ := by
  rw [answer_validate_eq, answer_validate_eq, withBody_eq hb hread,
    withBody_eq hagain (CheckRequest.ofValue_dumped .request hfigures)]

/-- Rules, deals and breakdowns are read again from what is written down of them, as they were: the
rules of a plan that is shared, every deal, and every breakdown whose numbers can be spelled, such
as those that are read of data or paid by a plan. By their JSON they come back exactly if their
texts do, which are the labels of rules and the numbers and names of deals; those of data that was
JSON do, those of what a plan pays, and those of all that can be sent. So the plan that is answered
to a check is a fixed point: a check of it gets the same answer. -/
theorem dumps_come_back :
    (∀ (v : Value) (rules : List Rule), v.isSpellable = true → Rule.readAll v = .ok rules →
      (Json.Carries (.list (rules.map Rule.toValue)) fun w => Rule.readAll w = .ok rules) ∧
      (v.allTexts Text.comesBack = true →
        (Value.list (rules.map Rule.toValue)).allTexts Text.comesBack = true) ∧
      ∀ (strict : Bool) (p : Plan), Plan.ofRules strict rules = .ok p →
        (Json.Carries p.toValue fun w => ∃ fs shared, w = .object fs ∧
          Fields.get? fs "rules" = some shared ∧ Rule.readAll shared = .ok rules) ∧
        p.toValue.allTexts Text.comesBack =
          (Value.list (rules.map Rule.toValue)).allTexts Text.comesBack) ∧
    (∀ (source : Source) (v : Value) (d : Deal), v.isSpellable = true →
      Deal.ofValue source v = .accepted d →
        (∀ other : Source, Json.Carries d.toValue fun w => Deal.ofValue other w = .accepted d) ∧
        (v.allTexts Text.comesBack = true → d.toValue.allTexts Text.comesBack = true)) ∧
    (∀ b : Breakdown, (∀ x ∈ b.figures, x.spellable = true) → ∀ source : Source,
      Json.Carries b.toValue fun w => Breakdown.ofValue source w = .accepted b) ∧
    (∀ (source : Source) (v : Value) (b : Breakdown), v.isSpellable = true →
      Breakdown.ofValue source v = .accepted b → (∀ x ∈ b.figures, x.spellable = true) ∧
        (v.allTexts Text.comesBack = true → b.toValue.allTexts Text.comesBack = true)) ∧
    (∀ (p : Plan) (deals : List Deal) (b : Breakdown), p.evaluate deals = .ok b →
      (∀ x ∈ b.figures, x.spellable = true) ∧ b.toValue.allTexts Text.comesBack = true) ∧
    (∀ (depth : Nat) (s : String) (v : Value), Json.parse depth s = .ok v →
      v.isSpellable = true ∧ v.allTexts Text.comesBack = true) ∧
    (∀ rules : List Rule, (Value.list (rules.map Rule.toValue)).allTexts Text.comesBack =
      rules.all fun r => Text.comesBack r.label) ∧
    (∀ d : Deal, d.toValue.allTexts Text.comesBack =
      (Text.comesBack d.stockNumber && Text.comesBack d.customer)) ∧
    (∀ v : Value, Json.isWritable v = true → v.allTexts Text.comesBack = true) ∧
    ∀ (s : Settings) (b : Body), (∀ v, b = .data v → v.isSpellable = true) →
      (answer s ⟨"POST", "/api/payplan/validate", b⟩).result.status = 200 →
      ∃ plan,
        (Json.Carries (answer s ⟨"POST", "/api/payplan/validate", b⟩).result.body fun w =>
          ∃ fs, w = .object fs ∧ Fields.get? fs "plan" = some plan) ∧
        Json.isWritable (answer s ⟨"POST", "/api/payplan/validate", b⟩).result.body = true ∧
        (Body.text (Json.render (.object [("rules", plan)]))).value =
          .ok (.object [("rules", plan)]) ∧
        ∀ again : Body, again.value = .ok (.object [("rules", plan)]) →
          answer s ⟨"POST", "/api/payplan/validate", again⟩ =
            answer s ⟨"POST", "/api/payplan/validate", b⟩ := by
  have hplain : ∀ s, Text.IsPlain s → Text.comesBack s = true := fun _ => Text.comesBack_of_isPlain
  refine ⟨?_, ?_, ?_, ?_, ?_,
    fun _ _ _ h => ⟨Json.isSpellable_of_parse h, Json.comesBack_of_parse h⟩,
    Rule.allTexts_list hplain, Deal.allTexts_toValue hplain, Json.comesBack_of_isWritable, ?_⟩
  · intro v rules hv hread
    have hback := Rule.readAll_dumped (Rule.readsBack_of_readAll hv hread)
    refine ⟨Json.carries_of_isDocument (fun depth => Rule.isDocument_list (depth + 1) rules) hback,
      fun htexts => Rule.allTexts_of_readAll hplain htexts hread, fun strict p hp => ?_⟩
    obtain ⟨rfl, -⟩ := Plan.ofRules_eq_ok_iff.1 hp
    exact ⟨Json.carries_of_isDocument p.isDocument_toValue ⟨_, _, rfl, rfl, hback⟩,
      (p.allTexts_toValue hplain).trans (Rule.allTexts_list hplain p.rules).symm⟩
  · intro source v d hv hread
    refine ⟨fun other => ?_, fun htexts => Deal.allTexts_of_ofValue hplain htexts hread⟩
    exact Json.carries_of_isDocument (fun depth => d.isDocument_toValue (depth + 4))
      (Deal.ofValue_dumped other (Deal.readsBack_of_ofValue hv hread)
        (Deal.isRead_of_ofValue hread).isShare)
  · intro b hb source
    exact Json.carries_of_isDocument (fun depth => b.isDocument_toValue (depth + 2))
      (Breakdown.ofValue_dumped source hb)
  · intro source v b hv hread
    exact ⟨Breakdown.spellable_of_ofValue hv hread,
      fun htexts => Breakdown.allTexts_of_ofValue hplain htexts hread⟩
  · intro p deals b hb
    exact ⟨Breakdown.spellable_of_evaluate hb,
      (Breakdown.hasPlainTexts_of_evaluate hb).allTexts_toValue hplain⟩
  · intro s b hdata hstatus
    obtain ⟨v, r, p, hb, hread, hrules, hbody, hsent⟩ := exists_of_status_validate hstatus
    have hfigures := CheckRequest.readsBack_of_ofValue (Body.isSpellable_of_value hdata hb) hread
    have hlabels : r.toValue.allTexts Text.comesBack = true := by
      rw [CheckRequest.allTexts_toValue hplain, ← hrules, ← allTexts_validated hplain]
      exact Json.comesBack_of_isWritable _ hsent
    -- what is posted again is what comes back of a check of the rules
    have hposted : Value.object [("rules", dumped (.list p.toValues))] = dumped r.toValue := by
      rw [Plan.toValues, hrules]
      rfl
    refine ⟨dumped (.list p.toValues), ?_, ?_, ?_, ?_⟩
    · rw [hbody]
      exact Json.carries_of_isDocument (fun depth => isDocument_validated depth p) ⟨_, rfl, rfl⟩
    · rw [hbody]
      exact hsent
    · rw [hposted, Json.render_dumped]
      exact Body.value_render ⟨r.isDocument_toValue 955, hlabels⟩
    · intro again hagain
      exact answer_of_validated hb hread hfigures (hposted ▸ hagain)

/-- Rules with numbers in scientific form, zeros with a sign or with places, and parts that are
absent. -/
def writtenRules : Value :=
  .list
    [.object
      [("kind", .text "percent_of_gross"), ("label", .text "Share \"A\""),
       ("front_percent", .text "2.5E+1"), ("back_percent", .number (.finite ⟨true, 0, -2⟩)),
       ("front_cap", .null), ("back_cap", .text " 1e3 ")],
     .object
      [("kind", .text "tiered_unit"), ("scope", .text "New"),
       ("tiers", .list
        [.object [("from", .int 1), ("to", .text "8.0"), ("amount", .text "0E-9")],
         .object [("from_", .int 9), ("amount", .text "1.20E+2")]])]]

/-- The rules that these are. -/
def sharedRules : List Rule :=
  [⟨"Share \"A\"", .grossShare ⟨false, 25, 0⟩ ⟨true, 0, -2⟩ none (some ⟨false, 1, 3⟩)⟩,
   ⟨"", .unitTiers (.only .new)
    [⟨⟨false, 1, 0⟩, some ⟨false, 80, -1⟩, ⟨false, 0, -9⟩⟩,
     ⟨⟨false, 9, 0⟩, none, ⟨false, 120, 0⟩⟩] false⟩]

/-- A deal of half a vehicle on a leap day. -/
def writtenDeal : Value :=
  .object
    [("sold_date", .text "2024-02-29"), ("count", .text "0.50"), ("front_gross", .text "-1.5E+3"),
     ("customer", .text "Zoë")]

/-- The deal that this is. -/
def sharedDeal : Deal where
  soldOn := some ⟨2024, 2, 29, by decide⟩
  condition := .new
  count := ⟨false, 50, -2⟩
  frontGross := ⟨true, 15, 2⟩
  backGross := .zero
  accessory := .zero
  spiffs := .zero
  tradeSpiff := .zero
  status := .delivered
  stockNumber := ""
  customer := "Zoë"

/-- These rules, this deal and an empty breakdown come back, the deal from its text as well, and the
check of the rules gets its answer again from the text of the plan in it. -/
theorem dumps_come_back_written :
    Rule.readAll writtenRules = .ok sharedRules ∧
    Rule.readAll (dumped (.list (sharedRules.map Rule.toValue))) = .ok sharedRules ∧
    Deal.ofValue .direct writtenDeal = .accepted sharedDeal ∧
    Deal.ofValue .request (dumped sharedDeal.toValue) = .accepted sharedDeal ∧
    Json.parse 5 (Json.render sharedDeal.toValue) = .ok (dumped sharedDeal.toValue) ∧
    Plan.empty.evaluate [] = .ok Breakdown.empty ∧
    Breakdown.ofValue .direct (dumped Breakdown.empty.toValue) = .accepted Breakdown.empty ∧
    ∃ plan, answer .standard ⟨"POST", "/api/payplan/validate",
        .text (Json.render (.object [("rules", plan)]))⟩ =
      answer .standard ⟨"POST", "/api/payplan/validate",
        .data (.object [("rules", writtenRules)])⟩ := by
  obtain ⟨hrules, hdeals, hbreakdowns, -, hpaid, -, -, -, -, hchecks⟩ := dumps_come_back
  have hread : Rule.readAll writtenRules = .ok sharedRules :=
    eq_ok_of_toOption (by decide +kernel)
  have hdeal : Deal.ofValue .direct writtenDeal = .accepted sharedDeal :=
    Reading.result?_eq_some_iff.1 (by decide +kernel)
  have hpay : Plan.empty.evaluate [] = .ok Breakdown.empty :=
    eq_ok_of_toOption (by decide +kernel)
  have hspellable : (Value.object [("rules", writtenRules)]).isSpellable = true := by
    decide +kernel
  have hcarries := (hdeals .direct writtenDeal sharedDeal (by decide +kernel) hdeal).1 .request
  refine ⟨hread, ?_, hdeal, hcarries.holds, ?_, hpay, ?_, ?_⟩
  · exact (hrules writtenRules sharedRules (by decide +kernel) hread).1.holds
  · exact (hcarries.parse 5 le_rfl).2 (by decide +kernel)
  · exact (hbreakdowns Breakdown.empty (hpaid _ _ _ hpay).1 .direct).holds
  · obtain ⟨plan, -, -, htext, hagain⟩ := hchecks .standard
      (.data (.object [("rules", writtenRules)])) (by rintro v ⟨⟩; exact hspellable)
      (by decide +kernel)
    exact ⟨plan, hagain _ htext⟩

end Service

end DealerPay
