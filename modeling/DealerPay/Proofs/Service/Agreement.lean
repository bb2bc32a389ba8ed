import DealerPay.Proofs.Completion.Projection
import DealerPay.Proofs.Refusal
import DealerPay.Proofs.Rollup
import DealerPay.Proofs.Service.Sharing

/-!
# Endpoints agree on plans

Whether a plan is accepted does not depend on what is asked of it. A calculation, a preview, a
projection and a check of the same rules get the same refusal, or all of them accept the plan; a
rollup of one consultant does as they do.

An endpoint that accepts a plan can still fail to say so. A check repeats the labels of the rules,
and cannot be answered where one of them has half of a character in it; the others can. Neither can
a rollup where the name of the consultant has one.

* `Endpoint.AsksAbout` says that a body carries a value as its rules and is otherwise in order, and
  `RollupRequest.AsksAbout` that a rollup does.
* `withBody_eq_of_map`: the rules are read in the same way wherever they stand, so the answer is
  that to the rules alone.
* `Endpoint.StartsPlan` is what the four endpoints have in common: the rules are read, the plan is
  started, and what is asked of it has a result, so that nothing fails after that but the sending.
* `endpoints_agree` goes through what can become of the rules, `endpoints_disagree_on_tornLabel` has
  a plan that all endpoints accept and one of them cannot answer.

That a calculation has a result is known for fewer than a billion rules, tiers and thresholds and as
many deals (`Endpoint.IsModest`): the cents of what very many more of them pay could need more than
fifty digits.
-/

namespace DealerPay.Service

open Journal (Noted)

/-! ## Rules in bodies -/

/-- The rules that a value spells, as the field of a request. -/
def readRulesField (v : Value) : Reading (List Rule) :=
  (Value.readItems .notList (Rule.ofValue .request) v).within (.field "rules")

/-- The rules of a request are read of their field. -/
theorem readRules_eq {fs : Fields} {v : Value} (h : fs.get? "rules" = some v) :
    readRules .request fs = readRulesField v := by
  unfold readRules Fields.optional
  rw [h]
  rfl

/-- Rules that were read of a field are rules that were read. -/
theorem isRead_of_readRulesField {v : Value} {rules : List Rule}
    (h : readRulesField v = .accepted rules) : ∀ r ∈ rules, r.IsRead :=
  Value.ensures_readItems (P := Rule.IsRead) (fun _ _ _ _ _ => Rule.isRead_of_ofValue) rules
    (Reading.within_eq_accepted_iff.1 h)

/-- Where what is read of a body is what is read of a part of it, changed in some way, the answer is
that to the part. -/
theorem withBody_eq_of_map {α β : Type} {b : Body} {v w : Value} {read : Value → Reading α}
    {readPart : Value → Reading β} {f : β → α} (hb : b.value = .ok v)
    (hread : read v = f <$> readPart w) (next : α → Noted Response) :
    withBody b read next = withBody (.data w) readPart fun part => next (f part) := by
  have hdata : (Body.data w).value = .ok w := rfl
  simp only [withBody, hb, hdata, hread, Reading.within_map]
  cases (readPart w).within bodyStep <;> rfl

/-! ## Bodies in order -/

/-- The deals among the fields of a request. -/
def readDeals (fs : Fields) : Reading (List Deal) :=
  fs.optional "transactions" [] (Value.readItems .notList (Deal.ofValue .request))

namespace Endpoint

/-- The endpoints that are asked about one plan. -/
def onePlan : List Endpoint := [calculate, preview, project, validate]

/-- A call to an endpoint. -/
def call (e : Endpoint) (b : Body) : Call := ⟨e.method.text, e.path, b⟩

/-- Whether everything but the rules is in order among the fields of a body. -/
def Suits (fs : Fields) : Endpoint → Prop
  | calculate => ∃ deals, readDeals fs = .accepted deals
  | preview => ∃ d, fs.required "transaction" (Deal.ofValue .request) = .accepted d
  | project => ∃ x average, ProjectionRequest.readProjection fs = .accepted x ∧
      ProjectionRequest.readAmount fs "avg_commission" = .accepted average ∧
      x.units.value < 10 ^ 5
  | validate => True
  | _ => False

/-- Whether a body has these fields, among them a value as its rules, and is otherwise in order for
an endpoint. -/
structure AsksAbout (rules : Value) (b : Body) (fs : Fields) (e : Endpoint) : Prop where
  /-- The fields are those of the body. -/
  value : b.value = .ok (.object fs)
  /-- The value stands among them as the rules. -/
  rules : fs.get? "rules" = some rules
  /-- Everything else is in order. -/
  suits : e.Suits fs

/-- Whether an endpoint has to do with fewer than a billion rules, tiers, thresholds and deals. A
check computes nothing. -/
def IsModest (rules : List Rule) (fs : Fields) : Endpoint → Prop
  | validate => True
  | calculate => (rules.map fun r => 1 + r.terms.parts).sum < 10 ^ 9 ∧
      ∀ deals, readDeals fs = .accepted deals → deals.length < 10 ^ 9
  | _ => (rules.map fun r => 1 + r.terms.parts).sum < 10 ^ 9

/-- Whether the answer about rules that are a plan can be sent: a check repeats their labels. -/
def canTell (rules : List Rule) : Endpoint → Bool
  | validate => rules.all fun r => Text.isWhole r.label
  | _ => true

end Endpoint

/-- Whether the body of a rollup has a single consultant, of this name and with these fields, among
them a value as the rules, and is otherwise in order. -/
structure RollupRequest.AsksAbout (name : String) (rules : Value) (b : Body) (own : Fields) :
    Prop where
  /-- The consultant is the only one. -/
  value : ∃ fs : Fields, b.value = .ok (.object fs) ∧
    fs.get? "consultants" = some (.object [(name, .object own)])
  /-- The value stands among the fields of the consultant as the rules. -/
  rules : own.get? "rules" = some rules
  /-- Everything else is in order. -/
  suits : Endpoint.calculate.Suits own

/-! ## What is read -/

section Reading

variable {fs : Fields} {rules : Value}

/-- An assignment whose deals are in order is read as its rules are. -/
theorem Assignment.exists_ofValue_eq (name : String) (hrules : fs.get? "rules" = some rules)
    (h : Endpoint.calculate.Suits fs) :
    ∃ deals : List Deal, readDeals fs = .accepted deals ∧ (∀ d ∈ deals, d.IsRead) ∧
      ofValue .request name (.object fs) =
        (fun rules => ⟨rules, deals⟩) <$> readRulesField rules := by
  obtain ⟨deals, hdeals⟩ := h
  have hread : (readDeals fs).Ensures fun ds => ∀ d ∈ ds, d.IsRead :=
    Fields.ensures_optional (List.forall_mem_nil _) fun _ _ =>
      Value.ensures_readItems fun _ _ _ _ _ => Deal.isRead_of_ofValue
  refine ⟨deals, hdeals, hread deals hdeals, ?_⟩
  show Assignment.mk <$> readRules .request fs <*> readDeals fs = _
  rw [readRules_eq hrules, hdeals, Reading.map_seq_accepted]

/-- A preview whose deal is in order is read as its rules are. -/
theorem PreviewRequest.exists_ofValue_eq (hrules : fs.get? "rules" = some rules)
    (h : Endpoint.preview.Suits fs) :
    ∃ d : Deal, d.IsRead ∧
      ofValue .request (.object fs) = (fun rules => ⟨rules, d⟩) <$> readRulesField rules := by
  obtain ⟨d, hd⟩ := h
  have hread : d.IsRead := by
    unfold Fields.required at hd
    split at hd
    · exact Deal.isRead_of_ofValue (Reading.within_eq_accepted_iff.1 hd)
    · cases hd
  refine ⟨d, hread, ?_⟩
  show PreviewRequest.mk <$> readRules .request fs <*> _ = _
  rw [readRules_eq hrules, hd, Reading.map_seq_accepted]

/-- A projection whose figures are in order is read as its rules are. -/
theorem ProjectionRequest.exists_ofValue_eq (hrules : fs.get? "rules" = some rules)
    (h : Endpoint.project.Suits fs) :
    ∃ (x : Projection) (average : Decimal),
      x.units.IsAmount ∧ x.front.IsAmount ∧ x.back.IsAmount ∧ average.IsAmount ∧
      x.units.value < 10 ^ 5 ∧
      ofValue .request (.object fs) =
        (fun rules => ⟨rules, x, average⟩) <$> readRulesField rules := by
  obtain ⟨x, average, hx, haverage, hunits⟩ := h
  have amount : ∀ key : String, (readAmount fs key).Ensures Decimal.IsAmount :=
    Fields.ensures_amount Amount.keeps_isAmount trivial
  have hfields := hx
  simp only [readProjection, Reading.seq_eq_accepted_iff, Reading.map_eq_accepted_iff] at hfields
  obtain ⟨_, _, ⟨_, _, ⟨_, _, ⟨_, hu, rfl⟩, hf, rfl⟩, hb, rfl⟩, -, rfl⟩ := hfields
  refine ⟨_, average, amount _ _ hu, amount _ _ hf, amount _ _ hb, amount _ _ haverage, hunits, ?_⟩
  show ProjectionRequest.mk <$> readRules .request fs <*> _ <*> _ = _
  rw [readRules_eq hrules, hx, haverage, Reading.map_seq_accepted, Reading.map_seq_accepted]

/-- A rollup of one consultant is read as their rules are. -/
theorem RollupRequest.exists_ofValue_eq {own : Fields} {name : String}
    (hconsultants : fs.get? "consultants" = some (.object [(name, .object own)]))
    (hrules : own.get? "rules" = some rules) (h : Endpoint.calculate.Suits own) :
    ∃ deals : List Deal, readDeals own = .accepted deals ∧ (∀ d ∈ deals, d.IsRead) ∧
      ofValue .request (.object fs) =
        (fun rules => ⟨[⟨name, rules, deals⟩]⟩) <$>
          ((readRulesField rules).within (.field (Text.patched name))).within
            (.field "consultants") := by
  obtain ⟨deals, hdeals, hall, hread⟩ :=
    Assignment.exists_ofValue_eq Assignment.consultantName hrules h
  refine ⟨deals, hdeals, hall, ?_⟩
  have hone : readConsultants .request [(name, .object own)] =
      (fun rules => [⟨name, rules, deals⟩]) <$>
        (readRulesField rules).within (.field (Text.patched name)) := by
    rw [readConsultants, readConsultants, hread, Reading.within_map, Reading.map_map,
      Reading.map_seq_accepted]
  show RollupRequest.mk <$> fs.optional "consultants" [] (ofObject .request) = _
  unfold Fields.optional
  rw [hconsultants]
  show RollupRequest.mk <$> (readConsultants .request [(name, .object own)]).within _ = _
  rw [hone, Reading.within_map, Reading.map_map]

end Reading

/-! ## What is answered -/

section Answers

variable {s : Settings} {rules : Value} {rs : List Rule} {b : Body} {fs : Fields} {e : Endpoint}
  {c : Consultant}

/-- An answer to what could be done is one of success or is not sent. -/
theorem Response.status_ok_or (v : Value) : (ok v).status = 200 ∨ ok v = internal := by
  cases hv : Json.isWritable v with
  | true => exact .inl (status_ok_iff.2 hv)
  | false => exact .inr (ok_of_not_isWritable hv)

/-- So is an answer with a result, if there is one. -/
theorem status_ofResult_or {ε α : Type} (f : α → Value) (x : Except ε α) :
    (ofResult f x).status = 200 ∨ ofResult f x = .internal := by
  cases x with
  | ok a => exact Response.status_ok_or (f a)
  | error _ => exact .inr rfl

/-- A report on what a plan would pay can be sent. -/
theorem Answer.isWritable_of_projectionReport {r : ProjectionRequest} {b : Breakdown} {v : Value}
    (hb : b.HasPlainTexts) (h : projectionReport r b = .ok v) : Json.isWritable v = true := by
  simp only [projectionReport, bind_eq_ok, liftM_eq_ok, pure_eq_ok] at h
  obtain ⟨estimate, -, milestones, htexts, rfl⟩ := h
  have hmilestones : ∀ t ∈ milestones, Text.isWhole t = true :=
    fun t ht => (hb.isPlain_of_mem_milestones htexts t ht).isWhole
  simpa (disch := decide) [Text.IsPlain.isWhole, hb.isWritable_toValue, Value.ofDecimal]
    using hmilestones

/-- Whether a body is answered by reading the rules, starting the plan and going on with it, which
succeeds or ends in an internal error. As long as what there is to do is modest, it succeeds exactly
if the answer can be sent. -/
def Endpoint.StartsPlan (s : Settings) (rules : Value) (b : Body) (fs : Fields) (e : Endpoint) :
    Prop :=
  ∃ next : List Rule → Plan → Noted Response,
    e.answer s b = withBody (.data rules) readRulesField
      (fun rs => withPlan s e.path rs (next rs)) ∧
    ∀ rs p, ((next rs p).result.status = 200 ∨ (next rs p).result = .internal) ∧
      ((∀ r ∈ p.rules, r.IsRead) → e.IsModest p.rules fs →
        ((next rs p).result.status = 200 ↔ e.canTell p.rules = true))

/-- A calculation starts the plan and pays for the deals. -/
theorem startsPlan_calculate (h : Endpoint.calculate.AsksAbout rules b fs) :
    Endpoint.calculate.StartsPlan s rules b fs := by
  obtain ⟨deals, hdeals, hall, hread⟩ :=
    Assignment.exists_ofValue_eq Assignment.calculationName h.rules h.suits
  refine ⟨_, withBody_eq_of_map h.value hread (Answer.calculate s Endpoint.calculate.path),
    fun rs p => ⟨status_ofResult_or _ _, fun hr hmodest => iff_of_true ?_ rfl⟩⟩
  obtain ⟨paid, hpaid, -⟩ := Plan.evaluate_bounded (p := p) (.of_isRead hall (hmodest.2 _ hdeals))
    (fun r hrule => (hr r hrule).isAmount) hmodest.1
  show (ofResult Breakdown.toValue (p.run deals).result).status = 200
  rw [Plan.result_run, hpaid]
  exact Response.status_ok_iff.2 (Breakdown.hasPlainTexts_of_evaluate hpaid).isWritable_toValue

/-- A preview starts the plan and looks at the deal. -/
theorem startsPlan_preview (h : Endpoint.preview.AsksAbout rules b fs) :
    Endpoint.preview.StartsPlan s rules b fs := by
  obtain ⟨d, hd, hread⟩ := PreviewRequest.exists_ofValue_eq h.rules h.suits
  refine ⟨_, withBody_eq_of_map h.value hread (Answer.preview s Endpoint.preview.path),
    fun rs p => ⟨status_ofResult_or _ _, fun hr hmodest => iff_of_true ?_ rfl⟩⟩
  obtain ⟨pay, hpay, -⟩ := Plan.preview_bounded (p := p) hd.isAmount hd.isShare
    (fun r hrule => (hr r hrule).isAmount) (p.length_le_parts.trans_lt hmodest)
  show (ofResult _ (p.preview d)).status = 200
  rw [hpay]
  exact Response.status_ok_iff.2 (by simp (disch := decide) [Text.IsPlain.isWhole, Value.ofDecimal])

/-- A projection starts the plan and pays for the units. -/
theorem startsPlan_project (h : Endpoint.project.AsksAbout rules b fs) :
    Endpoint.project.StartsPlan s rules b fs := by
  obtain ⟨x, average, hunits, hfront, hback, haverage, hfew, hread⟩ :=
    ProjectionRequest.exists_ofValue_eq h.rules h.suits
  refine ⟨_, withBody_eq_of_map h.value hread (Answer.project s Endpoint.project.path),
    fun rs p => ⟨?_, fun hr hmodest => iff_of_true ?_ rfl⟩⟩
  · simp only [Journal.Noted.result_bind]
    cases (p.runProjection x).result with
    | ok b => exact status_ofResult_or _ _
    | error _ => exact .inr rfl
  · obtain ⟨paid, hpaid, texts, htexts, -⟩ := Plan.runProjection_bounded (p := p) hfew hfront hback
      (fun r hrule => (hr r hrule).isAmount) hmodest
    obtain ⟨estimate, hestimate, -⟩ := simpleEstimate_bounded hunits haverage
    obtain ⟨v, hreport⟩ : ∃ v, Answer.projectionReport ⟨rs, x, average⟩ paid = .ok v := by
      simp only [Answer.projectionReport]
      rw [hestimate, htexts]
      exact ⟨_, rfl⟩
    simp only [Journal.Noted.result_bind, hpaid]
    show (ofResult id (Answer.projectionReport ⟨rs, x, average⟩ paid)).status = 200
    rw [hreport]
    exact Response.status_ok_iff.2 (Answer.isWritable_of_projectionReport
      (Breakdown.hasPlainTexts_of_project hpaid) hreport)

/-- A check starts the plan and repeats the rules. -/
theorem startsPlan_validate (h : Endpoint.validate.AsksAbout rules b fs) :
    Endpoint.validate.StartsPlan s rules b fs := by
  have hread : CheckRequest.ofValue .request (.object fs) =
      (fun rs => ⟨rs⟩) <$> readRulesField rules := by
    rw [← readRules_eq h.rules]
    rfl
  refine ⟨_, withBody_eq_of_map h.value hread (Answer.validate s Endpoint.validate.path),
    fun rs p => ⟨Response.status_ok_or _, fun _ _ => ?_⟩⟩
  show (Response.ok (validated p)).status = 200 ↔ _
  rw [Response.status_ok_iff, isWritable_validated]
  rfl

/-- The endpoints that are asked about one plan all go the same way. -/
theorem startsPlan_of_mem_onePlan (he : e ∈ Endpoint.onePlan) (h : e.AsksAbout rules b fs) :
    e.StartsPlan s rules b fs := by
  simp only [Endpoint.onePlan, List.mem_cons, List.not_mem_nil, or_false] at he
  rcases he with rfl | rfl | rfl | rfl
  · exact startsPlan_calculate h
  · exact startsPlan_preview h
  · exact startsPlan_project h
  · exact startsPlan_validate h

/-- A rollup of one consultant reads their rules and goes on with them. -/
theorem exists_answer_rollup {name : String} (h : RollupRequest.AsksAbout name rules b fs) :
    ∃ deals : List Deal, readDeals fs = .accepted deals ∧ (∀ d ∈ deals, d.IsRead) ∧
      Endpoint.rollup.answer s b =
        withBody (.data rules)
          (fun v => ((readRulesField v).within (.field (Text.patched name))).within
            (.field "consultants"))
          fun rs => Answer.rollup s Endpoint.rollup.path ⟨[⟨name, rs, deals⟩]⟩ := by
  obtain ⟨all, hb, hconsultants⟩ := h.value
  obtain ⟨deals, hdeals, hall, hread⟩ :=
    RollupRequest.exists_ofValue_eq hconsultants h.rules h.suits
  exact ⟨deals, hdeals, hall, withBody_eq_of_map hb hread (Answer.rollup s Endpoint.rollup.path)⟩

/-- A call to an endpoint is answered by it. -/
theorem answer_call (he : e ∈ Endpoint.rollup :: Endpoint.onePlan) :
    answer s (e.call b) = e.answer s b := by
  have hfixed : ∀ e ∈ Endpoint.rollup :: Endpoint.onePlan, e ∈ Endpoint.fixed := by decide
  exact answer_of_mem_fixed (hfixed e he) s b

/-! ## What becomes of rules -/

/-- Rules that are a plan are answered by going on with it. -/
theorem Endpoint.StartsPlan.of_ok (h : e.StartsPlan s rules b fs) {p : Plan}
    (hread : readRulesField rules = .accepted rs) (hp : Plan.ofRules s.strict rs = .ok p) :
    ((e.answer s b).result.status = 200 ∨ (e.answer s b).result = .internal) ∧
      (e.IsModest rs fs → ((e.answer s b).result.status = 200 ↔ e.canTell rs = true)) := by
  obtain ⟨next, hanswer, hnext⟩ := h
  obtain ⟨rfl, -⟩ := Plan.ofRules_eq_ok_iff.1 hp
  have hresult : (withPlan s e.path p.rules (next p.rules)).result = (next p.rules p).result := by
    rw [withPlan, Journal.Noted.result_bind, Plan.start, hp]
  rw [hanswer, withBody_eq rfl hread, hresult]
  exact ⟨(hnext p.rules p).1, (hnext p.rules p).2 (isRead_of_readRulesField hread)⟩

/-- Rules that are refused are answered with the refusal. -/
theorem Endpoint.StartsPlan.result_of_error (h : e.StartsPlan s rules b fs) {error : PlanError}
    (hread : readRulesField rules = .accepted rs) (he : Plan.ofRules s.strict rs = .error error) :
    (e.answer s b).result = .rejected error := by
  obtain ⟨next, hanswer, -⟩ := h
  rw [hanswer, withBody_eq rfl hread, withPlan, Journal.Noted.result_bind, Plan.start, he]
  rfl

/-- Rules that cannot be read are answered with what is wrong with them, whatever was to be done
with them. -/
theorem exists_result_of_unread (h : ∀ rs, readRulesField rules ≠ .accepted rs) :
    ∃ r : Response, r.status ≠ 200 ∧
      ((∃ first rest, (readRulesField rules).within bodyStep = .refused first rest ∧
          r = .faulty (first :: rest)) ∨
        ∃ signal, readRulesField rules = .halted signal ∧ r = .internal) ∧
      ∀ next, (withBody (.data rules) readRulesField next).result = r := by
  have hdata : (Body.data rules).value = .ok rules := rfl
  simp only [withBody, hdata]
  cases hread : readRulesField rules with
  | accepted rs => exact absurd hread (h rs)
  | refused first rest =>
    exact ⟨_, Response.status_faulty _, .inl ⟨_, _, rfl, rfl⟩, fun _ => rfl⟩
  | halted signal =>
    exact ⟨.internal, by decide, .inr ⟨signal, rfl, rfl⟩, fun _ => rfl⟩

/-- A rollup of one consultant whose plan is accepted succeeds if their name can be sent. -/
theorem status_rollup_of_ok (hmost : 1 ≤ s.maxRollup) (path : String) {p : Plan}
    (hp : Plan.ofRules s.strict c.rules = .ok p) (hread : c.IsRead) :
    (Answer.rollup s path ⟨[c]⟩).result.status = 200 ↔ Text.isWhole c.name = true := by
  have haccepted : ∀ c' ∈ [c], c'.IsAccepted s.strict := List.forall_mem_singleton.2 ⟨p, hp⟩
  obtain ⟨pay, hpay⟩ := (haccepted c List.mem_cons_self).exists_evaluate hread
  have hpaid : (DealerPay.rollup .together s.strict [c]).result = .ok [(c.name, pay)] :=
    (Rollup.eq_ok_iff haccepted).2 (.cons ⟨rfl, hpay⟩ .nil)
  have hplain := Breakdown.hasPlainTexts_of_evaluate ((Consultant.evaluate_eq_ok_iff hp).1 hpay)
  rw [Answer.rollup, if_neg (by simpa using hmost), Journal.Noted.result_bind, hpaid]
  show (Response.ok (.object [(c.name, pay.toValue)])).status = 200 ↔ _
  rw [Response.status_ok_iff, Json.isWritable_object]
  simp [hplain.isWritable_toValue]

/-- A rollup of one consultant whose plan is refused is answered with the refusal, in their name. -/
theorem result_rollup_of_error (hmost : 1 ≤ s.maxRollup) (path : String) {error : PlanError}
    (he : Plan.ofRules s.strict c.rules = .error error) :
    (Answer.rollup s path ⟨[c]⟩).result = .rejected (error.ofConsultant c.name) := by
  have hrefused : ¬∀ c' ∈ [c], c'.IsAccepted s.strict := by
    intro h
    obtain ⟨p, hp⟩ := h c List.mem_cons_self
    cases hp.symm.trans he
  obtain ⟨front, c', back, error', hcs, -, he', hresult⟩ :=
    Rollup.exists_of_refused .together hrefused
  rcases List.append_eq_singleton_iff.1 hcs.symm with ⟨rfl, hone⟩ | ⟨-, hnil⟩
  · cases hone
    cases he.symm.trans he'
    rw [Answer.rollup, if_neg (by simpa using hmost), Journal.Noted.result_bind, hresult]
    rfl
  · cases hnil

/-- A refusal that is plain is sent unless the name of the consultant cannot be. -/
theorem Response.status_rejected_iff {error : PlanError} (h : Text.IsPlain error.detail) :
    (rejected error).status = 422 ↔ ∀ name ∈ error.consultant, Text.isWhole name = true := by
  have hsent : ∀ r : Response, r.status = 422 →
      ((sent r).status = 422 ↔ Json.isWritable r.body = true) := by
    intro r hr
    unfold sent
    split
    · next hbody => exact iff_of_true hr hbody
    · next hbody => exact iff_of_false (by decide : (500 : Nat) ≠ 422) hbody
  unfold rejected
  rw [hsent _ rfl, notOk]
  cases error.position <;> cases error.consultant <;>
    simp (disch := decide) [Text.IsPlain.isWhole, h.isWhole]

end Answers

/-- The endpoints that are asked about one plan agree on whether there is one. Either all of them
accept it, or all of them give the same answer, which is not one of success: the faults of the rules
where they cannot be read, and otherwise the refusal of the first rule that is not well formed, or
of a second salary or draw, for which no rule is blamed.

Where they accept it, each of them succeeds or ends in an internal error, and as long as what there
is to do is modest, only the sending can fail: that of the labels in a check, and that of the name of
the consultant in a rollup. The refusal of a plan is the same in a rollup, in the name of the
consultant. -/
theorem endpoints_agree (s : Settings) (rules : Value) :
    (∃ rs p, readRulesField rules = .accepted rs ∧ Plan.ofRules s.strict rs = .ok p ∧
      (∀ e ∈ Endpoint.onePlan, ∀ b fs, e.AsksAbout rules b fs →
        ((answer s (e.call b)).result.status = 200 ∨ (answer s (e.call b)).result = .internal) ∧
        (e.IsModest rs fs →
          ((answer s (e.call b)).result.status = 200 ↔ e.canTell rs = true))) ∧
      (1 ≤ s.maxRollup → ∀ name b own, RollupRequest.AsksAbout name rules b own →
        Endpoint.calculate.IsModest rs own →
          ((answer s (Endpoint.rollup.call b)).result.status = 200 ↔
            Text.isWhole name = true))) ∨
    (∃ rs error, readRulesField rules = .accepted rs ∧ Plan.ofRules s.strict rs = .error error ∧
      Plan.IsRefusal s.strict rs error ∧ (Response.rejected error).status = 422 ∧
      (∀ e ∈ Endpoint.onePlan, ∀ b fs, e.AsksAbout rules b fs →
        (answer s (e.call b)).result = .rejected error) ∧
      (1 ≤ s.maxRollup → ∀ name b own, RollupRequest.AsksAbout name rules b own →
        (answer s (Endpoint.rollup.call b)).result = .rejected (error.ofConsultant name) ∧
        ((Response.rejected (error.ofConsultant name)).status = 422 ↔
          Text.isWhole name = true))) ∨
    ∃ r : Response, r.status ≠ 200 ∧
      ((∃ first rest, (readRulesField rules).within bodyStep = .refused first rest ∧
          r = .faulty (first :: rest)) ∨
        ∃ signal, readRulesField rules = .halted signal ∧ r = .internal) ∧
      (∀ e ∈ Endpoint.onePlan, ∀ b fs, e.AsksAbout rules b fs →
        (answer s (e.call b)).result = r) ∧
      (∀ name b own, RollupRequest.AsksAbout name rules b own →
        (answer s (Endpoint.rollup.call b)).result.status ≠ 200) := by
  have hcall : ∀ e ∈ Endpoint.onePlan, ∀ b, answer s (e.call b) = e.answer s b :=
    fun e he b => answer_call (List.mem_cons_of_mem _ he)
  have hcallRollup : ∀ b, answer s (Endpoint.rollup.call b) = Endpoint.rollup.answer s b :=
    fun b => answer_call List.mem_cons_self
  by_cases hread : ∃ rs, readRulesField rules = .accepted rs
  · obtain ⟨rs, hread⟩ := hread
    have hdeep : ∀ name, ((readRulesField rules).within (.field (Text.patched name))).within
        (.field "consultants") = .accepted rs := fun name =>
      Reading.within_eq_accepted_iff.2 (Reading.within_eq_accepted_iff.2 hread)
    cases hof : Plan.ofRules s.strict rs with
    | ok p =>
      refine .inl ⟨rs, p, hread, hof, ?_, ?_⟩
      · intro e he b fs h
        rw [hcall e he]
        exact (startsPlan_of_mem_onePlan he h).of_ok hread hof
      · intro hmost name b own h hmodest
        obtain ⟨deals, hdeals, hall, hanswer⟩ := exists_answer_rollup h
        rw [hcallRollup, hanswer, withBody_eq rfl (hdeep name)]
        exact status_rollup_of_ok hmost _ hof
          ⟨isRead_of_readRulesField hread, hall, hmodest.1, hmodest.2 _ hdeals⟩
    | error error =>
      have hrefusal := Plan.isRefusal_of_ofRules hof
      have hplain := hrefusal.isPlain_detail
      refine .inr (.inl ⟨rs, error, hread, hof, hrefusal, ?_, ?_, ?_⟩)
      · refine (Response.status_rejected_iff hplain).2 ?_
        rw [hrefusal.consultant_eq_none]
        exact fun _ hname => nomatch hname
      · intro e he b fs h
        rw [hcall e he]
        exact (startsPlan_of_mem_onePlan he h).result_of_error hread hof
      · intro hmost name b own h
        obtain ⟨deals, -, -, hanswer⟩ := exists_answer_rollup h
        rw [hcallRollup, hanswer, withBody_eq rfl (hdeep name)]
        have hnamed : Text.IsPlain (error.ofConsultant name).detail := hplain
        refine ⟨result_rollup_of_error hmost _ hof, (Response.status_rejected_iff hnamed).trans ?_⟩
        exact ⟨fun h => h name rfl, fun h _ hname => Option.some.inj hname ▸ h⟩
  · obtain ⟨r, hr, hwhy, hresult⟩ := exists_result_of_unread (not_exists.1 hread)
    refine .inr (.inr ⟨r, hr, hwhy, ?_, ?_⟩)
    · intro e he b fs h
      obtain ⟨next, hanswer, -⟩ := startsPlan_of_mem_onePlan he h
      rw [hcall e he, hanswer, hresult]
    · intro name b own h hstatus
      obtain ⟨deals, -, -, hanswer⟩ := exists_answer_rollup h
      rw [hcallRollup, hanswer] at hstatus
      -- a rollup that succeeded would have read the rules
      obtain ⟨v, rs, hv, hdeep⟩ := exists_of_status_withBody hstatus
      cases hv
      exact hread ⟨rs, Reading.within_eq_accepted_iff.1 (Reading.within_eq_accepted_iff.1 hdeep)⟩

/-- A list of rules with two salaries. -/
def twoSalaries : Value :=
  .list
    [.object [("kind", .text "base_salary"), ("amount", .text "1.5E+3")],
     .object [("kind", .text "base_salary"), ("label", .text "Extra"), ("amount", .int 250)]]

/-- The rules that these are. -/
def twoSalariesRules : List Rule :=
  [⟨"", .base ⟨false, 15, 2⟩ false⟩, ⟨"Extra", .base ⟨false, 250, 0⟩ false⟩]

/-- The rules are read. -/
theorem readRulesField_twoSalaries : readRulesField twoSalaries = .accepted twoSalariesRules :=
  Reading.result?_eq_some_iff.1 (by decide +kernel)

/-- There is nothing wrong with the reading of the rules. -/
theorem not_unread_twoSalaries {r : Response} :
    ¬((∃ first rest, (readRulesField twoSalaries).within bodyStep = .refused first rest ∧
        r = .faulty (first :: rest)) ∨
      ∃ signal, readRulesField twoSalaries = .halted signal ∧ r = .internal) := by
  rw [readRulesField_twoSalaries]
  rintro (⟨_, _, h, -⟩ | ⟨_, h, -⟩) <;> cases h

/-- Fields with these rules that every endpoint finds in order, with half a deal, and with a unit and
a half to project. -/
def asking : Fields :=
  [("rules", twoSalaries),
   ("transactions", .list [.object [("count", .text "0.5"), ("front_gross", .int (-700))]]),
   ("transaction", .object [("front_gross", .text "1234.56")]),
   ("units", .text "1.5"), ("front_pvr", .int 2000)]

/-- The fields of a consultant with these rules. -/
def askingForAnn : Fields := [("rules", twoSalaries)]

/-- A rollup of this consultant alone. -/
def rollupOfAnn : Body :=
  .data (.object [("consultants", .object [("Ann", .object askingForAnn)])])

/-- The half deal is in order. -/
theorem readDeals_asking : readDeals asking =
    .accepted [{ Deal.plain with count := ⟨false, 5, -1⟩, frontGross := ⟨true, 700, 0⟩ }] :=
  Reading.result?_eq_some_iff.1 (by decide +kernel)

/-- Every endpoint finds the fields in order. -/
theorem asksAbout_asking :
    ∀ e ∈ Endpoint.onePlan, e.AsksAbout twoSalaries (.data (.object asking)) asking := by
  intro e he
  refine ⟨rfl, rfl, ?_⟩
  simp only [Endpoint.onePlan, List.mem_cons, List.not_mem_nil, or_false] at he
  rcases he with rfl | rfl | rfl | rfl
  · exact ⟨_, readDeals_asking⟩
  · exact ⟨{ Deal.plain with frontGross := ⟨false, 123456, -2⟩ },
      Reading.result?_eq_some_iff.1 (by decide +kernel)⟩
  · refine ⟨⟨⟨false, 15, -1⟩, ⟨false, 2000, 0⟩, .zero, .new⟩, .zero,
      Reading.result?_eq_some_iff.1 (by decide +kernel),
      Reading.result?_eq_some_iff.1 (by decide +kernel), ?_⟩
    rw [Decimal.value_of_not_negative rfl]
    norm_num
  · trivial

/-- The rollup is in order as well. -/
theorem asksAbout_askingForAnn :
    RollupRequest.AsksAbout "Ann" twoSalaries rollupOfAnn askingForAnn :=
  ⟨⟨_, rfl, rfl⟩, rfl, [], rfl⟩

/-- There is little to do for any endpoint. -/
theorem isModest_asking : ∀ e ∈ Endpoint.onePlan, e.IsModest twoSalariesRules asking := by
  intro e he
  have hparts : (twoSalariesRules.map fun r => 1 + r.terms.parts).sum < 10 ^ 9 := by decide
  simp only [Endpoint.onePlan, List.mem_cons, List.not_mem_nil, or_false] at he
  rcases he with rfl | rfl | rfl | rfl
  · refine ⟨hparts, fun deals hdeals => ?_⟩
    cases readDeals_asking.symm.trans hdeals
    decide
  · exact hparts
  · exact hparts
  · trivial

/-- Two salaries are a plan out of strict mode, and every endpoint succeeds with them. In strict
mode all of them refuse the plan, and blame no single rule. -/
theorem endpoints_agree_on_twoSalaries :
    ((∀ e ∈ Endpoint.onePlan, e.AsksAbout twoSalaries (.data (.object asking)) asking ∧
        (answer .standard (e.call (.data (.object asking)))).result.status = 200) ∧
      RollupRequest.AsksAbout "Ann" twoSalaries rollupOfAnn askingForAnn ∧
      (answer .standard (Endpoint.rollup.call rollupOfAnn)).result.status = 200) ∧
    (∀ e ∈ Endpoint.onePlan, (answer { Settings.standard with strict := true }
      (e.call (.data (.object asking)))).result = .rejected ⟨.severalBases [0, 1], none, none⟩) ∧
    (answer { Settings.standard with strict := true } (Endpoint.rollup.call rollupOfAnn)).result =
      .rejected ⟨.severalBases [0, 1], none, some "Ann"⟩ := by
  constructor
  · rcases endpoints_agree .standard twoSalaries with
      ⟨rs, p, hread, -, hall, hrollup⟩ | ⟨rs, error, hread, herror, -⟩ | ⟨r, -, hwhy, -⟩
    · cases readRulesField_twoSalaries.symm.trans hread
      have hlabels : ∀ e ∈ Endpoint.onePlan, e.canTell twoSalariesRules = true := by decide
      have hmodest : Endpoint.calculate.IsModest twoSalariesRules askingForAnn :=
        ⟨by decide, fun deals hdeals => by cases hdeals; decide⟩
      exact ⟨fun e he => ⟨asksAbout_asking e he,
          ((hall e he _ _ (asksAbout_asking e he)).2 (isModest_asking e he)).2 (hlabels e he)⟩,
        asksAbout_askingForAnn,
        (hrollup (by decide) _ _ _ asksAbout_askingForAnn hmodest).2 (by decide)⟩
    · cases readRulesField_twoSalaries.symm.trans hread
      cases herror
    · exact absurd hwhy not_unread_twoSalaries
  · rcases endpoints_agree { Settings.standard with strict := true } twoSalaries with
      ⟨rs, p, hread, hp, -⟩ | ⟨rs, error, hread, herror, -, -, hall, hrollup⟩ | ⟨r, -, hwhy, -⟩
    · cases readRulesField_twoSalaries.symm.trans hread
      cases hp
    · cases readRulesField_twoSalaries.symm.trans hread
      cases herror
      exact ⟨fun e he => hall e he _ _ (asksAbout_asking e he),
        (hrollup (by decide) _ _ _ asksAbout_askingForAnn).1⟩
    · exact absurd hwhy not_unread_twoSalaries

/-- A list of one rule whose label is half of a character. -/
def tornLabel : Value :=
  .list [.object [("kind", .text "flat_rate"), ("label", .text (Text.spell [.ofUnit 0xD800]))]]

/-- Fields with this rule that every endpoint finds in order. -/
def askingTorn : Fields := [("rules", tornLabel), ("transaction", .object [])]

/-- A body of these fields as JSON, in ASCII. -/
def tornRequest : Body := .text (Json.render (.object askingTorn))

/-- The fields are found in it. -/
theorem value_tornRequest : tornRequest.value = .ok (.object askingTorn) :=
  Body.value_render ⟨by decide +kernel, by decide +kernel⟩

/-- All endpoints accept this rule as a plan. Those that pay by it succeed; the check repeats its
label, which cannot be sent, and ends in an internal error. -/
theorem endpoints_disagree_on_tornLabel :
    (∀ e ∈ Endpoint.onePlan, e.AsksAbout tornLabel tornRequest askingTorn) ∧
    (∀ e ∈ [Endpoint.calculate, .preview, .project],
      (answer .standard (e.call tornRequest)).result.status = 200) ∧
    (answer .standard (Endpoint.validate.call tornRequest)).result.status = 500 := by
  refine ⟨?_, by decide +kernel, by decide +kernel⟩
  intro e he
  refine ⟨value_tornRequest, rfl, ?_⟩
  simp only [Endpoint.onePlan, List.mem_cons, List.not_mem_nil, or_false] at he
  rcases he with rfl | rfl | rfl | rfl
  · exact ⟨[], rfl⟩
  · exact ⟨Deal.plain, Reading.result?_eq_some_iff.1 (by decide +kernel)⟩
  · refine ⟨⟨.zero, .zero, .zero, .new⟩, .zero, Reading.result?_eq_some_iff.1 (by decide +kernel),
      Reading.result?_eq_some_iff.1 (by decide +kernel), ?_⟩
    rw [Decimal.value_zero]
    norm_num
  · trivial

end DealerPay.Service
