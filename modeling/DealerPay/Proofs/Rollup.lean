import DealerPay.Pay.Rollup
import DealerPay.Proofs.Acceptance
import DealerPay.Proofs.Completion.Evaluation

/-!
# Rollups pay all or nothing

A rollup pays every consultant what they are paid by themselves. One plan that is refused refuses
the whole.

* `Consultant.evaluate` is what a consultant is paid by themselves, `Consultant.IsAccepted` says
  that their plan is accepted.
* `Rollup.startAll_cases`: either all plans are started, or the first one that is refused refuses
  the whole, in the name of its consultant.
* `Rollup.pay_eq_ok_iff`: one after the other or all at once, started plans pay what each of them
  pays.
* `rollup_isolated` joins the two. Where several evaluations have no result, nothing is said of
  which of them is reported.
-/

namespace DealerPay

variable {strict : Bool} {mode : Rollup.Mode} {c : Consultant} {cs : List Consultant}

/-! ## One consultant -/

namespace Consultant

/-- Whether the plan of a consultant is accepted. -/
def IsAccepted (strict : Bool) (c : Consultant) : Prop := ∃ p, Plan.ofRules strict c.rules = .ok p

/-- What a consultant is paid by themselves. -/
def evaluate (strict : Bool) (c : Consultant) : Except RollupError Breakdown := do
  let p ← (Plan.ofRules strict c.rules).mapError .plan
  (p.evaluate c.deals).mapError .failure

/-- Whether the rules and deals of a consultant were read, fewer than a billion of either. -/
structure IsRead (c : Consultant) : Prop where
  /-- The rules were read. -/
  rules : ∀ r ∈ c.rules, r.IsRead
  /-- The deals were read. -/
  deals : ∀ d ∈ c.deals, d.IsRead
  /-- The rules, tiers and thresholds are fewer than a billion. -/
  parts : (c.rules.map fun r => 1 + r.terms.parts).sum < 10 ^ 9
  /-- The deals are fewer than a billion. -/
  count : c.deals.length < 10 ^ 9

/-- A consultant is paid by the plan that was made of their rules. -/
theorem evaluate_eq_ok_iff {p : Plan} (hp : Plan.ofRules strict c.rules = .ok p) {b : Breakdown} :
    c.evaluate strict = .ok b ↔ p.evaluate c.deals = .ok b := by
  unfold evaluate
  rw [hp]
  show (p.evaluate c.deals).mapError _ = _ ↔ _
  cases p.evaluate c.deals <;> simp [Except.mapError]

/-- A consultant whose plan is accepted is paid. -/
theorem IsAccepted.exists_evaluate (h : c.IsAccepted strict) (hread : c.IsRead) :
    ∃ b, c.evaluate strict = .ok b := by
  obtain ⟨p, hp⟩ := h
  have hrules : p.rules = c.rules := (Plan.ofRules_eq_ok_iff.1 hp).1
  obtain ⟨b, hb, -⟩ := Plan.evaluate_bounded (p := p) (.of_isRead hread.deals hread.count)
    (fun r hr => (hread.rules r (hrules ▸ hr)).isAmount) (hrules ▸ hread.parts)
  exact ⟨b, (evaluate_eq_ok_iff hp).2 hb⟩

end Consultant

namespace Rollup

/-! ## Starting -/

/-- Either the plans of all consultants are started, or the first that is refused refuses the
whole. -/
theorem startAll_cases (strict : Bool) (cs : List Consultant) :
    (∃ started, (startAll strict cs).result = .ok started ∧
      List.Forall₂ (fun c s => s.1 = c ∧ Plan.ofRules strict c.rules = .ok s.2) cs started) ∨
    ∃ front c back e, cs = front ++ c :: back ∧ (∀ c' ∈ front, c'.IsAccepted strict) ∧
      Plan.ofRules strict c.rules = .error e ∧
      (startAll strict cs).result = .error (e.ofConsultant c.name) := by
  induction cs with
  | nil => exact .inl ⟨[], rfl, .nil⟩
  | cons c rest ih =>
    rw [startAll, Journal.Noted.result_bind]
    cases hof : Plan.ofRules strict c.rules with
    | error e =>
      have hstart : (start strict c).result = .error (e.ofConsultant c.name) := by
        rw [start, Plan.start, hof]
        rfl
      rw [hstart]
      exact .inr ⟨[], c, rest, e, rfl, List.forall_mem_nil _, hof, rfl⟩
    | ok p =>
      have hstart : (start strict c).result = .ok p := by
        rw [start, Plan.start, hof]
        rfl
      rw [hstart]
      show (∃ started, (startAll strict rest).result.map _ = _ ∧ _) ∨ _
      rcases ih with ⟨started, hrest, hall⟩ | ⟨front, c', back, e, rfl, hfront, he, hrest⟩
      · rw [hrest]
        exact .inl ⟨(c, p) :: started, rfl, .cons ⟨rfl, hof⟩ hall⟩
      · refine .inr ⟨c :: front, c', back, e, rfl, ?_, he, ?_⟩
        · exact List.forall_mem_cons.2 ⟨⟨p, hof⟩, hfront⟩
        show ((startAll strict (front ++ c' :: back)).result.map _) = _
        rw [hrest]
        rfl

/-! ## Paying -/

/-- The entry of a consultant whose plan was started. -/
def entry (s : Consultant × Plan) : Except Failure (String × Breakdown) :=
  (s.2.evaluate s.1.deals).map fun b => (s.1.name, b)

/-- Consultants that are paid one after the other get an entry each, up to the first failure. -/
theorem result_payInTurn (started : List (Consultant × Plan)) :
    (payInTurn started).result = started.mapM entry := by
  induction started with
  | nil => rfl
  | cons s rest ih =>
    obtain ⟨c, p⟩ := s
    rw [payInTurn, Journal.Noted.result_bind, Plan.result_run, List.mapM_cons]
    cases he : p.evaluate c.deals with
    | error e =>
      have hentry : entry (c, p) = .error e := by rw [entry, he]; rfl
      rw [hentry]
      rfl
    | ok b =>
      have hentry : entry (c, p) = .ok (c.name, b) := by rw [entry, he]; rfl
      rw [hentry, ← ih]
      show (payInTurn rest).result.map _ = (payInTurn rest).result >>= _
      cases (payInTurn rest).result <;> rfl

/-- Consultants that are paid all at once get an entry each. -/
theorem result_payTogether (started : List (Consultant × Plan)) :
    (payTogether started).result = started.mapM entry := by
  show (started.map fun s => (s.1.name, s.2.run s.1.deals)).mapM _ = _
  rw [List.mapM_map]
  congr 1
  funext s
  show (s.2.run s.1.deals).result.map _ = _
  rw [Plan.result_run]
  rfl

/-- In either way started plans are paid by exactly if each of them has a result, and then each has
its own entry, in order. -/
theorem pay_eq_ok_iff (mode : Mode) {started : List (Consultant × Plan)}
    {paid : List (String × Breakdown)} :
    (pay mode started).result = .ok paid ↔
      List.Forall₂ (fun s x => x.1 = s.1.name ∧ s.2.evaluate s.1.deals = .ok x.2) started paid := by
  have hpay : (pay mode started).result = started.mapM entry := by
    cases mode with
    | inTurn => exact result_payInTurn started
    | together => exact result_payTogether started
  have hentry : ∀ (s : Consultant × Plan) (x : String × Breakdown), entry s = .ok x ↔
      x.1 = s.1.name ∧ s.2.evaluate s.1.deals = .ok x.2 := by
    intro s x
    unfold entry
    cases s.2.evaluate s.1.deals with
    | error e => simp [Except.map]
    | ok b => simp [Except.map, Prod.ext_iff, eq_comm]
  rw [hpay, mapM_eq_ok]
  simp only [hentry]

/-! ## The whole -/

/-- A relation to one list is a relation to another whose items correspond to those of the first. -/
theorem forall₂_iff_of_forall₂ {α β γ : Type} {R : α → β → Prop} {S : β → γ → Prop}
    {T : α → γ → Prop} {xs : List α} {ys : List β} (h : List.Forall₂ R xs ys)
    (hST : ∀ x y z, R x y → (S y z ↔ T x z)) {zs : List γ} :
    List.Forall₂ S ys zs ↔ List.Forall₂ T xs zs := by
  induction h generalizing zs with
  | nil => cases zs <;> simp
  | cons hxy _ ih =>
    cases zs with
    | nil => simp
    | cons z zs => rw [List.forall₂_cons, List.forall₂_cons, hST _ _ z hxy, ih]

/-- Where the plans of all consultants are accepted, a rollup has the results of each of them. -/
theorem eq_ok_iff (h : ∀ c ∈ cs, c.IsAccepted strict) {paid : List (String × Breakdown)} :
    (rollup mode strict cs).result = .ok paid ↔
      List.Forall₂ (fun c x => x.1 = c.name ∧ c.evaluate strict = .ok x.2) cs paid := by
  rcases startAll_cases strict cs with ⟨started, hstart, hall⟩ | ⟨_, c, _, e, rfl, -, he, -⟩
  · have hrollup : (rollup mode strict cs).result = .ok paid ↔
        (pay mode started).result = .ok paid := by
      rw [rollup, Journal.Noted.result_bind, hstart]
      show (pay mode started).result.mapError _ = _ ↔ _
      cases (pay mode started).result <;> simp [Except.mapError]
    rw [hrollup, pay_eq_ok_iff]
    refine forall₂_iff_of_forall₂ hall ?_
    rintro c ⟨c', p⟩ x ⟨rfl, hp⟩
    rw [Consultant.evaluate_eq_ok_iff hp]
  · obtain ⟨p, hp⟩ := h c (List.mem_append_right _ List.mem_cons_self)
    cases hp.symm.trans he

/-- Where the plan of a consultant is refused, the first such plan refuses the whole. -/
theorem exists_of_refused (mode : Mode) (h : ¬∀ c ∈ cs, c.IsAccepted strict) :
    ∃ front c back e, cs = front ++ c :: back ∧ (∀ c' ∈ front, c'.IsAccepted strict) ∧
      Plan.ofRules strict c.rules = .error e ∧
      (rollup mode strict cs).result = .error (.plan (e.ofConsultant c.name)) := by
  rcases startAll_cases strict cs with
    ⟨started, -, hall⟩ | ⟨front, c, back, e, hcs, hfront, he, hstart⟩
  · refine absurd (forall_mem_of_forall₂ hall.flip ?_) h
    rintro s c ⟨-, hp⟩
    exact ⟨s.2, hp⟩
  · refine ⟨front, c, back, e, hcs, hfront, he, ?_⟩
    rw [rollup, Journal.Noted.result_bind, hstart]
    rfl

/-- A consultant is looked up by name among the entries of all of them. -/
theorem lookup_eq_some_iff {paid : List (String × Breakdown)}
    (h : List.Forall₂ (fun c x => x.1 = c.name ∧ c.evaluate strict = .ok x.2) cs paid)
    (hnames : (cs.map (·.name)).Nodup) (hc : c ∈ cs) {b : Breakdown} :
    paid.lookup c.name = some b ↔ c.evaluate strict = .ok b := by
  induction h with
  | nil => cases hc
  | @cons first x rest paid hx _ ih =>
    obtain ⟨name, pay⟩ := x
    obtain ⟨rfl, hpay⟩ := hx
    rw [List.map_cons, List.nodup_cons] at hnames
    rcases List.mem_cons.1 hc with rfl | hrest
    · rw [List.lookup_cons_self, hpay, Option.some.injEq, Except.ok.injEq]
    · have hne : c.name ≠ first.name := fun heq =>
        hnames.1 (heq ▸ List.mem_map_of_mem hrest)
      rw [List.lookup_cons, beq_false_of_ne hne]
      exact ih hnames.2 hrest

end Rollup

/-- A rollup pays all or nothing. Where the plans of all consultants are accepted, it has one entry
for each of them, in order, with what they are paid by themselves, and it has a result once rules
and deals have been read; so an entry depends on nobody else. Otherwise the first plan that is
refused refuses the whole, for the same cause and with the same position as by itself, in the name
of its consultant. -/
theorem rollup_isolated (mode : Rollup.Mode) (strict : Bool) (cs : List Consultant) :
    ((∀ c ∈ cs, c.IsAccepted strict) →
      (∀ paid, (rollup mode strict cs).result = .ok paid ↔
        List.Forall₂ (fun c x => x.1 = c.name ∧ c.evaluate strict = .ok x.2) cs paid) ∧
      ((∀ c ∈ cs, c.IsRead) → ∃ paid, (rollup mode strict cs).result = .ok paid)) ∧
    (∀ paid, (rollup mode strict cs).result = .ok paid → (cs.map (·.name)).Nodup →
      ∀ c ∈ cs, ∀ b, paid.lookup c.name = some b ↔ c.evaluate strict = .ok b) ∧
    ((¬∀ c ∈ cs, c.IsAccepted strict) →
      ∃ front c back e, cs = front ++ c :: back ∧ (∀ c' ∈ front, c'.IsAccepted strict) ∧
        Plan.ofRules strict c.rules = .error e ∧
        (rollup mode strict cs).result = .error (.plan ⟨e.fault, e.position, some c.name⟩)) := by
  refine ⟨fun h => ⟨fun paid => Rollup.eq_ok_iff h, fun hread => ?_⟩, ?_,
    Rollup.exists_of_refused mode⟩
  · have entry : ∀ c ∈ cs, Yields ((c.evaluate strict).map fun b => (c.name, b)) fun x =>
        x.1 = c.name ∧ c.evaluate strict = .ok x.2 := by
      intro c hc
      obtain ⟨b, hb⟩ := (h c hc).exists_evaluate (hread c hc)
      rw [hb]
      exact .ok ⟨rfl, rfl⟩
    obtain ⟨paid, -, hpaid⟩ := Yields.mapM entry
    exact ⟨paid, (Rollup.eq_ok_iff h).2 hpaid⟩
  · intro paid hpaid hnames c hc b
    have h : ∀ c ∈ cs, c.IsAccepted strict := by
      by_contra hrefused
      obtain ⟨_, _, _, _, -, -, -, herror⟩ := Rollup.exists_of_refused mode hrefused
      rw [herror] at hpaid
      cases hpaid
    exact Rollup.lookup_eq_some_iff ((Rollup.eq_ok_iff h).1 hpaid) hnames hc

namespace Rollup

/-- A consultant with a guarantee and no deals. -/
def idle : Consultant := ⟨"Ann", [⟨"", .guarantee (.ofNat 1)⟩], []⟩

/-- A consultant with figures that are awkward to write. -/
def unwieldy : Consultant := ⟨"Bob", Plan.unwieldy.rules, [Deal.unwieldy]⟩

/-- A consultant whose second rule is flawed. -/
def flawed : Consultant :=
  ⟨"Cleo", [⟨"", .guarantee (.ofNat 1)⟩, ⟨"", .base (.ofInt (-1)) false⟩], []⟩

/-- The plan of the idle consultant is accepted in both modes. -/
theorem isAccepted_idle (strict : Bool) : idle.IsAccepted strict :=
  ⟨⟨idle.rules, by decide +kernel⟩, Plan.ofRules_eq_ok_iff.2 ⟨rfl, fun _ => by decide⟩⟩

/-- The plan of the consultant with awkward figures is accepted in both modes. -/
theorem isAccepted_unwieldy (strict : Bool) : unwieldy.IsAccepted strict :=
  ⟨Plan.unwieldy, Plan.ofRules_eq_ok_iff.2 ⟨rfl, fun _ => by decide⟩⟩

/-- The rule of the idle consultant was read. -/
theorem isRead_idle : idle.IsRead where
  rules := by
    intro r hr
    rw [List.mem_singleton.1 hr]
    exact ⟨.direct, .guarantee, [("amount_per_unit", .int 1)],
      Reading.result?_eq_some_iff.1 (by decide +kernel)⟩
  deals := List.forall_mem_nil _
  parts := by decide
  count := by decide

/-- The rules and the deal with awkward figures were read. -/
theorem isRead_unwieldy : unwieldy.IsRead where
  rules := Plan.isRead_of_mem_unwieldy
  deals := by
    intro d hd
    rw [List.mem_singleton.1 hd]
    exact Deal.isRead_unwieldy
  parts := by decide
  count := by decide

/-- Two consultants are paid together what they are paid by themselves; with the one whose second
rule is flawed, nobody is paid. -/
theorem rollup_unwieldy_and_flawed :
    (∃ paid, (rollup .together true [unwieldy, idle]).result = .ok paid ∧
      (∃ b, unwieldy.evaluate true = .ok b ∧ paid.lookup "Bob" = some b) ∧
      ∃ b, idle.evaluate true = .ok b ∧ paid.lookup "Ann" = some b) ∧
    (rollup .inTurn false [idle, flawed, unwieldy]).result =
      .error (.plan ⟨.flawed (.negative (.field "amount") (.ofInt (-1))), some 1, some "Cleo"⟩) := by
  have haccepted : ∀ c ∈ [unwieldy, idle], c.IsAccepted true :=
    List.forall_mem_cons.2
      ⟨isAccepted_unwieldy true, List.forall_mem_singleton.2 (isAccepted_idle true)⟩
  have hread : ∀ c ∈ [unwieldy, idle], c.IsRead :=
    List.forall_mem_cons.2 ⟨isRead_unwieldy, List.forall_mem_singleton.2 isRead_idle⟩
  constructor
  · obtain ⟨hentries, hpaid⟩ := (rollup_isolated .together true [unwieldy, idle]).1 haccepted
    obtain ⟨paid, hpaid⟩ := hpaid hread
    have hlookup := (rollup_isolated .together true [unwieldy, idle]).2.1 paid hpaid (by decide)
    have hall := (hentries paid).1 hpaid
    refine ⟨paid, hpaid, ?_, ?_⟩
    · obtain ⟨b, hb⟩ := (isAccepted_unwieldy true).exists_evaluate isRead_unwieldy
      exact ⟨b, hb, (hlookup unwieldy (by simp) b).2 hb⟩
    · obtain ⟨b, hb⟩ := (isAccepted_idle true).exists_evaluate isRead_idle
      exact ⟨b, hb, (hlookup idle (by simp) b).2 hb⟩
  · have hflawed : Plan.ofRules false flawed.rules =
        .error (.ofFault (.flawed (.negative (.field "amount") (.ofInt (-1)))) (some 1)) := rfl
    have hrefused : ¬∀ c ∈ [idle, flawed, unwieldy], c.IsAccepted false := by
      intro h
      obtain ⟨p, hp⟩ := h flawed (by simp)
      cases hp.symm.trans hflawed
    obtain ⟨front, c, back, e, hcs, hfront, he, hresult⟩ :=
      (rollup_isolated .inTurn false [idle, flawed, unwieldy]).2.2 hrefused
    -- the first of the three is accepted, and the second is not
    rcases front with _ | ⟨first, _ | ⟨second, front⟩⟩
    · cases hcs
      obtain ⟨p, hp⟩ := isAccepted_idle false
      cases hp.symm.trans he
    · cases hcs
      cases hflawed.symm.trans he
      exact hresult
    · rw [List.cons_append, List.cons_append, List.cons.injEq, List.cons.injEq] at hcs
      obtain ⟨p, hp⟩ := hfront flawed (by simp [← hcs.2.1])
      cases hp.symm.trans hflawed

end Rollup

end DealerPay
