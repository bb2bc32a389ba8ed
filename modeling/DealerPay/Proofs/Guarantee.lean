import DealerPay.Proofs.Growth
import DealerPay.Proofs.Reordering
import DealerPay.Proofs.Totals

/-!
# A guaranteed commission is a maximum

Guarantees are applied one after the other, each to the commission that the ones before it left,
and each adds a line for what is missing. What comes out does not depend on that.

* `Exact.requirements` is what the guarantees of a plan come to, each in cents.
* `Breakdown.IsRaised` compares a breakdown with such requirements: its commission is the larger one
  of what is earned and the greatest requirement, and its guarantees are the increases of the
  running maximum, which add up to the difference.
* `Exact.total_le_of_guarantee`: a rule that guarantees a commission takes nothing away.
* `Plan.commission_of_guarantees`: every evaluation in the envelope is raised to the requirements of
  its plan where anything was delivered, and not at all where nothing was. The rules may stand in any
  order, and one more guarantee does not pay less.
-/

namespace DealerPay

namespace Exact

variable {rules : List Rule} {sold : List Deal}

/-- What the guarantees of rules come to for so many units, each in cents, in the order of the
rules. -/
def requirements (rules : List Rule) (units : ℚ) : List ℚ :=
  (floors rules).map fun f => nearestCent (units * f)

/-! ## What is earned and what is added -/

/-- The lines of commission add up to what the rules book. -/
theorem subtotal_commission_lines (rules : List Rule) (sold : List Deal) :
    subtotal .commission (payFor rules sold).lines = subtotal .commission (booked rules sold) := by
  have hadded : (guaranteed (units sold .all) (subtotal .commission (booked rules sold))
      (floors rules)).2.filter (fun l => l.category == .commission) = [] := by
    apply filter_eq_nil_of_forall
    intro l hl
    rw [category_of_mem_guaranteed l hl]
    rfl
  unfold payFor
  simp only
  rw [subtotal, filter_withOffset (by decide), List.filter_comm, sum_filter_isShown,
    List.filter_append, hadded, List.append_nil]
  rfl

/-- Where anything was delivered, the commission ends at the running maximum of what is earned and
what is required. -/
theorem commission_payFor (h : 0 < units sold .all) (rules : List Rule) :
    (payFor rules sold).commission =
      (requirements rules (units sold .all)).foldl max
        (subtotal .commission (booked rules sold)) := by
  show (guaranteed _ _ _).1 = _
  rw [guaranteed, if_pos h, fst_topUps_eq_foldl]
  rfl

/-- Where nothing was delivered, the commission is what is earned. -/
theorem commission_payFor_of_not_pos (h : ¬ 0 < units sold .all) (rules : List Rule) :
    (payFor rules sold).commission = subtotal .commission (booked rules sold) := by
  show (guaranteed _ _ _).1 = _
  rw [guaranteed, if_neg h]

/-- Where anything was delivered, the guarantees are the increases of the running maximum. -/
theorem guarantees_payFor (h : 0 < units sold .all) (rules : List Rule) :
    ((payFor rules sold).lines.filter fun l => l.category == .guarantee).map Line.amount =
      increases ((requirements rules (units sold .all)).scanl max
        (subtotal .commission (booked rules sold))) := by
  have hshown : ∀ l ∈ (topUps (units sold .all) (subtotal .commission (booked rules sold))
      (floors rules)).2, l.isShown = true := by
    intro l hl
    have hne : l.amount ≠ 0 := (pos_of_mem_topUps l hl).ne'
    simp [Line.isShown, hne]
  rw [filter_guarantee_lines, guaranteed, if_pos h, List.filter_eq_self.2 hshown, amounts_topUps]
  rfl

/-- Where nothing was delivered, there are no guarantees. -/
theorem guarantees_payFor_of_not_pos (h : ¬ 0 < units sold .all) (rules : List Rule) :
    (payFor rules sold).lines.filter (fun l => l.category == .guarantee) = [] := by
  rw [filter_guarantee_lines, guaranteed, if_neg h]
  rfl

/-! ## One more guarantee -/

/-- A rule that guarantees a commission takes nothing away, wherever it is put. -/
theorem total_le_of_guarantee {r : Rule} (hr : r.isGuarantee = true) (front back : List Rule)
    (sold : List Deal) :
    (payFor (front ++ back) sold).total ≤ (payFor (front ++ r :: back) sold).total := by
  obtain ⟨perUnit, hterms⟩ : ∃ perUnit, r.terms = .guarantee perUnit := by
    unfold Rule.isGuarantee Rule.kind at hr
    cases ht : r.terms with
    | guarantee perUnit => exact ⟨perUnit, rfl⟩
    | _ =>
      rw [ht] at hr
      cases hr
  have hbooked : booked (front ++ r :: back) sold = booked (front ++ back) sold := by
    unfold booked
    rw [List.flatMap_append, List.flatMap_cons, List.flatMap_append, hterms]
    rfl
  have hbase : basePay (front ++ r :: back) = basePay (front ++ back) := by
    unfold basePay
    rw [List.filterMap_append, List.filterMap_cons, List.filterMap_append, hterms]
    rfl
  have hcommission : (guaranteed (units sold .all)
        (subtotal .commission (booked (front ++ back) sold)) (floors (front ++ back))).1 ≤
      (guaranteed (units sold .all)
        (subtotal .commission (booked (front ++ back) sold)) (floors (front ++ r :: back))).1 := by
    have hkept : (front ++ back).Sublist (front ++ r :: back) :=
      (List.sublist_cons_self r back).append_left front
    exact fst_guaranteed_mono (floors_nonneg _)
      (fun f hf => ⟨f, (hkept.filterMap _).subset hf, le_rfl⟩) le_rfl le_rfl
  show settle _ _ _ ≤ settle _ _ _
  rw [hbase, hbooked]
  exact settle_mono rfl le_rfl hcommission le_rfl

end Exact

/-! ## Breakdowns -/

/-- Whether the commission of a breakdown is what is earned, raised to each of some requirements in
turn. -/
structure Breakdown.IsRaised (b : Breakdown) (requirements : List ℚ) : Prop where
  /-- Without requirements, the commission is what is earned. -/
  of_nil : requirements = [] → b.commission.value = (b.amounts [.commission]).sum
  /-- With requirements, it is the larger one of what is earned and the greatest of them. -/
  of_isGreatest : ∀ {most : ℚ}, IsGreatest {x | x ∈ requirements} most →
    b.commission.value = max (b.amounts [.commission]).sum most
  /-- The guarantees are the increases of the running maximum of what is earned and the
  requirements, in order. -/
  guarantees : b.amounts [.guarantee] =
    Exact.increases (requirements.scanl max (b.amounts [.commission]).sum)
  /-- Together they are what the greatest requirement is above what is earned. -/
  sum_guarantees : ∀ {most : ℚ}, IsGreatest {x | x ∈ requirements} most →
    (b.amounts [.guarantee]).sum = max 0 (most - (b.amounts [.commission]).sum)

/-- The amounts of one category are those of its lines over the rationals. -/
theorem Breakdown.amounts_singleton (b : Breakdown) (c : Category) :
    b.amounts [c] = (b.exact.lines.filter fun l => l.category == c).map Exact.Line.amount := by
  unfold Breakdown.amounts Breakdown.exact
  rw [List.filter_map, List.map_map]
  congr 1
  apply List.filter_congr
  intro i _
  rw [List.contains_cons, List.contains_nil, Bool.or_false]
  rfl

variable {p : Plan} {deals : List Deal} {b : Breakdown}

/-- The lines of commission of an evaluation add up to what its rules book. -/
theorem Exact.sum_commission (hexact : b.exact = Exact.evaluate p.rules deals) :
    (b.amounts [.commission]).sum =
      subtotal .commission (booked p.rules (Deal.delivered deals)) := by
  rw [b.amounts_singleton, hexact]
  exact subtotal_commission_lines p.rules _

/-- An evaluation is raised to the requirements of its plan, where anything was delivered. -/
theorem Exact.isRaised (hexact : b.exact = Exact.evaluate p.rules deals)
    (hpos : 0 < units (Deal.delivered deals) .all) :
    b.IsRaised (requirements p.rules (units (Deal.delivered deals) .all)) := by
  have hearned := sum_commission hexact
  have hcommission : b.commission.value = (Exact.evaluate p.rules deals).commission :=
    congrArg Pay.commission hexact
  have hraised := hcommission.trans (commission_payFor hpos p.rules)
  rw [← hearned] at hraised
  have hmax : ∀ {most : ℚ}, IsGreatest
      {x | x ∈ requirements p.rules (units (Deal.delivered deals) .all)} most →
        b.commission.value = max (b.amounts [.commission]).sum most :=
    fun h => hraised.trans (foldl_max_of_isGreatest h _)
  refine ⟨fun h => ?_, hmax, ?_, fun {most} h => ?_⟩
  · rw [hraised, h, List.foldl_nil]
  · rw [b.amounts_singleton, hexact, hearned]
    exact guarantees_payFor hpos p.rules
  · have hsum := subtotal_guarantee p.rules (Deal.delivered deals)
    rw [← Exact.evaluate, ← hexact, subtotal, ← b.amounts_singleton, ← hearned] at hsum
    rw [hsum]
    show b.commission.value - _ = _
    rw [hmax h, ← max_sub_sub_right, sub_self]

/-- The commission of an evaluation is the larger one of what is earned and what the guarantees
require at most; its guarantees are the increases on the way there. Where nothing was delivered,
there are none. The commission is the same whatever the order of the rules, and one more guarantee
does not pay less in all. -/
theorem Plan.commission_of_guarantees (h : InEnvelope p deals) :
    ∃ b, p.evaluate deals = .ok b ∧
      b.totalUnits.value = Exact.units (Deal.delivered deals) .all ∧
      (0 < b.totalUnits.value → b.IsRaised (Exact.requirements p.rules b.totalUnits.value)) ∧
      (b.totalUnits.value ≤ 0 → b.amounts [.guarantee] = [] ∧
        b.commission.value = (b.amounts [.commission]).sum) ∧
      (∀ p' : Plan, p.rules.Perm p'.rules →
        ∃ b', p'.evaluate deals = .ok b' ∧ b'.commission.value = b.commission.value) ∧
      ∀ (p' : Plan) (front back : List Rule) (r : Rule), r.isGuarantee = true →
        p.rules = front ++ back → p'.rules = front ++ r :: back → InEnvelope p' deals →
          ∃ b', p'.evaluate deals = .ok b' ∧ b.totalPay.value ≤ b'.totalPay.value := by
  obtain ⟨b, hb, hexact⟩ := p.evaluate_exact h
  have hunits : b.totalUnits.value = Exact.units (Deal.delivered deals) .all :=
    congrArg Exact.Pay.units hexact
  refine ⟨b, hb, hunits, fun hpos => ?_, fun hnone => ?_, fun p' hperm => ?_, ?_⟩
  · rw [hunits] at hpos ⊢
    exact Exact.isRaised hexact hpos
  · rw [hunits] at hnone
    rw [b.amounts_singleton, hexact, Exact.sum_commission hexact]
    refine ⟨List.map_eq_nil_iff.2
      (Exact.guarantees_payFor_of_not_pos (not_lt.2 hnone) p.rules), ?_⟩
    exact (congrArg Exact.Pay.commission hexact).trans
      (Exact.commission_payFor_of_not_pos (not_lt.2 hnone) p.rules)
  · obtain ⟨b', hb', hexact'⟩ := p'.evaluate_exact (inEnvelope_of_perm h hperm)
    refine ⟨b', hb', ?_⟩
    have hcommission := congrArg Exact.Pay.commission hexact
    have hcommission' := congrArg Exact.Pay.commission hexact'
    refine hcommission'.trans (Eq.trans ?_ hcommission.symm)
    show (Exact.guaranteed _ _ _).1 = (Exact.guaranteed _ _ _).1
    rw [Exact.subtotal_perm (Exact.booked_perm hperm _)]
    exact Exact.fst_guaranteed_perm (hperm.symm.filterMap _) _ _
  · intro p' front back r hr hrules hrules' h'
    obtain ⟨b', hb', hexact'⟩ := p'.evaluate_exact h'
    refine ⟨b', hb', ?_⟩
    have htotal := congrArg Exact.Pay.total hexact
    have htotal' := congrArg Exact.Pay.total hexact'
    rw [hrules] at htotal
    rw [hrules'] at htotal'
    calc b.totalPay.value = (Exact.payFor (front ++ back) (Deal.delivered deals)).total := htotal
      _ ≤ (Exact.payFor (front ++ r :: back) (Deal.delivered deals)).total :=
        Exact.total_le_of_guarantee hr front back _
      _ = b'.totalPay.value := htotal'.symm

/-- A quarter of the gross in front and two guarantees, the larger one behind the smaller one. -/
def Plan.twiceGuaranteed : Plan where
  rules := [⟨"", .guarantee (.ofNat 100)⟩, ⟨"", .grossShare (.ofNat 25) .zero none none⟩,
    ⟨"", .guarantee (.ofNat 200)⟩]
  sound := by decide +kernel

/-- The plan with a third guarantee, the largest of all, in front of the last one. -/
def Plan.thriceGuaranteed : Plan where
  rules := [⟨"", .guarantee (.ofNat 100)⟩, ⟨"", .grossShare (.ofNat 25) .zero none none⟩,
    ⟨"", .guarantee (.ofNat 300)⟩, ⟨"", .guarantee (.ofNat 200)⟩]
  sound := by decide +kernel

/-- A deal that lost money. -/
def Deal.atLoss : Deal := { Deal.plain with frontGross := ⟨true, 1000, 0⟩ }

/-- What two units are paid where one of them lost money: the first guarantee makes up for the
negative commission and adds to it, the largest one raises it further, and the last one is already
met. -/
def thriceGuaranteedPay : Breakdown where
  items := [⟨"25% of Front-End Gross", ⟨true, 25000, -2⟩, .commission⟩,
    ⟨"Minimum Commission Guarantee", ⟨false, 45000, -2⟩, .guarantee⟩,
    ⟨"Minimum Commission Guarantee", ⟨false, 40000, -2⟩, .guarantee⟩]
  totalPay := ⟨false, 60000, -2⟩
  totalUnits := .ofNat 2
  totalGross := ⟨true, 1000, 0⟩
  commission := ⟨false, 60000, -2⟩
  bonus := .zero
  basePay := .zero
  isDraw := false
  warnings := ["3 minimum commission rules configured; each guarantee is applied in turn"]

/-- Three guarantees raise a negative commission twice, and without the largest of them no more is
paid. -/
theorem Plan.commission_thriceGuaranteed :
    InEnvelope twiceGuaranteed [Deal.plain, Deal.atLoss] ∧
      InEnvelope thriceGuaranteed [Deal.plain, Deal.atLoss] ∧
      thriceGuaranteed.evaluate [Deal.plain, Deal.atLoss] = .ok thriceGuaranteedPay ∧
      thriceGuaranteedPay.IsRaised (Exact.requirements thriceGuaranteed.rules 2) ∧
      ∃ b, twiceGuaranteed.evaluate [Deal.plain, Deal.atLoss] = .ok b ∧
        b.totalPay.value ≤ thriceGuaranteedPay.totalPay.value := by
  have htwice : InEnvelope twiceGuaranteed [Deal.plain, Deal.atLoss] :=
    .of_digits (by decide +kernel) (by decide) (by decide +kernel) (by decide +kernel)
  have hthrice : InEnvelope thriceGuaranteed [Deal.plain, Deal.atLoss] :=
    .of_digits (by decide +kernel) (by decide) (by decide +kernel) (by decide +kernel)
  have hpay : thriceGuaranteed.evaluate [Deal.plain, Deal.atLoss] = .ok thriceGuaranteedPay :=
    eq_ok_of_toOption (by decide +kernel)
  refine ⟨htwice, hthrice, hpay, ?_, ?_⟩
  · obtain ⟨b, hb, -, hraised, -⟩ := commission_of_guarantees hthrice
    cases hpay.symm.trans hb
    have htwo : thriceGuaranteedPay.totalUnits.value = 2 := Decimal.value_ofNat 2
    rw [htwo] at hraised
    exact hraised two_pos
  · obtain ⟨b, hb, -, -, -, -, hadd⟩ := commission_of_guarantees htwice
    obtain ⟨b', hb', hle⟩ := hadd thriceGuaranteed (twiceGuaranteed.rules.take 2)
      (twiceGuaranteed.rules.drop 2) ⟨"", .guarantee (.ofNat 300)⟩ rfl rfl rfl hthrice
    cases hpay.symm.trans hb'
    exact ⟨b, hb, hle⟩

end DealerPay
