import DealerPay.Proofs.Decimal.Grid
import DealerPay.Proofs.Steps

/-!
# Totals as sums of lines

The lines of a breakdown are rounded to cents with fifty digits, but its totals are added up with
twenty-eight. How far the totals are the sums of the lines depends on the partial sums alone.

* `PartialSumsFit` asks of a list of amounts that every partial sum can be written in twenty-eight
  digits.
* `IsTotalOf` is what is known of a total and the lines behind it: the running sum is exact at every
  step exactly when all partial sums fit, so the total is exact if they do, and it is exact only if
  the whole sum fits.
* `Plan.Steps.isTotalOf_commission` and `Plan.Steps.isTotalOf_bonus` say so of the two subtotals,
  and `Plan.totals_of_evaluate` of a whole evaluation.
* `lossyPlan`, on a gross that is still accepted, loses a cent.
-/

namespace DealerPay

/-! ## Partial sums -/

/-- Whether every partial sum of these amounts can be written at working precision. -/
def PartialSumsFit (xs : List ℚ) : Prop :=
  ∀ front, front <+: xs → Decimal.working.Represents front.sum

/-- Amounts of nothing do not count in a sum. -/
theorem sum_filter_ne_zero (xs : List ℚ) : (xs.filter fun x => x ≠ 0).sum = xs.sum := by
  induction xs with
  | nil => rfl
  | cons x rest ih =>
    rw [List.filter_cons, List.sum_cons, ← ih]
    by_cases hx : x = 0
    · simp [hx]
    · simp [hx]

/-- Amounts of nothing do not count in partial sums. -/
theorem partialSumsFit_filter_ne_zero (xs : List ℚ) :
    PartialSumsFit (xs.filter fun x => x ≠ 0) ↔ PartialSumsFit xs := by
  constructor
  · intro h front hf
    rw [← sum_filter_ne_zero]
    exact h _ (hf.filter _)
  · intro h front hf
    obtain ⟨front', hf', rfl⟩ := List.prefix_filter_iff.1 hf
    rw [sum_filter_ne_zero]
    exact h front' hf'

/-! ## Totals -/

/-- What is known of a total of these amounts. -/
structure IsTotalOf (total : Decimal) (amounts : List ℚ) : Prop where
  /-- The total is a running sum, in which amounts of nothing may stand between the others. It is
  exact at every step exactly if every partial sum can be written. -/
  throughout : ∃ ledger : List Decimal, Decimal.sum ledger = .ok total ∧
    (ledger.map Decimal.value).filter (fun x => x ≠ 0) = amounts ∧
    ((∀ front, front <+: ledger →
        Yields (Decimal.sum front) fun r => r.value = (front.map Decimal.value).sum) ↔
      PartialSumsFit amounts)
  /-- The total is exact if every partial sum can be written. -/
  eq_of_fit : PartialSumsFit amounts → total.value = amounts.sum
  /-- The total is exact only if the whole sum can be written. -/
  represents_of_eq : total.value = amounts.sum → Decimal.working.Represents amounts.sum

/-- A running sum is a total of its amounts. -/
theorem isTotalOf_of_sum {ledger : List Decimal} {total : Decimal}
    (h : Decimal.sum ledger = .ok total) :
    IsTotalOf total ((ledger.map Decimal.value).filter fun x => x ≠ 0) := by
  have hfit : (∀ front, front <+: ledger →
        Decimal.working.Represents (front.map Decimal.value).sum) ↔
      PartialSumsFit ((ledger.map Decimal.value).filter fun x => x ≠ 0) := by
    rw [partialSumsFit_filter_ne_zero]
    constructor
    · intro h front hf
      obtain ⟨front', hf', rfl⟩ := List.prefix_map_iff.1 hf
      exact h front' hf'
    · exact fun h front hf => h _ (hf.map _)
  refine ⟨⟨ledger, h, rfl, (Decimal.sum_exact_throughout_iff ledger).trans hfit⟩, ?_, ?_⟩
  · intro hsums
    rw [sum_filter_ne_zero]
    exact (Decimal.sum_of_represents (hfit.2 hsums)).of_eq h
  · intro heq
    rw [← heq]
    exact Decimal.represents_of_sum h

/-- The amounts of the lines of these categories, in order. -/
def Breakdown.amounts (b : Breakdown) (cs : List Category) : List ℚ :=
  (b.items.filter fun i => cs.contains i.category).map fun i => i.amount.value

variable {p : Plan} {deals : List Deal} {b : Breakdown}

namespace Plan.Steps

variable (s : p.Steps deals b)

/-- The amounts of the breakdown are those of the booked and the added lines that pay something. -/
theorem amounts_eq {cs : List Category} (hc : ∀ c ∈ cs, c ≠ .drawOffset ∧ c ≠ .base ∧ c ≠ .draw) :
    b.amounts cs = ((((s.booked ++ s.added).filter fun i => cs.contains i.category).map
      (·.amount)).map Decimal.value).filter fun x => x ≠ 0 := by
  have hoffset : ∀ i : LineItem, i.category = .drawOffset → cs.contains i.category = false := by
    intro i hi
    rw [hi, List.contains_eq_mem, decide_eq_false_iff_not]
    exact fun h => (hc _ h).1 rfl
  have hshown : ∀ i : LineItem, cs.contains i.category = true →
      (i.isShown = decide (i.amount.value ≠ 0)) := by
    intro i hi
    rw [List.contains_iff_mem] at hi
    obtain ⟨-, hbase, hdraw⟩ := hc _ hi
    have hz : i.amount.isZero = decide (i.amount.value = 0) := by
      rw [← Bool.coe_iff_coe, Decimal.isZero_iff, decide_eq_true_iff]
    simp [LineItem.isShown, LineItem.isBase, hbase, hdraw, hz]
  unfold Breakdown.amounts
  rw [s.filter_items hoffset, shown, List.filter_filter, List.map_map, List.filter_map,
    List.filter_filter]
  congr 1
  apply List.filter_congr
  intro i _
  by_cases hi : cs.contains i.category = true
  · rw [hi, Bool.true_and, Bool.and_true, hshown i hi]
    rfl
  · rw [Bool.not_eq_true] at hi
    rw [hi, Bool.false_and, Bool.and_false]

/-- The bonuses are a total of the lines of bonuses. -/
theorem isTotalOf_bonus (s : p.Steps deals b) : IsTotalOf b.bonus (b.amounts [.bonus]) := by
  have hbooked : (s.booked.filter fun i => [Category.bonus].contains i.category) =
      s.booked.filter fun i => i.category == .bonus := by
    apply List.filter_congr
    intro i _
    cases i.category <;> rfl
  have hadded : (s.added.filter fun i => [Category.bonus].contains i.category) = [] :=
    List.filter_eq_nil_iff.2 fun i hi => by simp [(s.line_of_mem_added i hi).1]
  rw [s.amounts_eq (by simp), List.filter_append, hbooked, hadded, List.append_nil]
  exact isTotalOf_of_sum s.subtotal_bonus

/-- The commission is a total of the lines of commission and of guarantees: guarantees are added to
the running sum of the commission lines. -/
theorem isTotalOf_commission (s : p.Steps deals b) :
    IsTotalOf b.commission (b.amounts [.commission, .guarantee]) := by
  have hbooked : (s.booked.filter fun i => [Category.commission, .guarantee].contains i.category) =
      s.booked.filter fun i => i.category == .commission := by
    apply List.filter_congr
    intro i hi
    have := Plan.isEarned_of_mem_book s.book i hi
    cases hc : i.category <;> simp_all [Category.isEarned]
  have hadded : (s.added.filter fun i => [Category.commission, .guarantee].contains i.category) =
      s.added :=
    List.filter_eq_self.2 fun i hi => by simp [(s.line_of_mem_added i hi).1]
  have hraised : (s.added.map (·.amount)).foldlM Decimal.add s.earned = .ok b.commission := by
    rcases eq_or_topUps_of_guaranteed s.guarantees with h | h
    · exact foldlM_of_topUps h
    · exact foldlM_of_topUps h
  rw [s.amounts_eq (by simp), List.filter_append, hbooked, hadded, List.map_append]
  apply isTotalOf_of_sum
  unfold Decimal.sum
  rw [List.foldlM_append]
  exact bind_eq_ok.2 ⟨s.earned, s.subtotal_commission, hraised⟩

/-- With a draw, the total is exact exactly when it can be written. -/
theorem totalPay_eq_iff_of_draw (s : p.Steps deals b) (hd : b.isDraw = true) :
    b.totalPay.value = max b.basePay.value b.commission.value + b.bonus.value ↔
      Decimal.working.Represents (max b.basePay.value b.commission.value + b.bonus.value) := by
  have h := s.settle
  rw [s.base, BasePay.settle, if_pos hd] at h
  rw [← Decimal.value_greatest]
  exact Decimal.value_add_iff h

/-- With a salary, the total is exact exactly when it can be written, where commission and bonuses
together can be. -/
theorem totalPay_eq_iff_of_salary (s : p.Steps deals b) (hd : b.isDraw = false)
    (hsum : Decimal.working.Represents (b.commission.value + b.bonus.value)) :
    b.totalPay.value = b.commission.value + b.bonus.value + b.basePay.value ↔
      Decimal.working.Represents (b.commission.value + b.bonus.value + b.basePay.value) := by
  have h := s.settle
  rw [s.base, BasePay.settle, if_neg (by rw [hd]; exact Bool.false_ne_true)] at h
  obtain ⟨earned, he, h⟩ := bind_eq_ok.1 h
  rw [← (Decimal.value_add_iff he).2 hsum]
  exact Decimal.value_add_iff h

end Plan.Steps

/-- The totals of an evaluation, whatever the figures are. Commission and bonuses are totals of
their lines; what is paid in all is exact where it can be written, and, with a salary, where
commission and bonuses together can be. -/
theorem Plan.totals_of_evaluate (h : p.evaluate deals = .ok b) :
    IsTotalOf b.commission (b.amounts [.commission, .guarantee]) ∧
      IsTotalOf b.bonus (b.amounts [.bonus]) ∧
      (b.isDraw = true →
        (b.totalPay.value = max b.basePay.value b.commission.value + b.bonus.value ↔
          Decimal.working.Represents (max b.basePay.value b.commission.value + b.bonus.value))) ∧
      (b.isDraw = false →
        Decimal.working.Represents (b.commission.value + b.bonus.value) →
        (b.totalPay.value = b.commission.value + b.bonus.value + b.basePay.value ↔
          Decimal.working.Represents
            (b.commission.value + b.bonus.value + b.basePay.value))) := by
  obtain ⟨s⟩ := Plan.exists_steps h
  exact ⟨s.isTotalOf_commission, s.isTotalOf_bonus, s.totalPay_eq_iff_of_draw,
    s.totalPay_eq_iff_of_salary⟩

/-! ## A plan that loses a cent -/

/-- A plan that pays a large percentage of gross and one cent for each unit. -/
def lossyPlan : Plan where
  rules :=
    [⟨"", .grossShare (.ofNat 999999999999999) .zero none none⟩,
      ⟨"", .flatRate .all ⟨false, 1, -2⟩⟩]
  sound := by decide +kernel

/-- A deal with a large gross. -/
def lossyDeal : Deal := { Deal.plain with frontGross := .ofNat 999999999999999 }

/-- What the plan pays for the deal: the cent is a line, but it is not in the totals. -/
def lossyPay : Breakdown where
  items :=
    [⟨"999999999999999% of Front-End Gross", ⟨false, 999999999999998000000000000000, -2⟩,
        .commission⟩,
      ⟨"Flat Rate (1 units)", ⟨false, 1, -2⟩, .commission⟩]
  totalPay := ⟨false, 9999999999999980000000000000, 0⟩
  totalUnits := .one
  totalGross := .ofNat 999999999999999
  commission := ⟨false, 9999999999999980000000000000, 0⟩
  bonus := .zero
  basePay := .zero
  isDraw := false
  warnings := []

/-- The plan pays that. -/
theorem evaluate_lossyPlan : lossyPlan.evaluate [lossyDeal] = .ok lossyPay :=
  eq_ok_of_toOption (by decide +kernel)

/-- The lines of the plan add up to one cent more than its commission. -/
theorem sum_amounts_lossyPay :
    (lossyPay.amounts [.commission, .guarantee]).sum = lossyPay.commission.value + 1 / 100 := by
  have hamounts : lossyPay.amounts [.commission, .guarantee] =
      [9999999999999980000000000000, 1 / 100] := by
    norm_num [Breakdown.amounts, lossyPay, Decimal.value, Decimal.digits]
  have htotal : lossyPay.commission.value = 9999999999999980000000000000 := by
    norm_num [lossyPay, Decimal.value, Decimal.digits]
  rw [hamounts, htotal]
  norm_num

/-- The partial sums of its lines do not fit: a total of amounts that do would be exact. -/
theorem totals_of_lossyPlan :
    lossyPlan.evaluate [lossyDeal] = .ok lossyPay ∧
      ¬ PartialSumsFit (lossyPay.amounts [.commission, .guarantee]) := by
  refine ⟨evaluate_lossyPlan, fun hfit => ?_⟩
  have htotal := (Plan.totals_of_evaluate evaluate_lossyPlan).1.eq_of_fit hfit
  rw [sum_amounts_lossyPay] at htotal
  linarith

/-- The totals of an evaluation are not always the exact sums of its lines. -/
theorem lossyPlan_loses_a_cent :
    lossyPlan.evaluate [lossyDeal] = .ok lossyPay ∧
      lossyPay.commission.value ≠ (lossyPay.amounts [.commission, .guarantee]).sum := by
  refine ⟨evaluate_lossyPlan, ?_⟩
  rw [sum_amounts_lossyPay]
  linarith

end DealerPay
