import DealerPay.Pay.Projection
import DealerPay.Proofs.Completion.Evaluation
import Mathlib.Algebra.Order.Floor.Semifield

/-!
# Projections end

The deals that a projection stands for are deals like any others, so a projection has a result like
any other evaluation. Their number is that of the units, so the units have to be few enough.

* `Decimal.toNat_whole`: the whole part of a number is its floor, so it is below every bound of the
  number (`Decimal.toNat_whole_lt`).
* `Projection.deals_bounded`: the projected deals have amounts for figures, the one with half the
  gross as well.
* `Plan.runProjection_bounded` and `simpleEstimate_bounded` are what is computed of them.
-/

namespace DealerPay

/-- The whole part of a number is the largest count that the number reaches; there is none below
zero. -/
theorem Decimal.toNat_whole (d : Decimal) : d.whole.toNat = ⌊d.value⌋₊ := by
  unfold whole
  cases hsign : d.negative with
  | true =>
    have hvalue : d.value ≤ 0 := by
      rw [value_of_negative hsign, neg_nonpos]
      positivity
    rw [Nat.floor_of_nonpos hvalue]
    exact Int.toNat_of_nonpos (neg_nonpos.2 (Int.natCast_nonneg _))
  | false =>
    rw [value_of_not_negative hsign]
    simp only [Bool.false_eq_true, if_false, Int.toNat_natCast]
    split
    · next hexp =>
      have hcast : (scaled d.coefficient d.exponent.toNat : ℚ) =
          d.coefficient * (10 : ℚ) ^ d.exponent := by
        rw [scaled_eq, Nat.cast_mul, cast_tenTo, ← zpow_natCast, Int.toNat_of_nonneg hexp]
      rw [← hcast, Nat.floor_natCast]
    · next hexp =>
      have hcast : (d.coefficient : ℚ) / (tenTo (-d.exponent).toNat : ℕ) =
          d.coefficient * (10 : ℚ) ^ d.exponent := by
        rw [cast_tenTo, ← zpow_natCast, Int.toNat_of_nonneg (by omega), zpow_neg, div_inv_eq_mul]
      rw [← hcast, Nat.floor_div_eq_div]
      split
      · next hshort =>
        have hlt : d.coefficient < tenTo (-d.exponent).toNat := by
          refine (lt_tenTo_digitCount d.coefficient).trans_le ?_
          rw [tenTo_eq, tenTo_eq]
          exact Nat.pow_le_pow_right (by norm_num) hshort
        rw [Nat.div_eq_of_lt hlt]
      · rfl

/-- The whole part of a number is below whatever is above the number. -/
theorem Decimal.toNat_whole_lt {d : Decimal} {n : ℕ} (hn : 0 < n) (h : d.value < n) :
    d.whole.toNat < n := by
  rw [toNat_whole]
  exact (Nat.floor_lt' hn.ne').2 h

namespace Projection

variable {x : Projection}

/-- Half of an amount is one. -/
theorem half_bounded {d : Decimal} (h : d.IsAmount) :
    Yields (d.mul Decimal.half) Decimal.IsAmount := by
  have hle : |d.value * Decimal.half.value| ≤ 5 * 10 ^ 14 := by
    rw [Decimal.value_half, abs_mul, abs_of_pos (by norm_num : (0 : ℚ) < 1 / 2)]
    linarith [h.abs_le]
  refine (Decimal.mul_of_abs_le
    (represents_of_eq 5 14 (by norm_num) (by norm_num) (by norm_num)) hle).mono ?_
  intro r hr
  exact hr.trans_lt (by norm_num)

/-- A deal of which nothing is stated but the count and the gross has figures of a sort if these
are, and nothing is. -/
theorem forall_mem_figures {P : Decimal → Prop} (hzero : P .zero) {d : Deal}
    {count front back : Decimal} (hd : d.figures = [count, front, back, .zero, .zero, .zero])
    (hcount : P count) (hfront : P front) (hback : P back) : ∀ y ∈ d.figures, P y := by
  intro y hy
  simp only [hd, List.mem_cons, List.not_mem_nil, or_false] at hy
  rcases hy with rfl | rfl | rfl | rfl | rfl | rfl
  · exact hcount
  · exact hfront
  · exact hback
  all_goals exact hzero

/-- A shared deal has amounts for figures, and is half a vehicle. -/
theorem sharedDeal_bounded (hfront : x.front.IsAmount) (hback : x.back.IsAmount) :
    Yields x.sharedDeal fun d =>
      (∀ y ∈ d.figures, y.IsAmount) ∧ Deal.isShare d.count = true := by
  unfold sharedDeal
  refine (half_bounded hfront).bind ?_
  intro front hf
  refine (half_bounded hback).bind ?_
  intro back hb
  have hhalf : Decimal.half.IsAmount := by
    apply Decimal.isAmount_of_abs_le
    rw [Decimal.value_half]
    norm_num
  refine .pure ⟨forall_mem_figures Decimal.isAmount_zero rfl hhalf hf hb, ?_⟩
  show Deal.isShare Decimal.half = true
  decide +kernel

/-- The deals of a projection of fewer than a hundred thousand units are deals like those that are
read. -/
theorem deals_bounded (hunits : x.units.value < 10 ^ 5) (hfront : x.front.IsAmount)
    (hback : x.back.IsAmount) : Yields x.deals Amounts := by
  have hcount : x.units.whole.toNat < 10 ^ 5 :=
    Decimal.toNat_whole_lt (by norm_num) (by exact_mod_cast hunits)
  have hshare : Deal.isShare x.wholeDeal.count = true := by
    show Deal.isShare Decimal.one = true
    decide +kernel
  have hwhole : ∀ d ∈ List.replicate x.units.whole.toNat x.wholeDeal,
      (∀ y ∈ d.figures, y.IsAmount) ∧ Deal.isShare d.count = true := by
    intro d hd
    rw [List.eq_of_mem_replicate hd]
    exact ⟨forall_mem_figures Decimal.isAmount_zero rfl Decimal.isAmount_one hfront hback, hshare⟩
  unfold deals
  simp only
  split
  · refine .pure ⟨fun d hd => (hwhole d hd).1, fun d hd => (hwhole d hd).2, ?_⟩
    rw [List.length_replicate]
    omega
  · refine (sharedDeal_bounded hfront hback).bind ?_
    intro shared hshared
    have hall := List.forall_mem_append.2 ⟨hwhole, List.forall_mem_singleton.2 hshared⟩
    refine .pure ⟨fun d hd => (hall d hd).1, fun d hd => (hall d hd).2, ?_⟩
    rw [List.length_append, List.length_replicate, List.length_singleton]
    omega

end Projection

/-! ## What is computed -/

/-- A projection of bounded figures has a result, with texts for its bonuses. -/
theorem Plan.runProjection_bounded {p : Plan} {x : Projection}
    (hunits : x.units.value < 10 ^ 5) (hfront : x.front.IsAmount) (hback : x.back.IsAmount)
    (hr : ∀ r ∈ p.rules, ∀ y ∈ r.terms.figures, y.IsAmount)
    (hn : (p.rules.map fun r => 1 + r.terms.parts).sum < 10 ^ 9) :
    Yields (p.runProjection x).result fun b => Yields b.milestones fun _ => True := by
  unfold Plan.runProjection
  split
  · refine .ok (Breakdown.milestones_bounded ?_)
    intro i hi
    cases hi
  · obtain ⟨deals, hdeals, h⟩ := Projection.deals_bounded hunits hfront hback
    rw [hdeals]
    show Yields (p.run deals).result _
    rw [Plan.result_run]
    obtain ⟨b, hb, -⟩ := Plan.evaluate_bounded h hr hn
    exact ⟨b, hb, Breakdown.milestones_bounded (Plan.abs_bonus_le h hr hb)⟩

/-- Units times an average commission, from amounts that were read before. -/
theorem simpleEstimate_bounded {units average : Decimal} (hu : units.IsAmount)
    (ha : average.IsAmount) :
    Yields (simpleEstimate (.ofDecimal units) (.ofDecimal average)) fun _ => True := by
  unfold simpleEstimate
  refine .bind_of_eq (Amount.ofValue_ofDecimal hu) ?_
  refine .bind_of_eq (Amount.ofValue_ofDecimal ha) ?_
  refine (hu.mul ha).lift.bind ?_
  intro r hr
  refine Yields.lift ((Decimal.toCents_of_abs_le (n := 10 ^ 30) ?_ (by norm_num)).mono ?_)
  · exact_mod_cast hr
  · intro _ _
    trivial

end DealerPay
