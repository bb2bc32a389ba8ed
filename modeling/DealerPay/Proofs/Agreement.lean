import DealerPay.Proofs.Layout
import DealerPay.Proofs.Reconciliation

/-!
# Breakdowns that agree

What two evaluations have to share for parts of their breakdowns to be the same.

* `Breakdown.TotalsAgree`: all totals have one value, however they are written. Evaluations in the
  envelope have it where the rational semantics pays the same (`Breakdown.TotalsAgree.of_exact`).
* `Decimal.eq_of_value`: a number is written in one way only once its exponent is known, except that
  zero has two signs.
* `Plan.Steps.offset_eq`: the line that sets the commission against a draw is written in one way for
  each commission, also where that is nothing.
-/

namespace DealerPay

variable {p : Plan} {deals : List Deal} {b : Breakdown}

/-! ## Totals -/

/-- Whether the totals of two breakdowns have one value, and their notes are the same. -/
structure Breakdown.TotalsAgree (b b' : Breakdown) : Prop where
  /-- The commission with what guarantees add to it. -/
  commission : b.commission.value = b'.commission.value
  /-- All bonuses. -/
  bonus : b.bonus.value = b'.bonus.value
  /-- The salary or draw. -/
  basePay : b.basePay.value = b'.basePay.value
  /-- Whether that is a draw. -/
  isDraw : b.isDraw = b'.isDraw
  /-- What is paid in all. -/
  totalPay : b.totalPay.value = b'.totalPay.value
  /-- The units. -/
  totalUnits : b.totalUnits.value = b'.totalUnits.value
  /-- The gross. -/
  totalGross : b.totalGross.value = b'.totalGross.value
  /-- The notes on the plan. -/
  warnings : b.warnings = b'.warnings

/-- Totals agree where the rational semantics pays the same. -/
theorem Breakdown.TotalsAgree.of_exact {b b' : Breakdown} {x x' : Exact.Pay} (hb : b.exact = x)
    (hb' : b'.exact = x') (h : { x with lines := [] } = { x' with lines := [] })
    (hw : b.warnings = b'.warnings) : b.TotalsAgree b' := by
  subst hb hb'
  simp only [Breakdown.exact, Exact.Pay.mk.injEq, Prod.mk.injEq, true_and] at h
  obtain ⟨hcommission, hbonus, ⟨hbase, hdraw⟩, htotal, hunits, hgross⟩ := h
  exact ⟨hcommission, hbonus, hbase, hdraw, htotal, hunits, hgross, hw⟩

/-! ## Spellings -/

/-- Two numbers with one exponent and one value are written alike, if they do not differ in the sign
of zero. -/
theorem Decimal.eq_of_value {x y : Decimal} (he : x.exponent = y.exponent)
    (hv : x.value = y.value) (hs : x.value = 0 → x.negative = y.negative) : x = y := by
  have hdigits : x.digits = y.digits := by
    have hpos := tenPow_pos y.exponent
    unfold value at hv
    rw [he] at hv
    exact_mod_cast mul_right_cancel₀ hpos.ne' hv
  have hc : x.coefficient = y.coefficient := by
    have habs := congrArg abs hdigits
    rw [abs_digits, abs_digits] at habs
    exact_mod_cast habs
  have hn : x.negative = y.negative := by
    by_cases hz : x.coefficient = 0
    · exact hs (value_eq_zero_iff.2 hz)
    · unfold digits at hdigits
      cases hx : x.negative <;> cases hy : y.negative <;> simp [hx, hy] at hdigits ⊢ <;> omega
  cases x
  cases y
  simp_all

/-! ## Offsets -/

namespace Decimal

/-- A number without digits has none at any place. -/
theorem signedAt_of_coefficient {d : Decimal} (h : d.coefficient = 0) (place : ℤ) :
    d.signedAt place = 0 := by
  simp [signedAt, scaled, h]

/-- The sum of two numbers without digits has none, and a sign only if both have it. -/
theorem exactSum_of_coefficient {x y : Decimal} (hx : x.coefficient = 0) (hy : y.coefficient = 0) :
    exactSum x y = ⟨x.negative && y.negative, 0, min x.exponent y.exponent⟩ := by
  simp [exactSum, signedAt_of_coefficient hx, signedAt_of_coefficient hy]

/-- Nothing added to the number zero leaves nothing, without a sign. -/
theorem negative_of_zero_add {d r : Decimal} (hd : d.coefficient = 0) (h : zero.add d = .ok r) :
    r.negative = false := by
  have hzero : zero.coefficient = 0 := rfl
  unfold add standIn at h
  rw [if_neg (not_and_of_not_left _ (not_not.2 hd)),
    if_neg (not_and_of_not_left _ (not_not.2 hzero)), ite_self, ite_self,
    exactSum_of_coefficient hzero hd] at h
  simp only [fit, if_pos, Except.ok.injEq] at h
  rw [← h]
  rfl

end Decimal

namespace BasePay

/-- The offset of a commission, taken from zero and brought to cents, has no sign where the
commission is nothing. -/
theorem negative_of_offset {commission : Decimal} {i : LineItem} (h : offset commission = .ok i)
    (hz : commission.value = 0) : i.amount.negative = false := by
  have hc : commission.neg.coefficient = 0 := by
    rw [← Decimal.value_eq_zero_iff, Decimal.value_neg, hz, neg_zero]
  obtain ⟨gap, cents, hgap, hcents, rfl⟩ := offset_eq_ok.1 h
  have hsign := Decimal.negative_of_zero_add hc hgap
  rcases Decimal.toCents_cases hcents with ⟨-, rfl⟩ | rfl
  · exact hsign
  · unfold Decimal.rescale
    split <;> exact hsign

/-- What an offset is for. -/
theorem description_of_offset {commission : Decimal} {i : LineItem}
    (h : offset commission = .ok i) :
    i.description = "Commission vs Draw" ∧ i.category = .drawOffset := by
  obtain ⟨-, -, -, -, rfl⟩ := offset_eq_ok.1 h
  exact ⟨rfl, rfl⟩

end BasePay

/-- The line that sets the commission against a draw takes it from nothing. -/
theorem Exact.amount_of_mem_lines {rules : List Rule} {sold : List Deal} :
    ∀ l ∈ (payFor rules sold).lines, l.category = .drawOffset →
      l.amount = -(payFor rules sold).commission := by
  intro l hl hc
  have apart : l ∉ (booked rules sold ++ (guaranteed (units sold .all)
      (subtotal .commission (booked rules sold)) (floors rules)).2).filter Line.isShown := by
    intro hmem
    rcases List.mem_append.1 (List.mem_of_mem_filter hmem) with hmem | hmem
    · have hearned := isEarned_of_mem_booked hmem
      rw [hc] at hearned
      cases hearned
    · rw [category_of_mem_guaranteed l hmem] at hc
      cases hc
  unfold payFor withOffset at hl
  simp only at hl
  split at hl
  · rcases mem_of_mem_insertAfterLast _ _ _ hl with rfl | hl
    · rfl
    · exact absurd hl apart
  · exact absurd hl apart

namespace Plan.Steps

variable (s : p.Steps deals b)
include s

/-- A line among the others that sets the commission against a draw is the offset of the
commission. -/
theorem offset_of_mem {i : LineItem} (hi : i ∈ b.items) (hc : i.category = .drawOffset) :
    BasePay.offset b.commission = .ok i := by
  have apart : i ∉ s.shown := by
    intro hmem
    rcases List.mem_append.1 (List.mem_of_mem_filter hmem) with hmem | hmem
    · have hearned := isEarned_of_mem_book s.book i hmem
      rw [hc] at hearned
      cases hearned
    · rw [(s.line_of_mem_added i hmem).1] at hc
      cases hc
  have hitems := s.items
  unfold withOffset at hitems
  split at hitems
  · simp only [bind_eq_ok, pure_eq_ok] at hitems
    obtain ⟨offset, hoffset, hitems⟩ := hitems
    rw [← hitems] at hi
    rcases mem_of_mem_insertAfterLast _ _ _ hi with rfl | hi
    · exact hoffset
    · exact absurd hi apart
  · rw [← Except.ok.inj hitems] at hi
    exact absurd hi apart

/-- Breakdowns with one commission have one offset. -/
theorem offset_eq {p' : Plan} {deals' : List Deal} {b' : Breakdown} (s' : p'.Steps deals' b')
    (hb : b.exact = Exact.evaluate p.rules deals) (hb' : b'.exact = Exact.evaluate p'.rules deals')
    (hcommission : b.commission.value = b'.commission.value) {i i' : LineItem} (hi : i ∈ b.items)
    (hc : i.category = .drawOffset) (hi' : i' ∈ b'.items) (hc' : i'.category = .drawOffset) :
    i = i' := by
  have hoffset := s.offset_of_mem hi hc
  have hoffset' := s'.offset_of_mem hi' hc'
  have hvalue : i.amount.value = -b.commission.value := by
    have hmem : i.exact ∈ b.exact.lines := List.mem_map_of_mem hi
    rw [hb] at hmem
    have hamount := Exact.amount_of_mem_lines i.exact hmem hc
    rwa [← Exact.evaluate, ← hb] at hamount
  have hvalue' : i'.amount.value = -b'.commission.value := by
    have hmem : i'.exact ∈ b'.exact.lines := List.mem_map_of_mem hi'
    rw [hb'] at hmem
    have hamount := Exact.amount_of_mem_lines i'.exact hmem hc'
    rwa [← Exact.evaluate, ← hb'] at hamount
  have hamount : i.amount = i'.amount := by
    apply Decimal.eq_of_value
    · rw [s.exponent_of_mem_items i hi, s'.exponent_of_mem_items i' hi']
    · rw [hvalue, hvalue', hcommission]
    · intro hz
      have hzero : b.commission.value = 0 := by linarith
      rw [BasePay.negative_of_offset hoffset hzero,
        BasePay.negative_of_offset hoffset' (hcommission ▸ hzero)]
  obtain ⟨hd, -⟩ := BasePay.description_of_offset hoffset
  obtain ⟨hd', -⟩ := BasePay.description_of_offset hoffset'
  cases i
  cases i'
  simp_all

end Plan.Steps

end DealerPay
