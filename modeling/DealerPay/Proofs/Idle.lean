import DealerPay.Proofs.Acceptance
import DealerPay.Proofs.Agreement
import DealerPay.Proofs.Completion.Evaluation
import DealerPay.Proofs.Growth
import DealerPay.Proofs.Layout
import DealerPay.Proofs.Totals

/-!
# Periods without sales

What a plan pays when nothing was delivered: salaries and draws, the bonuses that are due from no
units on, and nothing else.

* `Exact.due` are the lines that terms pay then. A threshold of zero units is reached without sales,
  so its bonus is among them (`Exact.reached_zero`).
* `Terms.earnings_idle`: without sales nothing is rounded before the lines are, whatever the figures
  of the rules are, so the earnings are those of the rational semantics.
* `Exact.filter_booked_nil`: but for commission of nothing, the lines booked are those that are due.
* `Plan.payFor_idle`: an evaluation has a result, however many rules there are; the running sum of
  the bonuses comes to a stop before it is too large.
* `Plan.evaluate_of_noSales` says what the result is. `standingBonus_pays` is a plan whose bonus for
  no units is paid.
-/

namespace DealerPay

variable {t : Terms} {rules : List Rule} {p : Plan} {deals : List Deal} {b : Breakdown}

/-! ## The idle period -/

/-- The period in which nothing was delivered. -/
def Period.idle : Period := ⟨[], .zero, .zero, .zero⟩

/-- Deals of which none is delivered make up the idle period. -/
theorem Period.ofDeals_of_noSales (h : Deal.delivered deals = []) : ofDeals deals = .ok idle := by
  unfold ofDeals
  rw [h]
  rfl

/-- There are no units in it. -/
@[simp] theorem Period.value_unitsOf_idle (s : Scope) : (idle.unitsOf s).value = 0 := by
  cases s with
  | all => exact Decimal.value_zero
  | only c => cases c <;> exact Decimal.value_zero

namespace Exact

/-- No deals have no figures. -/
theorem total_nil (figure : Deal → Decimal) : total figure [] = 0 := rfl

/-- No deals have no units. -/
@[simp] theorem units_nil (s : Scope) : units [] s = 0 := rfl

/-- No deals have no gross. -/
@[simp] theorem gross_nil (s : Scope) (basis : GrossBasis) : gross [] s basis = 0 := by
  cases basis <;> simp [gross, Deal.seen, total_nil]

/-! ## What is due -/

/-- What terms pay without sales, before rounding: a salary or draw, and the bonuses of the
thresholds that are zero. -/
def due : Terms → List Line
  | .base amount isDraw => [⟨if isDraw then .draw else .base, amount.value⟩]
  | .volumeBonus _ thresholds =>
    (thresholds.filter fun t => t.lower.isZero).map fun t => ⟨.bonus, t.amount.value⟩
  | _ => []

/-- The lines in cents that rules pay without sales, in the order of the rules. -/
def dueLines (rules : List Rule) : List Line :=
  (rules.flatMap fun r => due r.terms).map Line.inCents

/-- No units reach the bounds that are zero, in the order in which they are listed. -/
theorem reached_zero {α : Type} {bound : α → Decimal} {xs : List α}
    (h : ∀ x ∈ xs, 0 ≤ (bound x).value) :
    reached bound 0 xs = xs.filter fun x => (bound x).isZero := by
  have hzero : reached bound 0 xs = (sortedBy bound xs).filter fun x => (bound x).isZero := by
    apply List.filter_congr
    intro x hx
    rw [← Bool.coe_iff_coe, decide_eq_true_iff, Decimal.isZero_iff]
    have := h x (mem_sortedBy.1 hx)
    exact ⟨fun hle => le_antisymm hle this, le_of_eq⟩
  rw [hzero]
  -- sorting is stable, so items with one bound keep their order
  have hsorted : (xs.filter fun x => (bound x).isZero).Sublist (sortedBy bound xs) := by
    refine List.sublist_insertionSort (List.pairwise_iff_forall_sublist.2 ?_) List.filter_sublist
    intro x y hxy
    have hx := (List.mem_filter.1 (hxy.subset List.mem_cons_self)).2
    have hy := (List.mem_filter.1 (hxy.subset (List.mem_cons_of_mem x List.mem_cons_self))).2
    rw [Decimal.isZero_iff] at hx hy
    rw [hx, hy]
  have hsub := hsorted.filter fun x => (bound x).isZero
  rw [List.filter_filter] at hsub
  simp only [Bool.and_self] at hsub
  refine (hsub.eq_of_length ?_).symm
  exact ((List.perm_insertionSort _ xs).filter _).length_eq.symm

/-- Without sales terms pay what is due, or commission of nothing. -/
theorem pay_nil (h : t.IsWellFormed) :
    pay [] t = due t ∨ due t = [] ∧ ∀ l ∈ pay [] t, l = ⟨.commission, 0⟩ := by
  cases t with
  | base | guarantee => exact .inl rfl
  | volumeBonus s thresholds =>
    left
    rw [pay, units_nil, reached_zero fun t ht => (h t ht).lower]
    rfl
  | unitTiers s tiers retroactive =>
    refine .inr ⟨rfl, fun l hl => ?_⟩
    cases retroactive with
    | true =>
      obtain ⟨t, -, rfl⟩ := List.mem_map.1 hl
      simp
    | false =>
      obtain ⟨taken, htaken, -⟩ := List.mem_map.1 hl
      obtain ⟨-, hpos, hle⟩ := mem_slices htaken
      rw [units_nil] at hle
      exact absurd hpos (not_lt.2 hle)
  | grossTiers s tiers retroactive basis =>
    refine .inr ⟨rfl, fun l hl => ?_⟩
    obtain ⟨t, -, rfl⟩ := List.mem_map.1 hl
    simp [percentage]
  | flatRate | grossShare | addOn => exact .inr ⟨rfl, by simp [pay, percentage, total_nil]⟩

/-- But for commission of nothing, the lines that rules book without sales are those that are
due. -/
theorem filter_booked_nil (h : ∀ r ∈ rules, r.terms.IsWellFormed) {q : Line → Bool}
    (hq : q ⟨.commission, 0⟩ = false) : (booked rules []).filter q = (dueLines rules).filter q := by
  unfold booked dueLines
  induction rules with
  | nil => rfl
  | cons r rest ih =>
    obtain ⟨hr, hrest⟩ := List.forall_mem_cons.1 h
    simp only [List.flatMap_cons, List.map_append, List.filter_append, ih hrest]
    congr 1
    rcases pay_nil hr with heq | ⟨hdue, hzero⟩
    · rw [heq]
    · rw [hdue, List.filter_eq_nil_iff.2]
      · rfl
      · intro l hl
        obtain ⟨l', hl', rfl⟩ := List.mem_map.1 hl
        rw [hzero l' hl']
        simpa [Line.inCents] using hq

/-- A figure of the terms, or nothing, is what one line pays without sales. -/
theorem abs_amount_of_mem_pay_nil (ht : ∀ x ∈ t.figures, x.IsAmount) (hw : t.IsWellFormed) :
    ∀ l ∈ pay [] t, |l.amount| ≤ (10 ^ 15 : ℕ) := by
  intro l hl
  rcases pay_nil hw with heq | ⟨-, hzero⟩
  · rw [heq] at hl
    cases t with
    | base amount isDraw =>
      rw [List.mem_singleton.1 hl]
      exact_mod_cast (ht amount (by simp [Terms.figures])).abs_le
    | volumeBonus s thresholds =>
      obtain ⟨threshold, hmem, rfl⟩ := List.mem_map.1 hl
      have hfigure : threshold.amount ∈ (Terms.volumeBonus s thresholds).figures :=
        List.mem_flatMap.2 ⟨threshold, List.mem_of_mem_filter hmem, by simp [Threshold.figures]⟩
      exact_mod_cast (ht _ hfigure).abs_le
    | _ => cases hl
  · rw [hzero l hl]
    simp

/-- In cents, one line is on the grid of figures that were rounded. -/
theorem onGrid_of_mem_booked_nil (hr : ∀ r ∈ rules, ∀ x ∈ r.terms.figures, x.IsAmount)
    (hw : ∀ r ∈ rules, r.terms.IsWellFormed) :
    ∀ l ∈ booked rules [], OnGrid 2 (10 ^ 17) l.amount := by
  intro l hl
  obtain ⟨l', hl', rfl⟩ := List.mem_map.1 hl
  obtain ⟨r, hrule, hpay⟩ := List.mem_flatMap.1 hl'
  have hle := abs_amount_of_mem_pay_nil (hr r hrule) (hw r hrule) l' hpay
  exact (OnGrid.cents hle).mono (by norm_num)

/-- Without sales no commission is booked but nothing. -/
theorem amount_of_mem_booked_nil (hw : ∀ r ∈ rules, r.terms.IsWellFormed) :
    ∀ l ∈ booked rules [], l.category = .commission → l.amount = 0 := by
  intro l hl hc
  by_contra hne
  -- were it anything, it would be due, and no commission is
  have hmem : l ∈ (booked rules []).filter fun l => decide (l.amount ≠ 0) :=
    List.mem_filter.2 ⟨hl, decide_eq_true hne⟩
  rw [filter_booked_nil hw (by simp)] at hmem
  obtain ⟨l', hl', rfl⟩ := List.mem_map.1 (List.mem_of_mem_filter hmem)
  obtain ⟨r, -, hdue⟩ := List.mem_flatMap.1 hl'
  cases ht : r.terms with
  | base amount isDraw =>
    rw [ht, due, List.mem_singleton] at hdue
    subst hdue
    cases isDraw <;> cases hc
  | volumeBonus s thresholds =>
    rw [ht] at hdue
    obtain ⟨threshold, -, rfl⟩ := List.mem_map.1 hdue
    cases hc
  | _ =>
    rw [ht] at hdue
    cases hdue

end Exact

/-! ## Earnings -/

/-- Nothing times anything is nothing. -/
theorem Decimal.mul_of_zero {x y : Decimal} (h : x.value * y.value = 0) :
    Yields (x.mul y) fun r => r.value = 0 := by
  rw [← h]
  exact Decimal.mul_of_represents (h ▸ Decimal.working.represents_zero)

/-- So is every percentage of nothing. -/
theorem Decimal.percentOf_of_zero (percent : Decimal) {x : Decimal} (h : x.value = 0) :
    Yields (percentOf percent x) fun r => r.value = 0 := by
  have hmul : x.value * percent.value = 0 := by rw [h, zero_mul]
  have hdiv : x.value * percent.value / 100 = 0 := by rw [hmul, zero_div]
  refine (percentOf_of_represents (hmul ▸ working.represents_zero)
    (hdiv ▸ working.represents_zero)).mono ?_
  intro r hr
  rw [hr, hdiv]

/-- No units are not divided among tiers. -/
theorem Tier.slicesFrom_of_le {units accounted : Decimal} (h : units ≤ accounted)
    (tiers : List Tier) : slicesFrom units accounted tiers = .ok [] := by
  induction tiers with
  | nil => rfl
  | cons t rest ih => rw [slicesFrom, if_pos (.inl h), ih]

namespace Terms

/-- What a slice of no units earns. -/
theorem sliceEarning_idle (name : String) {s : Tier.Slice} (hu : s.units.value = 0)
    (hr : s.tier.rate.IsAmount) :
    Yields (sliceEarning name s) fun e => e.exact = ⟨.commission, 0⟩ := by
  unfold sliceEarning
  refine (Amount.plainText_of_isAmount hr).bind ?_
  intro shown _
  refine (Decimal.mul_of_zero (by rw [hu, zero_mul])).lift.bind ?_
  intro pay hpay
  apply Yields.pure
  rw [Earning.exact, hpay]

/-- What the tiers of units earn without sales. -/
theorem unitTierEarnings_idle (s : Scope) {tiers : List Tier}
    (ht : ∀ t ∈ tiers, ∀ x ∈ t.figures, x.IsAmount) (retroactive : Bool) :
    Yields (unitTierEarnings .idle s tiers retroactive) fun es =>
      es.map Earning.exact = Exact.pay [] (.unitTiers s tiers retroactive) := by
  unfold unitTierEarnings
  cases retroactive with
  | true =>
    rw [if_pos rfl, Tier.reached?_eq, Period.value_unitsOf_idle]
    show Yields _ fun es : List Earning => es.map Earning.exact =
      (Exact.reached? 0 tiers).toList.map fun t => (⟨.commission, 0 * t.rate.value⟩ : Exact.Line)
    cases hr : Exact.reached? 0 tiers with
    | none => exact .pure rfl
    | some t =>
      have hrate := ht t (Exact.mem_of_reached? hr) t.rate (by simp [Tier.figures])
      refine (sliceEarning_idle _ (s := ⟨t, Period.idle.unitsOf s⟩) (by simp) hrate).bind ?_
      intro e he
      apply Yields.pure
      rw [List.map_singleton, he, Option.toList_some, List.map_singleton, zero_mul]
  | false =>
    have hslices : Exact.slices 0 tiers = [] := List.eq_nil_iff_forall_not_mem.2 fun taken h => by
      obtain ⟨-, hpos, hle⟩ := Exact.mem_slices h
      exact absurd hpos (not_lt.2 hle)
    have hle : Period.idle.unitsOf s ≤ .zero := by
      rw [Decimal.le_iff, Period.value_unitsOf_idle, Decimal.value_zero]
    rw [if_neg Bool.false_ne_true, Tier.slices, Tier.slicesFrom_of_le hle]
    show Yields (.ok []) fun es : List Earning => es.map Earning.exact =
      (Exact.slices 0 tiers).map fun taken => (⟨.commission, _⟩ : Exact.Line)
    rw [hslices]
    exact .ok rfl

/-- What the tiers of gross earn without sales. -/
theorem grossTierEarnings_idle (s : Scope) {tiers : List Tier}
    (ht : ∀ t ∈ tiers, ∀ x ∈ t.figures, x.IsAmount) (retroactive : Bool) (basis : GrossBasis) :
    Yields (grossTierEarnings .idle s tiers retroactive basis) fun es =>
      es.map Earning.exact = Exact.pay [] (.grossTiers s tiers retroactive basis) := by
  show Yields _ fun es : List Earning => es.map Earning.exact =
    (Exact.reached? 0 tiers).toList.map fun t =>
      (⟨.commission, Exact.percentage t.rate (Exact.gross [] s basis)⟩ : Exact.Line)
  have hgross : Yields (GrossTotals.basis ⟨.zero, .zero⟩ basis) fun r => r.value = 0 := by
    cases basis with
    | front | back => exact .ok Decimal.value_zero
    | total => exact ⟨.zero, rfl, Decimal.value_zero⟩
  unfold grossTierEarnings
  rw [Tier.reached?_eq, Period.value_unitsOf_idle]
  refine Yields.bind_of_eq (a := ⟨.zero, .zero⟩) rfl ?_
  refine hgross.lift.bind ?_
  intro gross hzero
  cases hr : Exact.reached? 0 tiers with
  | none => exact .pure rfl
  | some t =>
    have hrate := ht t (Exact.mem_of_reached? hr) t.rate (by simp [Tier.figures])
    refine (Amount.plainText_of_isAmount hrate).bind ?_
    intro shown _
    refine (Decimal.percentOf_of_zero t.rate hzero).lift.bind ?_
    intro pay hpay
    apply Yields.pure
    rw [List.map_singleton, Earning.exact, hpay, Exact.gross_nil, Option.toList_some,
      List.map_singleton, Exact.percentage, zero_mul, zero_div]

/-- What a flat rate earns without sales. -/
theorem flatRateEarning_idle (s : Scope) (perUnit : Decimal) :
    Yields (flatRateEarning .idle s perUnit) fun e => e.exact = ⟨.commission, 0⟩ := by
  have hu := Period.value_unitsOf_idle s
  have hamount : (Period.idle.unitsOf s).IsAmount :=
    Decimal.isAmount_of_abs_le (by rw [hu, abs_zero]; norm_num)
  unfold flatRateEarning
  refine (Amount.plainText_of_isAmount hamount).bind ?_
  intro shown _
  refine (Decimal.mul_of_zero (by rw [hu, zero_mul])).lift.bind ?_
  intro pay hpay
  apply Yields.pure
  rw [Earning.exact, hpay]

/-- What the percentages of gross earn without sales. -/
theorem grossShareEarnings_idle {front back : Decimal} (hf : front.IsAmount) (hb : back.IsAmount)
    (frontCap backCap : Option Decimal) :
    Yields (grossShareEarnings .idle front back frontCap backCap) fun es =>
      es.map Earning.exact = [⟨.commission, 0⟩, ⟨.commission, 0⟩] := by
  unfold grossShareEarnings
  refine Yields.bind_of_eq (a := (.zero, .zero)) rfl ?_
  refine (Amount.plainText_of_isAmount hf).bind ?_
  intro frontText _
  refine (Amount.plainText_of_isAmount hb).bind ?_
  intro backText _
  apply Yields.pure
  simp [Earning.exact]

/-- What a threshold earns. -/
theorem thresholdEarning_of_isAmount (s : Scope) {t : Threshold} (ht : t.lower.IsAmount) :
    Yields (thresholdEarning s t) fun e => e.exact = ⟨.bonus, t.amount.value⟩ := by
  unfold thresholdEarning
  refine (Amount.plainText_of_isAmount ht).bind ?_
  intro shown _
  exact .pure rfl

/-- What the percentages of what is sold on top earn without sales. -/
theorem addOnEarnings_idle (accessory spiff tradeSpiff : Decimal) :
    Yields (addOnEarnings .idle accessory spiff tradeSpiff) fun es =>
      es.map Earning.exact = [⟨.commission, 0⟩, ⟨.commission, 0⟩, ⟨.commission, 0⟩] := by
  have shares : Yields (addOnShares accessory spiff tradeSpiff ⟨.zero, .zero, .zero⟩) fun r =>
      r.accessory.value = 0 ∧ r.spiff.value = 0 ∧ r.tradeSpiff.value = 0 := by
    unfold addOnShares
    refine (Decimal.percentOf_of_zero accessory Decimal.value_zero).bind ?_
    intro x hx
    refine (Decimal.percentOf_of_zero spiff Decimal.value_zero).bind ?_
    intro y hy
    refine (Decimal.percentOf_of_zero tradeSpiff Decimal.value_zero).bind ?_
    intro z hz
    exact .pure ⟨hx, hy, hz⟩
  unfold addOnEarnings
  refine Yields.bind_of_eq (a := ⟨.zero, .zero, .zero⟩) rfl ?_
  refine shares.lift.bind ?_
  rintro r ⟨hx, hy, hz⟩
  apply Yields.pure
  simp [Earning.exact, hx, hy, hz]

/-- What a rule earns without sales is what the rational semantics pays, whatever its figures
are. -/
theorem earnings_idle (ht : ∀ x ∈ t.figures, x.IsAmount) :
    Yields (t.earnings .idle) fun es => es.map Earning.exact = Exact.pay [] t := by
  cases t with
  | base amount isDraw => cases isDraw <;> exact .ok rfl
  | flatRate s perUnit =>
    refine (flatRateEarning_idle s perUnit).bind ?_
    intro e he
    apply Yields.pure
    rw [List.map_singleton, he, Exact.pay, Exact.units_nil, zero_mul]
  | unitTiers s tiers retroactive =>
    exact unitTierEarnings_idle s (List.forall_mem_flatMap.1 ht) retroactive
  | grossShare front back frontCap backCap =>
    obtain ⟨⟨hf, -⟩, hb, -⟩ := forall_mem_figures_grossShare ht
    exact grossShareEarnings_idle hf hb frontCap backCap
  | grossTiers s tiers retroactive basis =>
    exact grossTierEarnings_idle s (List.forall_mem_flatMap.1 ht) retroactive basis
  | volumeBonus s thresholds =>
    have lower : ∀ t ∈ Threshold.reached (Period.idle.unitsOf s) thresholds,
        Yields (thresholdEarning s t) fun e => e.exact = ⟨.bonus, t.amount.value⟩ := by
      intro t h
      rw [Threshold.reached_eq] at h
      exact thresholdEarning_of_isAmount s
        (ht _ (List.mem_flatMap.2 ⟨t, Exact.mem_of_mem_reached h, by simp [Threshold.figures]⟩))
    refine (Yields.mapM lower).mono ?_
    intro es hes
    rw [map_eq_map_of_forall₂ hes, Threshold.reached_eq, Period.value_unitsOf_idle]
    rfl
  | addOn s accessory spiff tradeSpiff =>
    refine (addOnEarnings_idle accessory spiff tradeSpiff).mono ?_
    intro es hes
    rw [hes]
    simp [Exact.pay, Exact.percentage, Exact.total_nil]
  | guarantee perUnit => exact .ok rfl

end Terms

/-! ## Evaluations -/

/-- The lines of a plan without sales are those of the rational semantics, whatever its figures
are. -/
theorem Plan.book_idle (hr : ∀ r ∈ p.rules, ∀ x ∈ r.terms.figures, x.IsAmount) :
    Yields (p.book .idle) fun items => items.map LineItem.exact = Exact.booked p.rules [] := by
  apply Plan.book_of_rules
  intro r hrule
  apply Terms.book_of_earnings (Terms.earnings_idle (hr r hrule))
  intro l hl
  exact (Exact.abs_amount_of_mem_pay_nil (hr r hrule) (p.isWellFormed r hrule) l hl).trans
    (by norm_num)

/-- Lines of nothing add up to nothing. -/
theorem subtotal_of_zero {items : List LineItem} {c : Category}
    (h : ∀ i ∈ items, i.category = c → i.amount.value = 0) :
    Yields (subtotal c items) fun r => r.value = 0 := by
  have hzero : ∀ d ∈ (items.filter fun i => i.category == c).map (·.amount), d.value = 0 := by
    intro d hd
    obtain ⟨i, hi, rfl⟩ := List.mem_map.1 hd
    obtain ⟨hmem, hc⟩ := List.mem_filter.1 hi
    exact h i hmem (eq_of_beq hc)
  have hsum : ∀ front, front <+: (items.filter fun i => i.category == c).map (·.amount) →
      (front.map Decimal.value).sum = 0 := by
    intro front hfront
    apply List.sum_eq_zero
    intro x hx
    obtain ⟨d, hd, rfl⟩ := List.mem_map.1 hx
    exact hzero d (hfront.subset hd)
  unfold subtotal
  refine (Decimal.sum_of_represents fun front hfront =>
    hsum front hfront ▸ Decimal.working.represents_zero).mono ?_
  intro r hr
  rw [hr, hsum _ List.prefix_rfl]

/-- What a plan pays without sales is computed to the end, however many rules it has. -/
theorem Plan.payFor_idle (hr : ∀ r ∈ p.rules, ∀ x ∈ r.terms.figures, x.IsAmount) :
    Yields (p.payFor .idle) fun _ => True := by
  have hw := p.isWellFormed
  unfold Plan.payFor
  refine (Plan.book_idle hr).bind ?_
  intro items hitems
  have hline : ∀ i ∈ items, |i.amount.value| ≤ (10 ^ 15 : ℕ) := by
    intro i hi
    have hgrid := Exact.onGrid_of_mem_booked_nil hr hw i.exact (hitems ▸ List.mem_map_of_mem hi)
    exact hgrid.abs_le_natCast (by norm_num)
  have hcommission : ∀ i ∈ items, i.category = .commission → i.amount.value = 0 := fun i hi hc =>
    Exact.amount_of_mem_booked_nil hw i.exact (hitems ▸ List.mem_map_of_mem hi) hc
  have hbonuses : Yields (subtotal .bonus items) fun r => |r.value| ≤ 10 ^ 28 * 10 ^ 15 := by
    refine Decimal.sum_stalls ?_ (by norm_num)
    intro d hd
    obtain ⟨i, hi, rfl⟩ := List.mem_map.1 hd
    exact_mod_cast hline i (List.mem_of_mem_filter hi)
  refine (subtotal_of_zero hcommission).lift.bind ?_
  intro earned hearned
  refine hbonuses.lift.bind ?_
  intro bonus hbonus
  have hzero : earned.IsCommission := Decimal.isCommission_of_abs_le (by rw [hearned]; norm_num)
  have hbase : |(BasePay.ofItems items).amount.value| ≤ 10 ^ 38 :=
    BasePay.abs_ofItems_le fun i hi => (hline i hi).trans (by norm_num)
  refine Yields.bind_of_eq (a := (earned, [])) rfl ?_
  refine (withOffset_bounded _ hzero _).lift.bind ?_
  intro shown _
  refine (BasePay.settle_bounded hbase hzero (hbonus.trans (by norm_num))).lift.bind ?_
  intro totalPay _
  exact Yields.bind_of_eq (a := ⟨.zero, .zero⟩) rfl
    (Yields.bind_of_eq (a := .zero) rfl (.pure trivial))

/-- Without sales there is no gross. -/
theorem Plan.totalGross_of_noSales (h : p.evaluate deals = .ok b)
    (hnone : Deal.delivered deals = []) : b.totalGross = .zero := by
  simp only [evaluate, payFor, bind_eq_ok, liftM_eq_ok, pure_eq_ok] at h
  obtain ⟨period, hperiod, -, -, -, -, -, -, -, -, -, -, -, -, g, hg, totalGross, htotal, rfl⟩ := h
  cases (Period.ofDeals_of_noSales hnone).symm.trans hperiod
  cases hg
  cases htotal
  rfl

/-- A line that sets a commission of nothing against a draw is worth nothing. -/
theorem BasePay.amount_of_offset {commission : Decimal} {i : LineItem}
    (h : offset commission = .ok i) (hc : commission.value = 0) : i.amount.value = 0 := by
  obtain ⟨gap, cents, hgap, hcents, rfl⟩ := offset_eq_ok.1 h
  have hzero : Decimal.zero.value - commission.value = 0 := by rw [hc, Decimal.value_zero, sub_zero]
  have hvalue := (Decimal.sub_of_represents
    (hzero ▸ Decimal.working.represents_zero)).of_eq hgap
  show cents.value = 0
  rw [Decimal.value_of_toCents hcents, hvalue, hzero, nearestCent_zero]

namespace Plan.Steps

variable (s : p.Steps deals b) (hr : ∀ r ∈ p.rules, ∀ x ∈ r.terms.figures, x.IsAmount)
  (hnone : Deal.delivered deals = [])
include s hnone

/-- Without sales, the period is the idle one. -/
theorem period_eq_idle : s.period = .idle :=
  Except.ok.inj (s.ofDeals.symm.trans (Period.ofDeals_of_noSales hnone))

/-- Without sales, the guarantees add nothing. -/
theorem guarantees_idle : b.commission = s.earned ∧ s.added = [] := by
  have h : (.ok (s.earned, []) : Except Signal (Decimal × List LineItem)) =
      .ok (b.commission, s.added) := by
    rw [← s.guarantees, s.period_eq_idle hnone]
    rfl
  rw [Except.ok.injEq, Prod.mk.injEq] at h
  exact ⟨h.1.symm, h.2.symm⟩

include hr

/-- Without sales, the lines are those of the rational semantics. -/
theorem exact_booked_idle : s.booked.map LineItem.exact = Exact.booked p.rules [] :=
  (Plan.book_idle hr).of_eq (s.period_eq_idle hnone ▸ s.book)

/-- Without sales, a line that is booked is one of the rational semantics. -/
theorem mem_booked_idle {i : LineItem} (hi : i ∈ s.booked) : i.exact ∈ Exact.booked p.rules [] :=
  s.exact_booked_idle hr hnone ▸ List.mem_map_of_mem hi

/-- Without sales, the commission is nothing. -/
theorem commission_idle : b.commission.value = 0 := by
  rw [(s.guarantees_idle hnone).1]
  refine (subtotal_of_zero fun i hi hc => ?_).of_eq s.subtotal_commission
  exact Exact.amount_of_mem_booked_nil p.isWellFormed i.exact (s.mem_booked_idle hr hnone hi) hc

/-- Without sales, the lines are those that are due, but for offsets. -/
theorem exact_items_idle :
    (b.items.filter fun i => i.category != .drawOffset).map LineItem.exact =
      (Exact.dueLines p.rules).filter Exact.Line.isShown := by
  have hshown : s.shown.filter (fun i => i.category != .drawOffset) = s.shown := by
    rw [List.filter_eq_self]
    intro i hi
    have hmem := List.mem_of_mem_filter hi
    rw [(s.guarantees_idle hnone).2, List.append_nil] at hmem
    have hearned := isEarned_of_mem_book s.book i hmem
    cases hc : i.category <;> rw [hc] at hearned <;> first | rfl | cases hearned
  rw [s.filter_items fun i hi => by rw [hi]; rfl, hshown, shown, (s.guarantees_idle hnone).2,
    List.append_nil, ← Exact.filter_booked_nil p.isWellFormed rfl,
    ← s.exact_booked_idle hr hnone, List.filter_map]
  congr 2
  funext i
  exact i.isShown_exact.symm

/-- Without sales, the salary or draw is that of the rules. -/
theorem base_idle : (b.basePay.value, b.isDraw) = Exact.basePay p.rules := by
  rw [← BasePay.exact_ofItems (s.exact_booked_idle hr hnone), s.base]
  rfl

/-- Without sales, the bonuses are those that are due, as long as they are fewer than a billion. -/
theorem bonus_idle
    (hcount : (Exact.dueLines p.rules).countP (fun l => l.category == .bonus) < 10 ^ 9) :
    b.bonus.value = Exact.subtotal .bonus (Exact.dueLines p.rules) ∧
      OnGrid 2 (10 ^ 26) b.bonus.value := by
  let amounts : List Decimal := (s.booked.filter fun i => i.category == .bonus).map (·.amount)
  have hdue : (s.booked.filter fun i => i.category == .bonus).map LineItem.exact =
      (Exact.dueLines p.rules).filter fun l => l.category == .bonus := by
    rw [← Exact.filter_booked_nil p.isWellFormed rfl, ← s.exact_booked_idle hr hnone,
      List.filter_map]
    rfl
  have hgrid : ∀ d ∈ amounts, OnGrid 2 (10 ^ 17) d.value := by
    intro d hd
    obtain ⟨i, hi, rfl⟩ := List.mem_map.1 hd
    have hmem := s.mem_booked_idle hr hnone (List.mem_of_mem_filter hi)
    exact Exact.onGrid_of_mem_booked_nil hr p.isWellFormed i.exact hmem
  have hlen : amounts.length < 10 ^ 9 := by
    rwa [List.length_map, ← List.length_map LineItem.exact, hdue, ← List.countP_eq_length_filter]
  have hsum : b.bonus.value = (amounts.map Decimal.value).sum :=
    (Decimal.sum_of_onGrid hgrid (by omega) (by norm_num)).of_eq s.subtotal_bonus
  have hvalues : OnGrid 2 ((amounts.map Decimal.value).length * 10 ^ 17) b.bonus.value :=
    hsum ▸ OnGrid.sum fun x hx => by
      obtain ⟨d, hd, rfl⟩ := List.mem_map.1 hx
      exact hgrid d hd
  refine ⟨?_, hvalues.mono (by rw [List.length_map]; omega)⟩
  rw [hsum, Exact.subtotal, ← hdue, List.map_map, List.map_map]
  rfl

/-- Without sales, what is paid in all is the salary or draw and the bonuses. -/
theorem totalPay_idle
    (hcount : (Exact.dueLines p.rules).countP (fun l => l.category == .bonus) < 10 ^ 9) :
    b.totalPay.value = b.basePay.value + b.bonus.value := by
  have hbasePay : b.basePay.value = (Exact.basePay p.rules).1 :=
    congrArg Prod.fst (s.base_idle hr hnone)
  have hpos : 0 ≤ b.basePay.value := hbasePay ▸ Exact.basePay_nonneg p.isWellFormed
  have hbase : OnGrid 2 (10 ^ 15 * 100) b.basePay.value :=
    hbasePay ▸ Exact.onGrid_basePay_of_abs_le fun r hrule x hx => by
      exact_mod_cast (hr r hrule x hx).abs_le
  have hbonus := (s.bonus_idle hr hnone hcount).2
  have hzero := s.commission_idle hr hnone
  cases hd : b.isDraw with
  | true =>
    have h := (s.totalPay_eq_iff_of_draw hd).2
    rw [hzero, max_eq_left hpos] at h
    exact h ((hbase.add hbonus).represents (by norm_num) (by norm_num))
  | false =>
    have h := (s.totalPay_eq_iff_of_salary hd
      (by rw [hzero, zero_add]; exact hbonus.represents (by norm_num) (by norm_num))).2
    rw [hzero, zero_add, add_comm] at h
    exact h ((hbase.add hbonus).represents (by norm_num) (by norm_num))

end Plan.Steps

/-- A plan pays without sales what is due then. There is a line for each salary or draw and for each
bonus whose threshold is zero, and for nothing else but an offset of nothing. Commission, units and
gross are nothing, and what is paid in all is the salary or draw and these bonuses. -/
theorem Plan.evaluate_of_noSales (hread : ∀ r ∈ p.rules, r.IsRead)
    (hnone : Deal.delivered deals = []) :
    ∃ b, p.evaluate deals = .ok b ∧
      (b.items.filter fun i => i.category != .drawOffset).map LineItem.exact =
        (Exact.dueLines p.rules).filter Exact.Line.isShown ∧
      b.items.countP (fun i => i.category == .drawOffset) ≤ 1 ∧
      (∀ i ∈ b.items, i.category = .drawOffset → i.amount.value = 0) ∧
      b.commission.value = 0 ∧ b.totalUnits.value = 0 ∧ b.totalGross.value = 0 ∧
      (b.basePay.value, b.isDraw) = Exact.basePay p.rules ∧
      ((Exact.dueLines p.rules).countP (fun l => l.category == .bonus) < 10 ^ 9 →
        b.bonus.value = Exact.subtotal .bonus (Exact.dueLines p.rules) ∧
          b.totalPay.value = b.basePay.value + b.bonus.value) := by
  have hr : ∀ r ∈ p.rules, ∀ x ∈ r.terms.figures, x.IsAmount := fun r hrule =>
    (hread r hrule).isAmount
  obtain ⟨b, hb, -⟩ := Plan.payFor_idle hr
  have heval : p.evaluate deals = .ok b := by
    unfold Plan.evaluate
    rw [Period.ofDeals_of_noSales hnone]
    exact hb
  obtain ⟨s⟩ := Plan.exists_steps heval
  obtain ⟨blocks, added, l⟩ := s.exists_layout
  have hzero := s.commission_idle hr hnone
  refine ⟨b, heval, s.exact_items_idle hr hnone, l.countP_le_one, fun i hi hc =>
    BasePay.amount_of_offset (s.offset_of_mem hi hc) hzero, hzero, ?_, ?_, s.base_idle hr hnone,
    fun hcount => ⟨(s.bonus_idle hr hnone hcount).1, s.totalPay_idle hr hnone hcount⟩⟩
  · rw [← s.units, s.period_eq_idle hnone]
    exact Decimal.value_zero
  · rw [Plan.totalGross_of_noSales heval hnone, Decimal.value_zero]

/-- A draw and a bonus for no units, among rules that need sales. -/
def Plan.standing : Plan where
  rules :=
    [⟨"", .flatRate .all (.ofNat 100)⟩,
     ⟨"", .volumeBonus .all [⟨.ofNat 5, .ofNat 50⟩, ⟨.zero, .ofNat 500⟩]⟩,
     ⟨"", .base (.ofNat 1000) true⟩,
     ⟨"", .guarantee (.ofNat 150)⟩]
  sound := by decide +kernel

/-- A deal that is not delivered. -/
def Deal.pending : Deal := { Deal.ordinary with status := .pending }

/-- The rules of the plan were read. -/
theorem Plan.isRead_of_mem_standing : ∀ r ∈ Plan.standing.rules, r.IsRead := by
  intro r hr
  simp only [Plan.standing, List.mem_cons, List.not_mem_nil, or_false] at hr
  rcases hr with rfl | rfl | rfl | rfl
  · exact ⟨.direct, .flatRate, [("amount_per_unit", .int 100)],
      Reading.result?_eq_some_iff.1 (by decide +kernel)⟩
  · exact ⟨.direct, .volumeBonus,
      [("thresholds", .list [.object [("from", .int 5), ("amount", .int 50)],
        .object [("amount", .int 500)]])],
      Reading.result?_eq_some_iff.1 (by decide +kernel)⟩
  · exact ⟨.direct, .base, [("amount", .int 1000), ("is_draw", .bool true)],
      Reading.result?_eq_some_iff.1 (by decide +kernel)⟩
  · exact ⟨.direct, .guarantee, [("amount_per_unit", .int 150)],
      Reading.result?_eq_some_iff.1 (by decide +kernel)⟩

/-- Its draw and its bonus for no units are due without sales. -/
theorem Exact.dueLines_standing :
    dueLines Plan.standing.rules = [⟨.bonus, 500⟩, ⟨.draw, 1000⟩] := by
  have h500 : nearestCent 500 = 500 := nearestCent_of_cents (n := 50000) (by norm_num)
  have h1000 : nearestCent 1000 = 1000 := nearestCent_of_cents (n := 100000) (by norm_num)
  simp [dueLines, due, Plan.standing, Line.inCents, Decimal.isZero, Decimal.ofNat, Decimal.zero,
    Decimal.value, Decimal.digits, h500, h1000]

/-- The plan pays its draw and its bonus for no units for a deal that is not delivered. -/
theorem evaluate_standing :
    ∃ b, Plan.standing.evaluate [Deal.pending] = .ok b ∧
      (b.items.filter fun i => i.category != .drawOffset).map LineItem.exact =
        [⟨.bonus, 500⟩, ⟨.draw, 1000⟩] ∧
      b.basePay.value = 1000 ∧ b.bonus.value = 500 ∧ b.totalPay.value = 1500 := by
  have hnone : Deal.delivered [Deal.pending] = [] := by decide
  obtain ⟨b, hb, hitems, -, -, -, -, -, hbase, htotal⟩ :=
    Plan.evaluate_of_noSales Plan.isRead_of_mem_standing hnone
  rw [Exact.dueLines_standing] at hitems htotal
  have hcount : [(⟨.bonus, 500⟩ : Exact.Line), ⟨.draw, 1000⟩].countP
      (fun l => l.category == .bonus) < 10 ^ 9 := by simp
  obtain ⟨hbonus, htotal⟩ := htotal hcount
  have h1000 : nearestCent 1000 = 1000 := nearestCent_of_cents (n := 100000) (by norm_num)
  have hbasePay : b.basePay.value = 1000 := by
    refine (congrArg Prod.fst hbase).trans ?_
    simp [Exact.basePay, Exact.base?, Plan.standing, h1000]
  have hbonus : b.bonus.value = 500 := by
    rw [hbonus]
    simp [Exact.subtotal]
  refine ⟨b, hb, ?_, hbasePay, hbonus, ?_⟩
  · rw [hitems]
    simp [Exact.Line.isShown]
  · rw [htotal, hbasePay, hbonus]
    norm_num

/-- A plan with nothing but a bonus for no units. -/
def standingBonus : Plan where
  rules := [⟨"", .volumeBonus .all [⟨.zero, .ofNat 500⟩]⟩]
  sound := by decide +kernel

/-- What the plan pays without sales. -/
def standingBonusPay : Breakdown where
  items := [⟨"Unit Bonus (>=0 units)", ⟨false, 50000, -2⟩, .bonus⟩]
  totalPay := ⟨false, 50000, -2⟩
  totalUnits := .zero
  totalGross := .zero
  commission := .zero
  bonus := ⟨false, 50000, -2⟩
  basePay := .zero
  isDraw := false
  warnings := []

/-- Without sales, a plan may pay a bonus, and more than its salary or draw. -/
theorem standingBonus_pays :
    Deal.delivered [] = [] ∧ standingBonus.evaluate [] = .ok standingBonusPay ∧
      (∃ i ∈ standingBonusPay.items, i.category = .bonus) ∧ standingBonusPay.bonus.value ≠ 0 ∧
      standingBonusPay.totalPay.value ≠ standingBonusPay.basePay.value := by
  refine ⟨rfl, eq_ok_of_toOption (by decide +kernel), by decide, ?_, ?_⟩
  · rw [Ne, Decimal.value_eq_zero_iff]
    decide
  · show _ ≠ Decimal.zero.value
    rw [Decimal.value_zero, Ne, Decimal.value_eq_zero_iff]
    decide

end DealerPay
