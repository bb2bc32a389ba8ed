import DealerPay.Proofs.Exact.Tiering

/-!
# How large pay becomes

Bounds of what ordinary rules pay for ordinary deals. They decide how many digits an evaluation
needs: no line is above `10 ^ 19`, there are fewer than `3 * 10 ^ 5` lines, so their sums stay below
`3 * 10 ^ 24`, which is `3 * 10 ^ 26` cents.

* `Exact.OrdinaryDeals.abs_amount_le`: the size of one line before it is rounded.
* `Exact.length_pay_le`, `Exact.length_booked_lt`: how many lines there are.
* `Exact.OrdinaryDeals.onGrid_of_mem_booked` and `Exact.OrdinaryDeals.onGrid_subtotal_booked`: the
  cents of a line and of the lines of a category.
-/

namespace DealerPay.Exact

variable {sold : List Deal} {rules : List Rule} {t : Terms}

/-- What ordinary tiers of units pay in one line, before rounding. -/
theorem abs_amount_unitTiers_le {s : Scope} (hu : OnGrid 4 (10 ^ 16) (units sold s))
    {tiers : List Tier} (ht : ∀ t ∈ tiers, t.IsOrdinary) {retroactive : Bool} {l : Line}
    (hl : l ∈ pay sold (.unitTiers s tiers retroactive)) : |l.amount| ≤ (10 ^ 19 : ℕ) := by
  cases retroactive with
  | true =>
    obtain ⟨t, hmem, rfl⟩ := List.mem_map.1 hl
    have hr := (ht t (mem_of_reached? (Option.mem_toList.1 hmem))).rate.onGrid
    exact (hu.mul hr).abs_le_natCast (by norm_num)
  | false =>
    obtain ⟨taken, hmem, rfl⟩ := List.mem_map.1 hl
    have hr := (ht taken.1 (mem_slices hmem).1).rate.onGrid
    exact ((onGrid_of_mem_slices hu ht hmem).mul hr).abs_le_natCast (by norm_num)

/-- What a rule pays in one line, before rounding. -/
theorem OrdinaryDeals.abs_amount_le (h : OrdinaryDeals sold) (ht : ∀ x ∈ t.figures, x.IsOrdinary)
    {l : Line} (hl : l ∈ pay sold t) : |l.amount| ≤ (10 ^ 19 : ℕ) := by
  cases t with
  | base amount isDraw =>
    rw [pay, List.mem_singleton] at hl
    subst hl
    exact (ht amount (by simp [Terms.figures])).onGrid.abs_le_natCast (by norm_num)
  | flatRate s perUnit =>
    rw [pay, List.mem_singleton] at hl
    subst hl
    have hr := (ht perUnit (by simp [Terms.figures])).onGrid
    exact ((h.onGrid_units s).mul hr).abs_le_natCast (by norm_num)
  | unitTiers s tiers retroactive =>
    have tier : ∀ t ∈ tiers, ∀ x ∈ t.figures, x.IsOrdinary := List.forall_mem_flatMap.1 ht
    exact abs_amount_unitTiers_le (h.onGrid_units s)
      (fun t h => Tier.isOrdinary_of_figures (tier t h)) hl
  | grossShare front back frontCap backCap =>
    obtain ⟨⟨hf, hfc⟩, hb, hbc⟩ := Terms.forall_mem_figures_grossShare ht
    rcases List.mem_cons.1 hl with rfl | hl
    · exact (h.onGrid_shares hf hfc fun d => by simp [Deal.figures]).abs_le_natCast (by norm_num)
    · rw [List.mem_singleton] at hl
      subst hl
      exact (h.onGrid_shares hb hbc fun d => by simp [Deal.figures]).abs_le_natCast (by norm_num)
  | grossTiers s tiers retroactive basis =>
    obtain ⟨t, hmem, rfl⟩ := List.mem_map.1 hl
    have htier := mem_of_reached? (Option.mem_toList.1 hmem)
    have hr : t.rate.IsOrdinary :=
      ht _ (List.mem_flatMap.2 ⟨t, htier, by simp [Tier.figures]⟩)
    exact (onGrid_percentage hr (h.onGrid_gross s basis)).abs_le_natCast (by norm_num)
  | volumeBonus s thresholds =>
    obtain ⟨t, hmem, rfl⟩ := List.mem_map.1 hl
    have ha : t.amount.IsOrdinary :=
      ht _ (List.mem_flatMap.2 ⟨t, mem_of_mem_reached hmem, by simp [Threshold.figures]⟩)
    exact ha.onGrid.abs_le_natCast (by norm_num)
  | addOn s accessory spiff tradeSpiff =>
    have percent : ∀ (percent : Decimal) (figure : Deal → Decimal), percent.IsOrdinary →
        (∀ d : Deal, figure d ∈ d.figures) →
        |percentage percent (total figure sold)| ≤ (10 ^ 19 : ℕ) := fun percent figure hp hf =>
      (onGrid_percentage hp (h.onGrid_total hf)).abs_le_natCast (by norm_num)
    simp only [pay, List.mem_cons, List.not_mem_nil, or_false] at hl
    rcases hl with rfl | rfl | rfl
    · exact percent _ _ (ht _ (by simp [Terms.figures])) fun d => by simp [Deal.figures]
    · exact percent _ _ (ht _ (by simp [Terms.figures])) fun d => by simp [Deal.figures]
    · exact percent _ _ (ht _ (by simp [Terms.figures])) fun d => by simp [Deal.figures]
  | guarantee perUnit => simp [pay] at hl

/-- A rule pays three lines at most, and one more for each further tier or threshold. -/
theorem length_pay_le (sold : List Deal) (t : Terms) : (pay sold t).length ≤ 3 * (1 + t.parts) := by
  have one : ∀ o : Option Tier, o.toList.length ≤ 1 := fun o => by cases o <;> simp
  cases t with
  | unitTiers s tiers retroactive =>
    cases retroactive with
    | true =>
      have := one (reached? (units sold s) tiers)
      simp only [pay, if_true, List.length_map, Terms.parts]
      omega
    | false =>
      have := length_slicesFrom_le (units sold s) 0 (sortedBy Tier.lower tiers)
      rw [length_sortedBy] at this
      simp only [pay, Bool.false_eq_true, if_false, List.length_map, Terms.parts, slices]
      omega
  | grossTiers s tiers retroactive basis =>
    have := one (reached? (units sold s) tiers)
    simp only [pay, List.length_map, Terms.parts]
    omega
  | volumeBonus s thresholds =>
    have : (reached Threshold.lower (units sold s) thresholds).length ≤ thresholds.length :=
      length_reached_le _ _
    simp only [pay, List.length_map, Terms.parts]
    omega
  | base | flatRate | grossShare | addOn | guarantee => simp [pay, Terms.parts]

/-- Rules with fewer than a hundred thousand parts pay fewer than three hundred thousand lines. -/
theorem length_booked_lt (sold : List Deal)
    (hn : (rules.map fun r => 1 + r.terms.parts).sum < 10 ^ 5) :
    (booked rules sold).length < 3 * 10 ^ 5 := by
  have hle : (rules.map fun r => (pay sold r.terms).length).sum ≤
      3 * (rules.map fun r => 1 + r.terms.parts).sum := by
    rw [← List.sum_map_mul_left]
    exact List.sum_le_sum fun r _ => length_pay_le sold r.terms
  rw [booked, List.length_map, List.length_flatMap]
  omega

/-- A line in cents. -/
theorem OrdinaryDeals.onGrid_of_mem_booked (h : OrdinaryDeals sold)
    (hr : ∀ r ∈ rules, ∀ x ∈ r.terms.figures, x.IsOrdinary) {l : Line}
    (hl : l ∈ booked rules sold) : OnGrid 2 (10 ^ 21) l.amount := by
  obtain ⟨l, hmem, rfl⟩ := List.mem_map.1 hl
  obtain ⟨r, hrule, hpay⟩ := List.mem_flatMap.1 hmem
  exact (OnGrid.cents (h.abs_amount_le (hr r hrule) hpay)).mono (by norm_num)

/-- The lines of a category are on the grid of all lines. -/
theorem onGrid_subtotal {lines : List Line} {m : ℕ} (h : ∀ l ∈ lines, OnGrid 2 m l.amount)
    (c : Category) : OnGrid 2 (lines.length * m) (subtotal c lines) := by
  have hsum : OnGrid 2 (((lines.filter fun l => l.category == c).map Line.amount).length * m)
      (subtotal c lines) := by
    apply OnGrid.sum
    intro x hx
    obtain ⟨l, hl, rfl⟩ := List.mem_map.1 hx
    exact h l (List.mem_of_mem_filter hl)
  refine hsum.mono (Nat.mul_le_mul_right m ?_)
  rw [List.length_map]
  exact List.length_filter_le _ _

/-- The booked lines of a category in cents. -/
theorem OrdinaryDeals.onGrid_subtotal_booked (h : OrdinaryDeals sold)
    (hr : ∀ r ∈ rules, ∀ x ∈ r.terms.figures, x.IsOrdinary)
    (hn : (rules.map fun r => 1 + r.terms.parts).sum < 10 ^ 5) (c : Category) :
    OnGrid 2 (3 * 10 ^ 26) (subtotal c (booked rules sold)) := by
  have hlen := length_booked_lt sold hn
  refine (onGrid_subtotal (fun l hl => h.onGrid_of_mem_booked hr hl) c).mono ?_
  omega

end DealerPay.Exact
