import DealerPay.Proofs.Exact.Growth

/-!
# Rules with higher rates over the rationals

Two rules are compared that differ in what they pay at most: one has amounts, percentages, rates and
caps that are not lower, at the same bounds. Line by line it pays no less for the same deals.

* `Terms.AtMost` is the comparison, with a case for each kind of rule; `Tier.AtMost`,
  `Threshold.AtMost` and `CapAtMost` are those of their parts.
* `Exact.sortedBy_rel` and `Exact.reached_rel`: items that are compared bound by bound stay so when
  they are sorted and when some of them are reached.
* `Exact.slicesFrom_rel`: tiers at the same bounds take the same slices.
* `Exact.cents_le_of_atMost`: what the terms of a rule pay in cents is no less at higher rates.
-/

namespace DealerPay

/-! ## Higher rates -/

/-- Whether a tier has the bounds of another one, and at most its rate. -/
structure Tier.AtMost (t t' : Tier) : Prop where
  /-- Both start at the same units. -/
  lower : t.lower.value = t'.lower.value
  /-- Both end at the same units, or neither ends. -/
  upper : t.upper.map Decimal.value = t'.upper.map Decimal.value
  /-- The rate of the second is not lower. -/
  rate : t.rate.value ≤ t'.rate.value

/-- Whether a threshold is where another one is, and has at most its bonus. -/
structure Threshold.AtMost (t t' : Threshold) : Prop where
  /-- Both are at the same units. -/
  lower : t.lower.value = t'.lower.value
  /-- The bonus of the second is not lower. -/
  amount : t.amount.value ≤ t'.amount.value

/-- Whether a cap is at most another one: neither caps anything, or both do and the second is not
lower. -/
inductive CapAtMost : Option Decimal → Option Decimal → Prop
  /-- Neither is a cap. -/
  | uncapped {cap cap' : Option Decimal} (h : ∀ c ∈ cap, c.value ≤ 0)
    (h' : ∀ c ∈ cap', c.value ≤ 0) : CapAtMost cap cap'
  /-- Both are caps. -/
  | capped {most most' : Decimal} (h : 0 < most.value) (h' : most.value ≤ most'.value) :
    CapAtMost (some most) (some most')

/-- Whether terms differ from others in nothing but lower amounts, percentages, rates and caps. -/
inductive Terms.AtMost : Terms → Terms → Prop
  /-- Salaries, or draws. -/
  | base {amount amount' : Decimal} (isDraw : Bool) (h : amount.value ≤ amount'.value) :
    AtMost (base amount isDraw) (base amount' isDraw)
  /-- Amounts for each unit. -/
  | flatRate {perUnit perUnit' : Decimal} (s : Scope) (h : perUnit.value ≤ perUnit'.value) :
    AtMost (flatRate s perUnit) (flatRate s perUnit')
  /-- Tiers of units. -/
  | unitTiers {tiers tiers' : List Tier} (s : Scope) (retroactive : Bool)
    (h : List.Forall₂ Tier.AtMost tiers tiers') :
    AtMost (unitTiers s tiers retroactive) (unitTiers s tiers' retroactive)
  /-- Percentages of gross. -/
  | grossShare {front front' back back' : Decimal}
    {frontCap frontCap' backCap backCap' : Option Decimal} (hfront : front.value ≤ front'.value)
    (hback : back.value ≤ back'.value) (hfrontCap : CapAtMost frontCap frontCap')
    (hbackCap : CapAtMost backCap backCap') :
    AtMost (grossShare front back frontCap backCap) (grossShare front' back' frontCap' backCap')
  /-- Tiers of gross. -/
  | grossTiers {tiers tiers' : List Tier} (s : Scope) (retroactive : Bool) (basis : GrossBasis)
    (h : List.Forall₂ Tier.AtMost tiers tiers') :
    AtMost (grossTiers s tiers retroactive basis) (grossTiers s tiers' retroactive basis)
  /-- Thresholds. -/
  | volumeBonus {thresholds thresholds' : List Threshold} (s : Scope)
    (h : List.Forall₂ Threshold.AtMost thresholds thresholds') :
    AtMost (volumeBonus s thresholds) (volumeBonus s thresholds')
  /-- Percentages of what is sold on top. -/
  | addOn {accessory accessory' spiff spiff' tradeSpiff tradeSpiff' : Decimal} (s : Scope)
    (haccessory : accessory.value ≤ accessory'.value) (hspiff : spiff.value ≤ spiff'.value)
    (htradeSpiff : tradeSpiff.value ≤ tradeSpiff'.value) :
    AtMost (addOn s accessory spiff tradeSpiff) (addOn s accessory' spiff' tradeSpiff')
  /-- Guarantees. -/
  | guarantee {perUnit perUnit' : Decimal} (h : perUnit.value ≤ perUnit'.value) :
    AtMost (guarantee perUnit) (guarantee perUnit')

namespace Exact

variable {sold : List Deal}

/-! ## Percentages and caps -/

/-- A percentage of what is not below zero is no less at a higher rate. -/
theorem percentage_le_of_rate {percent percent' : Decimal} (h : percent.value ≤ percent'.value)
    {x : ℚ} (hx : 0 ≤ x) : percentage percent x ≤ percentage percent' x := by
  have := mul_le_mul_of_nonneg_left h hx
  unfold percentage
  linarith

/-- More is no less under a cap that is not lower. -/
theorem capped_mono {cap cap' : Option Decimal} (h : CapAtMost cap cap') {x y : ℚ} (hxy : x ≤ y) :
    capped cap x ≤ capped cap' y := by
  cases h with
  | uncapped hcap hcap' => rwa [capped_of_nonpos hcap, capped_of_nonpos hcap']
  | @capped most most' hpos hmost =>
    show (if 0 < most.value then _ else _) ≤ if 0 < most'.value then _ else _
    rw [if_pos hpos, if_pos (hpos.trans_le hmost)]
    exact min_le_min hxy hmost

/-- Shares of deals whose gross is not below zero add up to no less at a higher rate and under a cap
that is not lower. -/
theorem sum_share_le {percent percent' : Decimal} (h : percent.value ≤ percent'.value)
    {cap cap' : Option Decimal} (hcap : CapAtMost cap cap') {figure : Deal → Decimal}
    (hfigure : ∀ d ∈ sold, 0 ≤ (figure d).value) :
    (sold.map fun d => share percent cap (figure d)).sum ≤
      (sold.map fun d => share percent' cap' (figure d)).sum :=
  List.sum_le_sum fun d hd => capped_mono hcap (percentage_le_of_rate h (hfigure d hd))

/-! ## Items at the same bounds -/

section Bounds

variable {α : Type} {R : α → α → Prop} {bound : α → Decimal} {xs ys : List α}

/-- Items that are compared bound by bound stay so when they are sorted. -/
theorem sortedBy_rel (hR : ∀ x y, R x y → (bound x).value = (bound y).value)
    (h : List.Forall₂ R xs ys) : List.Forall₂ R (sortedBy bound xs) (sortedBy bound ys) := by
  have insert : ∀ {x y : α} {xs ys : List α}, R x y → List.Forall₂ R xs ys →
      List.Forall₂ R (xs.orderedInsert (fun a b => (bound a).value ≤ (bound b).value) x)
        (ys.orderedInsert (fun a b => (bound a).value ≤ (bound b).value) y) := by
    intro x y xs ys hxy hrest
    induction hrest with
    | nil => exact .cons hxy .nil
    | @cons a b as bs hab has ih =>
      rw [List.orderedInsert_cons, List.orderedInsert_cons, hR x y hxy, hR a b hab]
      split
      · exact .cons hxy (.cons hab has)
      · exact .cons hab ih
  induction h with
  | nil => exact .nil
  | cons hxy _ ih => exact insert hxy ih

/-- Of items that are compared bound by bound the same ones are reached. -/
theorem reached_rel (hR : ∀ x y, R x y → (bound x).value = (bound y).value)
    (h : List.Forall₂ R xs ys) (u : ℚ) :
    List.Forall₂ R (reached bound u xs) (reached bound u ys) :=
  List.rel_filter (fun x y hxy => by simp only [hR x y hxy]) (sortedBy_rel hR h)

/-- Lists that are compared item by item end alike. -/
theorem getLast?_rel (h : List.Forall₂ R xs ys) : Option.Rel R xs.getLast? ys.getLast? := by
  have hreverse := List.forall₂_reverse_iff.2 h
  rw [List.getLast?_eq_head?_reverse, List.getLast?_eq_head?_reverse]
  generalize xs.reverse = xs', ys.reverse = ys' at hreverse
  cases hreverse with
  | nil => exact .none
  | cons hxy _ => exact .some hxy

end Bounds

/-- Of tiers that are compared bound by bound the same one is reached, wherever they end. -/
theorem reached?_rel {R : Tier → Tier → Prop} (hR : ∀ t t', R t t' → t.lower.value = t'.lower.value)
    {tiers tiers' : List Tier} (h : List.Forall₂ R tiers tiers') (u : ℚ) :
    Option.Rel R (reached? u tiers) (reached? u tiers') :=
  getLast?_rel (reached_rel hR h u)

/-- A ceiling is the same for a tier with the same bounds. -/
theorem ceiling_eq {t t' : Tier} (h : t.AtMost t') (u : ℚ) : ceiling t u = ceiling t' u := by
  have hupper := h.upper
  unfold ceiling
  cases ht : t.upper with
  | none =>
    rw [ht, Option.map_none, eq_comm, Option.map_eq_none_iff] at hupper
    rw [hupper]
  | some upper =>
    rw [ht, Option.map_some, eq_comm, Option.map_eq_some_iff] at hupper
    obtain ⟨upper', ht', hvalue⟩ := hupper
    rw [ht']
    simp only [hvalue]

/-- Tiers at the same bounds take the same slices. -/
theorem slicesFrom_rel {tiers tiers' : List Tier} (h : List.Forall₂ Tier.AtMost tiers tiers')
    (u a : ℚ) :
    List.Forall₂ (fun s s' : Tier × ℚ => s.1.AtMost s'.1 ∧ 0 ≤ s.2 ∧ s.2 = s'.2)
      (slicesFrom u a tiers) (slicesFrom u a tiers') := by
  induction h generalizing a with
  | nil => exact .nil
  | @cons t t' rest rest' ht _ ih =>
    rw [slicesFrom, slicesFrom, ht.lower, ceiling_eq ht]
    split
    · next hreach => exact .cons ⟨ht, (sub_pos.2 hreach.2).le, rfl⟩ (ih _)
    · exact ih a

/-! ## Rules -/

/-- What the tier that is reached pays in cents is no less if its rate is not lower. -/
theorem reachedPay_le {tiers tiers' : List Tier} (h : List.Forall₂ Tier.AtMost tiers tiers')
    (u : ℚ) {worth : Tier → ℚ}
    (hworth : ∀ t t' : Tier, t.rate.value ≤ t'.rate.value → worth t ≤ worth t') :
    ((reached? u tiers).map fun t => nearestCent (worth t)).getD 0 ≤
      ((reached? u tiers').map fun t => nearestCent (worth t)).getD 0 := by
  have hrel := reached?_rel (fun _ _ ht => ht.lower) h u
  generalize reached? u tiers = o, reached? u tiers' = o' at hrel
  cases hrel with
  | none => exact le_rfl
  | some ht => exact nearestCent_mono (hworth _ _ ht.rate)

/-- What terms pay in cents is no less at higher rates, where no figure of the deals is below
zero. -/
theorem cents_le_of_atMost (h : Deal.NoneNegative sold) {t t' : Terms} (ht : t.AtMost t') :
    cents sold t ≤ cents sold t' := by
  unfold cents
  cases ht with
  | base isDraw hamount =>
    simp only [pay, List.map_cons, List.map_nil, List.sum_cons, List.sum_nil, add_zero]
    exact nearestCent_mono hamount
  | flatRate s hrate =>
    simp only [pay, List.map_cons, List.map_nil, List.sum_cons, List.sum_nil, add_zero]
    exact nearestCent_mono (mul_le_mul_of_nonneg_left hrate (units_nonneg h s))
  | unitTiers s retroactive htiers =>
    cases retroactive with
    | true =>
      simp only [pay, if_pos, sum_reached?]
      exact reachedPay_le htiers _ fun t t' hrate =>
        mul_le_mul_of_nonneg_left hrate (units_nonneg h s)
    | false =>
      have hslices := slicesFrom_rel (sortedBy_rel (fun _ _ ht => ht.lower) htiers)
        (units sold s) 0
      simp only [pay, Bool.false_eq_true, if_false, List.map_map]
      apply List.Forall₂.sum_le_sum
      rw [List.forall₂_map_left_iff, List.forall₂_map_right_iff]
      refine hslices.imp ?_
      rintro s s' ⟨ht, hpos, hunits⟩
      refine nearestCent_mono ?_
      show s.2 * s.1.rate.value ≤ s'.2 * s'.1.rate.value
      rw [← hunits]
      exact mul_le_mul_of_nonneg_left ht.rate hpos
  | grossShare hfront hback hfrontCap hbackCap =>
    simp only [pay, List.map_cons, List.map_nil, List.sum_cons, List.sum_nil, add_zero]
    refine add_le_add (nearestCent_mono ?_) (nearestCent_mono ?_)
    · exact sum_share_le hfront hfrontCap fun d hd => h d hd _ (by simp [Deal.figures])
    · exact sum_share_le hback hbackCap fun d hd => h d hd _ (by simp [Deal.figures])
  | grossTiers s retroactive basis htiers =>
    simp only [pay, sum_reached?]
    exact reachedPay_le htiers _ fun t t' hrate =>
      percentage_le_of_rate hrate (gross_nonneg h s basis)
  | volumeBonus s hthresholds =>
    simp only [pay, List.map_map]
    apply List.Forall₂.sum_le_sum
    rw [List.forall₂_map_left_iff, List.forall₂_map_right_iff]
    exact (reached_rel (fun _ _ ht => ht.lower) hthresholds _).imp fun _ _ ht =>
      nearestCent_mono ht.amount
  | addOn s haccessory hspiff htradeSpiff =>
    have hpart : ∀ {percent percent' : Decimal} {figure : Deal → Decimal},
        percent.value ≤ percent'.value → (∀ d : Deal, figure d ∈ d.figures) →
        nearestCent (percentage percent (total figure sold)) ≤
          nearestCent (percentage percent' (total figure sold)) := fun hle hf =>
      nearestCent_mono (percentage_le_of_rate hle (total_nonneg h hf))
    simp only [pay, List.map_cons, List.map_nil, List.sum_cons, List.sum_nil, add_zero]
    exact add_le_add (hpart haccessory fun d => by simp [Deal.figures])
      (add_le_add (hpart hspiff fun d => by simp [Deal.figures])
        (hpart htradeSpiff fun d => by simp [Deal.figures]))
  | guarantee => exact le_rfl

end Exact

end DealerPay
