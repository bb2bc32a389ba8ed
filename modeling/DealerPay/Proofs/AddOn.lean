import DealerPay.Proofs.Completion.Evaluation

/-!
# Add-ons in previews and evaluations

An evaluation takes the add-on totals of all delivered deals, whatever the scope of the rule. A
preview leaves out the rules whose scope does not admit the deal. For a plan of nothing but add-ons,
the two therefore agree as far as the scopes do.

The figures may have any number of digits: an evaluation first rounds the total of each figure, and
the percentage of what it has rounded. Where a component is a whole number of cents and not too
large, what was rounded away is far less than half a cent, and the line is the component.

* `Exact.IsCents` are whole cents below ten million.
* `Decimal.percentOf_of_isCents` is the percentage in a preview, which is exact, and
  `Decimal.percentOf_close` the one in an evaluation, which is close.
* `Plan.preview_addOns` and `Plan.evaluate_addOns` are what the two paths pay.
* `Plan.preview_and_evaluate_addOns` puts them side by side; `scopedAddOn_preview_ne_evaluate` is
  where they differ.
-/

namespace DealerPay

variable {p : Plan} {d : Deal}

/-- Whether a component is a whole number of cents of size below ten million. -/
def Exact.IsCents (x : ℚ) : Prop := (∃ n : ℤ, x = n / 100) ∧ |x| < 10 ^ 7

/-- Such a component is on the grid of two decimals. -/
theorem Exact.IsCents.onGrid {x : ℚ} (h : Exact.IsCents x) : OnGrid 2 (10 ^ 9) x := by
  obtain ⟨⟨n, rfl⟩, hlt⟩ := h
  refine OnGrid.of_abs_le (m := n.natAbs) ⟨n, by norm_num, by simp⟩ (hlt.le.trans ?_)
  norm_num

namespace Decimal

variable {percent x : Decimal}

/-! ## Percentages -/

/-- A percentage that is whole cents is exact, whatever the digits of its factors are: the product is
an integer. -/
theorem percentOf_of_isCents (h : Exact.IsCents (Exact.percentage percent x.value)) :
    Yields (percentOf percent x) fun r => r.value = Exact.percentage percent x.value := by
  have hgrid := h.onGrid
  have hproduct : OnGrid 0 (10 ^ 9) (x.value * percent.value) := by
    obtain ⟨n, hn, hle⟩ := hgrid
    refine ⟨n, ?_, hle⟩
    unfold Exact.percentage at hn
    norm_num at hn ⊢
    linarith
  exact percentOf_of_represents (hproduct.represents (by norm_num) (by norm_num))
    (hgrid.represents (by norm_num) (by norm_num))

/-- Whether a number is as close to another one as working precision allows. -/
def IsClose (y x : Decimal) : Prop :=
  |y.value - x.value| ≤ 5 / 10 ^ 28 * |x.value| + 2 / 10 ^ 100

/-- The total of a single figure is close to it. -/
theorem sum_singleton_close (h : x.IsAmount) : Yields (sum [x]) fun r => r.IsClose x := by
  have hsum : ∃ s : Decimal, zero.add x = s.fit working ∧ s.value = x.value := by
    have hzero : (standIn working x zero).value = 0 := by
      unfold standIn
      split
      · rw [value_eq_zero_iff]
        rfl
      · exact value_zero
    have hself : standIn working zero x = x := if_neg fun hfar => hfar.1 rfl
    unfold add
    simp only
    split
    · exact ⟨_, rfl, by rw [value_exactSum, hself, value_zero, zero_add]⟩
    · split
      · exact ⟨_, rfl, by rw [value_exactSum, hzero, zero_add]⟩
      · exact ⟨_, rfl, by rw [value_exactSum, value_zero, zero_add]⟩
  obtain ⟨s, hs, hv⟩ := hsum
  have hfit := fit_close (k := 15) (by norm_num) (hv ▸ h.abs_le)
  rw [hv, ← hs] at hfit
  unfold sum
  rw [List.foldlM_cons]
  exact hfit.bind fun r hr => .pure hr

/-- A percentage of a number close to `x` is within a thousandth of the percentage of `x`, where that
is not too large. -/
theorem percentOf_close {y : Decimal} (hp : percent.IsAmount)
    (hx : |Exact.percentage percent x.value| < 10 ^ 7)
    (hy : y.IsClose x) :
    Yields (percentOf percent y) fun r =>
      |r.value - Exact.percentage percent x.value| ≤ 1 / 1000 := by
  have hproduct : |x.value * percent.value| ≤ 10 ^ 9 := by
    unfold Exact.percentage at hx
    rw [abs_div, abs_of_pos (by norm_num : (0 : ℚ) < 100), div_lt_iff₀ (by norm_num)] at hx
    linarith
  have hfirst : |y.value * percent.value - x.value * percent.value| ≤ 1 / 10 ^ 6 := by
    have hpercent := hp.abs_le
    rw [← sub_mul, abs_mul]
    calc |y.value - x.value| * |percent.value|
        ≤ (5 / 10 ^ 28 * |x.value| + 2 / 10 ^ 100) * |percent.value| :=
          mul_le_mul_of_nonneg_right hy (abs_nonneg _)
      _ = 5 / 10 ^ 28 * |x.value * percent.value| + 2 / 10 ^ 100 * |percent.value| := by
          rw [abs_mul]
          ring
      _ ≤ 5 / 10 ^ 28 * 10 ^ 9 + 2 / 10 ^ 100 * 10 ^ 15 := by gcongr
      _ ≤ 1 / 10 ^ 6 := by norm_num
  have hlarge : |y.value * percent.value| ≤ 10 ^ 10 := by
    have := abs_sub_abs_le_abs_sub (y.value * percent.value) (x.value * percent.value)
    linarith
  unfold percentOf
  refine (fit_close (d := exactProduct y percent) (k := 10) (by norm_num)
    (by rwa [value_exactProduct])).bind ?_
  intro r hr
  rw [value_exactProduct] at hr
  have hr' : |r.value - y.value * percent.value| ≤ 1 / 10 ^ 6 := hr.trans (by linarith)
  have hrsize : |r.value / 100| ≤ 10 ^ 10 := by
    have := abs_sub_abs_le_abs_sub r.value (y.value * percent.value)
    rw [abs_div, abs_of_pos (by norm_num : (0 : ℚ) < 100), div_le_iff₀ (by norm_num)]
    linarith
  refine (fit_close (d := r.exactHundredth) (k := 10) (by norm_num)
    (by rwa [value_exactHundredth])).mono ?_
  intro z hz
  rw [value_exactHundredth] at hz
  have hz' : |z.value - r.value / 100| ≤ 1 / 10 ^ 6 := hz.trans (by linarith)
  unfold Exact.percentage
  rw [abs_le] at hfirst hr' hz' ⊢
  constructor <;> linarith [hfirst.1, hfirst.2, hr'.1, hr'.2, hz'.1, hz'.2]

end Decimal

/-! ## The preview -/

/-- What an add-on contributes to a preview. -/
theorem Terms.previewShare_addOn {s : Scope} {accessory spiff tradeSpiff : Decimal}
    (h : ∀ x ∈ Exact.components d (.addOn s accessory spiff tradeSpiff), Exact.IsCents x) :
    Yields ((addOn s accessory spiff tradeSpiff).previewShare d) fun r =>
      r.value = (Exact.components d (.addOn s accessory spiff tradeSpiff)).sum ∧
        OnGrid 2 (3 * 10 ^ 9) r.value := by
  simp only [Exact.components, List.forall_mem_cons] at h
  obtain ⟨h1, h2, h3, -⟩ := h
  simp only [previewShare, addOnShares, AddOnTotals.ofDeal, bind_assoc, pure_bind]
  refine (Decimal.percentOf_of_isCents h1).bind ?_
  intro x hx
  refine (Decimal.percentOf_of_isCents h2).bind ?_
  intro y hy
  refine (Decimal.percentOf_of_isCents h3).bind ?_
  intro z hz
  have hgrid : ∀ v ∈ [x, y, z], OnGrid 2 (10 ^ 9) v.value := by
    intro v hv
    simp only [List.mem_cons, List.not_mem_nil, or_false] at hv
    rcases hv with rfl | rfl | rfl
    · exact hx ▸ h1.onGrid
    · exact hy ▸ h2.onGrid
    · exact hz ▸ h3.onGrid
  refine (Decimal.sum_of_onGrid hgrid (by norm_num) (by norm_num)).mono ?_
  intro r hr
  constructor
  · rw [hr, Exact.components, List.map_cons, List.map_cons, List.map_cons, hx, hy, hz]
    rfl
  · rw [hr]
    refine (OnGrid.sum (k := 2) (m := 10 ^ 9) ?_).mono (by simp)
    intro v hv
    obtain ⟨v, hmem, rfl⟩ := List.mem_map.1 hv
    exact hgrid v hmem

/-- The components of one of the rules are among those of all. -/
theorem Exact.mem_allComponents {rules : List Rule} {r : Rule} (hr : r ∈ rules) {x : ℚ}
    (hx : x ∈ Exact.components d r.terms) : x ∈ Exact.allComponents d rules :=
  List.mem_flatMap.2 ⟨r, hr, hx⟩

/-- The terms of an add-on. -/
theorem Rule.exists_of_kind_addOn {r : Rule} (h : r.kind = .addOn) :
    ∃ s accessory spiff tradeSpiff, r.terms = .addOn s accessory spiff tradeSpiff := by
  unfold kind at h
  cases ht : r.terms with
  | addOn s accessory spiff tradeSpiff => exact ⟨s, accessory, spiff, tradeSpiff, rfl⟩
  | _ =>
    rw [ht] at h
    cases h

/-- Add-ons guarantee nothing. -/
theorem Plan.floors_of_addOns (hp : ∀ r ∈ p.rules, r.kind = .addOn) : p.floors = [] := by
  apply List.filterMap_eq_nil_iff.2
  intro r hr
  obtain ⟨s, accessory, spiff, tradeSpiff, ht⟩ := Rule.exists_of_kind_addOn (hp r hr)
  rw [ht]
  rfl

/-- A preview of add-ons is the sum of the components of the rules whose scope admits the deal. -/
theorem Plan.preview_addOns (hp : ∀ r ∈ p.rules, r.kind = .addOn)
    (hc : ∀ x ∈ Exact.allComponents d p.rules, Exact.IsCents x) (hn : p.rules.length < 10 ^ 5) :
    Yields (p.preview d) fun r => r.value = (Exact.allComponents d (p.rulesFor d)).sum := by
  have share : ∀ r ∈ p.rulesFor d, Yields (r.terms.previewShare d) fun x =>
      x.value = (Exact.components d r.terms).sum ∧ OnGrid 2 (3 * 10 ^ 9) x.value := by
    intro r hr
    have hrule := List.mem_of_mem_filter hr
    have hcents := fun x hx => hc x (Exact.mem_allComponents hrule hx)
    obtain ⟨s, accessory, spiff, tradeSpiff, ht⟩ := Rule.exists_of_kind_addOn (hp r hrule)
    rw [ht] at hcents ⊢
    exact Terms.previewShare_addOn hcents
  have hlen : (p.rulesFor d).length ≤ p.rules.length := List.length_filter_le _ _
  unfold Plan.preview
  rw [Plan.floors_of_addOns hp]
  refine (Yields.mapM share).bind ?_
  intro shares hshares
  have hvalues : shares.map Decimal.value =
      (p.rulesFor d).map fun r => (Exact.components d r.terms).sum :=
    map_eq_map_of_forall₂ (hshares.imp fun _ _ h => h.1)
  have hgrid : ∀ x ∈ shares, OnGrid 2 (3 * 10 ^ 9) x.value :=
    forall_mem_of_forall₂ hshares fun _ _ h => h.2
  have hcount : shares.length < 10 ^ 5 := by
    rw [← hshares.length_eq]
    omega
  refine (Decimal.sum_of_onGrid hgrid (by omega) (by norm_num)).bind ?_
  intro sum hsum
  have htotal : OnGrid 2 (10 ^ 15) sum.value := by
    have hsumGrid : OnGrid 2 ((shares.map Decimal.value).length * (3 * 10 ^ 9))
        (shares.map Decimal.value).sum := by
      apply OnGrid.sum
      intro v hv
      obtain ⟨x, hx, rfl⟩ := List.mem_map.1 hv
      exact hgrid x hx
    rw [List.length_map] at hsumGrid
    rw [hsum]
    exact hsumGrid.mono (by omega)
  refine (Decimal.toCents_of_onGrid htotal (by norm_num)).mono ?_
  rintro r ⟨hr, -⟩
  have hflat : (Exact.allComponents d (p.rulesFor d)).sum =
      ((p.rulesFor d).map fun r => (Exact.components d r.terms).sum).sum := by
    rw [Exact.allComponents, List.flatMap_def, List.sum_flatten, List.map_map]
    rfl
  show r.value = _
  rw [hr, hflat, ← hvalues, ← hsum]
  exact htotal.nearestCent_eq

/-! ## The evaluation -/

variable {period : Period}

/-- The line of an earning close to whole cents is those cents. -/
theorem Earning.book_of_near {e : Earning} {x : ℚ} (hx : Exact.IsCents x)
    (h : |e.amount.value - x| ≤ 1 / 1000) :
    Yields e.book fun i => i.exact = ⟨e.category, x⟩ := by
  have hlt : |e.amount.value| < 10 ^ 48 - 1 / 200 := by
    have := abs_sub_abs_le_abs_sub e.amount.value x
    have := hx.2
    linarith
  unfold Earning.book
  refine (Decimal.toCents_of_abs_lt hlt).bind ?_
  rintro cents ⟨hcents, -⟩
  apply Yields.pure
  rw [LineItem.exact, hcents, nearestCent_of_near hx.1 (h.trans_lt (by norm_num))]

/-- The lines of earnings of one category that are close to whole cents are those cents. -/
theorem Earning.mapM_book_of_near {c : Category} {es : List Earning} {xs : List ℚ}
    (h : List.Forall₂ (fun (e : Earning) x => e.category = c ∧ Exact.IsCents x ∧
      |e.amount.value - x| ≤ 1 / 1000) es xs) :
    Yields (es.mapM fun e => (liftM e.book : Except Failure LineItem)) fun items =>
      items.map LineItem.exact = xs.map (Exact.Line.mk c) := by
  induction h with
  | nil => exact .pure rfl
  | cons he _ ih =>
    obtain ⟨hcategory, hcents, hnear⟩ := he
    rw [List.mapM_cons]
    refine (Earning.book_of_near hcents hnear).lift.bind ?_
    intro i hi
    refine ih.bind ?_
    intro items hitems
    apply Yields.pure
    rw [List.map_cons, List.map_cons, hitems, hi, hcategory]

/-- The totals of a single deal are close to its figures. -/
theorem AddOnTotals.ofDeals_close (hd : ∀ x ∈ d.figures, x.IsAmount) :
    Yields (AddOnTotals.ofDeals [d]) fun t =>
      t.accessory.IsClose d.accessory ∧ t.spiff.IsClose d.spiffs ∧
        t.tradeSpiff.IsClose d.tradeSpiff := by
  unfold AddOnTotals.ofDeals
  refine (Decimal.sum_singleton_close (hd _ (by simp [Deal.figures]))).bind ?_
  intro x hx
  refine (Decimal.sum_singleton_close (hd _ (by simp [Deal.figures]))).bind ?_
  intro y hy
  refine (Decimal.sum_singleton_close (hd _ (by simp [Deal.figures]))).bind ?_
  intro z hz
  exact .pure ⟨hx, hy, hz⟩

/-- The lines of an add-on in the evaluation of one deal are its components, whatever its scope
is. -/
theorem Terms.book_addOn (hperiod : period.delivered = [d]) (hd : ∀ x ∈ d.figures, x.IsAmount)
    {s : Scope} {accessory spiff tradeSpiff : Decimal}
    (ht : ∀ x ∈ (addOn s accessory spiff tradeSpiff).figures, x.IsAmount)
    (h : ∀ x ∈ Exact.components d (.addOn s accessory spiff tradeSpiff), Exact.IsCents x) :
    Yields ((addOn s accessory spiff tradeSpiff).book period) fun items =>
      items.map LineItem.exact =
        (Exact.components d (.addOn s accessory spiff tradeSpiff)).map
          (Exact.Line.mk .commission) := by
  simp only [Exact.components, List.forall_mem_cons] at h
  obtain ⟨h1, h2, h3, -⟩ := h
  simp only [figures, List.forall_mem_cons] at ht
  obtain ⟨ha, hs, htr, -⟩ := ht
  have earned : Yields ((addOn s accessory spiff tradeSpiff).earnings period) fun es =>
      List.Forall₂ (fun (e : Earning) x => e.category = .commission ∧ Exact.IsCents x ∧
        |e.amount.value - x| ≤ 1 / 1000) es
        (Exact.components d (.addOn s accessory spiff tradeSpiff)) := by
    unfold earnings addOnEarnings addOnShares
    rw [hperiod]
    refine (AddOnTotals.ofDeals_close hd).lift.bind ?_
    rintro t ⟨hx, hy, hz⟩
    refine Yields.bind (Yields.lift ?_) fun shares hshares => .pure hshares
    refine (Decimal.percentOf_close ha h1.2 hx).bind ?_
    intro x hx
    refine (Decimal.percentOf_close hs h2.2 hy).bind ?_
    intro y hy
    refine (Decimal.percentOf_close htr h3.2 hz).bind ?_
    intro z hz
    exact .pure (.cons ⟨rfl, h1, hx⟩ (.cons ⟨rfl, h2, hy⟩ (.cons ⟨rfl, h3, hz⟩ .nil)))
  unfold Terms.book
  exact earned.bind fun es hes => Earning.mapM_book_of_near hes

/-- The lines of a plan of add-ons in the evaluation of one deal are the components of all rules. -/
theorem Plan.book_addOns (hperiod : period.delivered = [d]) (hd : ∀ x ∈ d.figures, x.IsAmount)
    (hr : ∀ r ∈ p.rules, ∀ x ∈ r.terms.figures, x.IsAmount)
    (hp : ∀ r ∈ p.rules, r.kind = .addOn)
    (hc : ∀ x ∈ Exact.allComponents d p.rules, Exact.IsCents x) :
    Yields (p.book period) fun items =>
      items.map LineItem.exact =
        (Exact.allComponents d p.rules).map (Exact.Line.mk .commission) := by
  have book : ∀ r ∈ p.rules, Yields (r.terms.book period) fun items =>
      items.map LineItem.exact =
        (Exact.components d r.terms).map (Exact.Line.mk .commission) := by
    intro r hrule
    have hcents := fun x hx => hc x (Exact.mem_allComponents hrule hx)
    have hfigures := hr r hrule
    obtain ⟨s, accessory, spiff, tradeSpiff, ht⟩ := Rule.exists_of_kind_addOn (hp r hrule)
    rw [ht] at hcents hfigures ⊢
    exact Terms.book_addOn hperiod hd hfigures hcents
  unfold Plan.book
  refine (Yields.mapM book).bind ?_
  intro books hbooks
  apply Yields.pure
  rw [List.map_flatten, map_eq_map_of_forall₂ hbooks, Exact.allComponents, List.flatMap_def,
    List.map_flatten, List.map_map]
  rfl

/-- Lines of commission hold no salary and no draw. -/
theorem BasePay.ofItems_of_commission {items : List LineItem}
    (h : ∀ i ∈ items, i.category = .commission) : ofItems items = none := by
  have hnone : items.filter LineItem.isBase = [] := by
    apply List.filter_eq_nil_iff.2
    intro i hi
    unfold LineItem.isBase
    rw [h i hi]
    decide
  unfold ofItems
  rw [hnone]
  rfl

/-- A rule pays three components for a deal at most. -/
theorem Exact.length_allComponents_le (d : Deal) (rules : List Rule) :
    (allComponents d rules).length ≤ 3 * rules.length := by
  have one : ∀ t : Terms, (components d t).length ≤ 3 := by
    intro t
    cases t with
    | flatRate s perUnit =>
      simp only [components]
      split
      · exact Nat.le_add_left 1 2
      · exact Nat.zero_le 3
    | grossShare | addOn => simp [components]
    | base | unitTiers | grossTiers | volumeBonus | guarantee => exact Nat.zero_le _
  induction rules with
  | nil => exact Nat.zero_le _
  | cons r rest ih =>
    have := one r.terms
    rw [allComponents, List.flatMap_cons, List.length_append, List.length_cons, ← allComponents]
    omega

/-- Add-ons have no tiers and no thresholds. -/
theorem Plan.parts_of_addOns (hp : ∀ r ∈ p.rules, r.kind = .addOn) :
    (p.rules.map fun r => 1 + r.terms.parts).sum = p.rules.length := by
  have hone : ∀ r ∈ p.rules, 1 + r.terms.parts = 1 := by
    intro r hr
    obtain ⟨s, accessory, spiff, tradeSpiff, ht⟩ := Rule.exists_of_kind_addOn (hp r hr)
    rw [ht]
    rfl
  rw [List.map_congr_left hone, List.map_const', List.sum_replicate, smul_eq_mul, mul_one]

/-- Nothing is added to a commission where nothing is guaranteed. -/
theorem guaranteed_nil (units commission : Decimal) :
    guaranteed units commission [] = .ok (commission, []) := by
  unfold guaranteed
  split <;> rfl

/-- Where there is neither salary nor draw, nor a bonus, the commission is what is paid. -/
theorem BasePay.settle_none {commission bonus : Decimal}
    (hcommission : OnGrid 2 (10 ^ 15) commission.value) (hbonus : bonus.value = 0) :
    Yields (BasePay.none.settle commission bonus) fun r => r.value = commission.value := by
  show Yields (commission.add bonus >>= fun x => x.add Decimal.zero) _
  have hzero : OnGrid 2 0 bonus.value := hbonus ▸ .zero
  refine (Decimal.add_of_onGrid hcommission hzero (by norm_num) (by norm_num)).bind ?_
  intro x hx
  rw [hbonus, add_zero] at hx
  have hnothing : OnGrid 2 0 Decimal.zero.value := Decimal.value_zero ▸ .zero
  refine (Decimal.add_of_onGrid (hx ▸ hcommission) hnothing (by norm_num) (by norm_num)).mono ?_
  intro r hr
  rw [hr, hx, Decimal.value_zero, add_zero]

section Commission

variable {items : List LineItem} {xs : List ℚ}
  (hlines : items.map LineItem.exact = xs.map (Exact.Line.mk .commission))
include hlines

/-- Lines of commission are of that category. -/
theorem category_of_lines : ∀ l ∈ items.map LineItem.exact, l.category = .commission := by
  rw [hlines]
  intro l hl
  obtain ⟨x, -, rfl⟩ := List.mem_map.1 hl
  rfl

/-- Lines of commission hold no salary and no draw. -/
theorem BasePay.ofItems_of_lines : BasePay.ofItems items = BasePay.none :=
  BasePay.ofItems_of_commission fun i hi =>
    category_of_lines hlines i.exact (List.mem_map_of_mem hi)

variable (hc : ∀ x ∈ xs, Exact.IsCents x) (hn : xs.length ≤ 3 * 10 ^ 5)
include hc hn

/-- Lines in whole cents are added up exactly, whatever the category. -/
theorem subtotal_of_lines (c : Category) :
    Yields (subtotal c items) fun r =>
      r.value = Exact.subtotal c (items.map LineItem.exact) := by
  have hgrid : ∀ l ∈ items.map LineItem.exact, OnGrid 2 (10 ^ 9) l.amount := by
    rw [hlines]
    intro l hl
    obtain ⟨x, hx, rfl⟩ := List.mem_map.1 hl
    exact (hc x hx).onGrid
  have hlength := congrArg List.length hlines
  rw [List.length_map, List.length_map] at hlength
  exact subtotal_exact hgrid (by omega) c

/-- Lines of commission in whole cents add up to the commission. -/
theorem subtotal_commission_of_lines :
    Yields (subtotal .commission items) fun r => r.value = xs.sum := by
  refine (subtotal_of_lines hlines hc hn .commission).mono fun r hr => ?_
  have hsum : (items.map LineItem.exact).map Exact.Line.amount = xs := by
    rw [hlines, List.map_map]
    exact List.map_id _
  rwa [Exact.subtotal_of_forall (category_of_lines hlines), hsum] at hr

/-- Lines of commission add nothing to the bonuses. -/
theorem subtotal_bonus_of_lines : Yields (subtotal .bonus items) fun r => r.value = 0 := by
  refine (subtotal_of_lines hlines hc hn .bonus).mono fun r hr => ?_
  rwa [Exact.subtotal_of_forall_ne fun l hl => by
    rw [category_of_lines hlines l hl]; decide] at hr

end Commission

/-- An evaluation of a deal by add-ons is the sum of the components of all rules. -/
theorem Plan.evaluate_addOns (hsold : d.isDelivered = true) (hd : Amounts [d])
    (hr : ∀ r ∈ p.rules, ∀ x ∈ r.terms.figures, x.IsAmount)
    (hp : ∀ r ∈ p.rules, r.kind = .addOn)
    (hc : ∀ x ∈ Exact.allComponents d p.rules, Exact.IsCents x) (hn : p.rules.length < 10 ^ 5) :
    Yields (p.evaluate [d]) fun b =>
      b.totalPay.value = (Exact.allComponents d p.rules).sum := by
  have hparts : (p.rules.map fun r => 1 + r.terms.parts).sum < 10 ^ 9 := by
    rw [Plan.parts_of_addOns hp]
    omega
  obtain ⟨b, hb, -⟩ := Plan.evaluate_bounded hd hr hparts
  obtain ⟨s⟩ := Plan.exists_steps hb
  refine ⟨b, hb, ?_⟩
  have hdelivered : Deal.delivered [d] = [d] := List.filter_eq_self.2 (by simpa using hsold)
  have hperiod : s.period.delivered = [d] := by
    have hof := (Period.ofDeals_bounded (hd.filter _)).of_eq s.ofDeals
    rw [hof.delivered, hdelivered]
  have hlines := (Plan.book_addOns hperiod (hd.figures d List.mem_cons_self) hr hp hc).of_eq s.book
  have hcount := Exact.length_allComponents_le d p.rules
  have hearned :=
    (subtotal_commission_of_lines hlines hc (by omega)).of_eq s.subtotal_commission
  have hbonus := (subtotal_bonus_of_lines hlines hc (by omega)).of_eq s.subtotal_bonus
  -- no guarantee, no salary and no draw: what is paid is the commission
  have hcommission : b.commission = s.earned := by
    have h := s.guarantees
    rw [Plan.floors_of_addOns hp, guaranteed_nil] at h
    exact (Prod.mk.inj (Except.ok.inj h)).1.symm
  have hgrid : OnGrid 2 (10 ^ 15) s.earned.value := by
    have hall : OnGrid 2 ((Exact.allComponents d p.rules).length * 10 ^ 9)
        (Exact.allComponents d p.rules).sum := OnGrid.sum fun x hx => (hc x hx).onGrid
    rw [hearned]
    exact hall.mono (by omega)
  have hsettle := s.settle
  rw [BasePay.ofItems_of_lines hlines, hcommission] at hsettle
  show b.totalPay.value = _
  rw [(BasePay.settle_none hgrid hbonus).of_eq hsettle, hearned]

/-! ## Preview and evaluation -/

/-- For a plan of add-ons whose components are whole cents, a preview of a delivered deal pays the
components of the rules whose scope admits the deal, and an evaluation of it those of all rules. The
two are equal where every scope admits the deal. -/
theorem Plan.preview_and_evaluate_addOns (hrules : ∀ r ∈ p.rules, r.IsRead)
    (hp : ∀ r ∈ p.rules, r.kind = .addOn) (hread : d.IsRead) (hsold : d.isDelivered = true)
    (hc : ∀ x ∈ Exact.allComponents d p.rules, (∃ n : ℤ, x = n / 100) ∧ |x| < 10 ^ 7)
    (hn : p.rules.length < 10 ^ 5) :
    ∃ previewed b, p.preview d = .ok previewed ∧ p.evaluate [d] = .ok b ∧
      previewed.value = (Exact.allComponents d (p.rulesFor d)).sum ∧
      b.totalPay.value = (Exact.allComponents d p.rules).sum ∧
      ((∀ r ∈ p.rules, r.terms.scope.admits d.condition = true) →
        previewed.value = b.totalPay.value) := by
  have hd : Amounts [d] := by
    refine ⟨?_, ?_, by simp⟩
    · simpa using hread.isAmount
    · simpa using hread.isShare
  obtain ⟨previewed, hpreviewed, hpreview⟩ := Plan.preview_addOns hp hc hn
  obtain ⟨b, hb, htotal⟩ := Plan.evaluate_addOns hsold hd
    (fun r hrule => (hrules r hrule).isAmount) hp hc hn
  refine ⟨previewed, b, hpreviewed, hb, hpreview, htotal, fun hscopes => ?_⟩
  have hall : p.rulesFor d = p.rules := List.filter_eq_self.2 hscopes
  rw [hpreview, htotal, hall]

/-- An add-on for new vehicles. -/
def Plan.scopedAddOn : Plan :=
  ⟨[⟨"", .addOn (.only .new) (.ofNat 10) .zero .zero⟩], by decide +kernel⟩

/-- A vehicle with accessories. -/
def Deal.withAccessories (c : Condition) : Deal :=
  { Deal.plain with condition := c, accessory := .ofNat 1000 }

/-- The rules of this plan were read. -/
theorem Plan.isRead_of_mem_scopedAddOn : ∀ r ∈ Plan.scopedAddOn.rules, r.IsRead := by
  intro r hr
  rw [List.mem_singleton.1 hr]
  exact ⟨.direct, .addOn, [("scope", .text "New"), ("accessory_percent", .int 10)],
    Reading.result?_eq_some_iff.1 (by decide +kernel)⟩

/-- The deals were read. -/
theorem Deal.isRead_withAccessories (c : Condition) : (Deal.withAccessories c).IsRead := by
  refine ⟨[("condition", .text c.text), ("accessory", .int 1000)], ?_⟩
  apply Reading.result?_eq_some_iff.1
  cases c with
  | new => decide +kernel
  | used => decide +kernel

/-- The components of the add-on are whole cents: a hundred and nothing else. -/
theorem Exact.isCents_scopedAddOn (c : Condition) :
    ∀ x ∈ Exact.allComponents (Deal.withAccessories c) Plan.scopedAddOn.rules,
      (∃ n : ℤ, x = n / 100) ∧ |x| < 10 ^ 7 := by
  intro x hx
  have hcomponents : Exact.allComponents (Deal.withAccessories c) Plan.scopedAddOn.rules =
      [100, 0, 0] := by
    simp only [Exact.allComponents, Plan.scopedAddOn, List.flatMap_cons, List.flatMap_nil,
      Exact.components, Exact.percentage, Deal.withAccessories, Deal.plain, Decimal.value_ofNat,
      Decimal.value_zero, List.append_nil]
    norm_num
  rw [hcomponents] at hx
  simp only [List.mem_cons, List.not_mem_nil, or_false] at hx
  rcases hx with rfl | rfl | rfl
  · exact ⟨⟨10000, by norm_num⟩, by norm_num⟩
  · exact ⟨⟨0, by norm_num⟩, by norm_num⟩
  · exact ⟨⟨0, by norm_num⟩, by norm_num⟩

/-- A new vehicle is within the scope, and a preview pays what an evaluation pays. -/
theorem scopedAddOn_preview_eq_evaluate :
    Plan.scopedAddOn.rules.length < 10 ^ 5 ∧
      ∃ previewed b, Plan.scopedAddOn.preview (Deal.withAccessories .new) = .ok previewed ∧
        Plan.scopedAddOn.evaluate [Deal.withAccessories .new] = .ok b ∧
        previewed.value = b.totalPay.value := by
  have hkind : ∀ r ∈ Plan.scopedAddOn.rules, r.kind = .addOn := by decide
  have hcount : Plan.scopedAddOn.rules.length < 10 ^ 5 := by decide
  obtain ⟨previewed, b, hpreviewed, hb, -, -, hequal⟩ :=
    Plan.preview_and_evaluate_addOns Plan.isRead_of_mem_scopedAddOn hkind
      (Deal.isRead_withAccessories .new) (by decide) (Exact.isCents_scopedAddOn .new) hcount
  exact ⟨hcount, previewed, b, hpreviewed, hb, hequal (by decide)⟩

/-- What an evaluation pays for a used vehicle. -/
def scopedAddOnPay : Breakdown where
  items := [⟨"Accessory Commission", ⟨false, 10000, -2⟩, .commission⟩]
  totalPay := ⟨false, 10000, -2⟩
  totalUnits := .one
  totalGross := .zero
  commission := ⟨false, 10000, -2⟩
  bonus := .zero
  basePay := .zero
  isDraw := false
  warnings := []

/-- A preview and an evaluation do not always pay the same for add-ons: a used vehicle is outside the
scope of this rule, so that a preview pays nothing for it, and an evaluation pays the percentage all
the same. -/
theorem scopedAddOn_preview_ne_evaluate :
    (∀ r ∈ Plan.scopedAddOn.rules, r.IsRead ∧ r.kind = .addOn) ∧
      Plan.scopedAddOn.rules.length < 10 ^ 5 ∧
      (Deal.withAccessories .used).IsRead ∧ (Deal.withAccessories .used).isDelivered = true ∧
      (∀ x ∈ Exact.allComponents (Deal.withAccessories .used) Plan.scopedAddOn.rules,
        (∃ n : ℤ, x = n / 100) ∧ |x| < 10 ^ 7) ∧
      Plan.scopedAddOn.preview (Deal.withAccessories .used) = .ok ⟨false, 0, -2⟩ ∧
      Plan.scopedAddOn.evaluate [Deal.withAccessories .used] = .ok scopedAddOnPay ∧
      Decimal.value ⟨false, 0, -2⟩ ≠ scopedAddOnPay.totalPay.value := by
  refine ⟨fun r hr => ⟨Plan.isRead_of_mem_scopedAddOn r hr, ?_⟩, by decide,
    Deal.isRead_withAccessories .used, by decide, Exact.isCents_scopedAddOn .used,
    eq_ok_of_toOption (by decide +kernel), eq_ok_of_toOption (by decide +kernel), ?_⟩
  · rw [List.mem_singleton.1 hr]
    rfl
  · norm_num [scopedAddOnPay, Decimal.value, Decimal.digits]

end DealerPay
