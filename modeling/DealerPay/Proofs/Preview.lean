import DealerPay.Pay.Preview
import DealerPay.Proofs.Exact.Evaluation
import DealerPay.Proofs.Exact.Guarantee

/-!
# Preview and evaluation of one deal

A preview of a deal rounds once, at the end. An evaluation of the same deal rounds each line. They
differ by at most half a cent for each rounded part and half a cent for the total.

* `Plan.forDeal` is a plan without the rules that a preview of the deal leaves out.
* `Exact.components` are the parts that the terms of a rule pay for the deal, unrounded.
* `Plan.preview_exact`: a preview is the sum of the parts, raised to the guarantees, in cents.
* `Exact.total_of_isPreviewed`: an evaluation is the sum of the parts in cents, raised to the
  guarantees in cents.
* `Exact.abs_preview_sub_le` compares the two: rounding keeps maxima, and a maximum keeps distances.
* `Plan.preview_close_to_evaluate` says so of the computations.
-/

namespace DealerPay

/-! ## The plan of one deal -/

/-- Whether a preview of the deal takes account of these terms. -/
def Terms.isPreviewed (d : Deal) : Terms → Bool
  | base .. | unitTiers .. | grossTiers .. | volumeBonus .. => false
  | addOn s _ _ _ => s.admits d.condition
  | flatRate .. | grossShare .. | guarantee .. => true

/-- A plan without the rules that a preview of the deal leaves out. -/
def Plan.forDeal (p : Plan) (d : Deal) : Plan where
  rules := p.rules.filter fun r => r.terms.isPreviewed d
  sound := fun r hr => p.sound r (List.mem_of_mem_filter hr)

/-- The rules of the plan of a deal are previewed. -/
theorem Plan.isPreviewed_of_mem_forDeal {p : Plan} {d : Deal} :
    ∀ r ∈ (p.forDeal d).rules, r.terms.isPreviewed d = true :=
  fun _ hr => (List.mem_filter.1 hr).2

/-- The guarantees of a plan are previewed, all of them. -/
theorem Plan.floors_forDeal (p : Plan) (d : Deal) : (p.forDeal d).floors = p.floors := by
  unfold floors forDeal
  rw [List.filterMap_filter]
  congr 1
  funext r
  cases r.terms with
  | addOn s => cases h : s.admits d.condition <;> simp [Terms.isPreviewed, Terms.floor?, h]
  | _ => rfl

namespace Exact

variable {d : Deal} {t : Terms} {rules : List Rule}

/-- The parts that these terms pay for a deal, before rounding. -/
def components (d : Deal) : Terms → List ℚ
  | .grossShare front back frontCap backCap =>
    [share front frontCap d.frontGross, share back backCap d.backGross]
  | .flatRate s perUnit =>
    if s.admits d.condition then [d.count.value * perUnit.value] else []
  | .addOn _ accessory spiff tradeSpiff =>
    [percentage accessory d.accessory.value, percentage spiff d.spiffs.value,
      percentage tradeSpiff d.tradeSpiff.value]
  | _ => []

/-- The parts that rules pay for a deal. -/
def allComponents (d : Deal) (rules : List Rule) : List ℚ :=
  rules.flatMap fun r => components d r.terms

/-! ## The preview -/

/-- A rule that admits the deal pays what it pays as a previewed rule: the others have no parts. -/
theorem sum_components_of_scope (d : Deal) (t : Terms) :
    (if t.scope.admits d.condition = true then (components d t).sum else 0) =
      if t.isPreviewed d = true then (components d t).sum else 0 := by
  cases t with
  | flatRate s =>
    cases hs : s.admits d.condition <;> simp [Terms.scope, Terms.isPreviewed, components, hs]
  | addOn => rfl
  | grossShare => simp [Terms.scope, Scope.admits, Terms.isPreviewed]
  | base | unitTiers | grossTiers | volumeBonus | guarantee =>
    simp [Terms.isPreviewed, components]

/-- The rules whose scope admits the deal pay what the previewed rules pay. -/
theorem sum_components_admitted (d : Deal) (rules : List Rule) :
    ((rules.filter fun r => r.terms.scope.admits d.condition).map fun r =>
        (components d r.terms).sum).sum =
      (allComponents d (rules.filter fun r => r.terms.isPreviewed d)).sum := by
  have hcons : ∀ (q : Rule → Bool) (r : Rule) (rest : List Rule),
      (((r :: rest).filter q).map fun r => (components d r.terms).sum).sum =
        (if q r = true then (components d r.terms).sum else 0) +
          ((rest.filter q).map fun r => (components d r.terms).sum).sum := by
    intro q r rest
    rw [List.filter_cons]
    split <;> simp
  rw [allComponents, List.flatMap_def, List.sum_flatten, List.map_map]
  show _ = (List.map (fun r : Rule => (components d r.terms).sum) _).sum
  induction rules with
  | nil => rfl
  | cons r rest ih => rw [hcons, hcons, ih, sum_components_of_scope]

end Exact

/-- A share of a deal is on the grid of one decimal. -/
theorem Deal.onGrid_count {d : Deal} (h : Deal.isShare d.count = true) :
    OnGrid 1 10 d.count.value := by
  rcases Deal.value_count h with hv | hv
  · exact ⟨5, by rw [hv]; norm_num, by norm_num⟩
  · exact ⟨10, by rw [hv]; norm_num, by norm_num⟩

/-- What a rule contributes to a preview is the sum of its parts. -/
theorem Terms.previewShare_exact {d : Deal} (hd : ∀ x ∈ d.figures, x.IsOrdinary)
    (hc : Deal.isShare d.count = true) {t : Terms} (ht : ∀ x ∈ t.figures, x.IsOrdinary)
    (hs : t.scope.admits d.condition = true) :
    Yields (t.previewShare d) fun r =>
      r.value = (Exact.components d t).sum ∧ OnGrid 10 (3 * 10 ^ 22) r.value := by
  have nothing : Yields (.ok .zero : Except Signal Decimal) fun r =>
      r.value = 0 ∧ OnGrid 10 (3 * 10 ^ 22) r.value :=
    .ok ⟨Decimal.value_zero, by rw [Decimal.value_zero]; exact .zero⟩
  cases t with
  | base | unitTiers | grossTiers | volumeBonus | guarantee => exact nothing
  | flatRate s perUnit =>
    have hrate := (ht perUnit (by simp [figures])).onGrid
    have hcount := Deal.onGrid_count hc
    refine (Decimal.mul_of_onGrid hrate hcount (by norm_num) (by norm_num)).mono ?_
    intro r hr
    refine ⟨?_, ?_⟩
    · rw [Exact.components, if_pos (show s.admits d.condition = true from hs),
        List.sum_singleton, hr, mul_comm]
    · rw [hr]
      exact ((hrate.mul hcount).finer 5).mono (by norm_num)
  | grossShare front back frontCap backCap =>
    obtain ⟨⟨hf, hfc⟩, hb, hbc⟩ := forall_mem_figures_grossShare ht
    have hx := Exact.onGrid_share hf hfc (hd d.frontGross (by simp [Deal.figures]))
    have hy := Exact.onGrid_share hb hbc (hd d.backGross (by simp [Deal.figures]))
    refine (grossShares_exact hf hb frontCap backCap hd).bind ?_
    rintro shares ⟨hfront, hback⟩
    rw [← hfront] at hx
    rw [← hback] at hy
    refine (Decimal.add_of_onGrid hx hy (by norm_num) (by norm_num)).mono fun r hr => ⟨?_, ?_⟩
    · rw [hr, hfront, hback, Exact.components, List.sum_pair]
    · rw [hr]
      exact (hx.add hy).mono (by norm_num)
  | addOn s accessory spiff tradeSpiff =>
    have ha : accessory.IsOrdinary := ht accessory (by simp [figures])
    have hsp : spiff.IsOrdinary := ht spiff (by simp [figures])
    have htr : tradeSpiff.IsOrdinary := ht tradeSpiff (by simp [figures])
    have hda := (hd d.accessory (by simp [Deal.figures])).onGrid
    have hds := (hd d.spiffs (by simp [Deal.figures])).onGrid
    have hdt := (hd d.tradeSpiff (by simp [Deal.figures])).onGrid
    refine (addOnShares_exact (t := AddOnTotals.ofDeal d) ha hsp htr (hda.mono (by norm_num))
      (hds.mono (by norm_num)) (hdt.mono (by norm_num))).bind ?_
    rintro shares ⟨h1, h2, h3⟩
    have hsum : ∀ x ∈ [shares.accessory, shares.spiff, shares.tradeSpiff],
        OnGrid 10 (10 ^ 22) x.value := by
      intro x hx
      simp only [List.mem_cons, List.not_mem_nil, or_false] at hx
      rcases hx with rfl | rfl | rfl
      · rw [h1]
        exact (Exact.onGrid_percentage ha hda).mono (by norm_num)
      · rw [h2]
        exact (Exact.onGrid_percentage hsp hds).mono (by norm_num)
      · rw [h3]
        exact (Exact.onGrid_percentage htr hdt).mono (by norm_num)
    refine (Decimal.sum_of_onGrid hsum (by norm_num) (by norm_num)).mono fun r hr => ⟨?_, ?_⟩
    · simp only [hr, List.map_cons, List.map_nil, h1, h2, h3]
      rfl
    · have hgrid := OnGrid.sum (List.forall_mem_map.2 hsum)
      rw [hr]
      exact hgrid.mono (by norm_num)

/-- Raising a number to others step by step takes the maximum of their values. -/
theorem Decimal.value_foldl_greatest (start : Decimal) (ds : List Decimal) :
    (ds.foldl greatest start).value = (ds.map value).foldl max start.value := by
  induction ds generalizing start with
  | nil => rfl
  | cons d rest ih => rw [List.foldl_cons, ih, value_greatest, List.map_cons, List.foldl_cons]

/-- A maximum of numbers on a grid is on it. -/
theorem OnGrid.foldl_max {k m : ℕ} {start : ℚ} {xs : List ℚ} (hs : OnGrid k m start)
    (hx : ∀ x ∈ xs, OnGrid k m x) : OnGrid k m (xs.foldl max start) := by
  induction xs generalizing start with
  | nil => exact hs
  | cons x rest ih =>
    exact ih (hs.max (hx x List.mem_cons_self)) fun y hy => hx y (List.mem_cons_of_mem x hy)

/-- A preview is the sum of the parts, raised to what each guarantee is for the deal, in cents. -/
theorem Plan.preview_exact {p : Plan} {d : Deal} (hd : ∀ x ∈ d.figures, x.IsOrdinary)
    (hc : Deal.isShare d.count = true) (hr : ∀ r ∈ p.rules, ∀ x ∈ r.terms.figures, x.IsOrdinary)
    (hn : p.rules.length < 10 ^ 5) :
    Yields (p.preview d) fun r =>
      r.value = nearestCent
        ((p.floors.map fun f => d.count.value * f.value).foldl max
          (Exact.allComponents d (p.forDeal d).rules).sum) := by
  have share : ∀ r ∈ p.rulesFor d, Yields (r.terms.previewShare d) fun x =>
      x.value = (Exact.components d r.terms).sum ∧ OnGrid 10 (3 * 10 ^ 22) x.value := by
    intro r hrule
    obtain ⟨hmem, hs⟩ := List.mem_filter.1 hrule
    exact Terms.previewShare_exact hd hc (hr r hmem) hs
  have floor : ∀ f ∈ p.floors, Yields (f.mul d.count) fun x =>
      x.value = d.count.value * f.value ∧ OnGrid 10 (3 * 10 ^ 27) x.value := by
    intro f hf
    have hfloor := (Plan.isOrdinary_of_mem_floors hr f hf).onGrid
    have hcount := Deal.onGrid_count hc
    refine (Decimal.mul_of_onGrid hfloor hcount (by norm_num) (by norm_num)).mono ?_
    intro x hx
    refine ⟨by rw [hx, mul_comm], ?_⟩
    rw [hx]
    exact ((hfloor.mul hcount).finer 5).mono (by norm_num)
  unfold Plan.preview
  refine (Yields.mapM share).bind ?_
  intro shares hshares
  refine (Yields.mapM floor).bind ?_
  intro floors hfloors
  have hvalues : shares.map Decimal.value =
      (p.rulesFor d).map fun r => (Exact.components d r.terms).sum :=
    map_eq_map_of_forall₂ (hshares.imp fun _ _ h => h.1)
  have hfloorValues : floors.map Decimal.value = p.floors.map fun f => d.count.value * f.value :=
    map_eq_map_of_forall₂ (hfloors.imp fun _ _ h => h.1)
  have hshareGrid : ∀ x ∈ shares, OnGrid 10 (3 * 10 ^ 22) x.value :=
    forall_mem_of_forall₂ hshares fun _ _ h => h.2
  have hfloorGrid : ∀ x ∈ floors.map Decimal.value, OnGrid 10 (3 * 10 ^ 27) x :=
    List.forall_mem_map.2 (forall_mem_of_forall₂ hfloors fun _ _ h => h.2)
  have hlen : shares.length < 10 ^ 5 := by
    rw [← hshares.length_eq]
    exact (List.length_filter_le _ _).trans_lt hn
  refine (Decimal.sum_of_onGrid hshareGrid (by omega) (by norm_num)).bind ?_
  intro sum hsum
  have hsumGrid : OnGrid 10 (3 * 10 ^ 27) sum.value := by
    have hgrid := OnGrid.sum (List.forall_mem_map.2 hshareGrid)
    rw [hsum]
    rw [List.length_map] at hgrid
    exact hgrid.mono (by omega)
  have hmax := Decimal.value_foldl_greatest sum floors
  have hgrid := hmax ▸ OnGrid.foldl_max hsumGrid hfloorGrid
  refine (Decimal.toCents_of_onGrid hgrid (by norm_num)).mono ?_
  intro r hr'
  have hparts := Exact.sum_components_admitted d p.rules
  rw [hr'.1, hmax, hfloorValues, hsum, hvalues]
  exact congrArg (fun x => nearestCent (List.foldl max x _)) hparts

/-! ## The evaluation -/

namespace Exact

variable {d : Deal} {t : Terms} {rules : List Rule}

/-- The sum of one figure of a single deal. -/
@[simp] theorem total_singleton (figure : Deal → Decimal) (d : Deal) :
    total figure [d] = (figure d).value := by simp [total]

/-- The units of a single deal within a scope. -/
theorem units_singleton (d : Deal) (s : Scope) :
    units [d] s = if s.admits d.condition = true then d.count.value else 0 := by
  unfold units Deal.seen
  rw [List.filter_singleton]
  cases s.admits d.condition with
  | true => exact total_singleton _ _
  | false => rfl

/-- Previewed rules pay commission only. -/
theorem category_of_isPreviewed (ht : t.isPreviewed d = true) : t.category = .commission := by
  cases t with
  | base | volumeBonus => cases ht
  | _ => rfl

/-- The lines of previewed rules are the parts in cents; a flat rate of other deals is a line of
nothing. -/
theorem sum_pay_singleton (ht : t.isPreviewed d = true) :
    (((pay [d] t).map Line.inCents).map Line.amount).sum =
      ((components d t).map nearestCent).sum := by
  cases t with
  | base | unitTiers | grossTiers | volumeBonus => cases ht
  | flatRate s perUnit =>
    rw [pay, components, units_singleton]
    split <;> simp [Line.inCents]
  | grossShare | addOn | guarantee => simp [pay, components, Line.inCents]

/-- Lines of one category add up to its subtotal. -/
theorem subtotal_of_forall {c : Category} {lines : List Line} (h : ∀ l ∈ lines, l.category = c) :
    subtotal c lines = (lines.map Line.amount).sum := by
  rw [subtotal, List.filter_eq_self.2 fun l hl => by simp [h l hl]]

/-- Lines of one category add up to nothing of another one. -/
theorem subtotal_of_forall_ne {c : Category} {lines : List Line}
    (h : ∀ l ∈ lines, l.category ≠ c) : subtotal c lines = 0 := by
  rw [subtotal, List.filter_eq_nil_iff.2 fun l hl => by simp [h l hl]]
  rfl

/-- Previewed rules book commission only. -/
theorem category_of_mem_booked_singleton (hr : ∀ r ∈ rules, r.terms.isPreviewed d = true) :
    ∀ l ∈ booked rules [d], l.category = .commission := by
  intro l hl
  obtain ⟨r, hrule, hc⟩ := exists_category_of_mem_booked hl
  rw [hc]
  exact category_of_isPreviewed (hr r hrule)

/-- The commission of previewed rules is the sum of the parts in cents. -/
theorem subtotal_booked_singleton (hr : ∀ r ∈ rules, r.terms.isPreviewed d = true) :
    subtotal .commission (booked rules [d]) = ((allComponents d rules).map nearestCent).sum := by
  rw [subtotal_of_forall (category_of_mem_booked_singleton hr)]
  unfold booked allComponents
  induction rules with
  | nil => rfl
  | cons r rest ih =>
    obtain ⟨hrule, hrest⟩ := List.forall_mem_cons.1 hr
    rw [List.flatMap_cons, List.flatMap_cons, List.map_append, List.map_append, List.map_append,
      List.sum_append, List.sum_append, sum_pay_singleton hrule, ih hrest]

/-- Previewed rules hold no salary and no draw. -/
theorem basePay_of_isPreviewed (hr : ∀ r ∈ rules, r.terms.isPreviewed d = true) :
    basePay rules = (0, false) := by
  have hnone : (rules.filterMap fun r => base? r.terms) = [] := by
    apply List.filterMap_eq_nil_iff.2
    intro r hrule
    have hpre := hr r hrule
    cases ht : r.terms with
    | base => rw [ht] at hpre; cases hpre
    | _ => rfl
  rw [basePay, hnone]
  rfl

/-- What previewed rules pay for one deal: the parts in cents, raised to the guarantees in cents. -/
theorem total_of_isPreviewed (hc : 0 < d.count.value)
    (hr : ∀ r ∈ rules, r.terms.isPreviewed d = true) :
    (payFor rules [d]).total =
      ((floors rules).map fun f => nearestCent (d.count.value * f)).foldl max
        ((allComponents d rules).map nearestCent).sum := by
  have hunits : units [d] .all = d.count.value := by rw [units_singleton]; exact if_pos rfl
  have hbonus : subtotal .bonus (booked rules [d]) = 0 :=
    subtotal_of_forall_ne fun l hl => by
      rw [category_of_mem_booked_singleton hr l hl]
      decide
  unfold payFor
  simp only
  rw [hunits, hbonus, basePay_of_isPreviewed hr, subtotal_booked_singleton hr, guaranteed,
    if_pos hc, fst_topUps_eq_foldl]
  simp [settle]

/-! ## Comparison -/

/-- Rounding amounts one by one changes their sum by half a cent for each of them at most. -/
theorem abs_sum_nearestCent_sub_le (xs : List ℚ) :
    |(xs.map nearestCent).sum - xs.sum| ≤ xs.length / 200 := by
  induction xs with
  | nil => simp
  | cons x rest ih =>
    have hx := abs_nearestCent_sub_le x
    have hsplit : ((x :: rest).map nearestCent).sum - (x :: rest).sum =
        (nearestCent x - x) + ((rest.map nearestCent).sum - rest.sum) := by
      rw [List.map_cons, List.sum_cons, List.sum_cons]
      ring
    rw [hsplit, List.length_cons]
    push_cast
    calc _ ≤ |nearestCent x - x| + |(rest.map nearestCent).sum - rest.sum| := abs_add_le _ _
      _ ≤ 1 / 200 + rest.length / 200 := add_le_add hx ih
      _ = _ := by ring

/-- Rounding a maximum is taking the maximum of what is rounded. -/
theorem nearestCent_foldl_max (start : ℚ) (xs : List ℚ) :
    nearestCent (xs.foldl max start) = (xs.map nearestCent).foldl max (nearestCent start) := by
  induction xs generalizing start with
  | nil => rfl
  | cons x rest ih => rw [List.foldl_cons, ih, nearestCent_max, List.map_cons, List.foldl_cons]

/-- Raising two amounts to the same maxima does not set them further apart. -/
theorem abs_foldl_max_sub_le (a b : ℚ) (xs : List ℚ) :
    |xs.foldl max a - xs.foldl max b| ≤ |a - b| := by
  induction xs generalizing a b with
  | nil => exact le_rfl
  | cons x rest ih => exact (ih _ _).trans (abs_max_sub_max_le_abs a b x)

/-- A sum that is rounded once, after it was raised, and one whose parts are rounded before it is
raised differ by half a cent for each part and half a cent at most. -/
theorem abs_preview_sub_le (parts floors : List ℚ) :
    |nearestCent (floors.foldl max parts.sum) -
        (floors.map nearestCent).foldl max (parts.map nearestCent).sum| ≤
      (parts.length + 1) / 200 := by
  rw [nearestCent_foldl_max]
  apply (abs_foldl_max_sub_le _ _ _).trans
  have hsum := abs_nearestCent_sub_le parts.sum
  have hparts := abs_sum_nearestCent_sub_le parts
  rw [abs_sub_comm] at hparts
  calc |nearestCent parts.sum - (parts.map nearestCent).sum|
      ≤ |nearestCent parts.sum - parts.sum| + |parts.sum - (parts.map nearestCent).sum| :=
        abs_sub_le _ _ _
    _ ≤ 1 / 200 + parts.length / 200 := add_le_add hsum hparts
    _ = (parts.length + 1) / 200 := by ring

/-- Where the parts are whole cents, rounding them first makes no difference. -/
theorem preview_eq_of_cents {parts : List ℚ} (h : ∀ x ∈ parts, ∃ n : ℤ, x = n / 100)
    (floors : List ℚ) :
    nearestCent (floors.foldl max parts.sum) =
      (floors.map nearestCent).foldl max (parts.map nearestCent).sum := by
  have hparts : parts.map nearestCent = parts := by
    refine (List.map_congr_left fun x hx => ?_).trans (List.map_id parts)
    obtain ⟨n, hn⟩ := h x hx
    exact nearestCent_of_cents hn
  have hsum : ∃ n : ℤ, parts.sum = n / 100 := by
    clear hparts
    induction parts with
    | nil => exact ⟨0, by simp⟩
    | cons x rest ih =>
      obtain ⟨n, hn⟩ := h x List.mem_cons_self
      obtain ⟨m, hm⟩ := ih fun y hy => h y (List.mem_cons_of_mem x hy)
      exact ⟨n + m, by rw [List.sum_cons, hn, hm]; push_cast; ring⟩
  obtain ⟨n, hn⟩ := hsum
  rw [nearestCent_foldl_max, hparts, nearestCent_of_cents hn]

end Exact

/-! ## Preview and evaluation -/

/-- A plan of one deal and the deal are in the envelope if the rules and the deal are ordinary. -/
theorem Plan.inEnvelope_forDeal {p : Plan} {d : Deal} (hd : ∀ x ∈ d.figures, x.IsOrdinary)
    (hr : ∀ r ∈ p.rules, ∀ x ∈ r.terms.figures, x.IsOrdinary) (hn : p.rules.length < 10 ^ 5) :
    InEnvelope (p.forDeal d) [d] where
  dealFigures := by simpa using hd
  dealCount := by simp
  ruleFigures := fun r hrule => hr r (List.mem_of_mem_filter hrule)
  ruleCount := by
    have hparts : ∀ r ∈ (p.forDeal d).rules, 1 + r.terms.parts = 1 := by
      intro r hrule
      have hpre := Plan.isPreviewed_of_mem_forDeal r hrule
      cases ht : r.terms with
      | unitTiers | grossTiers | volumeBonus => rw [ht] at hpre; cases hpre
      | _ => rfl
    rw [List.map_congr_left hparts, List.map_const', List.sum_replicate, smul_eq_mul, mul_one]
    exact (List.length_filter_le _ _).trans_lt hn

/-- A preview and the evaluation of the deal by the rules that are previewed differ by half a cent
for each part that the rules pay and half a cent at most, and not at all where the parts are whole
cents. -/
theorem Plan.preview_close_to_evaluate {p : Plan} {d : Deal} (hsold : d.isDelivered = true)
    (hc : Deal.isShare d.count = true) (hd : ∀ x ∈ d.figures, x.IsOrdinary)
    (hr : ∀ r ∈ p.rules, ∀ x ∈ r.terms.figures, x.IsOrdinary) (hn : p.rules.length < 10 ^ 5) :
    ∃ previewed b, p.preview d = .ok previewed ∧ (p.forDeal d).evaluate [d] = .ok b ∧
      |previewed.value - b.totalPay.value| ≤
        ((Exact.allComponents d (p.forDeal d).rules).length + 1) / 200 ∧
      ((∀ x ∈ Exact.allComponents d (p.forDeal d).rules, ∃ n : ℤ, x = n / 100) →
        previewed.value = b.totalPay.value) := by
  obtain ⟨previewed, hpreviewed, hvalue⟩ := p.preview_exact hd hc hr hn
  obtain ⟨b, hb, hexact⟩ := (p.forDeal d).evaluate_exact (p.inEnvelope_forDeal hd hr hn)
  have hpos : 0 < d.count.value := by
    rcases Deal.value_count hc with h | h <;> rw [h] <;> norm_num
  have htotal : b.totalPay.value =
      ((p.floors.map fun f => d.count.value * f.value).map nearestCent).foldl max
        ((Exact.allComponents d (p.forDeal d).rules).map nearestCent).sum := by
    have hdelivered : Deal.delivered [d] = [d] := List.filter_eq_self.2 (by simpa using hsold)
    have hfloors : Exact.floors (p.forDeal d).rules = p.floors.map Decimal.value := by
      rw [← Plan.exact_floors, p.floors_forDeal d]
    calc b.totalPay.value = (Exact.evaluate (p.forDeal d).rules [d]).total := by rw [← hexact]; rfl
      _ = _ := by
        rw [Exact.evaluate, hdelivered, Exact.total_of_isPreviewed hpos
          Plan.isPreviewed_of_mem_forDeal, hfloors, List.map_map, List.map_map]
        rfl
  refine ⟨previewed, b, hpreviewed, hb, ?_, fun hcents => ?_⟩
  · rw [hvalue, htotal]
    exact Exact.abs_preview_sub_le _ _
  · rw [hvalue, htotal]
    exact Exact.preview_eq_of_cents hcents _

/-- The preview of a deal by the standard rules is close to its evaluation. -/
theorem preview_standard_close_to_evaluate :
    Deal.ordinary.isDelivered = true ∧ Deal.isShare Deal.ordinary.count = true ∧
      Plan.standard.rules.length < 10 ^ 5 ∧
      ∃ previewed b, Plan.standard.preview Deal.ordinary = .ok previewed ∧
        (Plan.standard.forDeal Deal.ordinary).evaluate [Deal.ordinary] = .ok b ∧
        |previewed.value - b.totalPay.value| ≤ 7 / 200 := by
  have hsold : Deal.ordinary.isDelivered = true := by decide
  have hshare : Deal.isShare Deal.ordinary.count = true := by decide +kernel
  have hcount : Plan.standard.rules.length < 10 ^ 5 := by decide +kernel
  obtain ⟨previewed, b, hpreviewed, hb, hclose, -⟩ := Plan.preview_close_to_evaluate hsold hshare
    (inEnvelope_standard.dealFigures _ List.mem_cons_self) inEnvelope_standard.ruleFigures hcount
  refine ⟨hsold, hshare, hcount, previewed, b, hpreviewed, hb, hclose.trans ?_⟩
  have hparts : (Exact.allComponents Deal.ordinary
      (Plan.standard.forDeal Deal.ordinary).rules).length = 6 := rfl
  rw [hparts]
  norm_num

end DealerPay
