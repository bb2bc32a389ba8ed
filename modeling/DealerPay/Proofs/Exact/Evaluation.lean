import DealerPay.Proofs.Exact.Bounds
import DealerPay.Proofs.Exact.Earning
import DealerPay.Proofs.Steps

/-!
# Evaluation over the rationals

An evaluation of ordinary figures is the evaluation over the rationals: the arithmetic of
twenty-eight digits never rounds, and each line is rounded once, to cents.

* `Exact.category_of_mem_pay`: terms pay in one category.
* `Terms.book_exact` and `Plan.book_exact`: the lines of a rule and of a plan, once their earnings
  are those of the rational semantics (`Terms.book_of_earnings`, `Plan.book_of_rules`).
* `topUps_exact`: the guarantees. The commission that is carried from one to the next is in cents
  and within the bounds of all lines together.
* `BasePay.exact_ofItems`: the last salary or draw among the lines is that of the rules.
* `Plan.payFor_exact` puts the parts together, `Plan.evaluate_exact` starts from the deals and
  `Plan.evaluate_refines_exact` says what that is for each part of a breakdown.
-/

namespace DealerPay

variable {sold : List Deal} {period : Period}

/-! ## Lines by category -/

namespace Exact

/-- Terms pay in one category. -/
theorem category_of_mem_pay {t : Terms} {l : Line} (h : l ∈ pay sold t) :
    l.category = t.category := by
  cases t with
  | base amount isDraw =>
    rw [List.mem_singleton.1 h]
    cases isDraw <;> rfl
  | flatRate s perUnit =>
    rw [List.mem_singleton.1 h]
    rfl
  | unitTiers s tiers retroactive =>
    cases retroactive with
    | true =>
      obtain ⟨t, -, rfl⟩ := List.mem_map.1 h
      rfl
    | false =>
      obtain ⟨taken, -, rfl⟩ := List.mem_map.1 h
      rfl
  | grossShare front back frontCap backCap =>
    simp only [pay, List.mem_cons, List.not_mem_nil, or_false] at h
    rcases h with rfl | rfl <;> rfl
  | grossTiers s tiers retroactive basis =>
    obtain ⟨t, -, rfl⟩ := List.mem_map.1 h
    rfl
  | volumeBonus s thresholds =>
    obtain ⟨t, -, rfl⟩ := List.mem_map.1 h
    rfl
  | addOn s accessory spiff tradeSpiff =>
    simp only [pay, List.mem_cons, List.not_mem_nil, or_false] at h
    rcases h with rfl | rfl | rfl <;> rfl
  | guarantee perUnit => simp [pay] at h

/-- Every line of rules is of the category of one of them. -/
theorem exists_category_of_mem_booked {rules : List Rule} {l : Line} (h : l ∈ booked rules sold) :
    ∃ r ∈ rules, l.category = r.terms.category := by
  obtain ⟨l', hl', rfl⟩ := List.mem_map.1 h
  obtain ⟨r, hr, hpay⟩ := List.mem_flatMap.1 hl'
  have hc : l'.category = r.terms.category := category_of_mem_pay hpay
  exact ⟨r, hr, hc⟩

/-- No rule books a guarantee or an offset. -/
theorem isEarned_of_mem_booked {rules : List Rule} {l : Line} (h : l ∈ booked rules sold) :
    l.category.isEarned = true := by
  obtain ⟨r, -, hc⟩ := exists_category_of_mem_booked h
  rw [hc]
  exact r.terms.isEarned_category

end Exact

/-! ## Lines -/

/-- An earning that is not too large becomes its line in cents. -/
theorem Earning.book_exact {e : Earning} (h : |e.exact.amount| ≤ (10 ^ 19 : ℕ)) :
    Yields e.book fun i => i.exact = e.exact.inCents := by
  have hlt : |e.amount.value| < 10 ^ 48 - 1 / 200 := h.trans_lt (by norm_num)
  unfold Earning.book
  refine (Decimal.toCents_of_abs_lt hlt).bind ?_
  intro cents hc
  apply Yields.pure
  rw [LineItem.exact, hc.1]
  rfl

/-- The lines of a rule whose earnings are those of the rational semantics. -/
theorem Terms.book_of_earnings {t : Terms}
    (h : Yields (t.earnings period) fun es => es.map Earning.exact = Exact.pay sold t)
    (hsize : ∀ l ∈ Exact.pay sold t, |l.amount| ≤ (10 ^ 19 : ℕ)) :
    Yields (t.book period) fun items =>
      items.map LineItem.exact = (Exact.pay sold t).map Exact.Line.inCents := by
  unfold Terms.book
  refine h.bind ?_
  intro es hes
  have line : ∀ e ∈ es, Yields (liftM e.book : Except Failure LineItem) fun i =>
      i.exact = e.exact.inCents := by
    intro e he
    have hmem : e.exact ∈ Exact.pay sold t := hes ▸ List.mem_map_of_mem he
    exact (e.book_exact (hsize e.exact hmem)).lift
  refine (Yields.mapM line).mono ?_
  intro items hitems
  rw [map_eq_map_of_forall₂ hitems, ← hes, List.map_map]
  rfl

/-- The lines of a rule. -/
theorem Terms.book_exact (hp : period.IsOf sold) (h : Exact.OrdinaryDeals sold) {t : Terms}
    (ht : ∀ x ∈ t.figures, x.IsOrdinary) :
    Yields (t.book period) fun items =>
      items.map LineItem.exact = (Exact.pay sold t).map Exact.Line.inCents :=
  t.book_of_earnings (t.earnings_exact hp h ht) fun _ hl => h.abs_amount_le ht hl

/-- The lines of a plan whose rules book those of the rational semantics. -/
theorem Plan.book_of_rules {p : Plan}
    (h : ∀ r ∈ p.rules, Yields (r.terms.book period) fun items =>
      items.map LineItem.exact = (Exact.pay sold r.terms).map Exact.Line.inCents) :
    Yields (p.book period) fun items => items.map LineItem.exact = Exact.booked p.rules sold := by
  unfold Plan.book
  refine (Yields.mapM h).bind ?_
  intro books hbooks
  apply Yields.pure
  rw [List.map_flatten, map_eq_map_of_forall₂ hbooks, Exact.booked, List.flatMap_def,
    List.map_flatten, List.map_map]
  rfl

/-- The lines of a plan. -/
theorem Plan.book_exact (hp : period.IsOf sold) (h : Exact.OrdinaryDeals sold) {p : Plan}
    (hr : ∀ r ∈ p.rules, ∀ x ∈ r.terms.figures, x.IsOrdinary) :
    Yields (p.book period) fun items => items.map LineItem.exact = Exact.booked p.rules sold :=
  Plan.book_of_rules fun r hrule => r.terms.book_exact hp h (hr r hrule)

/-- The lines of a category add up exactly. -/
theorem subtotal_exact {items : List LineItem} {m : ℕ}
    (hi : ∀ l ∈ items.map LineItem.exact, OnGrid 2 m l.amount) (hn : items.length * m < 10 ^ 28)
    (c : Category) :
    Yields (subtotal c items) fun r =>
      r.value = Exact.subtotal c (items.map LineItem.exact) := by
  have hgrid : ∀ x ∈ (items.filter fun i => i.category == c).map (·.amount),
      OnGrid 2 m x.value := by
    intro x hx
    obtain ⟨i, hmem, rfl⟩ := List.mem_map.1 hx
    exact hi i.exact (List.mem_map_of_mem (List.mem_of_mem_filter hmem))
  have hlen : ((items.filter fun i => i.category == c).map (·.amount)).length * m < 10 ^ 28 := by
    rw [List.length_map]
    exact (Nat.mul_le_mul_right m (List.length_filter_le _ _)).trans_lt hn
  refine (Decimal.sum_of_onGrid hgrid hlen (by norm_num)).mono ?_
  intro r hr
  rw [hr, Exact.subtotal, List.filter_map, List.map_map, List.map_map]
  rfl

/-! ## Guarantees -/

/-- The commissions that a plan guarantees are those of its rules. -/
theorem Plan.exact_floors (p : Plan) : p.floors.map Decimal.value = Exact.floors p.rules := by
  unfold Plan.floors Exact.floors
  rw [List.map_filterMap]
  congr 1
  funext r
  cases r.terms with
  | guarantee perUnit =>
    simp only [Terms.floor?, Exact.floor?, Decimal.isPositive_iff]
    split <;> rfl
  | _ => rfl

/-- A commission that a plan guarantees is a figure of one of its rules. -/
theorem Plan.exists_of_mem_floors {p : Plan} {f : Decimal} (hf : f ∈ p.floors) :
    ∃ r ∈ p.rules, f ∈ r.terms.figures := by
  obtain ⟨r, hrule, h⟩ := List.mem_filterMap.1 hf
  refine ⟨r, hrule, ?_⟩
  cases ht : r.terms with
  | guarantee perUnit =>
    rw [ht, Terms.floor?, Option.ite_none_right_eq_some] at h
    simp [Terms.figures, Option.some_inj.1 h.2]
  | _ => simp [ht, Terms.floor?] at h

/-- The commissions that ordinary rules guarantee are ordinary. -/
theorem Plan.isOrdinary_of_mem_floors {p : Plan}
    (hr : ∀ r ∈ p.rules, ∀ x ∈ r.terms.figures, x.IsOrdinary) :
    ∀ f ∈ p.floors, f.IsOrdinary := by
  intro f hf
  obtain ⟨r, hrule, hmem⟩ := Plan.exists_of_mem_floors hf
  exact hr r hrule f hmem

/-- Raising a commission to ordinary guarantees is exact. The commission stays in cents, and within
bounds that it had or that a single guarantee has. -/
theorem topUps_exact {units : Decimal} (hu : OnGrid 4 (10 ^ 16) units.value) {floors : List Decimal}
    (hf : ∀ f ∈ floors, f.IsOrdinary) {commission : Decimal}
    (hc : OnGrid 2 (3 * 10 ^ 26) commission.value) :
    Yields (topUps units commission floors) fun r =>
      (r.1.value, r.2.map LineItem.exact) =
          Exact.topUps units.value commission.value (floors.map Decimal.value) ∧
        OnGrid 2 (3 * 10 ^ 26) r.1.value := by
  induction floors generalizing commission with
  | nil => exact .ok ⟨rfl, hc⟩
  | cons floor rest ih =>
    have hrest : ∀ f ∈ rest, f.IsOrdinary := fun f h => hf f (List.mem_cons_of_mem floor h)
    have hfloor := (hf floor List.mem_cons_self).onGrid
    rw [topUps, List.map_cons, Exact.topUps]
    refine (Decimal.mul_of_onGrid hu hfloor (by norm_num) (by norm_num)).bind ?_
    intro wanted hw
    have hwanted := hw ▸ hu.mul hfloor
    refine (Decimal.toCents_of_onGrid hwanted (by norm_num)).bind ?_
    intro required hrq
    have hrequired : OnGrid 2 (10 ^ 21) required.value := by
      rw [hrq.1]
      have hle : |wanted.value| ≤ (10 ^ 19 : ℕ) := hwanted.abs_le_natCast (by norm_num)
      exact (OnGrid.cents hle).mono (by norm_num)
    have hvalue : nearestCent (units.value * floor.value) = required.value := by rw [hrq.1, hw]
    simp only [hvalue]
    by_cases hlt : commission < required
    · rw [if_pos hlt, if_pos (Decimal.lt_iff.1 hlt)]
      have hgap := hrequired.sub hc
      refine (Decimal.sub_of_onGrid hrequired hc (by norm_num) (by norm_num)).bind ?_
      intro gap hg
      refine (Decimal.toCents_of_onGrid (hg ▸ hgap) (by norm_num)).bind ?_
      intro added ha
      have hadded : added.value = required.value - commission.value := by
        rw [ha.1, hg, hgap.nearestCent_eq]
      have hsum : commission.value + added.value = required.value := by rw [hadded]; ring
      have hraised : Decimal.working.Represents (commission.value + added.value) :=
        hsum ▸ hrequired.represents (by norm_num) (by norm_num)
      refine (Decimal.add_of_represents hraised).bind ?_
      intro raised hra
      have hra' : raised.value = required.value := hra.trans hsum
      refine (ih hrest (hra' ▸ hrequired.mono (by norm_num))).bind ?_
      intro r hr
      refine .pure ⟨?_, hr.2⟩
      rw [← hra', ← hr.1, List.map_cons, LineItem.exact, hadded, hra']
    · rw [if_neg hlt, if_neg fun h => hlt (Decimal.lt_iff.2 h)]
      exact ih hrest hc

/-- The guarantees of a plan are exact. -/
theorem guaranteed_exact {units : Decimal} (hu : OnGrid 4 (10 ^ 16) units.value)
    {floors : List Decimal} (hf : ∀ f ∈ floors, f.IsOrdinary) {commission : Decimal}
    (hc : OnGrid 2 (3 * 10 ^ 26) commission.value) :
    Yields (guaranteed units commission floors) fun r =>
      (r.1.value, r.2.map LineItem.exact) =
          Exact.guaranteed units.value commission.value (floors.map Decimal.value) ∧
        OnGrid 2 (3 * 10 ^ 26) r.1.value := by
  unfold guaranteed Exact.guaranteed
  simp only [Decimal.isPositive_iff]
  split
  · exact topUps_exact hu hf hc
  · exact .ok ⟨rfl, hc⟩

/-! ## Salary and draw -/

/-- A salary or draw by its value. -/
def BasePay.exact (b : BasePay) : ℚ × Bool := (b.amount.value, b.isDraw)

/-- The salary or draw of a line. -/
def Exact.Line.base (l : Exact.Line) : ℚ × Bool := (l.amount, l.category == .draw)

/-- The lines of a salary or draw are the ones that its terms book. -/
theorem Exact.base_pay (sold : List Deal) (t : Terms) :
    (((pay sold t).map Line.inCents).filter Line.isBase).map Line.base = (base? t).toList := by
  cases t with
  | base amount isDraw => cases isDraw <;> rfl
  | unitTiers s tiers retroactive =>
    cases retroactive <;>
      simp [pay, Line.inCents, Line.isBase, base?, List.filter_map, Function.comp_def]
  | _ => simp [pay, Line.inCents, Line.isBase, base?, List.filter_map, Function.comp_def]

/-- The lines of salaries and draws are those that the rules book. -/
theorem Exact.base_booked (rules : List Rule) (sold : List Deal) :
    ((booked rules sold).filter Line.isBase).map Line.base =
      rules.filterMap fun r => base? r.terms := by
  unfold booked
  induction rules with
  | nil => rfl
  | cons r rest ih =>
    rw [List.flatMap_cons, List.map_append, List.filter_append, List.map_append, ih, base_pay]
    cases h : base? r.terms with
    | none => simp only [List.filterMap_cons, h, Option.toList_none, List.nil_append]
    | some b => simp only [List.filterMap_cons, h, Option.toList_some, List.singleton_append]

/-- The salary or draw that counts is the last one of the rules. -/
theorem BasePay.exact_ofItems {rules : List Rule} {items : List LineItem}
    (hi : items.map LineItem.exact = Exact.booked rules sold) :
    (ofItems items).exact = Exact.basePay rules := by
  unfold Exact.basePay
  rw [← Exact.base_booked rules sold, ← hi, List.filter_map, List.map_map, List.getLast?_map]
  have hbase : Exact.Line.isBase ∘ LineItem.exact = LineItem.isBase := rfl
  rw [hbase]
  unfold ofItems
  cases (items.filter LineItem.isBase).getLast? with
  | none =>
    show (Decimal.zero.value, false) = (0, false)
    rw [Decimal.value_zero]
  | some i => rfl

/-- A salary or draw is in cents. -/
theorem Exact.onGrid_basePay_of_abs_le {rules : List Rule} {n : ℕ}
    (hr : ∀ r ∈ rules, ∀ x ∈ r.terms.figures, |x.value| ≤ n) :
    OnGrid 2 (n * 100) (basePay rules).1 := by
  unfold basePay
  cases h : (rules.filterMap fun r => base? r.terms).getLast? with
  | none => exact .zero
  | some b =>
    obtain ⟨r, hrule, hb⟩ := List.mem_filterMap.1 (List.mem_of_getLast? h)
    have hfig := hr r hrule
    cases ht : r.terms with
    | base amount isDraw =>
      rw [ht] at hfig
      rw [ht, base?, Option.some_inj] at hb
      subst hb
      exact OnGrid.cents (hfig amount (by simp [Terms.figures]))
    | _ => simp [ht, base?] at hb

/-- A salary or draw of ordinary rules is in cents. -/
theorem Exact.onGrid_basePay {rules : List Rule}
    (hr : ∀ r ∈ rules, ∀ x ∈ r.terms.figures, x.IsOrdinary) :
    OnGrid 2 (10 ^ 9) (basePay rules).1 :=
  onGrid_basePay_of_abs_le (n := 10 ^ 7) fun r hrule x hx =>
    (hr r hrule x hx).onGrid.abs_le_natCast (by norm_num)

/-- Putting an item behind the last one is the same before and after a map. -/
theorem map_insertAfterLast {α β : Type} (f : α → β) (q : β → Bool) (x : α) (xs : List α) :
    (insertAfterLast (q ∘ f) x xs).map f = insertAfterLast q (f x) (xs.map f) := by
  induction xs with
  | nil => rfl
  | cons y rest ih =>
    rw [insertAfterLast, List.map_cons, insertAfterLast, List.any_map, ← ih]
    show (if (q (f y) && !rest.any (q ∘ f)) = true then _ else _ : List α).map f = _
    split <;> rfl

/-- The lines with the commission set against a draw. -/
theorem withOffset_exact (b : BasePay) {commission : Decimal} {m : ℕ} (hm : m < 10 ^ 28)
    (hc : OnGrid 2 m commission.value) (items : List LineItem) :
    Yields (withOffset b commission items) fun r =>
      r.map LineItem.exact =
        Exact.withOffset b.exact commission.value (items.map LineItem.exact) := by
  have exceeds : b.exceeds commission = true ↔ b.exact.2 ∧ commission.value < b.exact.1 := by
    rw [BasePay.exceeds, Bool.and_eq_true, decide_eq_true_iff, Decimal.lt_iff]
    rfl
  unfold withOffset Exact.withOffset
  by_cases h : b.exceeds commission = true
  · rw [if_pos h, if_pos (exceeds.1 h)]
    have hzero : OnGrid 2 0 Decimal.zero.value := by rw [Decimal.value_zero]; exact .zero
    have hneg : Decimal.zero.value - commission.value = -commission.value := by
      rw [Decimal.value_zero, zero_sub]
    have offset : Yields (BasePay.offset commission) fun i =>
        i.exact = ⟨.drawOffset, -commission.value⟩ := by
      unfold BasePay.offset
      refine (Decimal.sub_of_onGrid hzero hc (by omega) (by norm_num)).bind ?_
      intro gap hg
      rw [hneg] at hg
      refine (Decimal.toCents_of_onGrid (hg ▸ hc.neg) (by omega)).bind ?_
      intro cents hcents
      apply Yields.pure
      rw [LineItem.exact, hcents.1, hg, hc.neg.nearestCent_eq]
    refine offset.bind fun i hi => .pure ?_
    rw [← hi]
    exact map_insertAfterLast LineItem.exact Exact.Line.isBase i items
  · rw [if_neg h, if_neg fun h' => h (exceeds.2 h')]
    exact .ok rfl

/-- What is paid in all is exact. -/
theorem BasePay.settle_exact {b : BasePay} {commission bonus : Decimal}
    (hb : OnGrid 2 (3 * 10 ^ 26) b.amount.value)
    (hc : OnGrid 2 (3 * 10 ^ 26) commission.value) (hbonus : OnGrid 2 (3 * 10 ^ 26) bonus.value) :
    Yields (b.settle commission bonus) fun r =>
      r.value = Exact.settle b.exact commission.value bonus.value := by
  unfold settle Exact.settle
  show Yields _ fun r : Decimal => r.value = if b.isDraw = true then _ else _
  cases b.isDraw with
  | true =>
    have hmax : OnGrid 2 (3 * 10 ^ 26) (b.amount.greatest commission).value := by
      rw [Decimal.value_greatest]
      exact hb.max hc
    refine (Decimal.add_of_onGrid hmax hbonus (by norm_num) (by norm_num)).mono ?_
    intro r hr
    rw [hr, Decimal.value_greatest]
    rfl
  | false =>
    refine (Decimal.add_of_onGrid hc hbonus (by norm_num) (by norm_num)).bind ?_
    intro s hs
    refine (Decimal.add_of_onGrid (hs ▸ hc.add hbonus) hb (by norm_num) (by norm_num)).mono ?_
    intro r hr
    rw [hr, hs]
    rfl

/-! ## Plans -/

/-- Whether a line is shown depends on its category and value alone. -/
theorem LineItem.isShown_exact (i : LineItem) : i.exact.isShown = i.isShown := by
  have hz : (i.amount.value ≠ 0) ↔ i.amount.isZero = false := by
    rw [Ne, ← Decimal.isZero_iff, Bool.not_eq_true]
  unfold Exact.Line.isShown LineItem.isShown
  show (i.isBase || decide (i.amount.value ≠ 0)) = _
  simp [hz]

/-- What a plan with ordinary figures pays for ordinary deals is exact. -/
theorem Plan.payFor_exact {p : Plan} (hp : period.IsOf sold) (h : Exact.OrdinaryDeals sold)
    (hr : ∀ r ∈ p.rules, ∀ x ∈ r.terms.figures, x.IsOrdinary)
    (hn : (p.rules.map fun r => 1 + r.terms.parts).sum < 10 ^ 5) :
    Yields (p.payFor period) fun b => b.exact = Exact.payFor p.rules sold := by
  have hu := hp.onGrid_units h .all
  unfold Plan.payFor
  refine (p.book_exact hp h hr).bind ?_
  intro items hitems
  have hcents : ∀ l ∈ items.map LineItem.exact, OnGrid 2 (10 ^ 21) l.amount := by
    rw [hitems]
    exact fun l hl => h.onGrid_of_mem_booked hr hl
  have hcount : items.length * 10 ^ 21 < 10 ^ 28 := by
    have hlen := Exact.length_booked_lt sold hn
    rw [← hitems, List.length_map] at hlen
    omega
  refine (subtotal_exact hcents hcount .commission).lift.bind ?_
  intro earned hearned
  refine (subtotal_exact hcents hcount .bonus).lift.bind ?_
  intro bonus hbonus
  rw [hitems] at hearned hbonus
  have hearnedGrid := hearned ▸ h.onGrid_subtotal_booked hr hn .commission
  have hbonusGrid := hbonus ▸ h.onGrid_subtotal_booked hr hn .bonus
  refine (guaranteed_exact hu (Plan.isOrdinary_of_mem_floors hr) hearnedGrid).lift.bind ?_
  rintro ⟨commission, added⟩ ⟨hraised, hgrid⟩
  rw [hearned, hp.units, p.exact_floors, Prod.eq_iff_fst_eq_snd_eq] at hraised
  obtain ⟨hcommission, hadded⟩ := hraised
  have hbase := BasePay.exact_ofItems hitems
  have hbaseGrid : OnGrid 2 (3 * 10 ^ 26) (BasePay.ofItems items).amount.value := by
    show OnGrid 2 _ (BasePay.ofItems items).exact.1
    rw [hbase]
    exact (Exact.onGrid_basePay hr).mono (by norm_num)
  refine (withOffset_exact _ (by norm_num) hgrid _).lift.bind ?_
  intro shown hshown
  refine (BasePay.settle_exact hbaseGrid hgrid hbonusGrid).lift.bind ?_
  intro totalPay htotal
  rw [hp.delivered]
  refine (Terms.grossTotals_exact h).lift.bind ?_
  intro g hg
  rw [← Deal.seen_all sold] at hg
  refine (Terms.basis_exact h .all hg .total).lift.bind ?_
  intro totalGross hgross
  apply Yields.pure
  have hlines : ((items ++ added).filter LineItem.isShown).map LineItem.exact =
      (Exact.booked p.rules sold ++ added.map LineItem.exact).filter Exact.Line.isShown := by
    rw [← hitems, ← List.map_append, List.filter_map]
    congr 2
    funext i
    exact i.isShown_exact.symm
  unfold Breakdown.exact Exact.payFor
  simp only at hcommission hadded ⊢
  rw [hshown, hlines, hbase, htotal, hbase, hgross, hcommission, hadded, hbonus]
  show Exact.Pay.mk _ _ _ (BasePay.ofItems items).exact _ (period.unitsOf .all).value _ = _
  rw [hbase, hp.units]

/-- An evaluation of ordinary deals by ordinary rules is exact. -/
theorem Plan.evaluate_exact_of_ordinary {p : Plan} {deals : List Deal}
    (h : Exact.OrdinaryDeals (Deal.delivered deals))
    (hr : ∀ r ∈ p.rules, ∀ x ∈ r.terms.figures, x.IsOrdinary)
    (hn : (p.rules.map fun r => 1 + r.terms.parts).sum < 10 ^ 5) :
    Yields (p.evaluate deals) fun b => b.exact = Exact.evaluate p.rules deals := by
  unfold Plan.evaluate
  refine (Period.ofDeals_isOf h).lift.bind ?_
  intro period hp
  exact p.payFor_exact hp h hr hn

/-- In the envelope, an evaluation is exact. -/
theorem Plan.evaluate_exact {p : Plan} {deals : List Deal} (h : InEnvelope p deals) :
    Yields (p.evaluate deals) fun b => b.exact = Exact.evaluate p.rules deals :=
  p.evaluate_exact_of_ordinary (Exact.ordinaryDeals_delivered h) h.ruleFigures h.ruleCount

/-- In the envelope, an evaluation gives the lines and the totals of the rational semantics, each
line in cents. -/
theorem Plan.evaluate_refines_exact {p : Plan} {deals : List Deal} (h : InEnvelope p deals) :
    ∃ b, p.evaluate deals = .ok b ∧
      b.items.map LineItem.exact = (Exact.evaluate p.rules deals).lines ∧
      (∀ i ∈ b.items, i.amount.exponent = -2) ∧
      b.commission.value = (Exact.evaluate p.rules deals).commission ∧
      b.bonus.value = (Exact.evaluate p.rules deals).bonus ∧
      b.basePay.value = (Exact.evaluate p.rules deals).base.1 ∧
      b.isDraw = (Exact.evaluate p.rules deals).base.2 ∧
      b.totalPay.value = (Exact.evaluate p.rules deals).total ∧
      b.totalUnits.value = (Exact.evaluate p.rules deals).units ∧
      b.totalGross.value = (Exact.evaluate p.rules deals).gross := by
  obtain ⟨b, hb, hexact⟩ := p.evaluate_exact h
  obtain ⟨s⟩ := Plan.exists_steps hb
  rw [← hexact]
  exact ⟨b, hb, rfl, s.exponent_of_mem_items, rfl, rfl, rfl, rfl, rfl, rfl, rfl⟩

/-- The standard rules pay for a deal what they pay over the rationals. -/
theorem evaluate_standard_refines_exact :
    InEnvelope Plan.standard [Deal.ordinary] ∧
      ∃ b, Plan.standard.evaluate [Deal.ordinary] = .ok b ∧
        b.items.map LineItem.exact =
          (Exact.evaluate Plan.standard.rules [Deal.ordinary]).lines ∧
        b.totalPay.value = (Exact.evaluate Plan.standard.rules [Deal.ordinary]).total := by
  obtain ⟨b, hb, hlines, -, -, -, -, -, htotal, -⟩ :=
    Plan.evaluate_refines_exact inEnvelope_standard
  exact ⟨inEnvelope_standard, b, hb, hlines, htotal⟩

end DealerPay
