import DealerPay.Pay.Milestone
import DealerPay.Pay.Preview
import DealerPay.Proofs.Completion.Earning
import DealerPay.Proofs.Preview

/-!
# Evaluations end

Once a plan and the deals have been read, an evaluation has a result, and so have the texts for its
bonuses and the preview of any deal: no arithmetic on the way has no result, and no text fails to be
written.

* `Plan.book_bounded`: the lines of a plan are bounded, and few enough for fifty digits to hold their
  sum.
* `raise_bounded` is what one guarantee does and `topUps_bounded` what all of them do. The invariant
  keeps apart how far the commission may be below and above zero: it is raised from below in one
  step, by about as much as it was below, and from above by no more than the guarantee.
* `Plan.evaluate_bounded`, `Breakdown.milestones_bounded` and `Plan.preview_bounded` are the results
  for bounded figures.
* `Plan.returns_of_isRead` joins them for everything that was read.
-/

namespace DealerPay

variable {sold : List Deal} {period : Period} {p : Plan}

/-! ## Lines -/

/-- An earning that is not too large becomes a line that is not. -/
theorem Earning.book_bounded {e : Earning} (h : |e.amount.value| ≤ 10 ^ 38) :
    Yields e.book fun i => |i.amount.value| ≤ 10 ^ 38 := by
  have hcents : Yields e.amount.toCents fun r => |r.value| ≤ (10 ^ 38 : ℕ) :=
    Decimal.toCents_of_abs_le (by exact_mod_cast h) (by norm_num)
  unfold Earning.book
  refine hcents.bind ?_
  intro cents hc
  exact .pure (by exact_mod_cast hc)

/-- The lines of a rule. -/
theorem Terms.book_bounded (hp : period.IsBounded sold) (h : Amounts sold) {t : Terms}
    (ht : ∀ x ∈ t.figures, x.IsAmount) :
    Yields (t.book period) fun items =>
      items.length ≤ 3 * (1 + t.parts) ∧ ∀ i ∈ items, |i.amount.value| ≤ 10 ^ 38 := by
  unfold Terms.book
  refine (t.earnings_bounded hp h ht).bind ?_
  rintro es ⟨hlen, hes⟩
  refine (Yields.forall_mapM fun e he => (e.book_bounded (hes e he)).lift).mono ?_
  rintro items ⟨hitems, hbound⟩
  exact ⟨hitems.le.trans hlen, hbound⟩

/-- Lists that are each no longer than a bound are joined to one no longer than the bounds
together. -/
theorem length_flatten_le_of_forall₂ {α β : Type} {f : α → ℕ} {xs : List α} {yss : List (List β)}
    (h : List.Forall₂ (fun x ys => ys.length ≤ f x) xs yss) :
    yss.flatten.length ≤ (xs.map f).sum := by
  induction h with
  | nil => exact Nat.le_refl _
  | cons hxy _ ih =>
    rw [List.flatten_cons, List.length_append, List.map_cons, List.sum_cons]
    exact Nat.add_le_add hxy ih

/-- The lines of a plan: three for each of its parts at most, none of them too large. -/
theorem Plan.book_bounded (hp : period.IsBounded sold) (h : Amounts sold)
    (hr : ∀ r ∈ p.rules, ∀ x ∈ r.terms.figures, x.IsAmount) :
    Yields (p.book period) fun items =>
      items.length ≤ 3 * (p.rules.map fun r => 1 + r.terms.parts).sum ∧
        ∀ i ∈ items, |i.amount.value| ≤ 10 ^ 38 := by
  unfold Plan.book
  refine (Yields.mapM fun r hrule => r.terms.book_bounded hp h (hr r hrule)).bind ?_
  intro books hbooks
  refine .pure ⟨?_, ?_⟩
  · rw [← List.sum_map_mul_left]
    exact length_flatten_le_of_forall₂ (hbooks.imp fun _ _ hbook => hbook.1)
  · intro i hi
    obtain ⟨items, hitems, hi⟩ := List.mem_flatten.1 hi
    exact forall_mem_of_forall₂ hbooks (fun _ _ hbook => hbook.2) items hitems i hi

/-- The lines of a category add up to no more than fifty digits hold. -/
theorem subtotal_bounded {items : List LineItem} (hlen : items.length ≤ 3 * 10 ^ 9)
    (hi : ∀ i ∈ items, |i.amount.value| ≤ 10 ^ 38) (c : Category) :
    Yields (subtotal c items) fun r => |r.value| ≤ 3 * 10 ^ 47 := by
  unfold subtotal
  refine (Decimal.sum_of_abs_le_tenPow (k := 38) (3 * 10 ^ 9) ?_ ?_ (by norm_num)
    (by norm_num)).mono ?_
  · intro x hx
    obtain ⟨i, hmem, rfl⟩ := List.mem_map.1 hx
    exact hi i (List.mem_of_mem_filter hmem)
  · rw [List.length_map]
    exact (List.length_filter_le _ _).trans hlen
  · intro r hr
    norm_num at hr ⊢
    exact hr

/-! ## Guarantees -/

/-- The bounds of a commission: what lines add up to on either side of zero, and above that what one
guarantee may be. -/
def Decimal.IsCommission (c : Decimal) : Prop :=
  -(3 * 10 ^ 47) ≤ c.value ∧ c.value ≤ 3 * 10 ^ 47 + 10 ^ 24

/-- What a commission is at most can be written. -/
theorem Decimal.represents_commission : working.Represents (3 * 10 ^ 47 + 10 ^ 24) :=
  represents_of_eq (3 * 10 ^ 23 + 1) 24 (by norm_num) (by norm_num) (by norm_num)

/-- The size of a commission. -/
theorem Decimal.IsCommission.abs_value_le {c : Decimal} (h : c.IsCommission) :
    |c.value| ≤ 3 * 10 ^ 47 + 10 ^ 24 := by
  rw [abs_le]
  constructor <;> linarith [h.1, h.2]

/-- What lines add up to is a commission. -/
theorem Decimal.isCommission_of_abs_le {c : Decimal} (h : |c.value| ≤ 3 * 10 ^ 47) :
    c.IsCommission := by
  rw [abs_le] at h
  exact ⟨h.1, by linarith [h.2]⟩

/-- A guarantee that is not reached raises the commission, and leaves it a commission. -/
theorem raise_bounded {commission required : Decimal} (hc : commission.IsCommission)
    (hr : |required.value| ≤ 10 ^ 24) (hlt : commission < required) :
    ∃ gap added raised, required.sub commission = .ok gap ∧ gap.toCents = .ok added ∧
      commission.add added = .ok raised ∧ raised.IsCommission := by
  have hrequired := abs_le.1 hr
  rw [Decimal.lt_iff] at hlt
  rcases le_or_gt 0 commission.value with hpos | hneg
  · -- above zero the commission is raised to about the guarantee
    have hgap : |required.value - commission.value| ≤ (10 ^ 24 : ℕ) := by
      rw [abs_of_nonneg (by linarith)]
      push_cast
      linarith
    obtain ⟨gap, hg, hgle⟩ := Decimal.sub_of_abs_le
      (represents_of_eq 1 24 (by norm_num) (by norm_num) (by norm_num)) hgap
    obtain ⟨added, ha, hale⟩ := Decimal.toCents_of_abs_le hgle (by norm_num)
    have hsum : |commission.value + added.value| ≤ 2 * 10 ^ 24 := by
      have hle := abs_le.1 hale
      push_cast at hle
      rw [abs_le]
      constructor <;> linarith
    obtain ⟨raised, hra, hrale⟩ := Decimal.add_of_abs_le
      (represents_of_eq 2 24 (by norm_num) (by norm_num) (by norm_num)) hsum
    exact ⟨gap, added, raised, hg, ha, hra,
      Decimal.isCommission_of_abs_le (hrale.trans (by norm_num))⟩
  · -- below zero the commission is not lowered, and what is added bounds it from above
    have hgap : |required.value - commission.value| ≤ (3 * 10 ^ 47 + 10 ^ 24 : ℕ) := by
      rw [abs_of_nonneg (by linarith)]
      push_cast
      linarith [hc.1]
    obtain ⟨gap, hg, hgle⟩ := Decimal.sub_of_abs_le
      (represents_of_eq (3 * 10 ^ 23 + 1) 24 (by norm_num) (by norm_num) (by norm_num)) hgap
    obtain ⟨added, ha, hale⟩ := Decimal.toCents_of_abs_le hgle (by norm_num)
    have hadded : 0 ≤ added.value := by
      rw [Decimal.value_of_toCents ha]
      exact nearestCent_nonneg (Decimal.nonneg_of_sub hg hlt.le)
    rw [abs_of_nonneg hadded] at hale
    push_cast at hale
    rcases le_or_gt 0 (commission.value + added.value) with hsum | hsum
    · have hle : |commission.value + added.value| ≤ 3 * 10 ^ 47 + 10 ^ 24 := by
        rw [abs_of_nonneg hsum]
        linarith
      obtain ⟨raised, hra, hrale⟩ := Decimal.add_of_abs_le Decimal.represents_commission hle
      have hnonneg := Decimal.nonneg_of_add hra hsum
      exact ⟨gap, added, raised, hg, ha, hra, by linarith, (le_abs_self _).trans hrale⟩
    · have hle : |commission.value + added.value| ≤ 3 * 10 ^ 47 := by
        rw [abs_of_neg hsum]
        linarith [hc.1]
      obtain ⟨raised, hra, hrale⟩ := Decimal.add_of_abs_le
        (represents_of_eq 3 47 (by norm_num) (by norm_num) (by norm_num)) hle
      exact ⟨gap, added, raised, hg, ha, hra, Decimal.isCommission_of_abs_le hrale⟩

/-- Going through the guarantees ends, and leaves a commission. -/
theorem topUps_bounded {units : Decimal} (hu : |units.value| ≤ 10 ^ 9) {floors : List Decimal}
    (hf : ∀ f ∈ floors, f.IsAmount) {commission : Decimal} (hc : commission.IsCommission) :
    Yields (topUps units commission floors) fun r => r.1.IsCommission := by
  induction floors generalizing commission with
  | nil => exact .ok hc
  | cons floor rest ih =>
    have hrest : ∀ f ∈ rest, f.IsAmount := fun f h => hf f (List.mem_cons_of_mem floor h)
    have hfloor := (hf floor List.mem_cons_self).abs_le
    have hmul := Decimal.mul_of_abs_le_tenPow (m := 1) (j := 9) (by simpa using hu) hfloor
      (by norm_num) (by norm_num)
    rw [topUps]
    refine hmul.bind ?_
    intro wanted hw
    have hcents : Yields wanted.toCents fun r => |r.value| ≤ (10 ^ 24 : ℕ) := by
      apply Decimal.toCents_of_abs_le _ (by norm_num)
      refine hw.trans ?_
      norm_num
    refine hcents.bind ?_
    intro required hrequired
    push_cast at hrequired
    by_cases hlt : commission < required
    · rw [if_pos hlt]
      obtain ⟨gap, added, raised, hg, ha, hra, hraised⟩ := raise_bounded hc hrequired hlt
      refine Yields.bind_of_eq hg ?_
      refine Yields.bind_of_eq ha ?_
      refine Yields.bind_of_eq hra ?_
      refine (ih hrest hraised).bind ?_
      rintro ⟨last, items⟩ hlast
      exact .pure hlast
    · rw [if_neg hlt]
      exact ih hrest hc

/-- The guarantees of a plan. -/
theorem guaranteed_bounded {units : Decimal} (hu : |units.value| ≤ 10 ^ 9) {floors : List Decimal}
    (hf : ∀ f ∈ floors, f.IsAmount) {commission : Decimal} (hc : commission.IsCommission) :
    Yields (guaranteed units commission floors) fun r => r.1.IsCommission := by
  unfold guaranteed
  split
  · exact topUps_bounded hu hf hc
  · exact .ok hc

/-! ## Settlement -/

/-- The salary or draw among bounded lines is bounded. -/
theorem BasePay.abs_ofItems_le {items : List LineItem}
    (hi : ∀ i ∈ items, |i.amount.value| ≤ 10 ^ 38) :
    |(BasePay.ofItems items).amount.value| ≤ 10 ^ 38 := by
  unfold ofItems
  split
  · next i hlast => exact hi i (List.mem_of_mem_filter (List.mem_of_getLast? hlast))
  · show |Decimal.zero.value| ≤ 10 ^ 38
    rw [Decimal.value_zero]
    norm_num

/-- The lines with the one that sets the commission against a draw. -/
theorem withOffset_bounded (b : BasePay) {commission : Decimal} (hc : commission.IsCommission)
    (items : List LineItem) : Yields (withOffset b commission items) fun _ => True := by
  have hgap : |Decimal.zero.value - commission.value| ≤ (3 * 10 ^ 47 + 10 ^ 24 : ℕ) := by
    rw [Decimal.value_zero, zero_sub, abs_neg]
    exact_mod_cast hc.abs_value_le
  unfold withOffset BasePay.offset
  split
  · obtain ⟨gap, hg, hgle⟩ := Decimal.sub_of_abs_le
      (represents_of_eq (3 * 10 ^ 23 + 1) 24 (by norm_num) (by norm_num) (by norm_num)) hgap
    obtain ⟨cents, hcents, -⟩ := Decimal.toCents_of_abs_le hgle (by norm_num)
    simp only [hg, hcents, bind, Except.bind]
    exact .pure trivial
  · exact .ok trivial

/-- What is paid in all. -/
theorem BasePay.settle_bounded {b : BasePay} {commission bonus : Decimal}
    (hb : |b.amount.value| ≤ 10 ^ 38) (hc : commission.IsCommission)
    (hbonus : |bonus.value| ≤ 3 * 10 ^ 47) :
    Yields (b.settle commission bonus) fun _ => True := by
  have hcommission := hc.abs_value_le
  unfold settle
  split
  · have hmax : |(b.amount.greatest commission).value| ≤ 3 * 10 ^ 47 + 10 ^ 24 := by
      rw [Decimal.value_greatest]
      rcases max_choice b.amount.value commission.value with h | h <;> rw [h]
      · exact hb.trans (by norm_num)
      · exact hcommission
    have hsum : |(b.amount.greatest commission).value + bonus.value| ≤ 7 * 10 ^ 47 := by
      have := abs_add_le (b.amount.greatest commission).value bonus.value
      linarith
    refine (Decimal.add_of_abs_le
      (represents_of_eq 7 47 (by norm_num) (by norm_num) (by norm_num)) hsum).mono ?_
    intro r _
    trivial
  · have hsum : |commission.value + bonus.value| ≤ 7 * 10 ^ 47 := by
      have := abs_add_le commission.value bonus.value
      linarith
    refine (Decimal.add_of_abs_le
      (represents_of_eq 7 47 (by norm_num) (by norm_num) (by norm_num)) hsum).bind ?_
    intro both hboth
    have htotal : |both.value + b.amount.value| ≤ 8 * 10 ^ 47 := by
      have := abs_add_le both.value b.amount.value
      linarith
    refine (Decimal.add_of_abs_le
      (represents_of_eq 8 47 (by norm_num) (by norm_num) (by norm_num)) htotal).mono ?_
    intro r _
    trivial

/-! ## Evaluations -/

/-- The commissions for each unit that a plan guarantees are amounts if its figures are. -/
theorem Plan.isAmount_of_mem_floors (hr : ∀ r ∈ p.rules, ∀ x ∈ r.terms.figures, x.IsAmount) :
    ∀ f ∈ p.floors, f.IsAmount := by
  intro f hf
  obtain ⟨r, hrule, hmem⟩ := Plan.exists_of_mem_floors hf
  exact hr r hrule f hmem

/-- What a plan pays in a period is computed to the end. -/
theorem Plan.payFor_bounded (hp : period.IsBounded sold) (h : Amounts sold)
    (hr : ∀ r ∈ p.rules, ∀ x ∈ r.terms.figures, x.IsAmount)
    (hn : (p.rules.map fun r => 1 + r.terms.parts).sum < 10 ^ 9) :
    Yields (p.payFor period) fun _ => True := by
  unfold Plan.payFor
  refine (Plan.book_bounded hp h hr).bind ?_
  rintro items ⟨hlen, hitems⟩
  have hcount : items.length ≤ 3 * 10 ^ 9 := by omega
  refine (subtotal_bounded hcount hitems .commission).lift.bind ?_
  intro earned hearned
  refine (subtotal_bounded hcount hitems .bonus).lift.bind ?_
  intro bonus hbonus
  have hcommission := Decimal.isCommission_of_abs_le hearned
  refine (guaranteed_bounded (hp.units .all) (Plan.isAmount_of_mem_floors hr)
    hcommission).lift.bind ?_
  rintro ⟨commission, added⟩ hraised
  refine (withOffset_bounded _ hraised _).lift.bind ?_
  intro shown _
  refine (BasePay.settle_bounded (BasePay.abs_ofItems_le hitems) hraised hbonus).lift.bind ?_
  intro totalPay _
  rw [hp.delivered]
  refine h.gross.lift.bind ?_
  rintro g ⟨hfront, hback⟩
  refine (GrossTotals.total_bounded hfront hback).lift.bind ?_
  intro totalGross _
  exact .pure trivial

/-- What is noted down of an evaluation leaves its result as it is. -/
theorem Plan.result_run (p : Plan) (deals : List Deal) :
    (p.run deals).result = p.evaluate deals := by
  unfold Plan.run
  split
  · next h => exact h.symm
  · next h => exact h.symm

/-- An evaluation of bounded figures has a result. -/
theorem Plan.evaluate_bounded {deals : List Deal} (h : Amounts deals)
    (hr : ∀ r ∈ p.rules, ∀ x ∈ r.terms.figures, x.IsAmount)
    (hn : (p.rules.map fun r => 1 + r.terms.parts).sum < 10 ^ 9) :
    Yields (p.evaluate deals) fun _ => True := by
  have hsold : Amounts (Deal.delivered deals) := h.filter _
  unfold Plan.evaluate
  refine (Period.ofDeals_bounded hsold).lift.bind ?_
  intro period hp
  exact Plan.payFor_bounded hp hsold hr hn

/-! ## Milestones -/

/-- The bonuses of an evaluation are bounded. -/
theorem Plan.abs_bonus_le {deals : List Deal} {b : Breakdown} (h : Amounts deals)
    (hr : ∀ r ∈ p.rules, ∀ x ∈ r.terms.figures, x.IsAmount) (hb : p.evaluate deals = .ok b) :
    ∀ i ∈ b.items, i.category = .bonus → |i.amount.value| ≤ 10 ^ 38 := by
  obtain ⟨s⟩ := Plan.exists_steps hb
  have hsold : Amounts (Deal.delivered deals) := h.filter _
  have hp := (Period.ofDeals_bounded hsold).of_eq s.ofDeals
  have hbooked := ((Plan.book_bounded hp hsold hr).of_eq s.book).2
  intro i hi hbonus
  have hfilter := s.filter_items (q := fun i => i.category == .bonus) fun i h => by rw [h]; rfl
  have hmem : i ∈ s.shown.filter fun i => i.category == .bonus := by
    rw [← hfilter]
    exact List.mem_filter.2 ⟨hi, by rw [hbonus]; rfl⟩
  rcases List.mem_append.1 (List.mem_of_mem_filter (List.mem_of_mem_filter hmem)) with hi | hi
  · exact hbooked i hi
  · have := (s.line_of_mem_added i hi).1
    rw [hbonus] at this
    cases this

/-- The texts for the bonuses of an evaluation are written. -/
theorem Breakdown.milestones_bounded {b : Breakdown}
    (h : ∀ i ∈ b.items, i.category = .bonus → |i.amount.value| ≤ 10 ^ 38) :
    Yields b.milestones fun _ => True := by
  unfold milestones
  refine (Yields.forall_mapM (Q := fun _ => True) ?_).mono fun _ _ => trivial
  intro i hi
  obtain ⟨hmem, hbonus⟩ := List.mem_filter.1 hi
  have hcategory : i.category = .bonus := by
    unfold LineItem.isEarnedBonus at hbonus
    rw [Bool.and_eq_true] at hbonus
    exact eq_of_beq hbonus.1
  have hsmall := Decimal.not_overflows_of_abs_le (by norm_num) (h i hmem hcategory)
  unfold LineItem.milestone
  exact (Amount.dollars_of_not_overflows hsmall).bind fun _ _ => .pure trivial

/-! ## Previews -/

/-- What a rule contributes to a preview. -/
theorem Terms.previewShare_bounded {d : Deal} (hd : ∀ x ∈ d.figures, x.IsAmount)
    (hc : Deal.isShare d.count = true) {t : Terms} (ht : ∀ x ∈ t.figures, x.IsAmount) :
    Yields (t.previewShare d) fun r => |r.value| ≤ 10 ^ 29 := by
  have hzero : |Decimal.zero.value| ≤ (10 : ℚ) ^ 29 := by
    rw [Decimal.value_zero]
    norm_num
  cases t with
  | grossShare front back frontCap backCap =>
    obtain ⟨⟨hf, -⟩, hb, -⟩ := forall_mem_figures_grossShare ht
    refine (grossShares_bounded hf hb frontCap backCap hd).bind ?_
    rintro shares ⟨hx, hy⟩
    refine Decimal.add_of_abs_le
      (represents_of_eq 1 29 (by norm_num) (by norm_num) (by norm_num)) ?_
    have := abs_add_le shares.1.value shares.2.value
    linarith
  | flatRate s perUnit =>
    have hperUnit := (ht perUnit (by simp [figures])).abs_le
    have hmul := Decimal.mul_of_abs_le_tenPow (m := 1) (j := 15) (k := 0)
      (by simpa using hperUnit) (by simpa using Deal.abs_count_le hc) (by norm_num) (by norm_num)
    refine hmul.mono ?_
    intro r hr
    exact hr.trans (by norm_num)
  | addOn s accessory spiff tradeSpiff =>
    refine (addOnShares_bounded (t := AddOnTotals.ofDeal d) (k := 15)
      (ht _ (by simp [figures])) (ht _ (by simp [figures])) (ht _ (by simp [figures]))
      (by norm_num) (hd d.accessory (by simp [Deal.figures])).abs_le
      (hd d.spiffs (by simp [Deal.figures])).abs_le
      (hd d.tradeSpiff (by simp [Deal.figures])).abs_le).bind ?_
    rintro shares ⟨hx, hy, hz⟩
    refine (Decimal.sum_of_abs_le_tenPow (k := 28) 3 ?_ (by simp) (by norm_num)
      (by norm_num)).mono ?_
    · intro x hmem
      simp only [List.mem_cons, List.not_mem_nil, or_false] at hmem
      rcases hmem with rfl | rfl | rfl
      · exact hx
      · exact hy
      · exact hz
    · intro r hr
      exact hr.trans (by norm_num)
  | base | unitTiers | grossTiers | volumeBonus | guarantee => exact .ok hzero

/-- The largest of bounded numbers is bounded. -/
theorem Decimal.abs_foldl_greatest_le {B : ℚ} {start : Decimal} {ds : List Decimal}
    (hs : |start.value| ≤ B) (hd : ∀ d ∈ ds, |d.value| ≤ B) :
    |(ds.foldl greatest start).value| ≤ B := by
  induction ds generalizing start with
  | nil => exact hs
  | cons d rest ih =>
    have hmax : |(start.greatest d).value| ≤ B := by
      rw [value_greatest]
      rcases max_choice start.value d.value with h | h <;> rw [h]
      · exact hs
      · exact hd d List.mem_cons_self
    exact ih hmax fun x hx => hd x (List.mem_cons_of_mem d hx)

/-- A preview of bounded figures has a result. -/
theorem Plan.preview_bounded {d : Deal} (hd : ∀ x ∈ d.figures, x.IsAmount)
    (hc : Deal.isShare d.count = true) (hr : ∀ r ∈ p.rules, ∀ x ∈ r.terms.figures, x.IsAmount)
    (hn : p.rules.length < 10 ^ 9) : Yields (p.preview d) fun _ => True := by
  have share : ∀ r ∈ p.rulesFor d, Yields (r.terms.previewShare d) fun x => |x.value| ≤ 10 ^ 29 :=
    fun r hrule => Terms.previewShare_bounded hd hc (hr r (List.mem_of_mem_filter hrule))
  have floor : ∀ f ∈ p.floors, Yields (f.mul d.count) fun x => |x.value| ≤ 10 ^ 38 := by
    intro f hf
    have hfloor := (Plan.isAmount_of_mem_floors hr f hf).abs_le
    refine (Decimal.mul_of_abs_le_tenPow (m := 1) (j := 15) (k := 0) (by simpa using hfloor)
      (by simpa using Deal.abs_count_le hc) (by norm_num) (by norm_num)).mono ?_
    intro r hr
    exact hr.trans (by norm_num)
  unfold Plan.preview
  refine (Yields.forall_mapM share).bind ?_
  rintro shares ⟨hlen, hshares⟩
  refine (Yields.forall_mapM floor).bind ?_
  rintro floors ⟨-, hfloors⟩
  have hcount : shares.length ≤ 10 ^ 9 := by
    have : (p.rulesFor d).length ≤ p.rules.length := List.length_filter_le _ _
    omega
  refine (Decimal.sum_bounded (k := 29) hshares hcount (by norm_num)).bind ?_
  intro sum hsum
  have hmax := Decimal.abs_foldl_greatest_le hsum hfloors
  refine (Decimal.toCents_of_abs_le (n := 10 ^ 38) (by exact_mod_cast hmax) (by norm_num)).mono ?_
  intro r _
  trivial

/-! ## Everything that was read -/

/-- The rules of a plan are no more than its parts. -/
theorem Plan.length_le_parts (p : Plan) :
    p.rules.length ≤ (p.rules.map fun r => 1 + r.terms.parts).sum := by
  induction p.rules with
  | nil => exact Nat.zero_le _
  | cons r rest ih =>
    rw [List.length_cons, List.map_cons, List.sum_cons]
    omega

/-- Whatever has been read is computed to the end: a plan and deals, whatever their figures are, have
a breakdown, the breakdown has texts for its bonuses, and every deal has a preview. -/
theorem Plan.returns_of_isRead {deals : List Deal} (hrules : ∀ r ∈ p.rules, r.IsRead)
    (hparts : (p.rules.map fun r => 1 + r.terms.parts).sum < 10 ^ 9)
    (hdeals : ∀ d ∈ deals, d.IsRead) (hcount : deals.length < 10 ^ 9) :
    (∃ b texts, p.evaluate deals = .ok b ∧ b.milestones = .ok texts) ∧
      ∀ d : Deal, d.IsRead → ∃ pay, p.preview d = .ok pay := by
  have hr : ∀ r ∈ p.rules, ∀ x ∈ r.terms.figures, x.IsAmount :=
    fun r hrule => (hrules r hrule).isAmount
  have hd : Amounts deals :=
    ⟨fun d hmem => (hdeals d hmem).isAmount, fun d hmem => (hdeals d hmem).isShare, hcount⟩
  constructor
  · obtain ⟨b, hb, -⟩ := Plan.evaluate_bounded hd hr hparts
    obtain ⟨texts, htexts, -⟩ := b.milestones_bounded (Plan.abs_bonus_le hd hr hb)
    exact ⟨b, texts, hb, htexts⟩
  · intro d hread
    obtain ⟨pay, hpay, -⟩ := Plan.preview_bounded hread.isAmount hread.isShare hr
      (p.length_le_parts.trans_lt hparts)
    exact ⟨pay, hpay⟩

/-- A plan with figures that are awkward to write. -/
def Plan.unwieldy : Plan where
  rules :=
    [⟨"", .base ⟨false, 9999999999999999999999, -8⟩ true⟩,
     ⟨"", .grossShare ⟨false, 123456789012345678901234567890123, -18⟩ ⟨false, 7, -999999⟩
       (some ⟨true, 5, 3⟩) none⟩,
     ⟨"", .volumeBonus .all [⟨⟨false, 1, -40⟩, ⟨false, 5, -3⟩⟩]⟩,
     ⟨"", .guarantee ⟨false, 2718281828459045235360287471352, -16⟩⟩]
  sound := by decide +kernel

/-- Half a deal with a loss that is awkward to write. -/
def Deal.unwieldy : Deal :=
  { Deal.plain with
    count := Decimal.half
    frontGross := ⟨true, 314159265358979323846264338327950288, -21⟩ }

/-- The deal was read. -/
theorem Deal.isRead_unwieldy : Deal.unwieldy.IsRead :=
  ⟨[("count", .text "0.5"), ("front_gross", .text "-314159265358979.323846264338327950288")],
    Reading.result?_eq_some_iff.1 (by decide +kernel)⟩

/-- The rules of the plan were read. -/
theorem Plan.isRead_of_mem_unwieldy : ∀ r ∈ Plan.unwieldy.rules, r.IsRead := by
  intro r hr
  simp only [Plan.unwieldy, List.mem_cons, List.not_mem_nil, or_false] at hr
  rcases hr with rfl | rfl | rfl | rfl
  · exact ⟨.direct, .base, [("amount", .text "99999999999999.99999999"), ("is_draw", .bool true)],
      Reading.result?_eq_some_iff.1 (by decide +kernel)⟩
  · exact ⟨.direct, .grossShare,
      [("front_percent", .text "123456789012345.678901234567890123"),
        ("back_percent", .text "7e-999999"), ("front_cap", .text "-5e3")],
      Reading.result?_eq_some_iff.1 (by decide +kernel)⟩
  · exact ⟨.direct, .volumeBonus,
      [("thresholds", .list [.object [("from", .text "1e-40"), ("amount", .text "0.005")]])],
      Reading.result?_eq_some_iff.1 (by decide +kernel)⟩
  · exact ⟨.direct, .guarantee, [("amount_per_unit", .text "271828182845904.5235360287471352")],
      Reading.result?_eq_some_iff.1 (by decide +kernel)⟩

/-- The unwieldy plan pays for the unwieldy deal. -/
theorem Plan.returns_unwieldy :
    (∀ r ∈ Plan.unwieldy.rules, r.IsRead) ∧ Deal.unwieldy.IsRead ∧
      (Plan.unwieldy.rules.map fun r => 1 + r.terms.parts).sum < 10 ^ 9 ∧
      (∃ b texts, Plan.unwieldy.evaluate [Deal.unwieldy] = .ok b ∧ b.milestones = .ok texts) ∧
      ∃ pay, Plan.unwieldy.preview Deal.unwieldy = .ok pay := by
  have hparts : (Plan.unwieldy.rules.map fun r => 1 + r.terms.parts).sum < 10 ^ 9 := by
    decide +kernel
  have hdeals : ∀ d ∈ [Deal.unwieldy], d.IsRead := by
    intro d hd
    rw [List.mem_singleton.1 hd]
    exact Deal.isRead_unwieldy
  obtain ⟨hevaluate, hpreview⟩ :=
    Plan.returns_of_isRead Plan.isRead_of_mem_unwieldy hparts hdeals (by decide)
  exact ⟨Plan.isRead_of_mem_unwieldy, Deal.isRead_unwieldy, hparts, hevaluate,
    hpreview _ Deal.isRead_unwieldy⟩

end DealerPay
