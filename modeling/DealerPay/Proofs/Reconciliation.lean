import DealerPay.Proofs.Exact.Evaluation
import DealerPay.Proofs.Exact.Guarantee
import DealerPay.Proofs.Layout

/-!
# What the lines of a breakdown add up to

With one salary or draw at most, the lines of a breakdown add up to what is paid in all, except that
a draw which the commission covers stays among the lines as well, and no line takes it back.

* `Exact.sum_amount_eq`: the lines of rules are commission, bonuses, salaries and draws.
* `Exact.sum_base`: with one salary or draw at most, their lines are the one that counts.
* `Exact.sum_lines_payFor` puts these together in the three cases of a settlement, and
  `Plan.sum_items_of_evaluate` says so of an evaluation in the envelope.
* `Plan.Steps.line_of_coveredDraw`: whatever the figures are, the line of a draw that the commission
  covers stays without an offset.
* `coveredDrawPay` is what is paid where the commission covers a draw.
-/

namespace DealerPay

namespace Exact

variable {sold : List Deal} {rules : List Rule}

/-! ## Lines by category -/

/-- Lines of rules are commission, bonuses, salaries and draws. -/
theorem sum_amount_eq {lines : List Line} (h : ∀ l ∈ lines, l.category.isEarned = true) :
    (lines.map Line.amount).sum =
      subtotal .commission lines + subtotal .bonus lines +
        ((lines.filter Line.isBase).map Line.amount).sum := by
  induction lines with
  | nil => simp [subtotal]
  | cons l rest ih =>
    have hl := h l List.mem_cons_self
    have hrest := ih fun x hx => h x (List.mem_cons_of_mem l hx)
    unfold subtotal at hrest ⊢
    rw [List.map_cons, List.sum_cons, hrest, List.filter_cons, List.filter_cons, List.filter_cons]
    cases hc : l.category with
    | guarantee | drawOffset => simp [hc, Category.isEarned] at hl
    | base | draw | commission | bonus =>
      simp [hc, Line.isBase]
      ring

/-- Lines that are not shown pay nothing. -/
theorem sum_filter_isShown (lines : List Line) :
    ((lines.filter Line.isShown).map Line.amount).sum = (lines.map Line.amount).sum := by
  induction lines with
  | nil => rfl
  | cons l rest ih =>
    rw [List.filter_cons, List.map_cons, List.sum_cons, ← ih]
    split
    · rw [List.map_cons, List.sum_cons]
    · next h =>
      have hl : l.amount = 0 := by
        rw [Line.isShown, Bool.or_eq_true, not_or, decide_eq_true_iff, not_not] at h
        exact h.2
      rw [hl, zero_add]

/-! ## Salary and draw -/

/-- The salaries and draws of rules are as many as their rules. -/
theorem length_base (rules : List Rule) :
    (rules.filterMap fun r => base? r.terms).length = rules.countP Rule.isBase := by
  induction rules with
  | nil => rfl
  | cons r rest ih =>
    rw [List.filterMap_cons, List.countP_cons, ← ih]
    unfold Rule.isBase Rule.kind
    cases r.terms <;> rfl

/-- With one salary or draw at most, the lines of salaries and draws are the one that counts. -/
theorem sum_base (h : rules.countP Rule.isBase ≤ 1) (sold : List Deal) :
    (((booked rules sold).filter Line.isBase).map Line.amount).sum = (basePay rules).1 := by
  have hbase := base_booked rules sold
  have hamount : ((booked rules sold).filter Line.isBase).map Line.amount =
      (rules.filterMap fun r => base? r.terms).map Prod.fst := by
    rw [← hbase, List.map_map]
    rfl
  rw [← length_base] at h
  rw [hamount, basePay]
  generalize (rules.filterMap fun r => base? r.terms) = bases at h ⊢
  match bases, h with
  | [], _ => rfl
  | [b], _ => exact add_zero b.1

/-- Where a draw counts, there is a line of it. -/
theorem any_isBase_of_draw (h : (basePay rules).2 = true) (sold : List Deal) :
    (booked rules sold).any Line.isBase = true := by
  rw [basePay, ← base_booked rules sold, List.getLast?_map] at h
  cases hl : ((booked rules sold).filter Line.isBase).getLast? with
  | none =>
    rw [hl] at h
    cases h
  | some l =>
    obtain ⟨hmem, hbase⟩ := List.mem_filter.1 (List.mem_of_getLast? hl)
    exact List.any_eq_true.2 ⟨l, hmem, hbase⟩

/-- An item is put in exactly if there is one to put it behind. -/
theorem sum_insertAfterLast (l : Line) (lines : List Line) :
    ((insertAfterLast Line.isBase l lines).map Line.amount).sum =
      (lines.map Line.amount).sum + if lines.any Line.isBase then l.amount else 0 := by
  induction lines with
  | nil => simp [insertAfterLast]
  | cons x rest ih =>
    rw [insertAfterLast, List.any_cons]
    by_cases hrest : rest.any Line.isBase = true
    · rw [hrest] at ih ⊢
      simp [ih, add_assoc]
    · rw [Bool.not_eq_true] at hrest
      rw [hrest] at ih ⊢
      cases x.isBase <;> simp [ih, add_comm, add_left_comm]

/-! ## Settlement -/

/-- The lines add up to what is paid in all, and to the draw on top where the commission covers
it. -/
theorem sum_lines_payFor (h : rules.countP Rule.isBase ≤ 1) (sold : List Deal) :
    ((payFor rules sold).lines.map Line.amount).sum =
      (payFor rules sold).total +
        if (payFor rules sold).base.2 ∧ (payFor rules sold).base.1 ≤ (payFor rules sold).commission
        then (payFor rules sold).base.1 else 0 := by
  have hearned : ∀ l ∈ booked rules sold, l.category.isEarned = true :=
    fun l hl => isEarned_of_mem_booked hl
  have hbooked := sum_amount_eq hearned
  rw [sum_base h sold] at hbooked
  have hraised := fst_guaranteed (units sold .all) (subtotal .commission (booked rules sold))
    (floors rules)
  unfold payFor
  simp only
  set base := basePay rules with hbase
  set raised := guaranteed (units sold .all) (subtotal .commission (booked rules sold))
    (floors rules)
  have hshown : (((booked rules sold ++ raised.2).filter Line.isShown).map Line.amount).sum =
      raised.1 + subtotal .bonus (booked rules sold) + base.1 := by
    rw [sum_filter_isShown, List.map_append, List.sum_append, hbooked]
    linarith
  unfold withOffset settle
  by_cases hdraw : base.2 = true
  · have hany : ((booked rules sold ++ raised.2).filter Line.isShown).any Line.isBase = true := by
      obtain ⟨l, hl, hb⟩ := List.any_eq_true.1 (any_isBase_of_draw hdraw sold)
      have hs : l.isShown = true := by rw [Line.isShown, hb, Bool.true_or]
      exact List.any_eq_true.2 ⟨l, List.mem_filter.2 ⟨List.mem_append_left _ hl, hs⟩, hb⟩
    rcases lt_or_ge raised.1 base.1 with hlt | hge
    · -- the draw is more: the offset takes the commission back
      rw [if_pos ⟨hdraw, hlt⟩, if_pos hdraw, if_neg fun h => absurd h.2 (not_le.2 hlt),
        sum_insertAfterLast, hshown, if_pos hany, max_eq_left hlt.le]
      ring
    · -- the commission covers the draw, whose line stays
      rw [if_neg fun h => absurd h.2 (not_lt.2 hge), if_pos hdraw, if_pos ⟨hdraw, hge⟩, hshown,
        max_eq_right hge]
  · rw [if_neg fun h => hdraw h.1, if_neg hdraw, if_neg fun h => hdraw h.1, hshown]
    ring

end Exact

/-- Where the commission covers a draw, the line of the draw stays, and no line sets the commission
against it. -/
theorem Plan.Steps.line_of_coveredDraw {p : Plan} {deals : List Deal} {b : Breakdown}
    (s : p.Steps deals b) (hdraw : b.isDraw = true) (hle : b.basePay.value ≤ b.commission.value) :
    (∃ i ∈ b.items, i.category = .draw ∧ i.amount = b.basePay) ∧
      ∀ i ∈ b.items, i.category ≠ .drawOffset := by
  have hnone : ¬p.OffsetsDraw b := fun h => absurd h.2 (not_lt.2 hle)
  obtain ⟨blocks, added, l⟩ := s.exists_layout
  refine ⟨?_, fun i hi hc => hnone (l.exists_offset_iff.1 ⟨i, hi, hc⟩)⟩
  have hbase := s.base
  unfold BasePay.ofItems at hbase
  split at hbase
  · next i hlast =>
    obtain ⟨hmem, hisBase⟩ := List.mem_filter.1 (List.mem_of_getLast? hlast)
    obtain ⟨hamount, hcategory⟩ := BasePay.mk.inj hbase
    have hshown : i.isShown = true := by rw [LineItem.isShown, hisBase, Bool.true_or]
    refine ⟨i, ?_, by simpa [hdraw] using hcategory, hamount⟩
    rw [s.items_of_not_offsetsDraw hnone]
    exact List.mem_filter.2 ⟨List.mem_append_left _ hmem, hshown⟩
  · rw [← (BasePay.mk.inj hbase).2] at hdraw
    cases hdraw

/-- In the envelope and with one salary or draw at most, the lines of an evaluation add up to what
is paid in all, and to the draw on top where the commission covers it: the line of the draw stays
then, without an offset. -/
theorem Plan.sum_items_of_evaluate {p : Plan} {deals : List Deal} (h : InEnvelope p deals)
    (hbase : p.rules.countP Rule.isBase ≤ 1) :
    ∃ b, p.evaluate deals = .ok b ∧
      (b.items.map fun i => i.amount.value).sum =
        b.totalPay.value +
          (if b.isDraw = true ∧ b.basePay.value ≤ b.commission.value then b.basePay.value
          else 0) ∧
      (b.isDraw = true ∧ b.basePay.value ≤ b.commission.value →
        (∃ i ∈ b.items, i.category = .draw ∧ i.amount = b.basePay) ∧
          ∀ i ∈ b.items, i.category ≠ .drawOffset) := by
  obtain ⟨b, hb, hexact⟩ := p.evaluate_exact h
  obtain ⟨s⟩ := exists_steps hb
  refine ⟨b, hb, ?_, fun hcovered => s.line_of_coveredDraw hcovered.1 hcovered.2⟩
  have hsum := Exact.sum_lines_payFor hbase (Deal.delivered deals)
  unfold Exact.evaluate at hexact
  rw [← hexact] at hsum
  have hlines : (b.items.map fun i => i.amount.value) = b.exact.lines.map Exact.Line.amount := by
    rw [Breakdown.exact, List.map_map]
    rfl
  rw [hlines]
  exact hsum

/-- The lines of the standard rules add up to what they pay. -/
theorem sum_items_of_evaluate_standard :
    InEnvelope Plan.standard [Deal.ordinary] ∧ Plan.standard.rules.countP Rule.isBase ≤ 1 ∧
      ∃ b, Plan.standard.evaluate [Deal.ordinary] = .ok b ∧
        (b.items.map fun i => i.amount.value).sum =
          b.totalPay.value +
            if b.isDraw = true ∧ b.basePay.value ≤ b.commission.value then b.basePay.value
            else 0 := by
  have hbase : Plan.standard.rules.countP Rule.isBase ≤ 1 := by decide +kernel
  obtain ⟨b, hb, hsum, -⟩ := Plan.sum_items_of_evaluate inEnvelope_standard hbase
  exact ⟨inEnvelope_standard, hbase, b, hb, hsum⟩

/-! ## A draw that the commission covers -/

/-- A draw, and commission for each unit. -/
def drawPlan : Plan where
  rules := [⟨"", .base (.ofNat 1000) true⟩, ⟨"", .flatRate .all (.ofNat 2500)⟩]
  sound := by decide +kernel

/-- What is paid for one unit, which covers the draw: no line takes the draw back. -/
def coveredDrawPay : Breakdown where
  items := [⟨"Draw", ⟨false, 100000, -2⟩, .draw⟩,
    ⟨"Flat Rate (1 units)", ⟨false, 250000, -2⟩, .commission⟩]
  totalPay := ⟨false, 250000, -2⟩
  totalUnits := .one
  totalGross := .zero
  commission := ⟨false, 250000, -2⟩
  bonus := .zero
  basePay := ⟨false, 100000, -2⟩
  isDraw := true
  warnings := []

/-- The lines of an evaluation do not always add up to what is paid: this plan has one draw and is
in the envelope, and its lines add up to 3500 where 2500 is paid. -/
theorem coveredDrawPay_does_not_add_up :
    InEnvelope drawPlan [Deal.plain] ∧ drawPlan.rules.countP Rule.isBase ≤ 1 ∧
      drawPlan.evaluate [Deal.plain] = .ok coveredDrawPay ∧
      (coveredDrawPay.items.map fun i => i.amount.value).sum ≠ coveredDrawPay.totalPay.value := by
  refine ⟨.of_digits (by decide +kernel) (by decide) (by decide +kernel) (by decide +kernel),
    by decide +kernel, eq_ok_of_toOption (by decide +kernel), ?_⟩
  norm_num [coveredDrawPay, Decimal.value, Decimal.digits]

end DealerPay
