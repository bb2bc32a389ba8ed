import DealerPay.Proofs.Aggregates
import DealerPay.Proofs.Valid

/-!
# Units are conserved

No unit is lost and none is counted twice, however the deals are divided by their condition.

* `Interleaves`: a list is a merge of two others, each of them in its own order.
  `interleaves_filter`: every list is one of what a filter keeps and what it leaves out, and so the
  delivered deals are one of the new and the used ones (`Deal.interleaves_seen`).
* `Deal.unitCount_exact`: counting shares does not round, since their running sum is a number of
  tenths that stays small. Hence `Period.ofDeals_isOf_of_isShare`: the units within a scope are
  those of its deals.
* `Plan.units_of_evaluate` puts these together for what an evaluation reports and for what its rules
  look at.
-/

namespace DealerPay

/-! ## Merges -/

section Merges

variable {α : Type}

/-- Whether the last one of three lists is a merge of the first two, each of them in its own
order. -/
inductive Interleaves : List α → List α → List α → Prop
  /-- Nothing is left of either. -/
  | nil : Interleaves [] [] []
  /-- The next item is taken from the first list. -/
  | left {x : α} {xs ys zs : List α} (h : Interleaves xs ys zs) : Interleaves (x :: xs) ys (x :: zs)
  /-- The next item is taken from the second list. -/
  | right {y : α} {xs ys zs : List α} (h : Interleaves xs ys zs) :
    Interleaves xs (y :: ys) (y :: zs)

/-- A list is a merge of what a filter keeps and of what it leaves out. -/
theorem interleaves_filter (q : α → Bool) (xs : List α) :
    Interleaves (xs.filter q) (xs.filter fun x => !q x) xs := by
  induction xs with
  | nil => exact .nil
  | cons x rest ih =>
    cases hx : q x with
    | true =>
      rw [List.filter_cons_of_pos hx, List.filter_cons_of_neg (by simp [hx])]
      exact .left ih
    | false =>
      rw [List.filter_cons_of_neg (by simp [hx]), List.filter_cons_of_pos (by simp [hx])]
      exact .right ih

end Merges

/-- Deals are a merge of the new and the used ones. -/
theorem Deal.interleaves_seen (deals : List Deal) :
    Interleaves (Deal.seen (.only .new) deals) (Deal.seen (.only .used) deals) deals := by
  have hused : Deal.seen (.only .used) deals =
      deals.filter fun d => !(Scope.only .new).admits d.condition :=
    List.filter_congr fun d _ => by cases d.condition <;> rfl
  rw [hused]
  exact interleaves_filter _ deals

/-! ## Counts -/

/-- Shares of deals are counted exactly: halves and wholes, however they are written, add up to a
number of tenths that twenty-eight digits hold. -/
theorem Deal.unitCount_exact {sold : List Deal} (h : ∀ d ∈ sold, Deal.isShare d.count = true)
    (hcount : sold.length < 10 ^ 27) :
    Yields (Deal.unitCount sold) fun u => u.value = Exact.total Deal.count sold := by
  have htenths : ∀ d ∈ sold, OnGrid 1 10 d.count.value := by
    intro d hd
    rcases Deal.value_count (h d hd) with hv | hv
    · exact ⟨5, by rw [hv]; norm_num, by norm_num⟩
    · exact ⟨10, by rw [hv]; norm_num, by norm_num⟩
  exact Decimal.sum_of_map_eq (by rw [List.map_map]; rfl) htenths (by omega) (by norm_num)

/-- The units within every scope of a period are those of its deals. -/
theorem Period.ofDeals_isOf_of_isShare {deals : List Deal}
    (h : ∀ d ∈ deals, Deal.isShare d.count = true) (hcount : deals.length < 10 ^ 27) :
    Yields (Period.ofDeals deals) fun p => p.IsOf (Deal.delivered deals) := by
  apply Period.ofDeals_isOf_of_unitCount
  intro s
  apply Deal.unitCount_exact
  · exact fun d hd => h d (List.mem_of_mem_filter (List.mem_of_mem_filter hd))
  · exact ((List.length_filter_le _ _).trans (List.length_filter_le _ _)).trans_lt hcount

/-! ## Evaluations -/

namespace Plan

/-- Units are conserved by every evaluation: it reports exactly the shares of the delivered deals.
These are a merge of the new and the used ones, each in their own order. A rule within a scope looks
at the units of the deals within it, and those of new and used deals together are all of them. -/
theorem units_of_evaluate {p : Plan} {deals : List Deal} {b : Breakdown}
    (hdeals : ∀ d ∈ deals, d.IsRead) (hcount : deals.length < 10 ^ 9)
    (h : p.evaluate deals = .ok b) :
    b.totalUnits.value = Exact.total Deal.count (Deal.delivered deals) ∧
      Interleaves (Deal.seen (.only .new) (Deal.delivered deals))
        (Deal.seen (.only .used) (Deal.delivered deals)) (Deal.delivered deals) ∧
      ∃ period, Period.ofDeals deals = .ok period ∧ p.payFor period = .ok b ∧
        (∀ s, period.dealsOf s = Deal.seen s (Deal.delivered deals) ∧
          (period.unitsOf s).value = Exact.total Deal.count (period.dealsOf s)) ∧
        (period.unitsOf (.only .new)).value + (period.unitsOf (.only .used)).value =
          (period.unitsOf .all).value := by
  obtain ⟨period, hperiod, hof⟩ := Period.ofDeals_isOf_of_isShare
    (fun d hd => (hdeals d hd).isShare) (hcount.trans (by norm_num))
  have hpay : p.payFor period = .ok b := by
    unfold evaluate at h
    rwa [hperiod] at h
  have hreported : period.units = b.totalUnits := by
    obtain ⟨steps⟩ := exists_steps h
    cases steps.ofDeals.symm.trans hperiod
    exact steps.units
  have hunits := hof.units
  have hall := hunits .all
  unfold Exact.units at hunits hall
  rw [Deal.seen_all] at hall
  refine ⟨by rw [← hreported]; exact hall, Deal.interleaves_seen _, period, hperiod, hpay, ?_, ?_⟩
  · intro s
    have hseen : period.dealsOf s = Deal.seen s (Deal.delivered deals) := by
      rw [Period.dealsOf, hof.delivered]
    exact ⟨hseen, hseen ▸ hunits s⟩
  · rw [hunits, hunits, hall, ← Exact.total_eq_add]

/-- A flat rate for new vehicles and another one for used ones. -/
def byCondition : Plan where
  rules :=
    [⟨"", .flatRate (.only .new) (.ofNat 100)⟩, ⟨"", .flatRate (.only .used) (.ofNat 50)⟩]
  sound := by decide +kernel

end Plan

/-- A shared used vehicle, a new one with a loss, one that is not handed over, and a used one. Their
shares are spelled in different ways. -/
def Deal.spelled : List Deal :=
  [{ Deal.plain with condition := .used, count := ⟨false, 50, -2⟩ },
    { Deal.plain with count := ⟨false, 10, -1⟩, frontGross := ⟨true, 12345, -2⟩ },
    { Deal.plain with count := ⟨false, 1, 0⟩, status := .pending },
    { Deal.plain with
      condition := .used, count := ⟨false, 10000000000000000000000000000000000, -34⟩ }]

/-- The deals were read. -/
theorem Deal.isRead_of_mem_spelled : ∀ d ∈ Deal.spelled, d.IsRead := by
  intro d hd
  simp only [spelled, List.mem_cons, List.not_mem_nil, or_false] at hd
  rcases hd with rfl | rfl | rfl | rfl
  · exact ⟨[("condition", .text "Used"), ("count", .text "0.50")],
      Reading.result?_eq_some_iff.1 (by decide +kernel)⟩
  · exact ⟨[("count", .text "1.0"), ("front_gross", .text "-123.45")],
      Reading.result?_eq_some_iff.1 (by decide +kernel)⟩
  · exact ⟨[("count", .int 1), ("status", .text "pending")],
      Reading.result?_eq_some_iff.1 (by decide +kernel)⟩
  · exact ⟨[("condition", .text "Used"), ("count", .text "1.0000000000000000000000000000000000")],
      Reading.result?_eq_some_iff.1 (by decide +kernel)⟩

/-- Two and a half units are delivered, one of them new. -/
theorem Plan.units_of_spelled :
    (∀ d ∈ Deal.spelled, d.IsRead) ∧ Deal.spelled.length < 10 ^ 9 ∧
      ∃ b, Plan.byCondition.evaluate Deal.spelled = .ok b ∧ b.totalUnits.value = 5 / 2 ∧
        ∃ period, Period.ofDeals Deal.spelled = .ok period ∧
          (period.unitsOf (.only .new)).value + (period.unitsOf (.only .used)).value =
            (period.unitsOf .all).value := by
  have hcount : Deal.spelled.length < 10 ^ 9 := by decide
  have hsome : (Plan.byCondition.evaluate Deal.spelled).toOption.isSome = true := by
    decide +kernel
  obtain ⟨b, hb⟩ := Option.isSome_iff_exists.1 hsome
  obtain ⟨hunits, -, period, hperiod, -, -, hsum⟩ :=
    Plan.units_of_evaluate Deal.isRead_of_mem_spelled hcount (eq_ok_of_toOption hb)
  refine ⟨Deal.isRead_of_mem_spelled, hcount, b, eq_ok_of_toOption hb, ?_, period, hperiod, hsum⟩
  have hcounts : (Deal.delivered Deal.spelled).map Deal.count =
      [⟨false, 50, -2⟩, ⟨false, 10, -1⟩, ⟨false, 10000000000000000000000000000000000, -34⟩] := by
    decide +kernel
  have htotal := congrArg (fun counts => (counts.map Decimal.value).sum) hcounts
  rw [List.map_map] at htotal
  rw [hunits]
  exact htotal.trans (by norm_num [Decimal.value, Decimal.digits])

end DealerPay
