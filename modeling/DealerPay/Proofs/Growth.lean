import DealerPay.Proofs.Exact.Growth
import DealerPay.Proofs.Reconciliation

/-!
# Growth of pay

Whoever sells more is paid no less: commission, bonuses and what is paid in all grow with the deals.

* `Exact.subtotal_booked`: terms pay in one category, so that a subtotal is the sum of what the rules
  of its category pay.
* `Exact.subtotal_mono` and `Exact.settle_mono`: the parts of an evaluation grow.
* `Exact.total_payFor_nonneg`: what is paid in all is not below zero.
* `Plan.evaluate_mono`: so do the totals of two evaluations in the envelope. Higher tiers must pay
  no less where one tier pays for everything; the tiers of other rules may have any rates.
-/

namespace DealerPay

namespace Exact

variable {rules : List Rule} {sold sold' : List Deal}

/-! ## Subtotals -/

/-- A subtotal is what the rules of its category pay in cents. -/
theorem subtotal_booked (c : Category) (rules : List Rule) (sold : List Deal) :
    subtotal c (booked rules sold) =
      ((rules.filter fun r => r.terms.category == c).map fun r => cents sold r.terms).sum := by
  unfold booked subtotal
  induction rules with
  | nil => rfl
  | cons r rest ih =>
    rw [List.flatMap_cons, List.map_append, List.filter_append, List.map_append, List.sum_append,
      ih, List.filter_cons]
    have hcategory : ∀ l ∈ (pay sold r.terms).map Line.inCents, l.category = r.terms.category :=
      List.forall_mem_map.2 fun l hl => show l.category = _ from category_of_mem_pay hl
    by_cases hc : (r.terms.category == c) = true
    · rw [if_pos hc, List.map_cons, List.sum_cons,
        List.filter_eq_self.2 fun l hl => by rw [hcategory l hl, hc], List.map_map]
      rfl
    · rw [if_neg hc, List.filter_eq_nil_iff.2 fun l hl => by rwa [hcategory l hl], List.map_nil,
        List.sum_nil, zero_add]

/-- Subtotals grow with the deals. -/
theorem subtotal_mono (hg : Deal.Grows sold sold') (h : Deal.NoneNegative sold')
    (hs : Deal.NoneNegative sold) (hsound : ∀ r ∈ rules, r.isSound = true)
    (hrise : ∀ r ∈ rules, r.terms.IsProgressive) (c : Category) :
    subtotal c (booked rules sold) ≤ subtotal c (booked rules sold') := by
  rw [subtotal_booked, subtotal_booked]
  apply List.sum_le_sum
  intro r hr
  have hmem := List.mem_of_mem_filter hr
  exact cents_mono hg h hs (Rule.isSound_iff.1 (hsound r hmem)) (hrise r hmem)

/-! ## What is paid in all -/

/-- No guaranteed commission is below zero. -/
theorem floors_nonneg (rules : List Rule) : ∀ f ∈ floors rules, 0 ≤ f := by
  intro f hf
  obtain ⟨r, -, hfloor⟩ := List.mem_filterMap.1 hf
  cases ht : r.terms with
  | guarantee perUnit =>
    rw [ht, floor?, Option.ite_none_right_eq_some] at hfloor
    rw [← Option.some_inj.1 hfloor.2]
    exact hfloor.1.le
  | _ => simp [ht, floor?] at hfloor

/-- What is paid in all grows with the commission, the bonuses and the salary or draw. -/
theorem settle_mono {base base' : ℚ × Bool} (hdraw : base.2 = base'.2) (hbase : base.1 ≤ base'.1)
    {commission commission' bonus bonus' : ℚ} (hc : commission ≤ commission')
    (hb : bonus ≤ bonus') : settle base commission bonus ≤ settle base' commission' bonus' := by
  unfold settle
  rw [hdraw]
  split
  · exact add_le_add (max_le_max hbase hc) hb
  · exact add_le_add (add_le_add hc hb) hbase

/-- A salary or draw of well-formed rules takes nothing away. -/
theorem basePay_nonneg (hw : ∀ r ∈ rules, r.terms.IsWellFormed) : 0 ≤ (basePay rules).1 := by
  unfold basePay
  cases h : (rules.filterMap fun r => base? r.terms).getLast? with
  | none => exact le_rfl
  | some found =>
    obtain ⟨r, hrule, hb⟩ := List.mem_filterMap.1 (List.mem_of_getLast? h)
    have hr := hw r hrule
    cases ht : r.terms with
    | base amount isDraw =>
      rw [ht] at hr hb
      cases hb
      exact nearestCent_nonneg hr
    | _ => simp [ht, base?] at hb

/-- What well-formed rules pay in all is not below zero. -/
theorem total_payFor_nonneg (h : Deal.NoneNegative sold)
    (hw : ∀ r ∈ rules, r.terms.IsWellFormed) : 0 ≤ (payFor rules sold).total := by
  have hsubtotal : ∀ c, 0 ≤ subtotal c (booked rules sold) := by
    intro c
    rw [subtotal_booked]
    exact List.sum_nonneg (List.forall_mem_map.2 fun r hr =>
      cents_nonneg h (hw r (List.mem_of_mem_filter hr)))
  have hcommission : 0 ≤ (payFor rules sold).commission := by
    show 0 ≤ (guaranteed _ _ _).1
    unfold guaranteed
    split
    · exact (hsubtotal .commission).trans (le_fst_topUps _ _ _)
    · exact hsubtotal .commission
  show 0 ≤ settle (basePay rules) (payFor rules sold).commission
    (subtotal .bonus (booked rules sold))
  unfold settle
  split
  · exact add_nonneg (hcommission.trans (le_max_right _ _)) (hsubtotal .bonus)
  · exact add_nonneg (add_nonneg hcommission (hsubtotal .bonus)) (basePay_nonneg hw)

/-- Commission, bonuses and what is paid in all grow with the deals. -/
theorem payFor_mono (hg : Deal.Grows sold sold') (h : Deal.NoneNegative sold')
    (hs : Deal.NoneNegative sold) (hsound : ∀ r ∈ rules, r.isSound = true)
    (hrise : ∀ r ∈ rules, r.terms.IsProgressive) :
    (payFor rules sold).commission ≤ (payFor rules sold').commission ∧
      (payFor rules sold).bonus ≤ (payFor rules sold').bonus ∧
      (payFor rules sold).total ≤ (payFor rules sold').total := by
  have hcommission : (payFor rules sold).commission ≤ (payFor rules sold').commission :=
    fst_guaranteed_mono (floors_nonneg rules) (fun f hf => ⟨f, hf, le_rfl⟩) (units_mono hg h .all)
      (subtotal_mono hg h hs hsound hrise .commission)
  have hbonus : (payFor rules sold).bonus ≤ (payFor rules sold').bonus :=
    subtotal_mono hg h hs hsound hrise .bonus
  exact ⟨hcommission, hbonus, settle_mono rfl le_rfl hcommission hbonus⟩

end Exact

/-! ## Evaluation -/

/-- Delivered deals grow with all deals. -/
theorem Deal.grows_delivered {deals deals' : List Deal} (h : Deal.Grows deals deals') :
    Deal.Grows (Deal.delivered deals) (Deal.delivered deals') :=
  Exact.grows_filter (fun d d' hd => by unfold isDelivered; rw [hd.status]) h

/-- Whoever sells more is paid no less: where no figure is below zero, and higher tiers pay no less
where one tier pays for everything, commission, bonuses and what is paid in all grow with the
deals. -/
theorem Plan.evaluate_mono {p : Plan} {deals deals' : List Deal}
    (hrise : ∀ r ∈ p.rules, r.terms.IsProgressive) (h : InEnvelope p deals)
    (h' : InEnvelope p deals') (hpos : Deal.NoneNegative deals) (hpos' : Deal.NoneNegative deals')
    (hg : Deal.Grows deals deals') :
    ∃ b b', p.evaluate deals = .ok b ∧ p.evaluate deals' = .ok b' ∧
      b.commission.value ≤ b'.commission.value ∧ b.bonus.value ≤ b'.bonus.value ∧
      b.totalPay.value ≤ b'.totalPay.value := by
  obtain ⟨b, hb, hexact⟩ := p.evaluate_exact h
  obtain ⟨b', hb', hexact'⟩ := p.evaluate_exact h'
  have hmono := Exact.payFor_mono (Deal.grows_delivered hg)
    (fun d hd => hpos' d (List.mem_of_mem_filter hd))
    (fun d hd => hpos d (List.mem_of_mem_filter hd)) p.sound hrise
  rw [← Exact.evaluate, ← Exact.evaluate, ← hexact, ← hexact'] at hmono
  exact ⟨b, b', hb, hb', hmono⟩

/-- A draw with tiers of units: rates that rise and pay for all units, and rates that fall and pay
for their own. -/
def Plan.rising : Plan where
  rules :=
    [⟨"", .base (.ofNat 1000) true⟩,
     ⟨"", .unitTiers .all [⟨.ofNat 2, none, .ofNat 200⟩, ⟨.ofNat 1, none, .ofNat 100⟩] true⟩,
     ⟨"", .unitTiers .all [⟨.ofNat 1, some .one, .ofNat 300⟩, ⟨.ofNat 2, none, .ofNat 50⟩] false⟩]
  sound := by decide +kernel

/-- Its higher tiers pay no less. -/
theorem Plan.isProgressive_rising : ∀ r ∈ rising.rules, r.terms.IsProgressive := by
  have hsorted : Tier.sorted [⟨.ofNat 2, none, .ofNat 200⟩, ⟨.ofNat 1, none, .ofNat 100⟩] =
      [⟨.ofNat 1, none, .ofNat 100⟩, ⟨.ofNat 2, none, .ofNat 200⟩] := by decide +kernel
  simp [rising, Terms.IsProgressive, hsorted]
  norm_num

/-- A deal with accessories. -/
def Deal.dressed : Deal := { Deal.plain with accessory := .ofNat 100 }

/-- Two deals are paid no less than one of them with less on top. -/
theorem Plan.evaluate_mono_rising :
    (∀ r ∈ rising.rules, r.terms.IsProgressive) ∧ InEnvelope rising [Deal.plain] ∧
      InEnvelope rising [Deal.plain, Deal.dressed] ∧ Deal.NoneNegative [Deal.plain] ∧
      Deal.NoneNegative [Deal.plain, Deal.dressed] ∧
      Deal.Grows [Deal.plain] [Deal.plain, Deal.dressed] ∧
      ∃ b b', rising.evaluate [Deal.plain] = .ok b ∧
        rising.evaluate [Deal.plain, Deal.dressed] = .ok b' ∧
        b.commission.value ≤ b'.commission.value ∧ b.bonus.value ≤ b'.bonus.value ∧
        b.totalPay.value ≤ b'.totalPay.value := by
  have henv : InEnvelope rising [Deal.plain] :=
    .of_digits (by decide +kernel) (by decide) (by decide +kernel) (by decide +kernel)
  have henv' : InEnvelope rising [Deal.plain, Deal.dressed] :=
    .of_digits (by decide +kernel) (by decide) (by decide +kernel) (by decide +kernel)
  have hpos : Deal.NoneNegative [Deal.plain] := by
    simp [Deal.NoneNegative, Deal.figures, Deal.plain]
  have hpos' : Deal.NoneNegative [Deal.plain, Deal.dressed] := by
    simp [Deal.NoneNegative, Deal.figures, Deal.dressed, Deal.plain]
  have hgrows : Deal.Grows [Deal.plain] [Deal.plain, Deal.dressed] := by
    have hlarger : Deal.plain.AtMost Deal.dressed := by
      constructor <;> simp [Deal.dressed, Deal.plain]
    exact ⟨[Deal.dressed], .cons hlarger .nil, List.singleton_subperm_iff.2 (by simp)⟩
  exact ⟨isProgressive_rising, henv, henv', hpos, hpos', hgrows,
    evaluate_mono isProgressive_rising henv henv' hpos hpos' hgrows⟩

end DealerPay
