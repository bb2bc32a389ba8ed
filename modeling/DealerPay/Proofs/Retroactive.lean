import DealerPay.Proofs.AddOn
import DealerPay.Proofs.Conservation
import DealerPay.Proofs.Growth
import DealerPay.Proofs.Slicing

/-!
# Retroactive tiers

A rule with tiers of units may pay each slice at the rate of its own tier, or all units at the rate
of the tier that they reach. Where rates rise with the tiers, the second way never pays less: each
slice belongs to a tier that the units reach, and together the slices are no more than the units.

* `Exact.sum_slices_le` is this over the rationals, before anything is rounded.
* Rounding each line to cents could turn it around. It does not where tiers end at halves of a unit
  and pay an even number of cents (`Tier.PaysEvenCents`): then every line is whole cents by itself
  (`Exact.cents_unitTiers_le`).
* `Plan.commission_of_unitTiers`: an evaluation computes these commissions without rounding, since
  a rule with tiers looks at nothing but units. `Plan.evaluate_retroactive` compares the two.
-/

namespace DealerPay

/-! ## Over the rationals -/

namespace Exact

variable {u : ℚ} {tiers : List Tier}

/-- Slices belong to tiers that the units reach. -/
theorem mem_reached_of_mem_slices (hu : 0 ≤ u) {taken : Tier × ℚ} (h : taken ∈ slices u tiers) :
    taken.1 ∈ reached Tier.lower u tiers := by
  rw [slices_eq hu] at h
  obtain ⟨⟨t, i⟩, hi, rfl⟩ := List.mem_map.1 (List.mem_of_mem_filter h)
  exact List.mem_of_getElem? (List.mk_mem_zipIdx_iff_getElem?.1 hi)

/-- Where rates rise with the tiers, the slices of units are worth no more than all units at the
rate of the tier that they reach. -/
theorem sum_slices_le (hu : 0 ≤ u)
    (hrise : (Tier.sorted tiers).Pairwise fun t t' => t.rate.value ≤ t'.rate.value)
    (hrate : ∀ t ∈ tiers, 0 ≤ t.rate.value) :
    ((slices u tiers).map fun taken => taken.2 * taken.1.rate.value).sum ≤
      ((reached? u tiers).map fun t => u * t.rate.value).getD 0 := by
  have hlast : ∀ taken ∈ slices u tiers,
      ∃ last, reached? u tiers = some last ∧ taken.1.rate.value ≤ last.rate.value :=
    fun taken h => exists_reached?_of_mem hrise (mem_reached_of_mem_slices hu h)
  cases ht : reached? u tiers with
  | none =>
    have hnone : slices u tiers = [] := by
      rw [List.eq_nil_iff_forall_not_mem]
      intro taken h
      obtain ⟨last, hsome, -⟩ := hlast taken h
      rw [ht] at hsome
      cases hsome
    rw [hnone]
    exact le_rfl
  | some last =>
    have hle : ∀ taken ∈ slices u tiers,
        taken.2 * taken.1.rate.value ≤ taken.2 * last.rate.value := by
      intro taken h
      obtain ⟨last', hsome, hle⟩ := hlast taken h
      rw [ht, Option.some_inj] at hsome
      exact mul_le_mul_of_nonneg_left (hsome ▸ hle) (mem_slices h).2.1.le
    calc ((slices u tiers).map fun taken => taken.2 * taken.1.rate.value).sum
        ≤ ((slices u tiers).map fun taken => taken.2 * last.rate.value).sum :=
          List.sum_le_sum hle
      _ = ((slices u tiers).map Prod.snd).sum * last.rate.value := List.sum_map_mul_right _ _ _
      _ ≤ u * last.rate.value := by
          rw [sum_slices hu]
          exact mul_le_mul_of_nonneg_right (covered_le _ _) (hrate last (mem_of_reached? ht))

end Exact

/-! ## Whole cents -/

/-- Whether a number is a whole number of halves. -/
def IsHalves (x : ℚ) : Prop := ∃ n : ℤ, x = n / 2

/-- What lies between two of them is a whole number of halves. -/
theorem IsHalves.sub {x y : ℚ} (hx : IsHalves x) (hy : IsHalves y) : IsHalves (x - y) := by
  obtain ⟨n, rfl⟩ := hx
  obtain ⟨m, rfl⟩ := hy
  exact ⟨n - m, by push_cast; ring⟩

/-- Whether a tier ends at a whole number of halves, if it ends, and pays an even number of cents,
both below ten million. -/
structure Tier.PaysEvenCents (t : Tier) : Prop where
  /-- It ends at a whole number of halves. -/
  upper : ∀ x ∈ t.upper, IsHalves x.value
  /-- It ends below ten million. -/
  upper_lt : ∀ x ∈ t.upper, |x.value| < 10 ^ 7
  /-- It pays an even number of cents. -/
  rate : ∃ n : ℤ, t.rate.value = 2 * n / 100
  /-- It pays less than ten million. -/
  rate_lt : |t.rate.value| < 10 ^ 7

namespace Tier.PaysEvenCents

variable {t : Tier} {x : ℚ}

/-- Halves and even cents are whole ten-thousandths. -/
theorem isOrdinary (h : t.PaysEvenCents) : t.IsOrdinary where
  upper x hx := by
    obtain ⟨n, hn⟩ := h.upper x hx
    exact ⟨⟨5000 * n, by rw [hn]; push_cast; ring⟩, h.upper_lt x hx⟩
  rate := by
    obtain ⟨n, hn⟩ := h.rate
    exact ⟨⟨200 * n, by rw [hn]; push_cast; ring⟩, h.rate_lt⟩

/-- Of halves the tier covers a whole number of halves. -/
theorem isHalves_ceiling (h : t.PaysEvenCents) (hx : IsHalves x) :
    IsHalves (Exact.ceiling t x) := by
  unfold Exact.ceiling
  cases hupper : t.upper with
  | none => exact hx
  | some upper => exact min_rec' IsHalves hx (h.upper upper hupper)

/-- Halves are paid in whole cents. -/
theorem nearestCent_eq (h : t.PaysEvenCents) (hx : IsHalves x) :
    nearestCent (x * t.rate.value) = x * t.rate.value := by
  obtain ⟨m, hm⟩ := hx
  obtain ⟨n, hn⟩ := h.rate
  apply nearestCent_of_cents (n := m * n)
  rw [hm, hn]
  push_cast
  ring

end Tier.PaysEvenCents

namespace Exact

variable {sold : List Deal} {s : Scope} {tiers : List Tier}

/-- The units of shared and whole deals are no more than the deals. -/
theorem units_le_length (h : ∀ d ∈ sold, Deal.isShare d.count = true) (s : Scope) :
    units sold s ≤ sold.length := by
  have hone : ∀ x ∈ (Deal.seen s sold).map fun d => d.count.value, x ≤ 1 := by
    refine List.forall_mem_map.2 fun d hd => ?_
    rcases Deal.value_count (h d (Deal.mem_seen.1 hd).1) with hv | hv
    · rw [hv]
      norm_num
    · exact hv.le
  have hsum := List.sum_le_card_nsmul _ _ hone
  rw [List.length_map, nsmul_one] at hsum
  have hseen : ((Deal.seen s sold).length : ℚ) ≤ sold.length := by
    exact_mod_cast List.length_filter_le _ _
  exact hsum.trans hseen

/-- Where rates rise with the tiers, halves of units are paid no less retroactively than slice by
slice, also in cents. -/
theorem cents_unitTiers_le (hu : 0 ≤ units sold s) (hhalves : IsHalves (units sold s))
    (ht : ∀ t ∈ tiers, t.PaysEvenCents)
    (hrise : (Tier.sorted tiers).Pairwise fun t t' => t.rate.value ≤ t'.rate.value)
    (hrate : ∀ t ∈ tiers, 0 ≤ t.rate.value) :
    cents sold (.unitTiers s tiers false) ≤ cents sold (.unitTiers s tiers true) := by
  have hslices : cents sold (.unitTiers s tiers false) =
      ((slices (units sold s) tiers).map fun taken => taken.2 * taken.1.rate.value).sum := by
    rw [cents, pay, if_neg Bool.false_ne_true, List.map_map]
    refine congrArg List.sum (List.map_congr_left fun taken h => ?_)
    have hceil : ∀ t ∈ sortedBy Tier.lower tiers, IsHalves (ceiling t (units sold s)) :=
      fun t h => (ht t (mem_sortedBy.1 h)).isHalves_ceiling hhalves
    exact (ht taken.1 (mem_slices h).1).nearestCent_eq
      (of_mem_slicesFrom (fun hx hy => hx.sub hy) ⟨0, by norm_num⟩ hceil h)
  have hreached : cents sold (.unitTiers s tiers true) =
      ((reached? (units sold s) tiers).map fun t => units sold s * t.rate.value).getD 0 := by
    rw [cents, pay, if_pos rfl, sum_reached?]
    cases htier : reached? (units sold s) tiers with
    | none => rfl
    | some t => exact (ht t (mem_of_reached? htier)).nearestCent_eq hhalves
  rw [hslices, hreached]
  exact sum_slices_le hu hrise hrate

/-- Units that reach no tier are paid nothing. -/
theorem cents_unitTiers_of_lt (h : ∀ t ∈ tiers, units sold s < t.lower.value) (retroactive : Bool) :
    cents sold (.unitTiers s tiers retroactive) = 0 := by
  have hsorted : ∀ t ∈ sortedBy Tier.lower tiers, units sold s < t.lower.value :=
    fun t ht => h t (mem_sortedBy.1 ht)
  have hslices : slices (units sold s) tiers = [] := slicesFrom_of_lt hsorted
  have hreached : reached Tier.lower (units sold s) tiers = [] :=
    filter_eq_nil_of_forall fun t ht => decide_eq_false (not_le.2 (hsorted t ht))
  have hnone : pay sold (.unitTiers s tiers retroactive) = [] := by
    cases retroactive with
    | true => simp [pay, reached?, hreached]
    | false => simp [pay, hslices]
  rw [cents, hnone]
  rfl

end Exact

/-! ## Evaluations -/

namespace Plan

variable {label : String} {s : Scope} {tiers : List Tier} {retroactive : Bool} {deals : List Deal}

/-- The units of shared and whole deals are a small number of halves. -/
theorem units_of_isRead (hdeals : ∀ d ∈ deals, d.IsRead) (hlen : deals.length < 10 ^ 5)
    (s : Scope) :
    0 ≤ Exact.units (Deal.delivered deals) s ∧ IsHalves (Exact.units (Deal.delivered deals) s) ∧
      OnGrid 4 (10 ^ 16) (Exact.units (Deal.delivered deals) s) := by
  have hshare : ∀ d ∈ deals, Deal.isShare d.count = true := fun d hd => (hdeals d hd).isShare
  obtain ⟨period, hperiod, hof⟩ :=
    Period.ofDeals_isOf_of_isShare hshare (hlen.trans (by norm_num))
  have hunits := ((Period.ofDeals_isUnits hdeals).of_eq hperiod).2 s
  rw [hof.units] at hunits
  have hle : Exact.units (Deal.delivered deals) s ≤ (10 ^ 5 : ℕ) := by
    have hcount : (Deal.delivered deals).length ≤ 10 ^ 5 :=
      (List.length_filter_le _ _).trans hlen.le
    exact (Exact.units_le_length (fun d hd => hshare d (List.mem_of_mem_filter hd)) s).trans
      (by exact_mod_cast hcount)
  obtain ⟨n, hn⟩ := hunits.halves
  exact ⟨hunits.nonneg, ⟨n, by rw [hn, Int.cast_natCast]⟩,
    ((hunits.onGrid hle).finer 3).mono (by norm_num)⟩

/-- A rule with tiers of units looks at nothing but units, so that its commission is computed
without rounding, whatever else is known of the deals. -/
theorem commission_of_unitTiers {p : Plan}
    (hrules : p.rules = [⟨label, .unitTiers s tiers retroactive⟩])
    (ht : ∀ t ∈ tiers, t.IsOrdinary) (hcount : tiers.length < 10 ^ 5)
    (hdeals : ∀ d ∈ deals, d.IsRead) (hlen : deals.length < 10 ^ 5) {b : Breakdown}
    (h : p.evaluate deals = .ok b) :
    b.commission.value =
      Exact.cents (Deal.delivered deals) (.unitTiers s tiers retroactive) := by
  obtain ⟨steps⟩ := exists_steps h
  have hof := (Period.ofDeals_isOf_of_isShare (fun d hd => (hdeals d hd).isShare)
    (hlen.trans (by norm_num))).of_eq steps.ofDeals
  obtain ⟨-, -, hgrid⟩ := units_of_isRead hdeals hlen s
  have hbook : steps.booked.map LineItem.exact =
      Exact.booked p.rules (Deal.delivered deals) := by
    refine (Plan.book_of_rules fun r hr => ?_).of_eq steps.book
    rw [hrules, List.mem_singleton] at hr
    subst hr
    exact Terms.book_of_earnings
      (Terms.unitTierEarnings_exact hof (hof.units s ▸ hgrid) ht retroactive)
      fun l hl => Exact.abs_amount_unitTiers_le hgrid ht hl
  have hlines : ∀ l ∈ steps.booked.map LineItem.exact, OnGrid 2 (10 ^ 21) l.amount := by
    intro l hl
    rw [hbook, hrules, Exact.booked, List.flatMap_singleton] at hl
    obtain ⟨l, hpay, rfl⟩ := List.mem_map.1 hl
    exact (OnGrid.cents (Exact.abs_amount_unitTiers_le hgrid ht hpay)).mono (by norm_num)
  have hfew : steps.booked.length * 10 ^ 21 < 10 ^ 28 := by
    have hlength := Exact.length_pay_le (Deal.delivered deals) (.unitTiers s tiers retroactive)
    have hbooked := congrArg List.length hbook
    rw [List.length_map, hrules, Exact.booked, List.length_map, List.flatMap_singleton] at hbooked
    rw [← hbooked, Terms.parts] at hlength
    omega
  have hearned := (subtotal_exact hlines hfew .commission).of_eq steps.subtotal_commission
  have hfloors : p.floors = [] := by
    rw [floors, hrules]
    rfl
  have hguaranteed := steps.guarantees
  rw [hfloors, guaranteed_nil, Except.ok.injEq, Prod.mk.injEq] at hguaranteed
  rw [← hguaranteed.1, hearned, hbook, Exact.subtotal_booked, hrules]
  simp [Terms.category]

/-- A rule with the tiers of one that was read and accepted makes a plan, in either mode and within
any scope, and its commission is computed without rounding. -/
theorem exists_commission_of_unitTiers {r : Rule} {s₀ : Scope} {retroactive₀ : Bool}
    (hread : r.IsRead) (hsound : r.isSound = true)
    (hterms : r.terms = .unitTiers s₀ tiers retroactive₀) (ht : ∀ t ∈ tiers, t.IsOrdinary)
    (hcount : tiers.length < 10 ^ 5) (hdeals : ∀ d ∈ deals, d.IsRead)
    (hlen : deals.length < 10 ^ 5) (strict : Bool) (label : String) (s : Scope)
    (retroactive : Bool) :
    ∃ p b, ofRules strict [⟨label, .unitTiers s tiers retroactive⟩] = .ok p ∧
      p.evaluate deals = .ok b ∧
      b.commission.value =
        Exact.cents (Deal.delivered deals) (.unitTiers s tiers retroactive) := by
  have hwell : ∀ t ∈ tiers, t.IsWellFormed := by
    have hterms' := Rule.isSound_iff.1 hsound
    rwa [hterms] at hterms'
  have hamount : ∀ x ∈ tiers.flatMap Tier.figures, x.IsAmount := by
    have hfigures := hread.isAmount
    rwa [hterms] at hfigures
  let p : Plan := ⟨[⟨label, .unitTiers s tiers retroactive⟩],
    List.forall_mem_singleton.2 (Rule.isSound_iff.2 hwell)⟩
  have hp : ofRules strict [⟨label, .unitTiers s tiers retroactive⟩] = .ok p :=
    ofRules_eq_ok_iff.2 ⟨rfl, fun _ => List.countP_le_length⟩
  have hparts : (p.rules.map fun r => 1 + r.terms.parts).sum < 10 ^ 9 := by
    show 1 + tiers.length + 0 < 10 ^ 9
    omega
  obtain ⟨b, hb, -⟩ := evaluate_bounded (.of_isRead hdeals (hlen.trans (by norm_num)))
    (List.forall_mem_singleton.2 hamount) hparts
  exact ⟨p, b, hp, hb, commission_of_unitTiers rfl ht hcount hdeals hlen hb⟩

/-- Retroactive tiers never pay less than the same tiers slice by slice, where rates rise with the
tiers, tiers end at halves of a unit and pay an even number of cents; and both pay nothing for units
that reach no tier. -/
theorem evaluate_retroactive {r : Rule} {s₀ : Scope} (hread : r.IsRead)
    (hsound : r.isSound = true) (hterms : r.terms = .unitTiers s₀ tiers retroactive)
    (hrise : (Tier.sorted tiers).Pairwise fun t t' => t.rate.value ≤ t'.rate.value)
    (hcents : ∀ t ∈ tiers, t.PaysEvenCents) (hcount : tiers.length < 10 ^ 5)
    (hdeals : ∀ d ∈ deals, d.IsRead) (hlen : deals.length < 10 ^ 5) (strict : Bool)
    (label : String) (s : Scope) :
    ∃ p p' b b', ofRules strict [⟨label, .unitTiers s tiers false⟩] = .ok p ∧
      ofRules strict [⟨label, .unitTiers s tiers true⟩] = .ok p' ∧
      p.evaluate deals = .ok b ∧ p'.evaluate deals = .ok b' ∧
      b.commission.value ≤ b'.commission.value ∧
      ((∀ t ∈ tiers, Exact.units (Deal.delivered deals) s < t.lower.value) →
        b.commission.value = 0 ∧ b'.commission.value = 0) := by
  have hpays := exists_commission_of_unitTiers hread hsound hterms
    (fun t ht => (hcents t ht).isOrdinary) hcount hdeals hlen strict label s
  obtain ⟨p, b, hp, hb, hcommission⟩ := hpays false
  obtain ⟨p', b', hp', hb', hcommission'⟩ := hpays true
  obtain ⟨hnonneg, hhalves, -⟩ := units_of_isRead hdeals hlen s
  have hrate : ∀ t ∈ tiers, 0 ≤ t.rate.value := by
    have hwell := Rule.isSound_iff.1 hsound
    rw [hterms] at hwell
    exact fun t ht => (hwell t ht).rate
  refine ⟨p, p', b, b', hp, hp', hb, hb', ?_, fun hlt => ?_⟩
  · rw [hcommission, hcommission']
    exact Exact.cents_unitTiers_le hnonneg hhalves hcents hrise hrate
  · rw [hcommission, hcommission']
    exact ⟨Exact.cents_unitTiers_of_lt hlt false, Exact.cents_unitTiers_of_lt hlt true⟩

end Plan

/-- Tiers with a gap whose rates rise, the last one in front. -/
def Tier.climbing : List Tier :=
  [⟨.ofNat 4, none, ⟨false, 3002, -2⟩⟩, ⟨.ofNat 1, some ⟨false, 25, -1⟩, .ofNat 10⟩,
    ⟨.ofNat 3, some (.ofNat 4), .ofNat 20⟩]

/-- A rule with these tiers. -/
def Rule.climbing : Rule := ⟨"", .unitTiers (.only .new) Tier.climbing true⟩

/-- The rule was read. -/
theorem Rule.isRead_climbing : Rule.climbing.IsRead := by
  refine ⟨.direct, .unitTiers, [("scope", .text "New"), ("retroactive", .bool true),
    ("tiers", .list
      [.object [("from", .int 4), ("amount", .text "30.02")],
        .object [("from", .int 1), ("to", .text "2.5"), ("amount", .int 10)],
        .object [("from", .int 3), ("to", .int 4), ("amount", .int 20)]])], ?_⟩
  exact Reading.result?_eq_some_iff.1 (by decide +kernel)

/-- The tiers end at halves of a unit and pay an even number of cents. -/
theorem Tier.paysEvenCents_climbing : ∀ t ∈ Tier.climbing, t.PaysEvenCents := by
  have stated : ∀ {t : Tier}, (∀ x ∈ t.stated, IsHalves x.value ∧ |x.value| < 10 ^ 7) →
      (∃ n : ℤ, t.rate.value = 2 * n / 100) → |t.rate.value| < 10 ^ 7 → t.PaysEvenCents :=
    fun h hrate hlt => ⟨fun x hx => (h x (Option.filter_eq_some_iff.1 hx).1).1,
      fun x hx => (h x (Option.filter_eq_some_iff.1 hx).1).2, hrate, hlt⟩
  refine List.forall_mem_cons.2 ⟨?_, List.forall_mem_cons.2 ⟨?_, List.forall_mem_singleton.2 ?_⟩⟩
  · exact stated (by simp) ⟨1501, by norm_num [Decimal.value, Decimal.digits]⟩
      (by norm_num [Decimal.value, Decimal.digits])
  · exact stated (by simpa using ⟨⟨5, by norm_num [Decimal.value, Decimal.digits]⟩,
      by norm_num [Decimal.value, Decimal.digits]⟩) ⟨500, by norm_num⟩ (by norm_num)
  · exact stated (by simpa using ⟨⟨8, by norm_num⟩, by norm_num⟩) ⟨1000, by norm_num⟩
      (by norm_num)

/-- Four and a half units are paid no less retroactively. -/
theorem Plan.evaluate_climbing :
    Rule.climbing.IsRead ∧ Rule.climbing.isSound = true ∧
      ((Tier.sorted Tier.climbing).Pairwise fun t t' => t.rate.value ≤ t'.rate.value) ∧
      (∀ t ∈ Tier.climbing, t.PaysEvenCents) ∧ (∀ d ∈ Deal.wholesAndSplit 4, d.IsRead) ∧
      ∃ p p' b b', Plan.ofRules true [⟨"", .unitTiers .all Tier.climbing false⟩] = .ok p ∧
        Plan.ofRules true [⟨"", .unitTiers .all Tier.climbing true⟩] = .ok p' ∧
        p.evaluate (Deal.wholesAndSplit 4) = .ok b ∧ p'.evaluate (Deal.wholesAndSplit 4) = .ok b' ∧
        b.commission.value ≤ b'.commission.value := by
  have hsound : Rule.climbing.isSound = true := by decide +kernel
  have hrise : (Tier.sorted Tier.climbing).Pairwise fun t t' => t.rate.value ≤ t'.rate.value := by
    have hsorted : Tier.sorted Tier.climbing =
        [⟨.ofNat 1, some ⟨false, 25, -1⟩, .ofNat 10⟩, ⟨.ofNat 3, some (.ofNat 4), .ofNat 20⟩,
          ⟨.ofNat 4, none, ⟨false, 3002, -2⟩⟩] := by decide +kernel
    rw [hsorted]
    norm_num [Decimal.value, Decimal.digits, Decimal.ofNat]
  have hdeals := Deal.isRead_of_mem_wholesAndSplit 4
  obtain ⟨p, p', b, b', hp, hp', hb, hb', hle, -⟩ := Plan.evaluate_retroactive
    Rule.isRead_climbing hsound rfl hrise Tier.paysEvenCents_climbing (by decide) hdeals (by decide)
    true "" .all
  exact ⟨Rule.isRead_climbing, hsound, hrise, Tier.paysEvenCents_climbing, hdeals, p, p', b, b', hp,
    hp', hb, hb', hle⟩

end DealerPay
