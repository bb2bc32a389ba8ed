import DealerPay.Pay.Earning
import DealerPay.Proofs.Exact.Tiering
import DealerPay.Proofs.Valid

/-!
# Earnings end

Once rules and deals have been read, no earning fails. Figures stay below the limit of amounts but
may have any number of digits and any exponent, so most results are rounded; what is shown here is
that each one has a size that fits, so that no sum and no product is an overflow.

* `Amounts` are deals with amounts for figures, fewer than a billion; `Period.IsBounded` is a period
  of such deals.
* `Tier.slices_bounded`: the walk through the tiers ends. What is accounted for is not negative, and
  below the units wherever something is taken.
* There is one lemma for each kind of rule, and `Terms.earnings_bounded` puts them together: no
  earning exceeds `10 ^ 38`, and there are three at most for each rule, tier or threshold.
-/

namespace DealerPay

/-! ## Deals -/

/-- Deals whose figures are amounts, each a share of a vehicle, fewer than a billion. -/
structure Amounts (sold : List Deal) : Prop where
  /-- Their figures are amounts. -/
  figures : ∀ d ∈ sold, ∀ x ∈ d.figures, x.IsAmount
  /-- Each is one vehicle or half of one. -/
  share : ∀ d ∈ sold, Deal.isShare d.count = true
  /-- They are fewer than a billion. -/
  count : sold.length < 10 ^ 9

variable {sold : List Deal} {period : Period} {s : Scope}

namespace Amounts

/-- Deals that were read have amounts for figures. -/
theorem of_isRead (h : ∀ d ∈ sold, d.IsRead) (hcount : sold.length < 10 ^ 9) : Amounts sold where
  figures := fun d hd => (h d hd).isAmount
  share := fun d hd => (h d hd).isShare
  count := hcount

/-- Some of the deals have amounts for figures if all have. -/
theorem filter (h : Amounts sold) (q : Deal → Bool) : Amounts (sold.filter q) where
  figures := fun d hd => h.figures d (List.mem_of_mem_filter hd)
  share := fun d hd => h.share d (List.mem_of_mem_filter hd)
  count := (List.length_filter_le q sold).trans_lt h.count

/-- A figure of one of the deals stays below the limit. -/
theorem abs_figure_le (h : Amounts sold) {figure : Deal → Decimal}
    (hf : ∀ d : Deal, figure d ∈ d.figures) {d : Deal} (hd : d ∈ sold) :
    |(figure d).value| ≤ 10 ^ 15 := (h.figures d hd _ (hf d)).abs_le

end Amounts

/-- A share of a vehicle is one at most. -/
theorem Deal.abs_count_le {d : Deal} (h : Deal.isShare d.count = true) : |d.count.value| ≤ 1 := by
  rcases Deal.value_count h with hv | hv <;> rw [hv] <;> norm_num

/-- A billion numbers of a size at most add up to a billion times that. -/
theorem Decimal.sum_bounded {ds : List Decimal} {k : ℕ} (h : ∀ d ∈ ds, |d.value| ≤ 10 ^ k)
    (hlen : ds.length ≤ 10 ^ 9) (hk : k ≤ 999971) :
    Yields (Decimal.sum ds) fun r => |r.value| ≤ 10 ^ (9 + k) := by
  refine (sum_of_abs_le_tenPow (10 ^ 9) h hlen (by norm_num) hk).mono ?_
  intro r hr
  rw [pow_add]
  exact_mod_cast hr

/-- A total of a figure over the deals. -/
theorem Amounts.total (h : Amounts sold) {figure : Deal → Decimal}
    (hf : ∀ d : Deal, figure d ∈ d.figures) :
    Yields (Deal.total figure sold) fun r => |r.value| ≤ 10 ^ 24 := by
  apply Decimal.sum_bounded (k := 15)
  · intro x hx
    obtain ⟨d, hd, rfl⟩ := List.mem_map.1 hx
    exact h.abs_figure_le hf hd
  · rw [List.length_map]
    exact h.count.le
  · norm_num

/-- The units of the deals. -/
theorem Amounts.unitCount (h : Amounts sold) :
    Yields (Deal.unitCount sold) fun r => |r.value| ≤ 10 ^ 9 := by
  apply Decimal.sum_bounded (k := 0)
  · intro x hx
    obtain ⟨d, hd, rfl⟩ := List.mem_map.1 hx
    simpa using Deal.abs_count_le (h.share d hd)
  · rw [List.length_map]
    exact h.count.le
  · norm_num

/-- The gross of the deals. -/
theorem Amounts.gross (h : Amounts sold) :
    Yields (GrossTotals.ofDeals sold) fun g =>
      |g.front.value| ≤ 10 ^ 24 ∧ |g.back.value| ≤ 10 ^ 24 := by
  unfold GrossTotals.ofDeals
  refine (h.total fun d => by simp [Deal.figures]).bind ?_
  intro front hfront
  refine (h.total fun d => by simp [Deal.figures]).bind ?_
  intro back hback
  exact .pure ⟨hfront, hback⟩

/-- What is sold on top of the deals. -/
theorem Amounts.addOns (h : Amounts sold) :
    Yields (AddOnTotals.ofDeals sold) fun t =>
      |t.accessory.value| ≤ 10 ^ 24 ∧ |t.spiff.value| ≤ 10 ^ 24 ∧
        |t.tradeSpiff.value| ≤ 10 ^ 24 := by
  unfold AddOnTotals.ofDeals
  refine (h.total fun d => by simp [Deal.figures]).bind ?_
  intro accessory haccessory
  refine (h.total fun d => by simp [Deal.figures]).bind ?_
  intro spiff hspiff
  refine (h.total fun d => by simp [Deal.figures]).bind ?_
  intro trade htrade
  exact .pure ⟨haccessory, hspiff, htrade⟩

/-- Both kinds of gross together. -/
theorem GrossTotals.total_bounded {g : GrossTotals} (hf : |g.front.value| ≤ 10 ^ 24)
    (hb : |g.back.value| ≤ 10 ^ 24) : Yields g.total fun r => |r.value| ≤ (2 : ℕ) * 10 ^ 24 := by
  refine Decimal.add_of_abs_le (represents_of_eq 2 24 rfl (by norm_num) (by norm_num)) ?_
  have := abs_add_le g.front.value g.back.value
  push_cast
  linarith

/-- The gross that a percentage is taken of. -/
theorem GrossTotals.basis_bounded {g : GrossTotals} (hf : |g.front.value| ≤ 10 ^ 24)
    (hb : |g.back.value| ≤ 10 ^ 24) (basis : GrossBasis) :
    Yields (g.basis basis) fun r => |r.value| ≤ (2 : ℕ) * 10 ^ 24 := by
  have htwice : (10 : ℚ) ^ 24 ≤ (2 : ℕ) * 10 ^ 24 := by norm_num
  cases basis with
  | front => exact .ok (hf.trans htwice)
  | back => exact .ok (hb.trans htwice)
  | total => exact total_bounded hf hb

/-! ## Periods -/

/-- Whether a period consists of these deals, with fewer than a billion units. -/
structure Period.IsBounded (p : Period) (sold : List Deal) : Prop where
  /-- Its deals are these. -/
  delivered : p.delivered = sold
  /-- The units of each scope are few. -/
  units : ∀ s, |(p.unitsOf s).value| ≤ 10 ^ 9

/-- The period of such deals. -/
theorem Period.ofDeals_bounded {deals : List Deal} (h : Amounts (Deal.delivered deals)) :
    Yields (Period.ofDeals deals) fun p => p.IsBounded (Deal.delivered deals) := by
  unfold Period.ofDeals
  refine h.unitCount.bind ?_
  intro all hall
  refine (h.filter _).unitCount.bind ?_
  intro new hnew
  refine (h.filter _).unitCount.bind ?_
  intro used hused
  refine .pure ⟨rfl, fun s => ?_⟩
  cases s with
  | all => exact hall
  | only c =>
    cases c with
    | new => exact hnew
    | used => exact hused

/-! ## Tiers -/

namespace Tier

/-- A ceiling of a tier stays below the limit of amounts, as the units do. -/
theorem abs_ceiling_le {t : Tier} (ht : ∀ x ∈ t.figures, x.IsAmount) {units : Decimal}
    (hu : |units.value| ≤ 10 ^ 15) : |(t.ceiling units).value| ≤ 10 ^ 15 := by
  unfold ceiling
  cases hupper : t.upper with
  | none => exact hu
  | some upper =>
    have hle := (ht upper (mem_figures_of_upper hupper)).abs_le
    show |(units.least upper).value| ≤ 10 ^ 15
    rw [Decimal.value_least]
    rcases min_choice units.value upper.value with h | h <;> rw [h]
    · exact hu
    · exact hle

/-- The walk through the tiers ends, and what a slice takes is bounded: what is accounted for is not
negative, and below the units wherever something is taken. -/
theorem slicesFrom_bounded {units : Decimal} (hu : |units.value| ≤ 10 ^ 15) {tiers : List Tier}
    (ht : ∀ t ∈ tiers, ∀ x ∈ t.figures, x.IsAmount) {accounted : Decimal}
    (ha : 0 ≤ accounted.value) :
    Yields (slicesFrom units accounted tiers) fun ss => ss.length ≤ tiers.length ∧
      ∀ s ∈ ss, s.tier ∈ tiers ∧ |s.units.value| ≤ (2 : ℕ) * 10 ^ 15 := by
  induction tiers generalizing accounted with
  | nil => exact .ok ⟨le_rfl, by simp⟩
  | cons t rest ih =>
    have hrest : ∀ t ∈ rest, ∀ x ∈ t.figures, x.IsAmount :=
      fun t' h' => ht t' (List.mem_cons_of_mem t h')
    have skip : Yields (slicesFrom units accounted rest) fun ss =>
        ss.length ≤ (t :: rest).length ∧
          ∀ s ∈ ss, s.tier ∈ t :: rest ∧ |s.units.value| ≤ (2 : ℕ) * 10 ^ 15 := by
      refine (ih hrest ha).mono ?_
      rintro ss ⟨hlen, hss⟩
      exact ⟨hlen.trans (Nat.le_succ _), fun s hs =>
        ⟨List.mem_cons_of_mem t (hss s hs).1, (hss s hs).2⟩⟩
    rw [slicesFrom]
    by_cases hskip : units ≤ accounted ∨ units < t.lower
    · rw [if_pos hskip]
      exact skip
    · rw [if_neg hskip]
      rw [Decimal.le_iff, not_or, not_le] at hskip
      have hceil := abs_le.1 (abs_ceiling_le (ht t List.mem_cons_self) hu)
      have hunits := abs_le.1 hu
      have hgap : |(t.ceiling units).value - accounted.value| ≤ (2 : ℕ) * 10 ^ 15 := by
        rw [abs_le]
        push_cast
        constructor <;> linarith [hskip.1]
      refine (Decimal.sub_of_abs_le (represents_of_eq 2 15 rfl (by norm_num) (by norm_num))
        hgap).bind ?_
      intro taken htaken
      by_cases hpos : taken.isPositive = true
      · rw [if_pos hpos]
        rw [Decimal.isPositive_iff] at hpos
        have hnext : |accounted.value + taken.value| ≤ (3 : ℕ) * 10 ^ 15 := by
          have := abs_le.1 htaken
          rw [abs_le]
          push_cast at this ⊢
          constructor <;> linarith [hskip.1]
        obtain ⟨next, hn, -⟩ := Decimal.add_of_abs_le
          (represents_of_eq 3 15 rfl (by norm_num) (by norm_num)) hnext
        refine Yields.bind_of_eq hn ?_
        refine (ih hrest (Decimal.nonneg_of_add hn (by linarith))).bind ?_
        rintro ss ⟨hlen, hss⟩
        refine .pure ⟨Nat.succ_le_succ hlen, ?_⟩
        intro s hs
        rcases List.mem_cons.1 hs with rfl | hs
        · exact ⟨List.mem_cons_self, htaken⟩
        · exact ⟨List.mem_cons_of_mem t (hss s hs).1, (hss s hs).2⟩
      · rw [if_neg hpos]
        exact skip

/-- The slices of the units. -/
theorem slices_bounded {units : Decimal} (hu : |units.value| ≤ 10 ^ 15) {tiers : List Tier}
    (ht : ∀ t ∈ tiers, ∀ x ∈ t.figures, x.IsAmount) :
    Yields (slices units tiers) fun ss => ss.length ≤ tiers.length ∧
      ∀ s ∈ ss, s.tier ∈ tiers ∧ |s.units.value| ≤ (2 : ℕ) * 10 ^ 15 := by
  have hperm := sortByBound_perm Tier.lower tiers
  unfold slices sorted
  refine (slicesFrom_bounded hu (fun t h => ht t (hperm.mem_iff.1 h))
    (by rw [Decimal.value_zero])).mono ?_
  rintro ss ⟨hlen, hss⟩
  exact ⟨hlen.trans hperm.length_eq.le, fun s hs => ⟨hperm.mem_iff.1 (hss s hs).1, (hss s hs).2⟩⟩

end Tier

/-! ## Kinds of rules -/

namespace Terms

/-- A bounded number of units can be shown. -/
theorem isAmount_of_units {units : Decimal} (h : |units.value| ≤ 10 ^ 9) : units.IsAmount :=
  Decimal.isAmount_of_abs_le (h.trans (by norm_num))

/-- What a flat rate earns. -/
theorem flatRateEarning_bounded (hp : period.IsBounded sold) (s : Scope) {perUnit : Decimal}
    (hr : perUnit.IsAmount) :
    Yields (flatRateEarning period s perUnit) fun e => |e.amount.value| ≤ 10 ^ 38 := by
  have hu := hp.units s
  unfold flatRateEarning
  refine (Amount.plainText_of_isAmount (isAmount_of_units hu)).bind ?_
  intro shown _
  have hmul := Decimal.mul_of_abs_le_tenPow (m := 1) (j := 9) (by simpa using hu) hr.abs_le
    (by norm_num) (by norm_num)
  refine hmul.lift.bind ?_
  intro pay hpay
  refine .pure (hpay.trans ?_)
  norm_num

/-- What a slice earns. -/
theorem sliceEarning_bounded (name : String) {s : Tier.Slice} {j : ℕ} (hj : j ≤ 999950)
    (hu : |s.units.value| ≤ (2 : ℕ) * 10 ^ j) (hr : s.tier.rate.IsAmount) :
    Yields (sliceEarning name s) fun e => |e.amount.value| ≤ (2 : ℕ) * 10 ^ (j + 15) := by
  unfold sliceEarning
  refine (Amount.plainText_of_isAmount hr).bind ?_
  intro shown _
  have hmul := Decimal.mul_of_abs_le_tenPow hu hr.abs_le (by norm_num) (by omega)
  exact hmul.lift.bind fun pay hpay => .pure hpay

/-- What the tiers of units earn. -/
theorem unitTierEarnings_bounded (hp : period.IsBounded sold) (s : Scope) {tiers : List Tier}
    (ht : ∀ t ∈ tiers, ∀ x ∈ t.figures, x.IsAmount) (retroactive : Bool) :
    Yields (unitTierEarnings period s tiers retroactive) fun es =>
      es.length ≤ 1 + tiers.length ∧ ∀ e ∈ es, |e.amount.value| ≤ 10 ^ 38 := by
  have hu := hp.units s
  have rate : ∀ t ∈ tiers, t.rate.IsAmount := fun t h => ht t h _ (by simp [Tier.figures])
  unfold unitTierEarnings
  cases retroactive with
  | true =>
    rw [if_pos rfl, Tier.reached?_eq]
    cases hr : Exact.reached? (period.unitsOf s).value tiers with
    | none => exact .pure ⟨Nat.zero_le _, by simp⟩
    | some t =>
      have htwice : |(period.unitsOf s).value| ≤ (2 : ℕ) * 10 ^ 15 := hu.trans (by norm_num)
      refine (sliceEarning_bounded _ (s := ⟨t, period.unitsOf s⟩) (by norm_num) htwice
        (rate t (Exact.mem_of_reached? hr))).bind ?_
      intro e he
      exact .pure ⟨by simp, by simpa using he.trans (by norm_num)⟩
  | false =>
    rw [if_neg Bool.false_ne_true]
    refine (Tier.slices_bounded (hu.trans (by norm_num)) ht).lift.bind ?_
    rintro ss ⟨hlen, hss⟩
    refine (Yields.forall_mapM fun sl hsl =>
      sliceEarning_bounded _ (by norm_num) (hss sl hsl).2 (rate _ (hss sl hsl).1)).mono ?_
    rintro es ⟨heslen, hes⟩
    exact ⟨by omega, fun e he => (hes e he).trans (by norm_num)⟩

/-! ### Shares of gross -/

/-- A cap does not make an amount larger. -/
theorem abs_capped_le (cap : Option Decimal) (x : Decimal) : |(capped cap x).value| ≤ |x.value| := by
  unfold capped
  cases cap with
  | none => exact le_rfl
  | some most =>
    show |(if most.isPositive = true then x.least most else x).value| ≤ _
    split
    · next hpos =>
      rw [Decimal.isPositive_iff] at hpos
      rw [Decimal.value_least]
      rcases le_total x.value most.value with h | h
      · rw [min_eq_left h]
      · rw [min_eq_right h, abs_of_pos hpos]
        exact h.trans (le_abs_self _)
    · exact le_rfl

/-- The share of one deal. -/
theorem cappedShare_bounded {percent gross : Decimal} (hp : percent.IsAmount)
    (hg : |gross.value| ≤ 10 ^ 15) (cap : Option Decimal) :
    Yields (cappedShare percent cap gross) fun r => |r.value| ≤ 10 ^ 28 := by
  have hshare : Yields (Decimal.percentOf percent gross) fun r => |r.value| ≤ (1 : ℕ) * 10 ^ 28 :=
    Decimal.percentOf_of_abs_le_tenPow (k := 13) (by simpa using hg) hp.abs_le (by norm_num)
      (by norm_num)
  unfold cappedShare
  refine hshare.bind ?_
  intro paid hpaid
  refine .pure ((abs_capped_le cap paid).trans ?_)
  simpa using hpaid

/-- The shares of the front and back gross of one deal. -/
theorem grossShares_bounded {front back : Decimal} (hf : front.IsAmount) (hb : back.IsAmount)
    (frontCap backCap : Option Decimal) {d : Deal} (hd : ∀ x ∈ d.figures, x.IsAmount) :
    Yields (grossShares front back frontCap backCap d) fun r =>
      |r.1.value| ≤ 10 ^ 28 ∧ |r.2.value| ≤ 10 ^ 28 := by
  unfold grossShares
  refine (cappedShare_bounded hf (hd _ (by simp [Deal.figures])).abs_le frontCap).bind ?_
  intro x hx
  refine (cappedShare_bounded hb (hd _ (by simp [Deal.figures])).abs_le backCap).bind ?_
  intro y hy
  exact .pure ⟨hx, hy⟩

/-- The shares of the front and back gross of all deals. -/
theorem grossShareSums_bounded (h : Amounts sold) {front back : Decimal} (hf : front.IsAmount)
    (hb : back.IsAmount) (frontCap backCap : Option Decimal) :
    Yields (grossShareSums front back frontCap backCap sold) fun r =>
      |r.1.value| ≤ 10 ^ 37 ∧ |r.2.value| ≤ 10 ^ 37 := by
  unfold grossShareSums
  refine (Yields.forall_mapM fun d hd =>
    grossShares_bounded hf hb frontCap backCap (h.figures d hd)).bind ?_
  rintro shares ⟨hlen, hshares⟩
  have hcount := h.count.le
  have sum : ∀ part : Decimal × Decimal → Decimal, (∀ r ∈ shares, |(part r).value| ≤ 10 ^ 28) →
      Yields (Decimal.sum (shares.map part)) fun r => |r.value| ≤ 10 ^ 37 := by
    intro part hpart
    apply Decimal.sum_bounded (k := 28)
    · intro x hx
      obtain ⟨r, hr, rfl⟩ := List.mem_map.1 hx
      exact hpart r hr
    · rwa [List.length_map, hlen]
    · norm_num
  refine (sum _ fun r hr => (hshares r hr).1).bind ?_
  intro x hx
  refine (sum _ fun r hr => (hshares r hr).2).bind ?_
  intro y hy
  exact .pure ⟨hx, hy⟩

/-- What the percentages of gross earn. -/
theorem grossShareEarnings_bounded (hp : period.IsBounded sold) (h : Amounts sold)
    {front back : Decimal} (hf : front.IsAmount) (hb : back.IsAmount)
    (frontCap backCap : Option Decimal) :
    Yields (grossShareEarnings period front back frontCap backCap) fun es =>
      es.length ≤ 2 ∧ ∀ e ∈ es, |e.amount.value| ≤ 10 ^ 38 := by
  unfold grossShareEarnings
  rw [hp.delivered]
  refine (grossShareSums_bounded h hf hb frontCap backCap).lift.bind ?_
  rintro sums ⟨hx, hy⟩
  refine (Amount.plainText_of_isAmount hf).bind ?_
  intro frontText _
  refine (Amount.plainText_of_isAmount hb).bind ?_
  intro backText _
  refine .pure ⟨le_rfl, ?_⟩
  have hle : (10 : ℚ) ^ 37 ≤ 10 ^ 38 := by norm_num
  intro e he
  simp only [List.mem_cons, List.not_mem_nil, or_false] at he
  rcases he with rfl | rfl
  · exact hx.trans hle
  · exact hy.trans hle

/-- What the tiers of gross earn. -/
theorem grossTierEarnings_bounded (hp : period.IsBounded sold) (h : Amounts sold) (s : Scope)
    {tiers : List Tier} (ht : ∀ t ∈ tiers, ∀ x ∈ t.figures, x.IsAmount) (retroactive : Bool)
    (basis : GrossBasis) :
    Yields (grossTierEarnings period s tiers retroactive basis) fun es =>
      es.length ≤ 1 ∧ ∀ e ∈ es, |e.amount.value| ≤ 10 ^ 38 := by
  have hseen : Amounts (period.dealsOf s) := by
    unfold Period.dealsOf
    rw [hp.delivered]
    exact h.filter _
  unfold grossTierEarnings
  refine hseen.gross.lift.bind ?_
  rintro g ⟨hfront, hback⟩
  refine (GrossTotals.basis_bounded hfront hback basis).lift.bind ?_
  intro gross hgross
  rw [Tier.reached?_eq]
  cases hr : Exact.reached? (period.unitsOf s).value tiers with
  | none => exact .pure ⟨Nat.zero_le _, by simp⟩
  | some t =>
    have hrate : t.rate.IsAmount := ht t (Exact.mem_of_reached? hr) _ (by simp [Tier.figures])
    refine (Amount.plainText_of_isAmount hrate).bind ?_
    intro shown _
    have hshare : Yields (Decimal.percentOf t.rate gross) fun r => |r.value| ≤ (2 : ℕ) * 10 ^ 37 :=
      Decimal.percentOf_of_abs_le_tenPow (k := 13) hgross hrate.abs_le (by norm_num) (by norm_num)
    refine hshare.lift.bind ?_
    intro pay hpay
    refine .pure ⟨le_rfl, ?_⟩
    intro e he
    rw [List.mem_singleton.1 he]
    exact hpay.trans (by norm_num)

/-! ### Bonuses and add-ons -/

/-- What a threshold earns. -/
theorem thresholdEarning_bounded (s : Scope) {t : Threshold} (ht : ∀ x ∈ t.figures, x.IsAmount) :
    Yields (thresholdEarning s t) fun e => |e.amount.value| ≤ 10 ^ 38 := by
  unfold thresholdEarning
  refine (Amount.plainText_of_isAmount (ht t.lower (by simp [Threshold.figures]))).bind ?_
  intro shown _
  have hamount := (ht t.amount (by simp [Threshold.figures])).abs_le
  exact .pure (hamount.trans (by norm_num))

/-- The percentages of what is sold on top, from the size of that. -/
theorem addOnShares_bounded {accessory spiff tradeSpiff : Decimal} (ha : accessory.IsAmount)
    (hs : spiff.IsAmount) (htr : tradeSpiff.IsAmount) {t : AddOnTotals} {k : ℕ} (hk : k ≤ 999950)
    (h1 : |t.accessory.value| ≤ 10 ^ k) (h2 : |t.spiff.value| ≤ 10 ^ k)
    (h3 : |t.tradeSpiff.value| ≤ 10 ^ k) :
    Yields (addOnShares accessory spiff tradeSpiff t) fun r =>
      |r.accessory.value| ≤ 10 ^ (k + 13) ∧ |r.spiff.value| ≤ 10 ^ (k + 13) ∧
        |r.tradeSpiff.value| ≤ 10 ^ (k + 13) := by
  have share : ∀ {percent total : Decimal}, percent.IsAmount → |total.value| ≤ 10 ^ k →
      Yields (Decimal.percentOf percent total) fun r => |r.value| ≤ 10 ^ (k + 13) := by
    intro percent total hpercent htotal
    have := Decimal.percentOf_of_abs_le_tenPow (m := 1) (j := k) (k := 13) (by simpa using htotal)
      hpercent.abs_le (by norm_num) (by omega)
    simpa using this
  unfold addOnShares
  refine (share ha h1).bind ?_
  intro x hx
  refine (share hs h2).bind ?_
  intro y hy
  refine (share htr h3).bind ?_
  intro z hz
  exact .pure ⟨hx, hy, hz⟩

/-- What the add-ons earn. -/
theorem addOnEarnings_bounded (hp : period.IsBounded sold) (h : Amounts sold)
    {accessory spiff tradeSpiff : Decimal} (ha : accessory.IsAmount) (hs : spiff.IsAmount)
    (htr : tradeSpiff.IsAmount) :
    Yields (addOnEarnings period accessory spiff tradeSpiff) fun es =>
      es.length ≤ 3 ∧ ∀ e ∈ es, |e.amount.value| ≤ 10 ^ 38 := by
  unfold addOnEarnings
  rw [hp.delivered]
  refine h.addOns.lift.bind ?_
  rintro totals ⟨h1, h2, h3⟩
  refine (addOnShares_bounded ha hs htr (by norm_num) h1 h2 h3).lift.bind ?_
  rintro shares ⟨hx, hy, hz⟩
  have hle : (10 : ℚ) ^ (24 + 13) ≤ 10 ^ 38 := by norm_num
  refine .pure ⟨le_rfl, ?_⟩
  intro e he
  simp only [List.mem_cons, List.not_mem_nil, or_false] at he
  rcases he with rfl | rfl | rfl
  · exact hx.trans hle
  · exact hy.trans hle
  · exact hz.trans hle

/-! ### All kinds -/

/-- What a rule earns: three earnings for each of its parts at most, and none of them too large. -/
theorem earnings_bounded (hp : period.IsBounded sold) (h : Amounts sold) {t : Terms}
    (ht : ∀ x ∈ t.figures, x.IsAmount) :
    Yields (t.earnings period) fun es =>
      es.length ≤ 3 * (1 + t.parts) ∧ ∀ e ∈ es, |e.amount.value| ≤ 10 ^ 38 := by
  cases t with
  | base amount isDraw =>
    have hamount := (ht amount (by simp [figures])).abs_le
    refine .ok ⟨by simp [parts], ?_⟩
    intro e he
    rw [List.mem_singleton.1 he]
    unfold baseEarning
    split
    · exact hamount.trans (by norm_num)
    · exact hamount.trans (by norm_num)
  | flatRate s perUnit =>
    refine (flatRateEarning_bounded hp s (ht perUnit (by simp [figures]))).bind ?_
    intro e he
    exact .pure ⟨by simp [parts], by simpa using he⟩
  | unitTiers s tiers retroactive =>
    refine (unitTierEarnings_bounded hp s
      (fun t h x hx => ht x (List.mem_flatMap.2 ⟨t, h, hx⟩)) retroactive).mono ?_
    rintro es ⟨hlen, hes⟩
    exact ⟨by simp only [parts]; omega, hes⟩
  | grossShare front back frontCap backCap =>
    obtain ⟨⟨hf, -⟩, hb, -⟩ := forall_mem_figures_grossShare ht
    refine (grossShareEarnings_bounded hp h hf hb frontCap backCap).mono ?_
    rintro es ⟨hlen, hes⟩
    exact ⟨by omega, hes⟩
  | grossTiers s tiers retroactive basis =>
    refine (grossTierEarnings_bounded hp h s
      (fun t h x hx => ht x (List.mem_flatMap.2 ⟨t, h, hx⟩)) retroactive basis).mono ?_
    rintro es ⟨hlen, hes⟩
    exact ⟨by omega, hes⟩
  | volumeBonus s thresholds =>
    have hreached : (Threshold.reached (period.unitsOf s) thresholds).length ≤
        thresholds.length := by
      rw [Threshold.reached_eq]
      exact Exact.length_reached_le _ _
    refine (Yields.forall_mapM fun t hmem => thresholdEarning_bounded s ?_).mono ?_
    · intro x hx
      rw [Threshold.reached_eq] at hmem
      exact ht x (List.mem_flatMap.2 ⟨t, Exact.mem_of_mem_reached hmem, hx⟩)
    · rintro es ⟨hlen, hes⟩
      exact ⟨by simp only [parts]; omega, hes⟩
  | addOn s accessory spiff tradeSpiff =>
    refine (addOnEarnings_bounded hp h (ht _ (by simp [figures])) (ht _ (by simp [figures]))
      (ht _ (by simp [figures]))).mono ?_
    rintro es ⟨hlen, hes⟩
    exact ⟨by omega, hes⟩
  | guarantee perUnit => exact .ok ⟨Nat.zero_le _, by simp⟩

end Terms

end DealerPay
