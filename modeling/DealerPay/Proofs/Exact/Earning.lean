import DealerPay.Proofs.Exact.Tiering

/-!
# Earnings over the rationals

What each rule earns in a period is what the rational semantics pays: no sum, product or hundredth
on the way is rounded, and no text fails to be written.

* `Amount.plainText_of_onGrid`: an ordinary number can be shown.
* `Period.IsOf` relates a period to the delivered deals it was made of, `Period.ofDeals_isOf` makes
  one.
* There is one lemma for each kind of rule, and `Terms.earnings_exact` puts them together.
-/

namespace DealerPay

/-- A number on a grid, below the limit of amounts, can be shown. -/
theorem Amount.plainText_of_onGrid {d : Decimal} {k m : ℕ} (h : OnGrid k m d.value)
    (hm : m < 10 ^ 28) (hk : k ≤ 28) (hx : |d.value| < 10 ^ 15) :
    Yields (Amount.plainText d) fun _ => True := by
  have habs : OnGrid k m (Decimal.value { d with negative := false }) := by
    rw [Decimal.value_abs]
    rcases abs_choice d.value with hd | hd <;> rw [hd]
    · exact h
    · exact h.neg
  have hread : Amount.ofValue (.ofDecimal d) = .ok d := by
    obtain ⟨r, hr, hv⟩ := Decimal.fit_of_represents (habs.represents hm hk)
    have hlimit : ¬ Amount.limit ≤ r := by
      rw [Decimal.le_iff, hv, Decimal.value_abs, not_le]
      have : Amount.limit.value = 10 ^ 15 := by
        rw [Decimal.value_of_not_negative rfl]
        norm_num [Amount.limit]
      rwa [this]
    have hmagnitude : d.magnitude = .ok r := hr
    simp [Amount.ofValue, Amount.isAbsent, Value.isText, Amount.numeral?, Value.ofDecimal,
      hmagnitude, hlimit]
  unfold Amount.plainText Amount.plain
  refine .bind_of_eq hread ?_
  have hnormal : Yields d.normalize fun _ => True := by
    unfold Decimal.normalize
    refine (Decimal.fit_of_represents (h.represents hm hk)).bind ?_
    intro r _
    split
    · exact .pure trivial
    · exact .pure trivial
  exact hnormal.lift.bind fun _ _ => .pure trivial

/-! ## Periods -/

/-- Whether a period was made of these delivered deals. -/
structure Period.IsOf (p : Period) (sold : List Deal) : Prop where
  /-- Its deals are these. -/
  delivered : p.delivered = sold
  /-- Its units are those of the deals. -/
  units : ∀ s, (p.unitsOf s).value = Exact.units sold s

variable {sold : List Deal} {period : Period}

/-- A sum of one figure over ordinary deals is exact. -/
theorem Deal.total_exact (h : Exact.OrdinaryDeals sold) {figure : Deal → Decimal}
    (hf : ∀ d : Deal, figure d ∈ d.figures) :
    Yields (Deal.total figure sold) fun r => r.value = Exact.total figure sold := by
  have hgrid : ∀ d ∈ sold, OnGrid 4 (10 ^ 11) (figure d).value :=
    fun d hd => (h.figures d hd _ (hf d)).onGrid
  have hcount := h.count
  exact Decimal.sum_of_map_eq (by rw [List.map_map]; rfl) hgrid (by omega) (by norm_num)

/-- A period has the units of its deals if these are counted exactly within every scope. -/
theorem Period.ofDeals_isOf_of_unitCount {deals : List Deal}
    (h : ∀ s, Yields (Deal.unitCount (Deal.seen s (Deal.delivered deals)))
      fun u => u.value = Exact.units (Deal.delivered deals) s) :
    Yields (Period.ofDeals deals) fun p => p.IsOf (Deal.delivered deals) := by
  have hall := h .all
  rw [Deal.seen_all] at hall
  refine hall.bind ?_
  intro all hall
  refine (h (.only .new)).bind ?_
  intro new hnew
  refine (h (.only .used)).bind ?_
  intro used hused
  refine .pure ⟨rfl, fun s => ?_⟩
  match s with
  | .all => exact hall
  | .only .new => exact hnew
  | .only .used => exact hused

/-- A period of ordinary deals has their units. -/
theorem Period.ofDeals_isOf {deals : List Deal} (h : Exact.OrdinaryDeals (Deal.delivered deals)) :
    Yields (Period.ofDeals deals) fun p => p.IsOf (Deal.delivered deals) :=
  Period.ofDeals_isOf_of_unitCount fun s =>
    Deal.total_exact (h.seen s) fun d => by simp [Deal.figures]

/-- The units of a period of ordinary deals. -/
theorem Period.IsOf.onGrid_units (hp : period.IsOf sold) (h : Exact.OrdinaryDeals sold)
    (s : Scope) : OnGrid 4 (10 ^ 16) (period.unitsOf s).value := by
  rw [hp.units]
  exact h.onGrid_units s

/-! ## Kinds of rules -/

namespace Terms

/-- An ordinary figure can be shown. -/
theorem plainText_of_isOrdinary {d : Decimal} (h : d.IsOrdinary) :
    Yields (Amount.plainText d) fun _ => True :=
  Amount.plainText_of_onGrid h.onGrid (by norm_num) (by norm_num)
    (h.2.trans (by norm_num))

/-- A flat rate earns the units times the rate. -/
theorem flatRateEarning_exact (hp : period.IsOf sold) (h : Exact.OrdinaryDeals sold) (s : Scope)
    {perUnit : Decimal} (hr : perUnit.IsOrdinary) :
    Yields (flatRateEarning period s perUnit) fun e =>
      e.exact = ⟨.commission, Exact.units sold s * perUnit.value⟩ := by
  have hu := hp.onGrid_units h s
  have hlt : |(period.unitsOf s).value| < 10 ^ 15 := hu.abs_le.trans_lt (by norm_num)
  unfold flatRateEarning
  refine (Amount.plainText_of_onGrid hu (by norm_num) (by norm_num) hlt).bind ?_
  intro shown _
  refine (Decimal.mul_of_onGrid hu hr.onGrid (by norm_num) (by norm_num)).lift.bind ?_
  intro pay hpay
  apply Yields.pure
  rw [Earning.exact, hpay, hp.units]

/-- A slice earns its units times the rate of its tier. -/
theorem sliceEarning_exact (name : String) {s : Tier.Slice} (hu : OnGrid 4 (10 ^ 16) s.units.value)
    (hr : s.tier.rate.IsOrdinary) :
    Yields (sliceEarning name s) fun e =>
      e.exact = ⟨.commission, s.units.value * s.tier.rate.value⟩ := by
  unfold sliceEarning
  refine (plainText_of_isOrdinary hr).bind ?_
  intro shown _
  refine (Decimal.mul_of_onGrid hu hr.onGrid (by norm_num) (by norm_num)).lift.bind ?_
  intro pay hpay
  apply Yields.pure
  rw [Earning.exact, hpay]

/-- What the tiers of units earn: the walk takes the slices of the rational semantics. -/
theorem unitTierEarnings_exact (hp : period.IsOf sold) {s : Scope}
    (hu : OnGrid 4 (10 ^ 16) (period.unitsOf s).value) {tiers : List Tier}
    (ht : ∀ t ∈ tiers, t.IsOrdinary) (retroactive : Bool) :
    Yields (unitTierEarnings period s tiers retroactive) fun es =>
      es.map Earning.exact = Exact.pay sold (.unitTiers s tiers retroactive) := by
  unfold unitTierEarnings
  cases retroactive with
  | true =>
    show Yields _ fun es : List Earning => es.map Earning.exact =
      (Exact.reached? (Exact.units sold s) tiers).toList.map fun t =>
        (⟨.commission, Exact.units sold s * t.rate.value⟩ : Exact.Line)
    rw [if_pos rfl, Tier.reached?_eq, hp.units]
    cases hr : Exact.reached? (Exact.units sold s) tiers with
    | none => exact .pure rfl
    | some t =>
      have hrate := (ht t (Exact.mem_of_reached? hr)).rate
      refine (sliceEarning_exact _ (s := ⟨t, period.unitsOf s⟩) hu hrate).bind ?_
      intro e he
      apply Yields.pure
      rw [List.map_singleton, he, hp.units]
      rfl
  | false =>
    show Yields _ fun es : List Earning => es.map Earning.exact =
      (Exact.slices (Exact.units sold s) tiers).map fun taken =>
        (⟨.commission, taken.2 * taken.1.rate.value⟩ : Exact.Line)
    refine (Tier.slices_exact hu fun t h => (ht t h).upper).lift.bind ?_
    intro ss hss
    have slice : ∀ sl ∈ ss, Yields (sliceEarning (s.lead ++ "Unit Tier") sl) fun e =>
        e.exact = ⟨.commission, sl.units.value * sl.tier.rate.value⟩ := by
      intro sl hsl
      have hmem : sl.exact ∈ Exact.slices (period.unitsOf s).value tiers := by
        rw [← hss]
        exact List.mem_map_of_mem hsl
      exact sliceEarning_exact _ (Exact.onGrid_of_mem_slices hu ht hmem)
        (ht _ (Exact.mem_slices hmem).1).rate
    refine (Yields.mapM slice).mono ?_
    intro es hes
    rw [map_eq_map_of_forall₂ hes, ← hp.units, ← hss, List.map_map]
    rfl

/-! ### Shares of gross -/

/-- A capped amount is worth the capped value. -/
theorem value_capped (cap : Option Decimal) (x : Decimal) :
    (capped cap x).value = Exact.capped cap x.value := by
  unfold capped Exact.capped
  cases cap with
  | none => rfl
  | some most =>
    show (if most.isPositive = true then _ else _ : Decimal).value = _
    simp only [Decimal.isPositive_iff]
    split
    · exact Decimal.value_least x most
    · rfl

/-- The share of one deal is exact. -/
theorem cappedShare_exact {percent gross : Decimal} (hp : percent.IsOrdinary)
    (hg : gross.IsOrdinary) (cap : Option Decimal) :
    Yields (cappedShare percent cap gross) fun r => r.value = Exact.share percent cap gross := by
  unfold cappedShare
  refine (Decimal.percentOf_of_onGrid hg.onGrid hp.onGrid (by norm_num) (by norm_num)).bind ?_
  intro paid hpaid
  apply Yields.pure
  rw [value_capped, hpaid]
  rfl

/-- The shares of the front and back gross of one deal are exact. -/
theorem grossShares_exact {front back : Decimal} (hf : front.IsOrdinary) (hb : back.IsOrdinary)
    (frontCap backCap : Option Decimal) {d : Deal} (hd : ∀ x ∈ d.figures, x.IsOrdinary) :
    Yields (grossShares front back frontCap backCap d) fun r =>
      r.1.value = Exact.share front frontCap d.frontGross ∧
        r.2.value = Exact.share back backCap d.backGross := by
  have hfg : d.frontGross.IsOrdinary := hd _ (by simp [Deal.figures])
  have hbg : d.backGross.IsOrdinary := hd _ (by simp [Deal.figures])
  unfold grossShares
  refine (cappedShare_exact hf hfg frontCap).bind ?_
  intro x hx
  refine (cappedShare_exact hb hbg backCap).bind ?_
  intro y hy
  exact .pure ⟨hx, hy⟩

/-- The shares of gross of all deals are exact, and so is their sum. -/
theorem grossShareSums_exact (h : Exact.OrdinaryDeals sold) {front back : Decimal}
    {frontCap backCap : Option Decimal}
    (hr : ∀ x ∈ (grossShare front back frontCap backCap).figures, x.IsOrdinary) :
    Yields (grossShareSums front back frontCap backCap sold) fun r =>
      r.1.value = (sold.map fun d => Exact.share front frontCap d.frontGross).sum ∧
        r.2.value = (sold.map fun d => Exact.share back backCap d.backGross).sum := by
  obtain ⟨⟨hf, hfc⟩, hb, hbc⟩ := forall_mem_figures_grossShare hr
  have hcount := h.count
  unfold grossShareSums
  refine (Yields.mapM fun d hd =>
    grossShares_exact hf hb frontCap backCap (h.figures d hd)).bind ?_
  intro shares hs
  have hfront : (shares.map (·.1)).map Decimal.value =
      sold.map fun d => Exact.share front frontCap d.frontGross := by
    rw [List.map_map]
    exact map_eq_map_of_forall₂ (hs.imp fun _ _ hxy => hxy.1)
  have hback : (shares.map (·.2)).map Decimal.value =
      sold.map fun d => Exact.share back backCap d.backGross := by
    rw [List.map_map]
    exact map_eq_map_of_forall₂ (hs.imp fun _ _ hxy => hxy.2)
  have frontShare : ∀ d ∈ sold, OnGrid 10 (10 ^ 22) (Exact.share front frontCap d.frontGross) :=
    fun d hd => Exact.onGrid_share hf hfc (h.figures d hd _ (by simp [Deal.figures]))
  have backShare : ∀ d ∈ sold, OnGrid 10 (10 ^ 22) (Exact.share back backCap d.backGross) :=
    fun d hd => Exact.onGrid_share hb hbc (h.figures d hd _ (by simp [Deal.figures]))
  refine (Decimal.sum_of_map_eq hfront frontShare (by omega) (by norm_num)).bind ?_
  intro x hx
  refine (Decimal.sum_of_map_eq hback backShare (by omega) (by norm_num)).bind ?_
  intro y hy
  exact .pure ⟨hx, hy⟩

/-- What the percentages of gross earn. -/
theorem grossShareEarnings_exact (hp : period.IsOf sold) (h : Exact.OrdinaryDeals sold)
    {front back : Decimal} {frontCap backCap : Option Decimal}
    (hr : ∀ x ∈ (grossShare front back frontCap backCap).figures, x.IsOrdinary) :
    Yields (grossShareEarnings period front back frontCap backCap) fun es =>
      es.map Earning.exact = Exact.pay sold (.grossShare front back frontCap backCap) := by
  unfold grossShareEarnings
  rw [hp.delivered]
  refine (grossShareSums_exact h hr).lift.bind ?_
  intro sums hsums
  refine (plainText_of_isOrdinary (hr front (by simp [figures]))).bind ?_
  intro frontText _
  refine (plainText_of_isOrdinary (hr back (by simp [figures]))).bind ?_
  intro backText _
  apply Yields.pure
  rw [List.map_cons, List.map_singleton, Earning.exact, Earning.exact, hsums.1, hsums.2]
  rfl

/-! ### Tiers of gross -/

/-- The gross of ordinary deals is exact. -/
theorem grossTotals_exact (h : Exact.OrdinaryDeals sold) :
    Yields (GrossTotals.ofDeals sold) fun g =>
      g.front.value = Exact.total Deal.frontGross sold ∧
        g.back.value = Exact.total Deal.backGross sold := by
  unfold GrossTotals.ofDeals
  refine (Deal.total_exact h fun d => by simp [Deal.figures]).bind ?_
  intro x hx
  refine (Deal.total_exact h fun d => by simp [Deal.figures]).bind ?_
  intro y hy
  exact .pure ⟨hx, hy⟩

/-- The gross that a percentage is taken of is exact. -/
theorem basis_exact (h : Exact.OrdinaryDeals sold) (s : Scope) {g : GrossTotals}
    (hg : g.front.value = Exact.total Deal.frontGross (Deal.seen s sold) ∧
      g.back.value = Exact.total Deal.backGross (Deal.seen s sold)) (basis : GrossBasis) :
    Yields (g.basis basis) fun r => r.value = Exact.gross sold s basis := by
  obtain ⟨hf, hb⟩ := hg
  cases basis with
  | front => exact .ok hf
  | back => exact .ok hb
  | total =>
    have hfront : OnGrid 4 (2 * 10 ^ 16) g.front.value := hf ▸ h.onGrid_gross s .front
    have hback : OnGrid 4 (2 * 10 ^ 16) g.back.value := hb ▸ h.onGrid_gross s .back
    refine (Decimal.add_of_onGrid hfront hback (by norm_num) (by norm_num)).mono ?_
    intro r hr
    rw [hr, hf, hb, Exact.gross]

/-- What the tiers of gross earn. -/
theorem grossTierEarnings_exact (hp : period.IsOf sold) (h : Exact.OrdinaryDeals sold) (s : Scope)
    {tiers : List Tier} (ht : ∀ t ∈ tiers, ∀ x ∈ t.figures, x.IsOrdinary) (retroactive : Bool)
    (basis : GrossBasis) :
    Yields (grossTierEarnings period s tiers retroactive basis) fun es =>
      es.map Earning.exact = Exact.pay sold (.grossTiers s tiers retroactive basis) := by
  show Yields _ fun es : List Earning => es.map Earning.exact =
    (Exact.reached? (Exact.units sold s) tiers).toList.map fun t =>
      (⟨.commission, Exact.percentage t.rate (Exact.gross sold s basis)⟩ : Exact.Line)
  unfold grossTierEarnings Period.dealsOf
  rw [hp.delivered, Tier.reached?_eq, hp.units]
  refine (grossTotals_exact (h.seen s)).lift.bind ?_
  intro g hg
  refine (basis_exact h s hg basis).lift.bind ?_
  intro gross hgross
  cases hr : Exact.reached? (Exact.units sold s) tiers with
  | none => exact .pure rfl
  | some t =>
    have hrate : t.rate.IsOrdinary := ht t (Exact.mem_of_reached? hr) _ (by simp [Tier.figures])
    have hgrid := hgross ▸ h.onGrid_gross s basis
    refine (plainText_of_isOrdinary hrate).bind ?_
    intro shown _
    refine (Decimal.percentOf_of_onGrid hgrid hrate.onGrid (by norm_num) (by norm_num)).lift.bind ?_
    intro pay hpay
    apply Yields.pure
    rw [List.map_singleton, Earning.exact, hpay, hgross]
    rfl

/-! ### Bonuses and what is sold on top -/

/-- What a threshold earns. -/
theorem thresholdEarning_exact (s : Scope) {t : Threshold} (ht : t.lower.IsOrdinary) :
    Yields (thresholdEarning s t) fun e => e.exact = ⟨.bonus, t.amount.value⟩ := by
  unfold thresholdEarning
  refine (plainText_of_isOrdinary ht).bind ?_
  intro shown _
  exact .pure rfl

/-- The percentages of what is sold on top are exact. -/
theorem addOnShares_exact {accessory spiff tradeSpiff : Decimal} (ha : accessory.IsOrdinary)
    (hs : spiff.IsOrdinary) (ht : tradeSpiff.IsOrdinary) {t : AddOnTotals}
    (hta : OnGrid 4 (10 ^ 16) t.accessory.value) (hts : OnGrid 4 (10 ^ 16) t.spiff.value)
    (htt : OnGrid 4 (10 ^ 16) t.tradeSpiff.value) :
    Yields (addOnShares accessory spiff tradeSpiff t) fun r =>
      r.accessory.value = Exact.percentage accessory t.accessory.value ∧
        r.spiff.value = Exact.percentage spiff t.spiff.value ∧
          r.tradeSpiff.value = Exact.percentage tradeSpiff t.tradeSpiff.value := by
  unfold addOnShares
  refine (Decimal.percentOf_of_onGrid hta ha.onGrid (by norm_num) (by norm_num)).bind ?_
  intro x hx
  refine (Decimal.percentOf_of_onGrid hts hs.onGrid (by norm_num) (by norm_num)).bind ?_
  intro y hy
  refine (Decimal.percentOf_of_onGrid htt ht.onGrid (by norm_num) (by norm_num)).bind ?_
  intro z hz
  exact .pure ⟨hx, hy, hz⟩

/-- What the percentages of what is sold on top earn. -/
theorem addOnEarnings_exact (hp : period.IsOf sold) (h : Exact.OrdinaryDeals sold) (s : Scope)
    {accessory spiff tradeSpiff : Decimal}
    (hr : ∀ x ∈ (addOn s accessory spiff tradeSpiff).figures, x.IsOrdinary) :
    Yields (addOnEarnings period accessory spiff tradeSpiff) fun es =>
      es.map Earning.exact = Exact.pay sold (.addOn s accessory spiff tradeSpiff) := by
  have hga : OnGrid 4 (10 ^ 16) (Exact.total Deal.accessory sold) :=
    h.onGrid_total fun d => by simp [Deal.figures]
  have hgs : OnGrid 4 (10 ^ 16) (Exact.total Deal.spiffs sold) :=
    h.onGrid_total fun d => by simp [Deal.figures]
  have hgt : OnGrid 4 (10 ^ 16) (Exact.total Deal.tradeSpiff sold) :=
    h.onGrid_total fun d => by simp [Deal.figures]
  unfold addOnEarnings
  rw [hp.delivered]
  have totals : Yields (AddOnTotals.ofDeals sold) fun t =>
      t.accessory.value = Exact.total Deal.accessory sold ∧
        t.spiff.value = Exact.total Deal.spiffs sold ∧
          t.tradeSpiff.value = Exact.total Deal.tradeSpiff sold := by
    unfold AddOnTotals.ofDeals
    refine (Deal.total_exact h fun d => by simp [Deal.figures]).bind ?_
    intro x hx
    refine (Deal.total_exact h fun d => by simp [Deal.figures]).bind ?_
    intro y hy
    refine (Deal.total_exact h fun d => by simp [Deal.figures]).bind ?_
    intro z hz
    exact .pure ⟨hx, hy, hz⟩
  refine totals.lift.bind ?_
  rintro t ⟨hta, hts, htt⟩
  refine (addOnShares_exact (hr _ (by simp [figures])) (hr _ (by simp [figures]))
    (hr _ (by simp [figures])) (hta ▸ hga) (hts ▸ hgs) (htt ▸ hgt)).lift.bind ?_
  rintro shares ⟨hsa, hss, hst⟩
  apply Yields.pure
  rw [List.map_cons, List.map_cons, List.map_singleton, Earning.exact, Earning.exact,
    Earning.exact, hsa, hss, hst, hta, hts, htt]
  rfl

/-! ### All kinds -/

/-- What a rule earns is what the rational semantics pays. -/
theorem earnings_exact (hp : period.IsOf sold) (h : Exact.OrdinaryDeals sold) {t : Terms}
    (ht : ∀ x ∈ t.figures, x.IsOrdinary) :
    Yields (t.earnings period) fun es => es.map Earning.exact = Exact.pay sold t := by
  cases t with
  | base amount isDraw => cases isDraw <;> exact .ok rfl
  | flatRate s perUnit =>
    refine (flatRateEarning_exact hp h s (ht perUnit (by simp [figures]))).bind ?_
    intro e he
    exact .pure (congrArg (fun l => [l]) he)
  | unitTiers s tiers retroactive =>
    have tier : ∀ t ∈ tiers, ∀ x ∈ t.figures, x.IsOrdinary := List.forall_mem_flatMap.1 ht
    exact unitTierEarnings_exact hp (hp.onGrid_units h s)
      (fun t h => Tier.isOrdinary_of_figures (tier t h)) _
  | grossShare front back frontCap backCap => exact grossShareEarnings_exact hp h ht
  | grossTiers s tiers retroactive basis =>
    exact grossTierEarnings_exact hp h s (List.forall_mem_flatMap.1 ht) _ _
  | volumeBonus s thresholds =>
    have lower : ∀ t ∈ Threshold.reached (period.unitsOf s) thresholds,
        Yields (thresholdEarning s t) fun e => e.exact = ⟨.bonus, t.amount.value⟩ := by
      intro t h
      rw [Threshold.reached_eq] at h
      exact thresholdEarning_exact s
        (ht _ (List.mem_flatMap.2 ⟨t, Exact.mem_of_mem_reached h, by simp [Threshold.figures]⟩))
    refine (Yields.mapM lower).mono ?_
    intro es hes
    rw [map_eq_map_of_forall₂ hes, Threshold.reached_eq, hp.units]
    rfl
  | addOn s accessory spiff tradeSpiff => exact addOnEarnings_exact hp h s ht
  | guarantee perUnit => exact .ok rfl

end Terms

end DealerPay
