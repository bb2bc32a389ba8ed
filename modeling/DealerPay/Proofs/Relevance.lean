import DealerPay.Proofs.Agreement
import DealerPay.Proofs.Decimal.Respelling

/-!
# What pay depends on

Two evaluations are compared, with plans that differ in the labels of their rules and with deals
that differ in what pay does not look at: their order, their descriptive data, how their figures are
written, and the deals that are pending.

* `Exact.Sale` is what pay depends on of a deal; `Exact.SameSales` says that two lists of deals have
  the same sales, in whatever order.
* `Exact.PaidAlike` says that rules pay the same for two lists of deals, as they do for the same
  sales; `Exact.payFor_eq_of_paidAlike`: the rational semantics then pays the same.
* `Earning.Alike` compares two earnings: they are worth the same, and described alike unless they
  are worth nothing, in which case they are not shown. `Terms.earnings_alike` has a case for each
  kind of rule; `Terms.filter_book_eq` draws the conclusion for the lines that are shown.
* `Plan.Steps.items_eq_of_paidAlike`: the two breakdowns have the same lines.
* `Plan.evaluate_of_sameSales`: so they have for the same sales, and their totals agree.
-/

namespace DealerPay

variable {sold sold' : List Deal} {period period' : Period}

/-! ## Sales -/

/-- What pay depends on of a deal: its condition and the values of its figures. -/
structure Exact.Sale where
  /-- New or used. -/
  condition : Condition
  /-- One, or one half for a shared deal. -/
  count : ℚ
  /-- The gross on the vehicle. -/
  frontGross : ℚ
  /-- The gross on financing and insurance. -/
  backGross : ℚ
  /-- Accessories. -/
  accessory : ℚ
  /-- Bonuses of the manufacturer. -/
  spiffs : ℚ
  /-- Bonuses for a vehicle taken in. -/
  tradeSpiff : ℚ

/-- The sale that a deal is. -/
def Deal.exact (d : Deal) : Exact.Sale where
  condition := d.condition
  count := d.count.value
  frontGross := d.frontGross.value
  backGross := d.backGross.value
  accessory := d.accessory.value
  spiffs := d.spiffs.value
  tradeSpiff := d.tradeSpiff.value

namespace Exact

/-- Whether two lists of deals have the same sales, in whatever order. -/
def SameSales (sold sold' : List Deal) : Prop :=
  (sold.map Deal.exact).Perm (sold'.map Deal.exact)

/-- A sum over the deals within a scope is a sum over sales. -/
theorem sum_seen_eq (h : SameSales sold sold') {figure : Deal → ℚ} (f : Sale → ℚ)
    (hf : ∀ d : Deal, figure d = f d.exact) (s : Scope) :
    ((Deal.seen s sold).map figure).sum = ((Deal.seen s sold').map figure).sum := by
  have sales : ∀ deals : List Deal, (Deal.seen s deals).map figure =
      ((deals.map Deal.exact).filter fun x => s.admits x.condition).map f := by
    intro deals
    rw [List.filter_map, List.map_map]
    exact List.map_congr_left fun d _ => hf d
  rw [sales sold, sales sold']
  exact ((h.filter _).map f).sum_eq

/-- The same sales have the same units. -/
theorem units_eq (h : SameSales sold sold') (s : Scope) : units sold s = units sold' s :=
  sum_seen_eq h Sale.count (fun _ => rfl) s

/-- The same sales have the same gross. -/
theorem gross_eq (h : SameSales sold sold') (s : Scope) (basis : GrossBasis) :
    gross sold s basis = gross sold' s basis := by
  have hfront :
      total Deal.frontGross (Deal.seen s sold) = total Deal.frontGross (Deal.seen s sold') :=
    sum_seen_eq h Sale.frontGross (fun _ => rfl) s
  have hback : total Deal.backGross (Deal.seen s sold) = total Deal.backGross (Deal.seen s sold') :=
    sum_seen_eq h Sale.backGross (fun _ => rfl) s
  cases basis with
  | front => exact hfront
  | back => exact hback
  | total => rw [gross, gross, hfront, hback]

/-- Terms pay the same for the same sales. -/
theorem pay_eq (h : SameSales sold sold') (t : Terms) : pay sold t = pay sold' t := by
  have sums : ∀ {figure : Deal → ℚ} (f : Sale → ℚ), (∀ d : Deal, figure d = f d.exact) →
      (sold.map figure).sum = (sold'.map figure).sum := by
    intro figure f hf
    have hsum := sum_seen_eq h f hf .all
    rwa [Deal.seen_all, Deal.seen_all] at hsum
  cases t with
  | base | guarantee => rfl
  | flatRate s perUnit => rw [pay, pay, units_eq h]
  | unitTiers s tiers retroactive => rw [pay, pay, units_eq h]
  | grossShare front back frontCap backCap =>
    have hfront := sums (fun x : Sale => capped frontCap (percentage front x.frontGross)) fun d =>
      (rfl : share front frontCap d.frontGross = _)
    have hback := sums (fun x : Sale => capped backCap (percentage back x.backGross)) fun d =>
      (rfl : share back backCap d.backGross = _)
    rw [pay, pay, hfront, hback]
  | grossTiers s tiers retroactive basis => rw [pay, pay, units_eq h, gross_eq h]
  | volumeBonus s thresholds => rw [pay, pay, units_eq h]
  | addOn s accessory spiff tradeSpiff =>
    have haccessory : total Deal.accessory sold = total Deal.accessory sold' :=
      sums Sale.accessory fun _ => rfl
    have hspiffs : total Deal.spiffs sold = total Deal.spiffs sold' := sums Sale.spiffs fun _ => rfl
    have htrade : total Deal.tradeSpiff sold = total Deal.tradeSpiff sold' :=
      sums Sale.tradeSpiff fun _ => rfl
    rw [pay, pay, haccessory, hspiffs, htrade]

/-- Whether rules pay the same for two lists of deals, of which the units and the gross are the
same. -/
structure PaidAlike (rules : List Rule) (sold sold' : List Deal) : Prop where
  /-- The units are the same within every scope. -/
  units : ∀ s, Exact.units sold s = Exact.units sold' s
  /-- The gross is the same. -/
  gross : Exact.gross sold .all .total = Exact.gross sold' .all .total
  /-- Each rule pays the same. -/
  pay : ∀ r ∈ rules, Exact.pay sold r.terms = Exact.pay sold' r.terms

/-- Rules pay the same for the same sales. -/
theorem SameSales.paidAlike (h : SameSales sold sold') (rules : List Rule) :
    PaidAlike rules sold sold' :=
  ⟨units_eq h, gross_eq h .all .total, fun r _ => pay_eq h r.terms⟩

/-- Rules of the same terms pay the same where each rule does. -/
theorem payFor_eq_of_paidAlike {rules rules' : List Rule}
    (hterms : rules.map Rule.terms = rules'.map Rule.terms) (h : PaidAlike rules sold sold') :
    payFor rules sold = payFor rules' sold' := by
  have hbooked : booked rules sold = booked rules' sold' := by
    have pays : ∀ rs : List Rule, (rs.flatMap fun r => pay sold' r.terms) =
        (rs.map Rule.terms).flatMap (pay sold') := fun rs => (List.flatMap_map _ _ _).symm
    unfold booked
    rw [List.flatMap_congr h.pay, pays, pays, hterms]
  have found : ∀ {α : Type} (f : Terms → Option α),
      (rules.filterMap fun r => f r.terms) = rules'.filterMap fun r => f r.terms := by
    intro α f
    have hmap : ∀ rs : List Rule, (rs.filterMap fun r => f r.terms) =
        (rs.map Rule.terms).filterMap f := fun rs => List.filterMap_map.symm
    rw [hmap, hmap, hterms]
  have hfloors : floors rules = floors rules' := found floor?
  have hbase : basePay rules = basePay rules' := by
    unfold basePay
    rw [found base?]
  unfold payFor
  rw [hbooked, hfloors, hbase, h.units, h.gross]

/-- Rules of the same terms pay the same for the same sales. -/
theorem payFor_eq_of_sameSales {rules rules' : List Rule}
    (hterms : rules.map Rule.terms = rules'.map Rule.terms) (h : SameSales sold sold') :
    payFor rules sold = payFor rules' sold' :=
  payFor_eq_of_paidAlike hterms (h.paidAlike rules)

end Exact

/-! ## Earnings -/

/-- Whether two earnings are the same as far as they are shown: they are the same, or they are
commission of one value and described alike unless that is nothing. -/
inductive Earning.Alike : Earning → Earning → Prop
  /-- The same earning. -/
  | same (e : Earning) : Alike e e
  /-- Commission of one value. -/
  | commission {text text' : String} {amount amount' : Decimal} (hv : amount.value = amount'.value)
      (ht : amount.value ≠ 0 → text = text') :
      Alike ⟨text, amount, .commission⟩ ⟨text', amount', .commission⟩

/-- Two lists that are gone through in step have results that go together, if the results of each
two items do. -/
theorem forall₂_of_mapM {ε α β γ δ : Type} {R : α → β → Prop} {S : γ → δ → Prop}
    {f : α → Except ε γ} {g : β → Except ε δ} {xs : List α} {ys : List β} {zs : List γ}
    {ws : List δ} (h : List.Forall₂ R xs ys) (hf : xs.mapM f = .ok zs) (hg : ys.mapM g = .ok ws)
    (step : ∀ x ∈ xs, ∀ y, R x y → ∀ z w, f x = .ok z → g y = .ok w → S z w) :
    List.Forall₂ S zs ws := by
  induction h generalizing zs ws with
  | nil =>
    cases hf
    cases hg
    exact .nil
  | cons hxy _ ih =>
    simp only [List.mapM_cons, bind_eq_ok, pure_eq_ok] at hf hg
    obtain ⟨z, hz, zs', hzs, rfl⟩ := hf
    obtain ⟨w, hw, ws', hws, rfl⟩ := hg
    obtain ⟨hhead, hrest⟩ := List.forall_mem_cons.1 step
    exact .cons (hhead _ hxy z w hz hw) (ih hzs hws hrest)

namespace Terms

/-- Units of one value earn alike by a flat rate. -/
theorem flatRateEarning_alike (hp : period.IsOf sold) (hp' : period'.IsOf sold')
    (h : Exact.OrdinaryDeals sold) (h' : Exact.OrdinaryDeals sold') {s : Scope}
    (hu : Exact.units sold s = Exact.units sold' s) {perUnit : Decimal} (hr : perUnit.IsOrdinary)
    {e e' : Earning} (he : flatRateEarning period s perUnit = .ok e)
    (he' : flatRateEarning period' s perUnit = .ok e') : e.Alike e' := by
  have hpay := (flatRateEarning_exact hp h s hr).of_eq he
  have hpay' := (flatRateEarning_exact hp' h' s hr).of_eq he'
  obtain ⟨shown, pay, hshown, -, rfl⟩ := flatRateEarning_eq_ok.1 he
  obtain ⟨shown', pay', hshown', -, rfl⟩ := flatRateEarning_eq_ok.1 he'
  rw [← hu] at hpay'
  have hvalue : pay.value = Exact.units sold s * perUnit.value := congrArg Exact.Line.amount hpay
  have hvalue' : pay'.value = Exact.units sold s * perUnit.value := congrArg Exact.Line.amount hpay'
  refine .commission (hvalue.trans hvalue'.symm) fun hne => ?_
  rw [hvalue, ← hp.units] at hne
  have hunits : (period.unitsOf s).value = (period'.unitsOf s).value := by
    rw [hp.units, hp'.units, hu]
  have hgrid : Decimal.working.Represents (period.unitsOf s).value :=
    (hp.onGrid_units h s).represents (by norm_num) (by norm_num)
  rw [Amount.plainText_eq_of_value hgrid hunits (left_ne_zero_of_mul hne) hshown hshown']

/-- Slices of one tier with units of one value earn alike. -/
theorem sliceEarning_alike {name : String} {s s' : Tier.Slice} {e e' : Earning}
    (he : sliceEarning name s = .ok e) (he' : sliceEarning name s' = .ok e')
    (ht : s.tier = s'.tier) (hv : s.units.value = s'.units.value)
    (hu : OnGrid 4 (10 ^ 16) s.units.value) (hr : s.tier.rate.IsOrdinary) : e.Alike e' := by
  have hpay := (sliceEarning_exact name hu hr).of_eq he
  have hpay' := (sliceEarning_exact name (hv ▸ hu) (ht ▸ hr)).of_eq he'
  obtain ⟨shown, pay, hshown, -, rfl⟩ := sliceEarning_eq_ok.1 he
  obtain ⟨shown', pay', hshown', -, rfl⟩ := sliceEarning_eq_ok.1 he'
  rw [← ht, hshown] at hshown'
  cases hshown'
  rw [← hv, ← ht] at hpay'
  have hvalue : pay.value = s.units.value * s.tier.rate.value := congrArg Exact.Line.amount hpay
  have hvalue' : pay'.value = s.units.value * s.tier.rate.value := congrArg Exact.Line.amount hpay'
  refine .commission (hvalue.trans hvalue'.symm) fun hne => ?_
  rw [hvalue] at hne
  rw [Decimal.fixed_eq_of_value 1 hv (left_ne_zero_of_mul hne)]

/-- The same sales earn alike by tiers of units. -/
theorem unitTierEarnings_alike {s : Scope} {tiers : List Tier} {retroactive : Bool}
    (hv : (period.unitsOf s).value = (period'.unitsOf s).value)
    (hu : OnGrid 4 (10 ^ 16) (period.unitsOf s).value) (ht : ∀ t ∈ tiers, t.IsOrdinary)
    {es es' : List Earning} (he : unitTierEarnings period s tiers retroactive = .ok es)
    (he' : unitTierEarnings period' s tiers retroactive = .ok es') :
    List.Forall₂ Earning.Alike es es' := by
  unfold unitTierEarnings at he he'
  cases retroactive with
  | true =>
    rw [if_pos rfl, Tier.reached?_eq] at he he'
    rw [← hv] at he'
    cases hr : Exact.reached? (period.unitsOf s).value tiers with
    | none =>
      simp only [hr, pure_eq_ok] at he he'
      subst he he'
      exact .nil
    | some t =>
      simp only [hr, bind_eq_ok, pure_eq_ok] at he he'
      obtain ⟨e, he, rfl⟩ := he
      obtain ⟨e', he', rfl⟩ := he'
      have hrate := (ht t (Exact.mem_of_reached? hr)).rate
      exact .cons (sliceEarning_alike he he' rfl hv hu hrate) .nil
  | false =>
    rw [if_neg Bool.false_ne_true, bind_eq_ok] at he he'
    obtain ⟨ss, hss, he⟩ := he
    obtain ⟨ss', hss', he'⟩ := he'
    have hupper : ∀ t ∈ tiers, ∀ x ∈ t.upper, x.IsOrdinary := fun t h => (ht t h).upper
    have hexact := (Tier.slices_exact hu hupper).of_eq (liftM_eq_ok.1 hss)
    have hexact' := (Tier.slices_exact (hv ▸ hu) hupper).of_eq (liftM_eq_ok.1 hss')
    rw [← hv, ← hexact] at hexact'
    have hslices : List.Forall₂ (fun sl sl' : Tier.Slice => sl.exact = sl'.exact) ss ss' := by
      rw [← List.forall₂_map_left_iff (R := fun x sl' => x = Tier.Slice.exact sl'),
        ← List.forall₂_map_right_iff (R := fun x y => x = y), List.forall₂_eq_eq_eq]
      exact hexact'.symm
    refine forall₂_of_mapM hslices he he' fun sl hsl sl' hsl' e e' he he' => ?_
    have hmem : sl.exact ∈ Exact.slices (period.unitsOf s).value tiers := by
      rw [← hexact]
      exact List.mem_map_of_mem hsl
    exact sliceEarning_alike he he' (congrArg Prod.fst hsl') (congrArg Prod.snd hsl')
      (Exact.onGrid_of_mem_slices hu ht hmem) (ht _ (Exact.mem_slices hmem).1).rate

/-- Deals of the same units earn alike by a rule that pays the same for them. -/
theorem earnings_alike (hp : period.IsOf sold) (hp' : period'.IsOf sold')
    (h : Exact.OrdinaryDeals sold) (h' : Exact.OrdinaryDeals sold')
    (hsold : ∀ s, Exact.units sold s = Exact.units sold' s) {t : Terms}
    (hpay : Exact.pay sold t = Exact.pay sold' t) (ht : ∀ x ∈ t.figures, x.IsOrdinary)
    {es es' : List Earning} (he : t.earnings period = .ok es) (he' : t.earnings period' = .ok es') :
    List.Forall₂ Earning.Alike es es' := by
  have hunits : ∀ s, (period.unitsOf s).value = (period'.unitsOf s).value := by
    intro s
    rw [hp.units, hp'.units, hsold]
  have hexact : es.map Earning.exact = es'.map Earning.exact := by
    rw [(t.earnings_exact hp h ht).of_eq he, (t.earnings_exact hp' h' ht).of_eq he', hpay]
  cases t with
  | base amount isDraw =>
    cases he
    cases he'
    exact .cons (.same _) .nil
  | flatRate s perUnit =>
    simp only [earnings, bind_eq_ok, pure_eq_ok] at he he'
    obtain ⟨e, he, rfl⟩ := he
    obtain ⟨e', he', rfl⟩ := he'
    exact .cons (flatRateEarning_alike hp hp' h h' (hsold s)
      (ht perUnit (by simp [figures])) he he') .nil
  | unitTiers s tiers retroactive =>
    have tier : ∀ t ∈ tiers, ∀ x ∈ t.figures, x.IsOrdinary := List.forall_mem_flatMap.1 ht
    exact unitTierEarnings_alike (hunits s) (hp.onGrid_units h s)
      (fun t h => Tier.isOrdinary_of_figures (tier t h)) he he'
  | grossShare front back frontCap backCap =>
    simp only [earnings, grossShareEarnings, bind_eq_ok, pure_eq_ok] at he he'
    obtain ⟨sums, -, frontText, hfront, backText, hback, rfl⟩ := he
    obtain ⟨sums', -, frontText', hfront', backText', hback', rfl⟩ := he'
    rw [hfront] at hfront'
    rw [hback] at hback'
    cases hfront'
    cases hback'
    simp only [Earning.exact, List.map_cons, List.map_nil, List.cons.injEq, Exact.Line.mk.injEq,
      true_and, and_true] at hexact
    exact .cons (.commission hexact.1 fun _ => rfl) (.cons (.commission hexact.2 fun _ => rfl) .nil)
  | grossTiers s tiers retroactive basis =>
    simp only [earnings, grossTierEarnings, bind_eq_ok, Tier.reached?_eq, ← hunits] at he he'
    obtain ⟨totals, -, gross, -, he⟩ := he
    obtain ⟨totals', -, gross', -, he'⟩ := he'
    cases hr : Exact.reached? (period.unitsOf s).value tiers with
    | none =>
      simp only [hr, pure_eq_ok] at he he'
      subst he he'
      exact .nil
    | some t =>
      simp only [hr, bind_eq_ok, pure_eq_ok] at he he'
      obtain ⟨shown, hshown, pay, -, rfl⟩ := he
      obtain ⟨shown', hshown', pay', -, rfl⟩ := he'
      rw [hshown] at hshown'
      cases hshown'
      simp only [Earning.exact, List.map_cons, List.map_nil, List.cons.injEq, Exact.Line.mk.injEq,
        true_and, and_true] at hexact
      exact .cons (.commission hexact fun _ => rfl) .nil
  | volumeBonus s thresholds =>
    rw [earnings, Threshold.reached_eq] at he he'
    rw [← hunits, he] at he'
    cases he'
    exact List.forall₂_same.2 fun e _ => .same e
  | addOn s accessory spiff tradeSpiff =>
    simp only [earnings, addOnEarnings, bind_eq_ok, pure_eq_ok] at he he'
    obtain ⟨-, -, shares, -, rfl⟩ := he
    obtain ⟨-, -, shares', -, rfl⟩ := he'
    simp only [Earning.exact, List.map_cons, List.map_nil, List.cons.injEq, Exact.Line.mk.injEq,
      true_and, and_true] at hexact
    obtain ⟨haccessory, hspiff, htrade⟩ := hexact
    exact .cons (.commission haccessory fun _ => rfl) (.cons (.commission hspiff fun _ => rfl)
      (.cons (.commission htrade fun _ => rfl) .nil))
  | guarantee perUnit =>
    cases he
    cases he'
    exact .nil

end Terms

/-! ## Lines -/

/-- Earnings that are alike have the same line, if it is shown. -/
theorem Earning.Alike.book {e e' : Earning} (h : e.Alike e') {i i' : LineItem}
    (hi : e.book = .ok i) (hi' : e'.book = .ok i') :
    i.isShown = i'.isShown ∧ (i.isShown = true → i = i') := by
  cases h with
  | same =>
    rw [hi] at hi'
    cases hi'
    exact ⟨rfl, fun _ => rfl⟩
  | @commission text text' amount amount' hv ht =>
    have hvalue := Earning.value_of_book hi
    have hvalue' := Earning.value_of_book hi'
    obtain ⟨hcategory, hcents⟩ := Earning.book_eq_ok hi
    obtain ⟨hcategory', hcents'⟩ := Earning.book_eq_ok hi'
    have hamount : i.amount.value = i'.amount.value := by rw [hvalue, hvalue', hv]
    have hexact : i.exact = i'.exact := by
      unfold LineItem.exact
      rw [hcategory, hcategory', hamount]
    refine ⟨by rw [← i.isShown_exact, ← i'.isShown_exact, hexact], fun hshown => ?_⟩
    have hbase : i.isBase = false := by
      unfold LineItem.isBase
      rw [hcategory]
      rfl
    have hne : i.amount.value ≠ 0 := i.ne_zero_of_isShown hshown hbase
    have hsame : i.amount = i'.amount := by
      apply Decimal.eq_of_value _ hamount fun hz => absurd hz hne
      rw [Decimal.exponent_of_toCents hcents, Decimal.exponent_of_toCents hcents']
    have htext : text = text' := by
      apply ht
      intro hz
      rw [hvalue, hz, nearestCent_zero] at hne
      exact hne rfl
    obtain ⟨cents, -, rfl⟩ := Earning.book_iff.1 hi
    obtain ⟨cents', -, rfl⟩ := Earning.book_iff.1 hi'
    exact congrArg₂ (fun text cents => (⟨text, cents, .commission⟩ : LineItem)) htext hsame

/-- Lists that agree item by item in what is kept are the same once it is. -/
theorem filter_eq_of_forall₂ {α : Type} {q : α → Bool} {xs ys : List α}
    (h : List.Forall₂ (fun x y => q x = q y ∧ (q x = true → x = y)) xs ys) :
    xs.filter q = ys.filter q := by
  induction h with
  | nil => rfl
  | @cons x y _ _ hxy _ ih =>
    rw [List.filter_cons, List.filter_cons, ← hxy.1, ih]
    split
    · next hq => rw [hxy.2 hq]
    · rfl

/-- A rule that pays the same for deals of the same units books the same lines for them, as far as
they are shown. -/
theorem Terms.filter_book_eq (hp : period.IsOf sold) (hp' : period'.IsOf sold')
    (h : Exact.OrdinaryDeals sold) (h' : Exact.OrdinaryDeals sold')
    (hsold : ∀ s, Exact.units sold s = Exact.units sold' s) {t : Terms}
    (hpay : Exact.pay sold t = Exact.pay sold' t) (ht : ∀ x ∈ t.figures, x.IsOrdinary)
    {items items' : List LineItem} (hi : t.book period = .ok items)
    (hi' : t.book period' = .ok items') :
    items.filter LineItem.isShown = items'.filter LineItem.isShown := by
  obtain ⟨es, hes, hbook⟩ := bind_eq_ok.1 hi
  obtain ⟨es', hes', hbook'⟩ := bind_eq_ok.1 hi'
  apply filter_eq_of_forall₂
  refine forall₂_of_mapM (earnings_alike hp hp' h h' hsold hpay ht hes hes') hbook hbook' ?_
  intro e _ e' halike i i' hline hline'
  exact halike.book (liftM_eq_ok.1 hline) (liftM_eq_ok.1 hline')

namespace Plan

variable {p q : Plan} {deals deals' : List Deal} {b b' : Breakdown}

/-- Rules of the same terms that pay the same book the same lines, as far as they are shown. -/
theorem Steps.filter_booked_eq (hterms : p.rules.map Rule.terms = q.rules.map Rule.terms)
    (h : InEnvelope p deals) (h' : InEnvelope q deals')
    (hpaid : Exact.PaidAlike p.rules (Deal.delivered deals) (Deal.delivered deals'))
    (s : p.Steps deals b) (s' : q.Steps deals' b') :
    s.booked.filter LineItem.isShown = s'.booked.filter LineItem.isShown := by
  have hsold := Exact.ordinaryDeals_delivered h
  have hsold' := Exact.ordinaryDeals_delivered h'
  have hp := (Period.ofDeals_isOf hsold).of_eq s.ofDeals
  have hp' := (Period.ofDeals_isOf hsold').of_eq s'.ofDeals
  obtain ⟨books, hbooks, hflat⟩ := s.exists_books
  obtain ⟨books', hbooks', hflat'⟩ := s'.exists_books
  rw [hflat, hflat', List.filter_flatten, List.filter_flatten]
  congr 1
  have hfigures : ∀ t ∈ p.rules.map Rule.terms, (∀ x ∈ t.figures, x.IsOrdinary) ∧
      Exact.pay (Deal.delivered deals) t = Exact.pay (Deal.delivered deals') t :=
    List.forall_mem_map.2 fun r hr => ⟨h.ruleFigures r hr, hpaid.pay r hr⟩
  have hterm : List.Forall₂ (fun (t : Terms) items => t.book s.period = .ok items)
      (p.rules.map Rule.terms) books := List.forall₂_map_left_iff.2 hbooks
  have hterm' : List.Forall₂ (fun (t : Terms) items => t.book s'.period = .ok items)
      (p.rules.map Rule.terms) books' := hterms ▸ List.forall₂_map_left_iff.2 hbooks'
  clear hflat hflat' hbooks hbooks'
  generalize p.rules.map Rule.terms = terms at hterm hterm' hfigures
  induction hterm generalizing books' with
  | nil =>
    cases hterm'
    rfl
  | cons hhead _ ih =>
    obtain ⟨items', rest', hhead', hrest', rfl⟩ := List.forall₂_cons_left_iff.1 hterm'
    obtain ⟨⟨hfigure, hpay⟩, hfigures⟩ := List.forall_mem_cons.1 hfigures
    rw [List.map_cons, List.map_cons,
      Terms.filter_book_eq hp hp' hsold hsold' hpaid.units hpay hfigure hhead hhead',
      ih rest' hrest' hfigures]

/-- The lines of guarantees are described alike. -/
theorem description_of_mem_topUps {units commission raised : Decimal} {floors : List Decimal}
    {items : List LineItem} (h : topUps units commission floors = .ok (raised, items)) :
    ∀ i ∈ items, i.description = "Minimum Commission Guarantee" := by
  induction floors generalizing commission items with
  | nil =>
    cases h
    simp
  | cons floor rest ih =>
    rcases topUps_cons h with h | ⟨-, -, added, next, items', -, -, -, -, hrest, rfl⟩
    · exact ih h
    · exact List.forall_mem_cons.2 ⟨rfl, ih hrest⟩

/-- What is shown besides the lines of rules is described by its category. -/
theorem Steps.description_of_mem_items (s : p.Steps deals b) {i : LineItem} (hi : i ∈ b.items)
    (hc : i.category = .guarantee) : i.description = "Minimum Commission Guarantee" := by
  have hmem : i ∈ b.items.filter fun i => i.category == .guarantee := by
    rw [List.mem_filter, hc]
    exact ⟨hi, rfl⟩
  rw [s.filter_items fun i hi => by rw [hi]; rfl] at hmem
  rcases List.mem_append.1 (List.mem_of_mem_filter (List.mem_of_mem_filter hmem)) with hi | hi
  · have hearned := isEarned_of_mem_book s.book i hi
    rw [hc] at hearned
    cases hearned
  · rcases eq_or_topUps_of_guaranteed s.guarantees with h | h
    · exact description_of_mem_topUps h i hi
    · exact description_of_mem_topUps h i hi

/-- The lines of rules among those of a breakdown are the booked ones that are shown. -/
theorem Steps.filter_isEarned (s : p.Steps deals b) :
    b.items.filter (fun i => i.category.isEarned) = s.booked.filter LineItem.isShown := by
  have hbooked : ∀ i ∈ s.booked.filter LineItem.isShown, i.category.isEarned = true := fun i hi =>
    isEarned_of_mem_book s.book i (List.mem_of_mem_filter hi)
  have hadded : ∀ i ∈ s.added.filter LineItem.isShown, i.category.isEarned = false := fun i hi => by
    rw [(s.line_of_mem_added i (List.mem_of_mem_filter hi)).1]
    rfl
  rw [s.filter_items fun i hi => by rw [hi]; rfl, Steps.shown, List.filter_append,
    List.filter_append, List.filter_eq_self.2 hbooked, filter_eq_nil_of_forall hadded,
    List.append_nil]

/-! ## Evaluation -/

/-- A list is known by its images and by the items of a sort, if the others are known by their
images. -/
theorem eq_of_map_eq_of_filter_eq {α β : Type} {f : α → β} {q : α → Bool} {xs ys : List α}
    (hmap : xs.map f = ys.map f) (hq : ∀ x y, f x = f y → q x = q y)
    (hfilter : xs.filter q = ys.filter q)
    (hrest : ∀ x ∈ xs, ∀ y ∈ ys, f x = f y → q x = false → x = y) : xs = ys := by
  induction xs generalizing ys with
  | nil => exact (List.map_eq_nil_iff.1 hmap.symm).symm
  | cons x xs ih =>
    obtain ⟨y, ys, rfl, hxy, hmap⟩ := List.map_eq_cons_iff.1 hmap.symm
    rw [List.filter_cons, List.filter_cons, hq y x hxy] at hfilter
    have htail : ∀ x' ∈ xs, ∀ y' ∈ ys, f x' = f y' → q x' = false → x' = y' :=
      fun x' hx' y' hy' => hrest x' (List.mem_cons_of_mem x hx') y' (List.mem_cons_of_mem y hy')
    cases hx : q x with
    | true =>
      rw [hx, if_pos rfl, if_pos rfl, List.cons.injEq] at hfilter
      rw [hfilter.1, ih hmap.symm hfilter.2 htail]
    | false =>
      rw [hx, if_neg Bool.false_ne_true, if_neg Bool.false_ne_true] at hfilter
      rw [hrest x List.mem_cons_self y List.mem_cons_self hxy.symm hx, ih hmap.symm hfilter htail]

/-- Evaluations by rules of the same terms that pay the same have the same lines: what rules pay is
described alike where it is shown, and the other lines are known by their categories and values. -/
theorem Steps.items_eq_of_paidAlike (hterms : p.rules.map Rule.terms = q.rules.map Rule.terms)
    (h : InEnvelope p deals) (h' : InEnvelope q deals')
    (hpaid : Exact.PaidAlike p.rules (Deal.delivered deals) (Deal.delivered deals'))
    (s : p.Steps deals b) (s' : q.Steps deals' b') (hb : b.exact = Exact.evaluate p.rules deals)
    (hb' : b'.exact = Exact.evaluate q.rules deals') : b.items = b'.items := by
  have hexact : b.exact = b'.exact := by
    rw [hb, hb']
    exact Exact.payFor_eq_of_paidAlike hterms hpaid
  have hcommission : b.commission.value = b'.commission.value :=
    congrArg Exact.Pay.commission hexact
  have hearned : ∀ i i' : LineItem, i.exact = i'.exact →
      i.category.isEarned = i'.category.isEarned := by
    intro i i' hi
    exact congrArg (fun l : Exact.Line => l.category.isEarned) hi
  refine eq_of_map_eq_of_filter_eq (f := LineItem.exact) (q := fun i => i.category.isEarned)
    (congrArg Exact.Pay.lines hexact) hearned ?_ ?_
  · rw [s.filter_isEarned, s'.filter_isEarned, s.filter_booked_eq hterms h h' hpaid s']
  · intro i hi i' hi' hii hadded
    have hcategory : i.category = i'.category := congrArg Exact.Line.category hii
    have hvalue : i.amount.value = i'.amount.value := congrArg Exact.Line.amount hii
    unfold Category.isEarned at hadded
    rw [Bool.and_eq_false_iff, bne_eq_false_iff_eq, bne_eq_false_iff_eq] at hadded
    rcases hadded with hc | hc
    · have hpos := s.pos_of_category i hi (.inr hc)
      have hamount : i.amount = i'.amount := by
        apply Decimal.eq_of_value _ hvalue fun hz => absurd hz hpos.ne'
        rw [s.exponent_of_mem_items i hi, s'.exponent_of_mem_items i' hi']
      have htext := s.description_of_mem_items hi hc
      have htext' := s'.description_of_mem_items hi' (hcategory ▸ hc)
      cases i
      cases i'
      simp_all
    · exact s.offset_eq s' hb hb' hcommission hi hc hi' (hcategory ▸ hc)

/-- Evaluations by rules of the same terms for the same sales have the same lines. -/
theorem Steps.items_eq (hterms : p.rules.map Rule.terms = q.rules.map Rule.terms)
    (h : InEnvelope p deals) (h' : InEnvelope q deals')
    (hsales : Exact.SameSales (Deal.delivered deals) (Deal.delivered deals'))
    (s : p.Steps deals b) (s' : q.Steps deals' b') (hb : b.exact = Exact.evaluate p.rules deals)
    (hb' : b'.exact = Exact.evaluate q.rules deals') : b.items = b'.items :=
  s.items_eq_of_paidAlike hterms h h' (hsales.paidAlike p.rules) s' hb hb'

/-- Pay depends on the sales among the delivered deals alone, and not on the labels of the rules:
plans of the same terms evaluate to the same lines and to the same totals. -/
theorem evaluate_of_sameSales (hterms : p.rules.map Rule.terms = q.rules.map Rule.terms)
    (h : InEnvelope p deals) (h' : InEnvelope q deals')
    (hsales : ((Deal.delivered deals).map Deal.exact).Perm
      ((Deal.delivered deals').map Deal.exact)) :
    ∃ b b', p.evaluate deals = .ok b ∧ q.evaluate deals' = .ok b' ∧ b.items = b'.items ∧
      b.TotalsAgree b' := by
  obtain ⟨b, hb, hexact⟩ := p.evaluate_exact h
  obtain ⟨b', hb', hexact'⟩ := q.evaluate_exact h'
  obtain ⟨s⟩ := exists_steps hb
  obtain ⟨s'⟩ := exists_steps hb'
  have hwarnings : b.warnings = b'.warnings := by
    have count : ∀ (f : Terms → Bool),
        p.rules.countP (fun r => f r.terms) = q.rules.countP fun r => f r.terms := by
      intro f
      have hmap : ∀ rs : List Rule, rs.countP (fun r => f r.terms) =
          (rs.map Rule.terms).countP f := fun rs => (List.countP_map ..).symm
      rw [hmap, hmap, hterms]
    rw [warnings_of_evaluate hb, warnings_of_evaluate hb']
    unfold warnings ambiguities Rule.isBase Rule.isGuarantee Rule.kind
    simp only [count fun t => t.kind == .base, count fun t => t.kind == .guarantee]
  have hpay : Exact.evaluate p.rules deals = Exact.evaluate q.rules deals' :=
    Exact.payFor_eq_of_sameSales hterms hsales
  exact ⟨b, b', hb, hb', s.items_eq hterms h h' hsales s' hexact hexact',
    .of_exact hexact hexact' (by rw [hpay]) hwarnings⟩

/-- The standard rules with labels. -/
def labelled : Plan where
  rules := standard.rules.map fun r => { r with label := r.kind.text }
  sound := by decide +kernel

/-- A deal with a gross in cents, written down by somebody else. -/
def retold : Deal :=
  { Deal.ordinary with
    count := ⟨false, 100, -2⟩, frontGross := ⟨false, 15002500, -4⟩, customer := "Lee" }

/-- A deal with a gross in cents that is not delivered yet. -/
def ahead : Deal := { Deal.ordinary with status := .pending }

/-- The standard rules pay the same, line by line, with labels, and for deals that come in another
order, are written down differently and stand beside a pending one. -/
theorem evaluate_labelled_retold :
    standard.rules.map Rule.terms = labelled.rules.map Rule.terms ∧
      InEnvelope standard [Deal.plain, Deal.ordinary] ∧
      InEnvelope labelled [ahead, retold, Deal.plain] ∧
      ((Deal.delivered [Deal.plain, Deal.ordinary]).map Deal.exact).Perm
        ((Deal.delivered [ahead, retold, Deal.plain]).map Deal.exact) ∧
      ∃ b b', standard.evaluate [Deal.plain, Deal.ordinary] = .ok b ∧
        labelled.evaluate [ahead, retold, Deal.plain] = .ok b' ∧ b.items = b'.items ∧
        b.TotalsAgree b' := by
  have hterms : standard.rules.map Rule.terms = labelled.rules.map Rule.terms := rfl
  have henv : InEnvelope standard [Deal.plain, Deal.ordinary] :=
    .of_digits (by decide +kernel) (by decide) (by decide +kernel) (by decide +kernel)
  have henv' : InEnvelope labelled [ahead, retold, Deal.plain] :=
    .of_digits (by decide +kernel) (by decide) (by decide +kernel) (by decide +kernel)
  have hcount : retold.count.value = Deal.ordinary.count.value := by
    norm_num [retold, Deal.ordinary, Deal.plain, Decimal.value, Decimal.digits, Decimal.one,
      Decimal.ofNat]
  have hfront : retold.frontGross.value = Deal.ordinary.frontGross.value := by
    norm_num [retold, Deal.ordinary, Decimal.value, Decimal.digits]
  have hretold : retold.exact = Deal.ordinary.exact := by
    unfold Deal.exact
    rw [hcount, hfront]
    rfl
  have hsales : [Deal.plain.exact, Deal.ordinary.exact].Perm [retold.exact, Deal.plain.exact] := by
    rw [hretold]
    exact List.Perm.swap _ _ _
  exact ⟨hterms, henv, henv', hsales, evaluate_of_sameSales hterms henv henv' hsales⟩

end Plan

end DealerPay
