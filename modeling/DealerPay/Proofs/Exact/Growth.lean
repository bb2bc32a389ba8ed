import DealerPay.Proofs.Acceptance
import DealerPay.Proofs.Exact.Guarantee
import DealerPay.Proofs.Exact.Tiering

/-!
# Growth of pay over the rationals

Deals that grow earn no less by any rule, line by line rounded to cents, as long as higher tiers do
not pay less where one tier pays for everything.

* `Deal.AtMost` and `Deal.Grows`: deals grow by being replaced by larger ones and by others being
  added, in whatever order.
* `Exact.sum_le_of_grows`: sums over the deals grow, and so do units and gross.
* `Exact.reached?_mono`: more units reach a tier that pays no less, where rates rise with the tiers.
* `Exact.slicePay_mono`: of more units, slice by slice, no fewer are paid. This holds of
  overlapping tiers and of tiers with gaps between them, whatever their rates.
* `Exact.pay_nonneg`: well-formed terms take nothing away.
* `Exact.cents_mono`: what the terms of a rule pay in cents grows with the deals.
-/

namespace DealerPay

/-! ## Deals that grow -/

/-- Whether a deal is at most as large as another one of the same condition and status. -/
structure Deal.AtMost (d d' : Deal) : Prop where
  /-- Both are new or both are used. -/
  condition : d.condition = d'.condition
  /-- Both are delivered or both are pending. -/
  status : d.status = d'.status
  /-- The share of the deal. -/
  count : d.count.value ≤ d'.count.value
  /-- The gross on the vehicle. -/
  frontGross : d.frontGross.value ≤ d'.frontGross.value
  /-- The gross on financing and insurance. -/
  backGross : d.backGross.value ≤ d'.backGross.value
  /-- Accessories. -/
  accessory : d.accessory.value ≤ d'.accessory.value
  /-- Bonuses of the manufacturer. -/
  spiffs : d.spiffs.value ≤ d'.spiffs.value
  /-- Bonuses for a vehicle taken in. -/
  tradeSpiff : d.tradeSpiff.value ≤ d'.tradeSpiff.value

/-- A deal is at most as large as itself. -/
theorem Deal.AtMost.refl (d : Deal) : d.AtMost d :=
  ⟨rfl, rfl, le_rfl, le_rfl, le_rfl, le_rfl, le_rfl, le_rfl⟩

/-- Whether deals grow into others: each is replaced by one that it is at most as large as, and more
are added, in whatever order. -/
def Deal.Grows (deals deals' : List Deal) : Prop :=
  ∃ larger, List.Forall₂ Deal.AtMost deals larger ∧ larger.Subperm deals'

/-- Whether no figure of the deals is below zero. -/
def Deal.NoneNegative (deals : List Deal) : Prop := ∀ d ∈ deals, ∀ x ∈ d.figures, 0 ≤ x.value

/-- Whether higher tiers pay no less, where the tier that is reached pays for everything. Tiers that
pay for their own units only may have any rates. -/
def Terms.IsProgressive : Terms → Prop
  | unitTiers _ tiers true => (Tier.sorted tiers).Pairwise fun t t' => t.rate.value ≤ t'.rate.value
  | grossTiers _ tiers _ _ => (Tier.sorted tiers).Pairwise fun t t' => t.rate.value ≤ t'.rate.value
  | _ => True

namespace Exact

variable {sold sold' : List Deal}

/-- Deals of a sort grow, if the sort is one of conditions and statuses. -/
theorem grows_filter {q : Deal → Bool} (hq : ∀ d d', Deal.AtMost d d' → q d = q d')
    (h : Deal.Grows sold sold') : Deal.Grows (sold.filter q) (sold'.filter q) := by
  obtain ⟨larger, hlarger, hadded⟩ := h
  refine ⟨larger.filter q, ?_, hadded.filter q⟩
  clear hadded
  induction hlarger with
  | nil => exact .nil
  | @cons d d' rest rest' hd _ ih =>
    rw [List.filter_cons, List.filter_cons, hq d d' hd]
    split
    · exact .cons hd ih
    · exact ih

/-- Deals within a scope grow. -/
theorem grows_seen (h : Deal.Grows sold sold') (s : Scope) :
    Deal.Grows (Deal.seen s sold) (Deal.seen s sold') :=
  grows_filter (fun _ _ hd => by rw [hd.condition]) h

/-- A sum over deals grows with them, if its parts do and what is added takes nothing away. -/
theorem sum_le_of_grows {g : Deal → ℚ} (hg : ∀ d d', Deal.AtMost d d' → g d ≤ g d')
    (hnonneg : ∀ d ∈ sold', 0 ≤ g d) (h : Deal.Grows sold sold') :
    (sold.map g).sum ≤ (sold'.map g).sum := by
  obtain ⟨larger, hlarger, kept, hperm, hadded⟩ := h
  calc (sold.map g).sum ≤ (larger.map g).sum := by
        apply List.Forall₂.sum_le_sum
        rw [List.forall₂_map_left_iff, List.forall₂_map_right_iff]
        exact hlarger.imp hg
    _ = (kept.map g).sum := (hperm.map g).sum_eq.symm
    _ ≤ (sold'.map g).sum := by
        apply (hadded.map g).sum_le_sum
        exact List.forall_mem_map.2 hnonneg

/-- No deal within a scope has a figure below zero if none has one. -/
theorem noneNegative_seen (h : Deal.NoneNegative sold) (s : Scope) :
    Deal.NoneNegative (Deal.seen s sold) := fun d hd => h d (List.mem_of_mem_filter hd)

/-- A sum of figures that are not below zero is not either. -/
theorem total_nonneg (h : Deal.NoneNegative sold) {figure : Deal → Decimal}
    (hf : ∀ d : Deal, figure d ∈ d.figures) : 0 ≤ total figure sold := by
  apply List.sum_nonneg
  exact List.forall_mem_map.2 fun d hd => h d hd _ (hf d)

/-- A sum of one figure grows with the deals. -/
theorem total_mono (hg : Deal.Grows sold sold') (h : Deal.NoneNegative sold')
    {figure : Deal → Decimal} (hf : ∀ d : Deal, figure d ∈ d.figures)
    (hle : ∀ d d', Deal.AtMost d d' → (figure d).value ≤ (figure d').value) :
    total figure sold ≤ total figure sold' :=
  sum_le_of_grows hle (fun d hd => h d hd _ (hf d)) hg

/-- Units are not below zero. -/
theorem units_nonneg (h : Deal.NoneNegative sold) (s : Scope) : 0 ≤ units sold s :=
  total_nonneg (noneNegative_seen h s) fun d => by simp [Deal.figures]

/-- Units grow with the deals. -/
theorem units_mono (hg : Deal.Grows sold sold') (h : Deal.NoneNegative sold') (s : Scope) :
    units sold s ≤ units sold' s :=
  total_mono (grows_seen hg s) (noneNegative_seen h s) (fun d => by simp [Deal.figures])
    fun _ _ hd => hd.count

/-- Gross is not below zero. -/
theorem gross_nonneg (h : Deal.NoneNegative sold) (s : Scope) (basis : GrossBasis) :
    0 ≤ gross sold s basis := by
  have hseen := noneNegative_seen h s
  have hfront : 0 ≤ total Deal.frontGross (Deal.seen s sold) :=
    total_nonneg hseen fun d => by simp [Deal.figures]
  have hback : 0 ≤ total Deal.backGross (Deal.seen s sold) :=
    total_nonneg hseen fun d => by simp [Deal.figures]
  cases basis with
  | front => exact hfront
  | back => exact hback
  | total => exact add_nonneg hfront hback

/-- Gross grows with the deals. -/
theorem gross_mono (hg : Deal.Grows sold sold') (h : Deal.NoneNegative sold') (s : Scope)
    (basis : GrossBasis) : gross sold s basis ≤ gross sold' s basis := by
  have hgs := grows_seen hg s
  have hseen := noneNegative_seen h s
  have hfront : total Deal.frontGross (Deal.seen s sold) ≤
      total Deal.frontGross (Deal.seen s sold') :=
    total_mono hgs hseen (fun d => by simp [Deal.figures]) fun _ _ hd => hd.frontGross
  have hback : total Deal.backGross (Deal.seen s sold) ≤
      total Deal.backGross (Deal.seen s sold') :=
    total_mono hgs hseen (fun d => by simp [Deal.figures]) fun _ _ hd => hd.backGross
  cases basis with
  | front => exact hfront
  | back => exact hback
  | total => exact add_le_add hfront hback

/-! ## Percentages and caps -/

/-- A percentage grows with what it is taken of. -/
theorem percentage_mono {percent : Decimal} (hp : 0 ≤ percent.value) {x y : ℚ} (h : x ≤ y) :
    percentage percent x ≤ percentage percent y := by
  have := mul_le_mul_of_nonneg_right h hp
  unfold percentage
  linarith

/-- A percentage of what is not below zero is not either. -/
theorem percentage_nonneg {percent : Decimal} (hp : 0 ≤ percent.value) {x : ℚ} (h : 0 ≤ x) :
    0 ≤ percentage percent x := by
  have := mul_nonneg h hp
  unfold percentage
  linarith

/-- A cap of zero or less caps nothing. -/
theorem capped_of_nonpos {cap : Option Decimal} (h : ∀ most ∈ cap, most.value ≤ 0) (x : ℚ) :
    capped cap x = x := by
  cases cap with
  | none => rfl
  | some most => exact if_neg (not_lt.2 (h most rfl))

/-- The share of a deal grows with its gross, up to the most that is paid. -/
theorem share_mono {percent gross gross' : Decimal} (hp : 0 ≤ percent.value)
    (h : gross.value ≤ gross'.value) (cap : Option Decimal) :
    share percent cap gross ≤ share percent cap gross' := by
  have hpaid := percentage_mono hp h
  unfold share capped
  cases cap with
  | none => exact hpaid
  | some most =>
    simp only
    split
    · exact min_le_min_right _ hpaid
    · exact hpaid

/-- The share of a deal whose gross is not below zero is not either. -/
theorem share_nonneg {percent gross : Decimal} (hp : 0 ≤ percent.value) (h : 0 ≤ gross.value)
    (cap : Option Decimal) : 0 ≤ share percent cap gross := by
  have hpaid := percentage_nonneg hp h
  unfold share capped
  cases cap with
  | none => exact hpaid
  | some most =>
    simp only
    split
    · next hmost => exact le_min hpaid hmost.le
    · exact hpaid

/-! ## What units reach -/

/-- What fewer units reach, more units reach as well. -/
theorem reached_sublist {α : Type} {bound : α → Decimal} {u u' : ℚ} (h : u ≤ u') (xs : List α) :
    (reached bound u xs).Sublist (reached bound u' xs) :=
  List.monotone_filter_right _ fun x hx => by simp only [decide_eq_true_eq] at hx ⊢; linarith

/-- The last item is related to itself and to every item before it. -/
theorem rel_getLast? {α : Type} {R : α → α → Prop} (hrefl : ∀ x, R x x) {xs : List α}
    (h : xs.Pairwise R) {x last : α} (hx : x ∈ xs) (hlast : xs.getLast? = some last) :
    R x last := by
  obtain ⟨front, rfl⟩ := List.getLast?_eq_some_iff.1 hlast
  rcases List.mem_append.1 hx with hx | hx
  · exact (List.pairwise_append.1 h).2.2 x hx last List.mem_cons_self
  · rw [List.mem_singleton.1 hx]
    exact hrefl last

/-- Where rates rise with the tiers, the tier that units reach last pays no less than any other tier
that they reach. -/
theorem exists_reached?_of_mem {tiers : List Tier} {u : ℚ}
    (hrise : (Tier.sorted tiers).Pairwise fun t t' => t.rate.value ≤ t'.rate.value)
    {t : Tier} (ht : t ∈ reached Tier.lower u tiers) :
    ∃ last, reached? u tiers = some last ∧ t.rate.value ≤ last.rate.value := by
  cases hlast : reached? u tiers with
  | none =>
    rw [reached?, List.getLast?_eq_none_iff] at hlast
    rw [hlast] at ht
    cases ht
  | some last =>
    rw [Tier.sorted, sortByBound_eq] at hrise
    have hpairs := hrise.sublist (List.filter_sublist (p := fun t => t.lower.value ≤ u))
    exact ⟨last, rfl, rel_getLast? (R := fun t t' : Tier => t.rate.value ≤ t'.rate.value)
      (fun _ => le_rfl) hpairs ht hlast⟩

/-- More units reach a tier that pays no less, where rates rise with the tiers. -/
theorem reached?_mono {tiers : List Tier} {u u' : ℚ} (h : u ≤ u')
    (hrise : (Tier.sorted tiers).Pairwise fun t t' => t.rate.value ≤ t'.rate.value)
    {t : Tier} (ht : reached? u tiers = some t) :
    ∃ t', reached? u' tiers = some t' ∧ t.rate.value ≤ t'.rate.value :=
  exists_reached?_of_mem hrise ((reached_sublist h tiers).subset (List.mem_of_getLast? ht))

/-! ## Slices -/

/-- What slices pay in cents. -/
def slicePay (taken : List (Tier × ℚ)) : ℚ :=
  (taken.map fun s => nearestCent (s.2 * s.1.rate.value)).sum

/-- What slices pay is not below zero. -/
theorem slicePay_nonneg {u a : ℚ} {tiers : List Tier} (ht : ∀ t ∈ tiers, 0 ≤ t.rate.value) :
    0 ≤ slicePay (slicesFrom u a tiers) := by
  apply List.sum_nonneg
  refine List.forall_mem_map.2 fun s hs => ?_
  obtain ⟨hmem, hpos, -⟩ := mem_slicesFrom hs
  exact nearestCent_nonneg (mul_nonneg hpos.le (ht s.1 hmem))

/-- The units that one tier takes of those beyond the ones that are accounted for. -/
def cut (u a : ℚ) (t : Tier) : ℚ := max 0 (ceiling t u - a)

/-- A tier that the units reach takes its cut, and the units up to its ceiling are accounted for. -/
theorem slicePay_cons {u a : ℚ} {t : Tier} (h : t.lower.value ≤ u) (rest : List Tier) :
    slicePay (slicesFrom u a (t :: rest)) =
      nearestCent (cut u a t * t.rate.value) +
        slicePay (slicesFrom u (max a (ceiling t u)) rest) := by
  unfold cut
  rw [slicesFrom]
  by_cases ha : a < ceiling t u
  · rw [if_pos ⟨h, ha⟩, max_eq_right (by linarith), max_eq_right ha.le]
    simp [slicePay]
  · rw [if_neg fun hc => ha hc.2, max_eq_left (by linarith), max_eq_left (not_lt.1 ha), zero_mul,
      nearestCent_zero, zero_add]

/-- Units that do not reach the first of some tiers reach none of them. -/
theorem slicesFrom_of_lt {u a : ℚ} {tiers : List Tier} (h : ∀ t ∈ tiers, u < t.lower.value) :
    slicesFrom u a tiers = [] := by
  induction tiers with
  | nil => rfl
  | cons t rest ih =>
    obtain ⟨ht, hrest⟩ := List.forall_mem_cons.1 h
    rw [slicesFrom, if_neg fun hc => absurd hc.1 (not_le.2 ht), ih hrest]

/-- A ceiling of fewer units is that of more units, or the fewer units themselves. -/
theorem ceiling_eq_min {u u' : ℚ} (h : u ≤ u') (t : Tier) : ceiling t u = min u (ceiling t u') := by
  unfold ceiling
  cases t.upper with
  | none => exact (min_eq_left h).symm
  | some upper =>
    simp only
    rw [← min_assoc, min_eq_left h]

/-- Of more units the slices pay no less. The units that are accounted for are the same in both
walks, or all of the fewer ones, until the fewer units reach no further tier. -/
theorem slicePay_mono {u u' : ℚ} (h : u ≤ u') {tiers : List Tier}
    (hsorted : tiers.Pairwise fun t t' => t.lower.value ≤ t'.lower.value)
    (ht : ∀ t ∈ tiers, 0 ≤ t.rate.value) {a a' : ℚ} (ha : a = min u a') :
    slicePay (slicesFrom u a tiers) ≤ slicePay (slicesFrom u' a' tiers) := by
  induction tiers generalizing a a' with
  | nil => exact le_rfl
  | cons t rest ih =>
    obtain ⟨hfirst, hrest⟩ := List.pairwise_cons.1 hsorted
    obtain ⟨hrate, hrates⟩ := List.forall_mem_cons.1 ht
    by_cases hreach : t.lower.value ≤ u
    · rw [slicePay_cons hreach, slicePay_cons (hreach.trans h)]
      have hceiling := ceiling_eq_min h t
      have hcut : cut u a t ≤ cut u' a' t := by
        unfold cut
        rw [hceiling, ha]
        rcases le_total u a' with hle | hle
        · rw [min_eq_left hle, max_eq_left (by linarith [min_le_left u (ceiling t u')])]
          exact le_max_left _ _
        · rw [min_eq_right hle]
          exact max_le_max_left _ (by linarith [min_le_right u (ceiling t u')])
      have haccounted : max a (ceiling t u) = min u (max a' (ceiling t u')) := by
        rw [hceiling, ha, min_max_distrib_left]
      exact add_le_add (nearestCent_mono (mul_le_mul_of_nonneg_right hcut hrate))
        (ih hrest hrates haccounted)
    · have hnone : ∀ t' ∈ t :: rest, u < t'.lower.value :=
        List.forall_mem_cons.2 ⟨not_le.1 hreach, fun t' ht' => (not_le.1 hreach).trans_le
          (hfirst t' ht')⟩
      rw [slicesFrom_of_lt hnone]
      exact slicePay_nonneg ht

/-! ## Rules -/

/-- What terms pay in cents. -/
def cents (sold : List Deal) (t : Terms) : ℚ :=
  ((pay sold t).map fun l => nearestCent l.amount).sum

/-- Well-formed terms take nothing away. -/
theorem pay_nonneg (h : Deal.NoneNegative sold) {t : Terms} (ht : t.IsWellFormed) :
    ∀ l ∈ pay sold t, 0 ≤ l.amount := by
  cases t with
  | base amount isDraw => exact List.forall_mem_singleton.2 ht
  | flatRate s perUnit => exact List.forall_mem_singleton.2 (mul_nonneg (units_nonneg h s) ht)
  | unitTiers s tiers retroactive =>
    cases retroactive with
    | true =>
      exact List.forall_mem_map.2 fun t hmem => mul_nonneg (units_nonneg h s)
        (ht t (mem_of_reached? (Option.mem_toList.1 hmem))).rate
    | false =>
      refine List.forall_mem_map.2 fun taken hmem => ?_
      obtain ⟨hmem, hpos, -⟩ := mem_slices hmem
      exact mul_nonneg hpos.le (ht taken.1 hmem).rate
  | grossShare front back frontCap backCap =>
    have hshare : ∀ {percent : Decimal} (cap : Option Decimal) {figure : Deal → Decimal},
        0 ≤ percent.value → (∀ d : Deal, figure d ∈ d.figures) →
        0 ≤ (sold.map fun d => share percent cap (figure d)).sum := fun cap _ hp hf =>
      List.sum_nonneg (List.forall_mem_map.2 fun d hd => share_nonneg hp (h d hd _ (hf d)) cap)
    exact List.forall_mem_cons.2 ⟨hshare frontCap ht.1 fun d => by simp [Deal.figures],
      List.forall_mem_singleton.2 (hshare backCap ht.2 fun d => by simp [Deal.figures])⟩
  | grossTiers s tiers retroactive basis =>
    exact List.forall_mem_map.2 fun t hmem => percentage_nonneg
      (ht t (mem_of_reached? (Option.mem_toList.1 hmem))).rate (gross_nonneg h s basis)
  | volumeBonus s thresholds =>
    exact List.forall_mem_map.2 fun t hmem => (ht t (mem_of_mem_reached hmem)).amount
  | addOn s accessory spiff tradeSpiff =>
    have hpart : ∀ {percent : Decimal} {figure : Deal → Decimal}, 0 ≤ percent.value →
        (∀ d : Deal, figure d ∈ d.figures) → 0 ≤ percentage percent (total figure sold) :=
      fun hp hf => percentage_nonneg hp (total_nonneg h hf)
    exact List.forall_mem_cons.2 ⟨hpart ht.1.1 fun d => by simp [Deal.figures],
      List.forall_mem_cons.2 ⟨hpart ht.1.2 fun d => by simp [Deal.figures],
        List.forall_mem_singleton.2 (hpart ht.2 fun d => by simp [Deal.figures])⟩⟩
  | guarantee perUnit => exact fun l hl => absurd hl List.not_mem_nil

/-- What well-formed terms pay in cents is not below zero. -/
theorem cents_nonneg (h : Deal.NoneNegative sold) {t : Terms} (ht : t.IsWellFormed) :
    0 ≤ cents sold t :=
  List.sum_nonneg (List.forall_mem_map.2 fun l hl => nearestCent_nonneg (pay_nonneg h ht l hl))

/-- The amount of the tier that is reached. -/
theorem sum_reached? (u : ℚ) (tiers : List Tier) (worth : Tier → ℚ) :
    (((reached? u tiers).toList.map fun t => (⟨.commission, worth t⟩ : Line)).map fun l =>
      nearestCent l.amount).sum =
      ((reached? u tiers).map fun t => nearestCent (worth t)).getD 0 := by
  cases reached? u tiers <;> simp

/-- What the tier that is reached pays in cents grows, where rates rise with the tiers. -/
theorem reachedPay_mono {tiers : List Tier} {u u' : ℚ} (h : u ≤ u')
    (hrise : (Tier.sorted tiers).Pairwise fun t t' => t.rate.value ≤ t'.rate.value)
    {worth worth' : Tier → ℚ} (hnonneg : ∀ t ∈ tiers, 0 ≤ worth' t)
    (hworth : ∀ t ∈ tiers, ∀ t' ∈ tiers, t.rate.value ≤ t'.rate.value → worth t ≤ worth' t') :
    ((reached? u tiers).map fun t => nearestCent (worth t)).getD 0 ≤
      ((reached? u' tiers).map fun t => nearestCent (worth' t)).getD 0 := by
  cases ht : reached? u tiers with
  | none =>
    cases ht' : reached? u' tiers with
    | none => exact le_rfl
    | some t' => exact nearestCent_nonneg (hnonneg t' (mem_of_reached? ht'))
  | some t =>
    obtain ⟨t', ht', hrate⟩ := reached?_mono h hrise ht
    rw [ht']
    exact nearestCent_mono (hworth t (mem_of_reached? ht) t' (mem_of_reached? ht') hrate)

/-- What terms pay in cents grows with the deals, if they are well formed and higher tiers pay no
less where one tier pays for everything. -/
theorem cents_mono (hg : Deal.Grows sold sold') (h : Deal.NoneNegative sold')
    (hs : Deal.NoneNegative sold) {t : Terms} (ht : t.IsWellFormed) (hrise : t.IsProgressive) :
    cents sold t ≤ cents sold' t := by
  unfold cents
  cases t with
  | base | guarantee => exact le_rfl
  | flatRate s perUnit =>
    simp only [pay, List.map_cons, List.map_nil, List.sum_cons, List.sum_nil, add_zero]
    exact nearestCent_mono (mul_le_mul_of_nonneg_right (units_mono hg h s) ht)
  | unitTiers s tiers retroactive =>
    have hunits := units_mono hg h s
    cases retroactive with
    | true =>
      simp only [pay, if_pos, sum_reached?]
      apply reachedPay_mono hunits hrise
      · exact fun t hmem => mul_nonneg (units_nonneg h s) (ht t hmem).rate
      · exact fun t hmem t' _ hrate =>
          mul_le_mul hunits hrate (ht t hmem).rate (units_nonneg h s)
    | false =>
      have hpaid := slicePay_mono hunits (pairwise_sortedBy Tier.lower tiers)
        (fun t hmem => (ht t (mem_sortedBy.1 hmem)).rate) (min_eq_right (units_nonneg hs s)).symm
      simp only [pay, Bool.false_eq_true, if_false, List.map_map]
      exact hpaid
  | grossShare front back frontCap backCap =>
    obtain ⟨hfront, hback⟩ := ht
    simp only [pay, List.map_cons, List.map_nil, List.sum_cons, List.sum_nil, add_zero]
    refine add_le_add (nearestCent_mono ?_) (nearestCent_mono ?_)
    · refine sum_le_of_grows (fun d d' hd => share_mono hfront hd.frontGross _) (fun d hd => ?_) hg
      exact share_nonneg hfront (h d hd _ (by simp [Deal.figures])) _
    · refine sum_le_of_grows (fun d d' hd => share_mono hback hd.backGross _) (fun d hd => ?_) hg
      exact share_nonneg hback (h d hd _ (by simp [Deal.figures])) _
  | grossTiers s tiers retroactive basis =>
    have hgross := gross_mono hg h s basis
    have hpos := gross_nonneg hs s basis
    simp only [pay, sum_reached?]
    apply reachedPay_mono (units_mono hg h s) hrise
    · exact fun t hmem => percentage_nonneg (ht t hmem).rate (hpos.trans hgross)
    · intro t hmem t' _ hrate
      have hrates := mul_le_mul hgross hrate (ht t hmem).rate (hpos.trans hgross)
      unfold percentage
      linarith
  | volumeBonus s thresholds =>
    simp only [pay, List.map_map]
    apply ((reached_sublist (units_mono hg h s) thresholds).map _).sum_le_sum
    refine List.forall_mem_map.2 fun t hmem => ?_
    exact nearestCent_nonneg (ht t (mem_of_mem_reached hmem)).amount
  | addOn s accessory spiff tradeSpiff =>
    obtain ⟨⟨haccessory, hspiff⟩, htrade⟩ := ht
    simp only [pay, List.map_cons, List.map_nil, List.sum_cons, List.sum_nil, add_zero]
    refine add_le_add (nearestCent_mono ?_) (add_le_add (nearestCent_mono ?_) (nearestCent_mono ?_))
    · exact percentage_mono haccessory
        (total_mono hg h (fun d => by simp [Deal.figures]) fun _ _ hd => hd.accessory)
    · exact percentage_mono hspiff
        (total_mono hg h (fun d => by simp [Deal.figures]) fun _ _ hd => hd.spiffs)
    · exact percentage_mono htrade
        (total_mono hg h (fun d => by simp [Deal.figures]) fun _ _ hd => hd.tradeSpiff)

end Exact

end DealerPay
