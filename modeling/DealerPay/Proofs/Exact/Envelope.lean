import DealerPay.Proofs.Decimal.Grid
import DealerPay.Proofs.Exact.Pay

/-!
# The envelope of ordinary figures

Pay is exact as long as its figures are ordinary ones: whole numbers of a ten-thousandth below ten
million, in fewer than a hundred thousand deals, rules, tiers and thresholds.

* `Decimal.IsOrdinary` is that for one figure; `Deal.figures` and `Terms.figures` list the figures
  of a deal and of a rule, and `InEnvelope` asks it of all figures of a plan and of the deals.
* `Exact.OrdinaryDeals` is that for the deals alone; `Exact.OrdinaryDeals.onGrid_units` and its
  companions give the grids of the sums over them.
-/

namespace DealerPay

/-! ## Ordinary figures -/

/-- Whether a figure is a whole number of ten-thousandths, of size below ten million. -/
def Decimal.IsOrdinary (d : Decimal) : Prop :=
  (∃ n : ℤ, d.value = n / 10 ^ 4) ∧ |d.value| < 10 ^ 7

/-- The figures of a deal. -/
def Deal.figures (d : Deal) : List Decimal :=
  [d.count, d.frontGross, d.backGross, d.accessory, d.spiffs, d.tradeSpiff]

/-- A share of a deal is one half or one. -/
theorem Deal.value_count {c : Decimal} (h : Deal.isShare c = true) :
    c.value = 1 / 2 ∨ c.value = 1 := by
  unfold Deal.isShare at h
  rw [Bool.or_eq_true, Decimal.same_iff, Decimal.same_iff, Decimal.value_half,
    Decimal.value_one] at h
  exact h

/-- The figures of a tier. -/
def Tier.figures (t : Tier) : List Decimal := t.lower :: t.rate :: t.stated.toList

/-- The upper bound of a tier is one of its figures. -/
theorem Tier.mem_figures_of_upper {t : Tier} {upper : Decimal} (h : t.upper = some upper) :
    upper ∈ t.figures := by
  have hstated : t.stated = some upper := (Option.filter_eq_some_iff.1 h).1
  simp [figures, hstated]

/-- Whether a tier ends and pays at ordinary figures, wherever it starts. -/
structure Tier.IsOrdinary (t : Tier) : Prop where
  /-- The units at which it ends are ordinary, if it ends. -/
  upper : ∀ x ∈ t.upper, x.IsOrdinary
  /-- Its rate is ordinary. -/
  rate : t.rate.IsOrdinary

/-- A tier is ordinary if all its figures are. -/
theorem Tier.isOrdinary_of_figures {t : Tier} (h : ∀ x ∈ t.figures, x.IsOrdinary) :
    t.IsOrdinary where
  upper x hx := h x (Tier.mem_figures_of_upper hx)
  rate := h t.rate (by simp [figures])

/-- The figures of a threshold. -/
def Threshold.figures (t : Threshold) : List Decimal := [t.lower, t.amount]

/-- The figures of the terms of a rule. -/
def Terms.figures : Terms → List Decimal
  | base amount _ => [amount]
  | flatRate _ perUnit => [perUnit]
  | unitTiers _ tiers _ => tiers.flatMap Tier.figures
  | grossShare front back frontCap backCap =>
    front :: back :: (frontCap.toList ++ backCap.toList)
  | grossTiers _ tiers _ _ => tiers.flatMap Tier.figures
  | volumeBonus _ thresholds => thresholds.flatMap Threshold.figures
  | addOn _ accessory spiff tradeSpiff => [accessory, spiff, tradeSpiff]
  | guarantee perUnit => [perUnit]

/-- The figures of percentages of gross, those of the front apart from those of the back. -/
theorem Terms.forall_mem_figures_grossShare {P : Decimal → Prop} {front back : Decimal}
    {frontCap backCap : Option Decimal}
    (h : ∀ x ∈ (grossShare front back frontCap backCap).figures, P x) :
    (P front ∧ ∀ c ∈ frontCap, P c) ∧ P back ∧ ∀ c ∈ backCap, P c := by
  have mem : ∀ x, x = front ∨ x = back ∨ frontCap = some x ∨ backCap = some x → P x :=
    fun x hx => h x (by simpa [figures] using hx)
  exact ⟨⟨mem front (.inl rfl), fun c hc => mem c (.inr (.inr (.inl hc)))⟩,
    mem back (.inr (.inl rfl)), fun c hc => mem c (.inr (.inr (.inr hc)))⟩

/-- How many tiers and thresholds the terms of a rule have. -/
def Terms.parts : Terms → ℕ
  | unitTiers _ tiers _ => tiers.length
  | grossTiers _ tiers _ _ => tiers.length
  | volumeBonus _ thresholds => thresholds.length
  | _ => 0

/-- Whether the figures of a plan and of the deals are ordinary, and not too many. -/
structure InEnvelope (p : Plan) (deals : List Deal) : Prop where
  /-- The figures of the deals are ordinary. -/
  dealFigures : ∀ d ∈ deals, ∀ x ∈ d.figures, x.IsOrdinary
  /-- There are fewer than a hundred thousand deals. -/
  dealCount : deals.length < 10 ^ 5
  /-- The figures of the rules are ordinary. -/
  ruleFigures : ∀ r ∈ p.rules, ∀ x ∈ r.terms.figures, x.IsOrdinary
  /-- There are fewer than a hundred thousand rules, tiers and thresholds in all. -/
  ruleCount : (p.rules.map fun r => 1 + r.terms.parts).sum < 10 ^ 5

/-- Whether a figure is written with at most four decimals and stays below ten million. -/
def Decimal.HasOrdinaryDigits (d : Decimal) : Prop :=
  -4 ≤ d.exponent ∧ scaled d.coefficient (d.exponent - -4).toNat < 10 ^ 11

instance (d : Decimal) : Decidable d.HasOrdinaryDigits :=
  inferInstanceAs (Decidable (_ ∧ _))

/-- A figure that is written with so few digits is ordinary. -/
theorem Decimal.HasOrdinaryDigits.isOrdinary {d : Decimal} (h : d.HasOrdinaryDigits) :
    d.IsOrdinary := by
  obtain ⟨he, hc⟩ := h
  have hv := signedAt_mul_tenPow he
  have hs := scaled_mul_tenPow d.coefficient he
  have hcq : (scaled d.coefficient (d.exponent - -4).toNat : ℚ) < 10 ^ 11 := by exact_mod_cast hc
  refine ⟨⟨d.signedAt (-4), ?_⟩, ?_⟩
  · rw [← hv]
    norm_num
    ring
  · have h4 : (10 : ℚ) ^ (-4 : ℤ) = 1 / 10 ^ 4 := by norm_num
    rw [abs_value, ← hs, h4]
    linarith

/-- An ordinary figure is on the grid of four decimals. -/
theorem Decimal.IsOrdinary.onGrid {d : Decimal} (h : d.IsOrdinary) :
    OnGrid 4 (10 ^ 11) d.value := by
  obtain ⟨⟨n, hn⟩, hlt⟩ := h
  have hgrid : OnGrid 4 n.natAbs d.value := ⟨n, hn, by simp⟩
  apply hgrid.of_abs_le
  norm_num at hlt ⊢
  exact hlt.le

/-- A plan with the standard rule of each kind. -/
def Plan.standard : Plan := ⟨RuleKind.all.map Rule.standard, by decide +kernel⟩

/-- A deal with a gross in cents. -/
def Deal.ordinary : Deal :=
  { Deal.plain with frontGross := ⟨false, 150025, -2⟩, backGross := ⟨true, 12005, -2⟩ }

/-- Figures are in the envelope if they are written with few enough digits. -/
theorem InEnvelope.of_digits {p : Plan} {deals : List Deal}
    (hd : ∀ d ∈ deals, ∀ x ∈ d.figures, x.HasOrdinaryDigits) (hn : deals.length < 10 ^ 5)
    (hr : ∀ r ∈ p.rules, ∀ x ∈ r.terms.figures, x.HasOrdinaryDigits)
    (hm : (p.rules.map fun r => 1 + r.terms.parts).sum < 10 ^ 5) : InEnvelope p deals :=
  ⟨fun d h x hx => (hd d h x hx).isOrdinary, hn, fun r h x hx => (hr r h x hx).isOrdinary, hm⟩

/-- The standard rules and this deal are in the envelope. -/
theorem inEnvelope_standard : InEnvelope Plan.standard [Deal.ordinary] :=
  .of_digits (by decide +kernel) (by decide) (by decide +kernel) (by decide +kernel)

namespace Exact

variable {sold : List Deal} {s : Scope}

/-! ## Grids of sums over deals -/

/-- Whether deals have ordinary figures and are not more than a hundred thousand. -/
structure OrdinaryDeals (sold : List Deal) : Prop where
  /-- Their figures are ordinary. -/
  figures : ∀ d ∈ sold, ∀ x ∈ d.figures, x.IsOrdinary
  /-- They are a hundred thousand at most. -/
  count : sold.length ≤ 10 ^ 5

/-- Some of the deals are ordinary if all are. -/
theorem OrdinaryDeals.filter (h : OrdinaryDeals sold) (p : Deal → Bool) :
    OrdinaryDeals (sold.filter p) :=
  ⟨fun d hd => h.figures d (List.mem_of_mem_filter hd),
    (List.length_filter_le p sold).trans h.count⟩

/-- In the envelope, the delivered deals are ordinary. -/
theorem ordinaryDeals_delivered {p : Plan} {deals : List Deal} (h : InEnvelope p deals) :
    OrdinaryDeals (Deal.delivered deals) :=
  OrdinaryDeals.filter ⟨h.dealFigures, h.dealCount.le⟩ _

/-- The deals within a scope are ordinary if all are. -/
theorem OrdinaryDeals.seen (h : OrdinaryDeals sold) (s : Scope) :
    OrdinaryDeals (Deal.seen s sold) := h.filter _

/-- A sum of one figure over the deals. -/
theorem OrdinaryDeals.onGrid_total (h : OrdinaryDeals sold) {figure : Deal → Decimal}
    (hf : ∀ d : Deal, figure d ∈ d.figures) : OnGrid 4 (10 ^ 16) (total figure sold) := by
  have hsum : OnGrid 4 ((sold.map fun d => (figure d).value).length * 10 ^ 11)
      (sold.map fun d => (figure d).value).sum := by
    apply OnGrid.sum
    intro x hx
    obtain ⟨d, hd, rfl⟩ := List.mem_map.1 hx
    exact (h.figures d hd _ (hf d)).onGrid
  rw [List.length_map] at hsum
  have hcount := h.count
  exact hsum.mono (by omega)

/-- The units within a scope. -/
theorem OrdinaryDeals.onGrid_units (h : OrdinaryDeals sold) (s : Scope) :
    OnGrid 4 (10 ^ 16) (units sold s) :=
  (h.seen s).onGrid_total fun d => by simp [Deal.figures]

/-- The gross within a scope. -/
theorem OrdinaryDeals.onGrid_gross (h : OrdinaryDeals sold) (s : Scope) (basis : GrossBasis) :
    OnGrid 4 (2 * 10 ^ 16) (gross sold s basis) := by
  have hfront : OnGrid 4 (10 ^ 16) (total Deal.frontGross (Deal.seen s sold)) :=
    (h.seen s).onGrid_total fun d => by simp [Deal.figures]
  have hback : OnGrid 4 (10 ^ 16) (total Deal.backGross (Deal.seen s sold)) :=
    (h.seen s).onGrid_total fun d => by simp [Deal.figures]
  cases basis with
  | front => exact hfront.mono (by norm_num)
  | back => exact hback.mono (by norm_num)
  | total => exact (hfront.add hback).mono (by norm_num)

/-! ## Grids of what rules pay -/

/-- A percentage of a number on a grid. -/
theorem onGrid_percentage {percent : Decimal} (hp : percent.IsOrdinary) {m : ℕ} {x : ℚ}
    (hx : OnGrid 4 m x) : OnGrid 10 (m * 10 ^ 11) (percentage percent x) :=
  (hx.mul hp.onGrid).hundredth

/-- The share of one deal, with the most that is paid for it. -/
theorem onGrid_share {percent gross : Decimal} {cap : Option Decimal} (hp : percent.IsOrdinary)
    (hc : ∀ c ∈ cap, c.IsOrdinary) (hg : gross.IsOrdinary) :
    OnGrid 10 (10 ^ 22) (share percent cap gross) := by
  have hpaid : OnGrid 10 (10 ^ 22) (percentage percent gross.value) :=
    (onGrid_percentage hp hg.onGrid).mono (by norm_num)
  unfold share capped
  cases cap with
  | none => exact hpaid
  | some most =>
    have hmost : OnGrid 10 (10 ^ 22) most.value :=
      ((hc most rfl).onGrid.finer 6).mono (by norm_num)
    show OnGrid 10 (10 ^ 22) (if 0 < most.value then _ else _)
    split
    · exact hpaid.min hmost
    · exact hpaid

/-- The shares of all deals together. -/
theorem OrdinaryDeals.onGrid_shares (h : OrdinaryDeals sold) {percent : Decimal}
    {cap : Option Decimal} (hp : percent.IsOrdinary) (hc : ∀ c ∈ cap, c.IsOrdinary)
    {figure : Deal → Decimal} (hf : ∀ d : Deal, figure d ∈ d.figures) :
    OnGrid 10 (10 ^ 27) (sold.map fun d => share percent cap (figure d)).sum := by
  have hsum : OnGrid 10 ((sold.map fun d => share percent cap (figure d)).length * 10 ^ 22)
      (sold.map fun d => share percent cap (figure d)).sum := by
    apply OnGrid.sum
    intro x hx
    obtain ⟨d, hd, rfl⟩ := List.mem_map.1 hx
    exact onGrid_share hp hc (h.figures d hd _ (hf d))
  rw [List.length_map] at hsum
  have hcount := h.count
  exact hsum.mono (by omega)

/-- The ceiling of a tier. -/
theorem onGrid_ceiling {t : Tier} (ht : ∀ x ∈ t.upper, x.IsOrdinary) {u : ℚ}
    (hu : OnGrid 4 (10 ^ 16) u) : OnGrid 4 (10 ^ 16) (ceiling t u) := by
  unfold ceiling
  cases hupper : t.upper with
  | none => exact hu
  | some upper => exact hu.min ((ht upper hupper).onGrid.mono (by norm_num))

end Exact

end DealerPay
