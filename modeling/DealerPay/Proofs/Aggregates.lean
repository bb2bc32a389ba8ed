import DealerPay.Proofs.Exact.Growth
import DealerPay.Proofs.Relevance

/-!
# Pay without caps

Only a cap looks at single deals. Where no percentage of gross is capped, pay is a matter of a few
sums over the delivered deals.

* `Exact.SameTotals` says that two lists of deals agree in these sums: the count and the gross of
  each condition, and the accessories and bonuses overall.
* `Exact.pay_eq_of_sameTotals`: uncapped terms (`Terms.IsUncapped`) pay the same.
* `Deal.IsSplitInto` says that two halves stand for a whole deal;
  `Exact.sameTotals_of_isSplitInto`: they add the same to every sum.
* `Plan.evaluate_of_sameTotals`: evaluations have the same lines, and their totals agree.
-/

namespace DealerPay

variable {sold sold' : List Deal}

/-! ## Sums over the delivered deals -/

namespace Exact

/-- Whether deals agree in the sums that pay without caps is a matter of. -/
structure SameTotals (sold sold' : List Deal) : Prop where
  /-- The units of a condition. -/
  count : ∀ c, total Deal.count (Deal.seen (.only c) sold) =
    total Deal.count (Deal.seen (.only c) sold')
  /-- The gross on vehicles of a condition. -/
  frontGross : ∀ c, total Deal.frontGross (Deal.seen (.only c) sold) =
    total Deal.frontGross (Deal.seen (.only c) sold')
  /-- The gross on financing and insurance of a condition. -/
  backGross : ∀ c, total Deal.backGross (Deal.seen (.only c) sold) =
    total Deal.backGross (Deal.seen (.only c) sold')
  /-- All accessories. -/
  accessory : total Deal.accessory sold = total Deal.accessory sold'
  /-- All bonuses of the manufacturer. -/
  spiffs : total Deal.spiffs sold = total Deal.spiffs sold'
  /-- All bonuses for vehicles taken in. -/
  tradeSpiff : total Deal.tradeSpiff sold = total Deal.tradeSpiff sold'

/-- A sum over all deals is that of the new ones and that of the used ones together. -/
theorem total_eq_add (figure : Deal → Decimal) (deals : List Deal) :
    total figure deals = total figure (Deal.seen (.only .new) deals) +
      total figure (Deal.seen (.only .used) deals) := by
  have hnew : Deal.seen (.only .new) deals = deals.filter fun d => d.condition = .new :=
    List.filter_congr fun d _ => by cases h : d.condition <;> rfl
  have hused : Deal.seen (.only .used) deals = deals.filter fun d => ¬d.condition = .new :=
    List.filter_congr fun d _ => by cases h : d.condition <;> rfl
  rw [hnew, hused]
  exact (List.sum_map_filter_add_sum_map_filter_not _ _ _).symm

/-- A sum that agrees for each condition agrees within every scope. -/
theorem total_seen_eq {figure : Deal → Decimal}
    (h : ∀ c, total figure (Deal.seen (.only c) sold) = total figure (Deal.seen (.only c) sold'))
    (s : Scope) : total figure (Deal.seen s sold) = total figure (Deal.seen s sold') := by
  cases s with
  | all => rw [Deal.seen_all, Deal.seen_all, total_eq_add, h, h, ← total_eq_add]
  | only c => exact h c

/-- Deals with the same sums have the same gross. -/
theorem SameTotals.gross (h : SameTotals sold sold') (s : Scope) (basis : GrossBasis) :
    gross sold s basis = gross sold' s basis := by
  have hfront := total_seen_eq h.frontGross s
  have hback := total_seen_eq h.backGross s
  cases basis with
  | front => exact hfront
  | back => exact hback
  | total => rw [Exact.gross, Exact.gross, hfront, hback]

/-! ## Rules without caps -/

/-- Uncapped shares of all deals are the percentage of the sum. -/
theorem sum_share_of_uncapped {cap : Option Decimal} (h : ∀ c ∈ cap, c.value ≤ 0)
    (percent : Decimal) (figure : Deal → Decimal) (deals : List Deal) :
    (deals.map fun d => share percent cap (figure d)).sum =
      percentage percent (total figure deals) := by
  induction deals with
  | nil => simp [percentage, total]
  | cons d rest ih =>
    have hcons : total figure (d :: rest) = (figure d).value + total figure rest := List.sum_cons
    rw [List.map_cons, List.sum_cons, ih, share, capped_of_nonpos h, hcons]
    unfold percentage
    ring

end Exact

/-- Whether the terms of a rule have no cap above zero. -/
def Terms.IsUncapped : Terms → Prop
  | grossShare _ _ frontCap backCap =>
    (∀ c ∈ frontCap, c.value ≤ 0) ∧ ∀ c ∈ backCap, c.value ≤ 0
  | _ => True

namespace Exact

/-- Uncapped terms pay the same for deals with the same sums. -/
theorem pay_eq_of_sameTotals (h : SameTotals sold sold') {t : Terms} (ht : t.IsUncapped) :
    pay sold t = pay sold' t := by
  have hunits : ∀ s, units sold s = units sold' s := total_seen_eq h.count
  cases t with
  | base | guarantee => rfl
  | flatRate s perUnit => rw [pay, pay, hunits]
  | unitTiers s tiers retroactive => rw [pay, pay, hunits]
  | grossShare front back frontCap backCap =>
    have hfront := total_seen_eq h.frontGross .all
    have hback := total_seen_eq h.backGross .all
    rw [Deal.seen_all, Deal.seen_all] at hfront hback
    rw [pay, pay, sum_share_of_uncapped ht.1, sum_share_of_uncapped ht.1,
      sum_share_of_uncapped ht.2, sum_share_of_uncapped ht.2, hfront, hback]
  | grossTiers s tiers retroactive basis => rw [pay, pay, hunits, h.gross]
  | volumeBonus s thresholds => rw [pay, pay, hunits]
  | addOn s accessory spiff tradeSpiff =>
    rw [pay, pay, h.accessory, h.spiffs, h.tradeSpiff]

/-- Uncapped rules pay the same for deals with the same sums. -/
theorem SameTotals.paidAlike (h : SameTotals sold sold') {rules : List Rule}
    (hrules : ∀ r ∈ rules, r.terms.IsUncapped) : PaidAlike rules sold sold' :=
  ⟨total_seen_eq h.count, h.gross .all .total, fun r hr => pay_eq_of_sameTotals h (hrules r hr)⟩

end Exact

/-! ## Split deals -/

/-- Whether two halves of one deal stand for it: they share its condition and status, and their
amounts add up to its amounts. -/
structure Deal.IsSplitInto (d d₁ d₂ : Deal) : Prop where
  /-- The deal is a whole one. -/
  whole : d.count.value = 1
  /-- The others are halves. -/
  halves : d₁.count.value = 1 / 2 ∧ d₂.count.value = 1 / 2
  /-- All are of one condition. -/
  condition : d₁.condition = d.condition ∧ d₂.condition = d.condition
  /-- All are at one point of the sale. -/
  status : d₁.status = d.status ∧ d₂.status = d.status
  /-- The gross on the vehicle is shared out. -/
  frontGross : d₁.frontGross.value + d₂.frontGross.value = d.frontGross.value
  /-- So is the gross on financing and insurance. -/
  backGross : d₁.backGross.value + d₂.backGross.value = d.backGross.value
  /-- So are the accessories. -/
  accessory : d₁.accessory.value + d₂.accessory.value = d.accessory.value
  /-- So are the bonuses of the manufacturer. -/
  spiffs : d₁.spiffs.value + d₂.spiffs.value = d.spiffs.value
  /-- So are the bonuses for a vehicle taken in. -/
  tradeSpiff : d₁.tradeSpiff.value + d₂.tradeSpiff.value = d.tradeSpiff.value

namespace Exact

variable {d d₁ d₂ : Deal} {deals deals' rest : List Deal}

/-- Two deals that share one out add the same to a sum over some of the deals. -/
theorem total_filter_split {figure : Deal → Decimal}
    (hfigure : (figure d₁).value + (figure d₂).value = (figure d).value) {keep : Deal → Bool}
    (hkeep₁ : keep d₁ = keep d) (hkeep₂ : keep d₂ = keep d) (hdeals : deals.Perm (d :: rest))
    (hdeals' : deals'.Perm (d₁ :: d₂ :: rest)) :
    total figure (deals.filter keep) = total figure (deals'.filter keep) := by
  have perm : ∀ {xs ys : List Deal}, xs.Perm ys →
      total figure (xs.filter keep) = total figure (ys.filter keep) :=
    fun h => ((h.filter keep).map fun d => (figure d).value).sum_eq
  rw [perm hdeals, perm hdeals']
  unfold total
  cases hk : keep d with
  | true =>
    rw [List.filter_cons_of_pos hk, List.filter_cons_of_pos (hkeep₁.trans hk),
      List.filter_cons_of_pos (hkeep₂.trans hk)]
    simp only [List.map_cons, List.sum_cons]
    linarith
  | false =>
    rw [List.filter_cons_of_neg (by simp [hk]), List.filter_cons_of_neg (by simp [hkeep₁, hk]),
      List.filter_cons_of_neg (by simp [hkeep₂, hk])]

/-- Deals have the same sums where one is replaced by two halves of it. -/
theorem sameTotals_of_isSplitInto (h : d.IsSplitInto d₁ d₂) (hdeals : deals.Perm (d :: rest))
    (hdeals' : deals'.Perm (d₁ :: d₂ :: rest)) :
    SameTotals (Deal.delivered deals) (Deal.delivered deals') := by
  have hdelivered₁ : d₁.isDelivered = d.isDelivered :=
    congrArg (· == DealStatus.delivered) h.status.1
  have hdelivered₂ : d₂.isDelivered = d.isDelivered :=
    congrArg (· == DealStatus.delivered) h.status.2
  have hcount : d₁.count.value + d₂.count.value = d.count.value := by
    rw [h.halves.1, h.halves.2, h.whole]
    norm_num
  have overall : ∀ {figure : Deal → Decimal},
      (figure d₁).value + (figure d₂).value = (figure d).value →
      total figure (Deal.delivered deals) = total figure (Deal.delivered deals') :=
    fun hfigure => total_filter_split hfigure hdelivered₁ hdelivered₂ hdeals hdeals'
  have within : ∀ {figure : Deal → Decimal},
      (figure d₁).value + (figure d₂).value = (figure d).value → ∀ c,
      total figure (Deal.seen (.only c) (Deal.delivered deals)) =
        total figure (Deal.seen (.only c) (Deal.delivered deals')) := by
    intro figure hfigure c
    unfold Deal.seen Deal.delivered
    rw [List.filter_filter, List.filter_filter]
    refine total_filter_split hfigure ?_ ?_ hdeals hdeals'
    · rw [h.condition.1, hdelivered₁]
    · rw [h.condition.2, hdelivered₂]
  exact ⟨within hcount, within h.frontGross, within h.backGross, overall h.accessory,
    overall h.spiffs, overall h.tradeSpiff⟩

end Exact

/-! ## Evaluation -/

namespace Plan

variable {p : Plan} {deals deals' : List Deal}

/-- Without caps pay is a matter of sums over the delivered deals alone: evaluations of deals with
the same ones have the same lines and the same totals. So they have if one deal is replaced by two
halves of it. -/
theorem evaluate_of_sameTotals (hrules : ∀ r ∈ p.rules, r.terms.IsUncapped)
    (h : InEnvelope p deals) (h' : InEnvelope p deals')
    (hdeals : Exact.SameTotals (Deal.delivered deals) (Deal.delivered deals') ∨
      ∃ d d₁ d₂ rest, d.IsSplitInto d₁ d₂ ∧ deals.Perm (d :: rest) ∧
        deals'.Perm (d₁ :: d₂ :: rest)) :
    ∃ b b', p.evaluate deals = .ok b ∧ p.evaluate deals' = .ok b' ∧ b.items = b'.items ∧
      b.TotalsAgree b' := by
  have htotals : Exact.SameTotals (Deal.delivered deals) (Deal.delivered deals') := by
    rcases hdeals with htotals | ⟨d, d₁, d₂, rest, hsplit, hperm, hperm'⟩
    · exact htotals
    · exact Exact.sameTotals_of_isSplitInto hsplit hperm hperm'
  have hpaid := htotals.paidAlike hrules
  obtain ⟨b, hb, hexact⟩ := p.evaluate_exact h
  obtain ⟨b', hb', hexact'⟩ := p.evaluate_exact h'
  obtain ⟨s⟩ := exists_steps hb
  obtain ⟨s'⟩ := exists_steps hb'
  have hpay : Exact.evaluate p.rules deals = Exact.evaluate p.rules deals' :=
    Exact.payFor_eq_of_paidAlike rfl hpaid
  have hwarnings : b.warnings = b'.warnings := by
    rw [warnings_of_evaluate hb, warnings_of_evaluate hb']
  exact ⟨b, b', hb, hb', s.items_eq_of_paidAlike rfl h h' hpaid s' hexact hexact',
    .of_exact hexact hexact' (by rw [hpay]) hwarnings⟩

/-- One half of an ordinary deal, with the rounder part of the gross. -/
def firstHalf : Deal :=
  { Deal.ordinary with count := .half, frontGross := .ofNat 1000, backGross := .zero }

/-- The other half. -/
def secondHalf : Deal :=
  { Deal.ordinary with count := .half, frontGross := ⟨false, 50025, -2⟩ }

/-- The standard rules, which have caps of zero only, pay the same, line by line, for an ordinary
deal and for two halves of it. -/
theorem evaluate_ordinary_halved :
    (∀ r ∈ standard.rules, r.terms.IsUncapped) ∧
      InEnvelope standard [Deal.plain, Deal.ordinary] ∧
      InEnvelope standard [firstHalf, Deal.plain, secondHalf] ∧
      Deal.ordinary.IsSplitInto firstHalf secondHalf ∧
      ∃ b b', standard.evaluate [Deal.plain, Deal.ordinary] = .ok b ∧
        standard.evaluate [firstHalf, Deal.plain, secondHalf] = .ok b' ∧ b.items = b'.items ∧
        b.TotalsAgree b' := by
  have hrules : ∀ r ∈ standard.rules, r.terms.IsUncapped := by
    intro r hr
    obtain ⟨kind, -, rfl⟩ := List.mem_map.1 hr
    cases kind with
    | grossShare =>
      have hzero : ∀ c ∈ some Decimal.zero, c.value ≤ 0 := by simp
      exact ⟨hzero, hzero⟩
    | _ => trivial
  have henv : InEnvelope standard [Deal.plain, Deal.ordinary] :=
    .of_digits (by decide +kernel) (by decide) (by decide +kernel) (by decide +kernel)
  have henv' : InEnvelope standard [firstHalf, Deal.plain, secondHalf] :=
    .of_digits (by decide +kernel) (by decide) (by decide +kernel) (by decide +kernel)
  have hsplit : Deal.ordinary.IsSplitInto firstHalf secondHalf := by
    constructor <;>
      norm_num [firstHalf, secondHalf, Deal.ordinary, Deal.plain, Decimal.value, Decimal.digits,
        Decimal.one, Decimal.half, Decimal.zero, Decimal.ofNat]
  exact ⟨hrules, henv, henv', hsplit, evaluate_of_sameTotals hrules henv henv'
    (.inr ⟨_, _, _, [Deal.plain], hsplit, List.Perm.swap _ _ _,
      (List.Perm.swap secondHalf Deal.plain []).cons firstHalf⟩)⟩

end Plan

end DealerPay
