import DealerPay.Proofs.Exact.Raise
import DealerPay.Proofs.Growth

/-!
# Plans with higher rates

Whoever is promised more is paid no less: where one plan has amounts, percentages, rates and caps
that are not lower than those of another one, rule by rule, all its totals are no less. A higher
commission may take away from what a guarantee adds, and a higher draw may exceed a commission that
exceeded the lower one; neither takes away from what is paid in all.

* `Exact.subtotal_le_of_atMost`, `Exact.exists_floor_le` and `Exact.basePay_le`: what the rules
  earn, guarantee and pay as a salary or draw is no less.
* `Exact.payFor_le_of_atMost` puts these together, and `Plan.evaluate_of_atMost` compares two
  evaluations in the envelope.
-/

namespace DealerPay

/-- Terms that differ in rates only pay in one category. -/
theorem Terms.AtMost.category {t t' : Terms} (h : t.AtMost t') : t.category = t'.category := by
  cases h <;> rfl

namespace Exact

variable {rules rules' : List Rule} {sold : List Deal}

/-! ## Parts of an evaluation -/

/-- Rules with higher rates earn no less in any category. -/
theorem subtotal_le_of_atMost
    (h : List.Forall₂ (fun r r' : Rule => r.terms.AtMost r'.terms) rules rules')
    (hpos : Deal.NoneNegative sold) (c : Category) :
    subtotal c (booked rules sold) ≤ subtotal c (booked rules' sold) := by
  rw [subtotal_booked, subtotal_booked]
  apply List.Forall₂.sum_le_sum
  rw [List.forall₂_map_left_iff, List.forall₂_map_right_iff]
  have hsame : List.Forall₂ (fun r r' : Rule => r.terms.AtMost r'.terms)
      (rules.filter fun r => r.terms.category == c)
      (rules'.filter fun r => r.terms.category == c) :=
    List.rel_filter (fun r r' hr => by simp only [hr.category]) h
  exact hsame.imp fun _ _ hr => cents_le_of_atMost hpos hr

/-- A commission that terms guarantee is guaranteed at least at higher rates. -/
theorem exists_floor?_le {t t' : Terms} (h : t.AtMost t') {f : ℚ} (hf : floor? t = some f) :
    ∃ f', floor? t' = some f' ∧ f ≤ f' := by
  cases h with
  | guarantee hle =>
    rw [floor?, Option.ite_none_right_eq_some, Option.some_inj] at hf
    obtain ⟨hpos, rfl⟩ := hf
    exact ⟨_, if_pos (hpos.trans_le hle), hle⟩
  | _ => cases hf

/-- For each commission that is guaranteed, rules with higher rates guarantee one that is no
less. -/
theorem exists_floor_le
    (h : List.Forall₂ (fun r r' : Rule => r.terms.AtMost r'.terms) rules rules') :
    ∀ f ∈ floors rules, ∃ f' ∈ floors rules', f ≤ f' := by
  intro f hf
  obtain ⟨r, hmem, hfloor⟩ := List.mem_filterMap.1 hf
  obtain ⟨r', hmem', hr⟩ : ∃ r' ∈ rules', r.terms.AtMost r'.terms := by
    clear hf
    induction h with
    | nil => cases hmem
    | cons hhead _ ih =>
      rcases List.mem_cons.1 hmem with rfl | hmem
      · exact ⟨_, List.mem_cons_self, hhead⟩
      · obtain ⟨r', hmem', hr⟩ := ih hmem
        exact ⟨r', List.mem_cons_of_mem _ hmem', hr⟩
  obtain ⟨f', hfloor', hle⟩ := exists_floor?_le hr hfloor
  exact ⟨f', List.mem_filterMap.2 ⟨r', hmem', hfloor'⟩, hle⟩

/-- The salary or draw of terms with higher rates is no less. -/
theorem base?_rel {t t' : Terms} (h : t.AtMost t') :
    Option.Rel (fun b b' : ℚ × Bool => b.1 ≤ b'.1 ∧ b.2 = b'.2) (base? t) (base? t') := by
  cases h with
  | base isDraw hamount => exact .some ⟨nearestCent_mono hamount, rfl⟩
  | _ => exact .none

/-- The salary or draw of rules with higher rates is no less, and is a draw in both or in
neither. -/
theorem basePay_le
    (h : List.Forall₂ (fun r r' : Rule => r.terms.AtMost r'.terms) rules rules') :
    (basePay rules).1 ≤ (basePay rules').1 ∧ (basePay rules).2 = (basePay rules').2 := by
  have hrel := getLast?_rel (List.rel_filterMap (fun r r' hr => base?_rel hr) h)
  unfold basePay
  generalize (rules.filterMap fun r => base? r.terms).getLast? = o at hrel ⊢
  generalize (rules'.filterMap fun r => base? r.terms).getLast? = o' at hrel ⊢
  cases hrel with
  | none => exact ⟨le_rfl, rfl⟩
  | some hb => exact hb

/-- Rules with higher rates pay no less in any total. -/
theorem payFor_le_of_atMost
    (h : List.Forall₂ (fun r r' : Rule => r.terms.AtMost r'.terms) rules rules')
    (hpos : Deal.NoneNegative sold) :
    (payFor rules sold).base.1 ≤ (payFor rules' sold).base.1 ∧
      (payFor rules sold).bonus ≤ (payFor rules' sold).bonus ∧
      (payFor rules sold).commission ≤ (payFor rules' sold).commission ∧
      (payFor rules sold).total ≤ (payFor rules' sold).total := by
  have hcommission : (payFor rules sold).commission ≤ (payFor rules' sold).commission :=
    fst_guaranteed_mono (floors_nonneg rules) (exists_floor_le h) le_rfl
      (subtotal_le_of_atMost h hpos .commission)
  have hbonus : (payFor rules sold).bonus ≤ (payFor rules' sold).bonus :=
    subtotal_le_of_atMost h hpos .bonus
  obtain ⟨hbase, hdraw⟩ := basePay_le h
  exact ⟨hbase, hbonus, hcommission, settle_mono hdraw hbase hcommission hbonus⟩

end Exact

/-! ## Evaluation -/

namespace Plan

variable {p p' : Plan} {deals : List Deal}

/-- Whoever is promised more is paid no less: where no figure of the deals is below zero, salary or
draw, bonuses, commission and what is paid in all are no less under rules with higher rates. -/
theorem evaluate_of_atMost
    (hrates : List.Forall₂ (fun r r' : Rule => r.terms.AtMost r'.terms) p.rules p'.rules)
    (hpos : Deal.NoneNegative deals) (h : InEnvelope p deals) (h' : InEnvelope p' deals) :
    ∃ b b', p.evaluate deals = .ok b ∧ p'.evaluate deals = .ok b' ∧
      b.basePay.value ≤ b'.basePay.value ∧ b.bonus.value ≤ b'.bonus.value ∧
      b.commission.value ≤ b'.commission.value ∧ b.totalPay.value ≤ b'.totalPay.value := by
  obtain ⟨b, hb, hexact⟩ := p.evaluate_exact h
  obtain ⟨b', hb', hexact'⟩ := p'.evaluate_exact h'
  have hle := Exact.payFor_le_of_atMost hrates
    (fun d hd => hpos d (List.mem_of_mem_filter hd) : Deal.NoneNegative (Deal.delivered deals))
  rw [← Exact.evaluate, ← Exact.evaluate, ← hexact, ← hexact'] at hle
  exact ⟨b, b', hb, hb', hle⟩

/-- A draw with a rule of every other kind. -/
def promised : Plan where
  rules :=
    [⟨"", .base (.ofNat 500) true⟩,
     ⟨"", .flatRate .all (.ofNat 100)⟩,
     ⟨"", .unitTiers .all [⟨.ofNat 1, some (.ofNat 8), .ofNat 100⟩] false⟩,
     ⟨"", .grossShare (.ofNat 25) (.ofNat 5) (some (.ofNat 300)) none⟩,
     ⟨"", .grossTiers .all [⟨.zero, none, .ofNat 20⟩] true .total⟩,
     ⟨"", .volumeBonus .all [⟨.ofNat 1, .ofNat 50⟩]⟩,
     ⟨"", .addOn .all (.ofNat 10) .zero .zero⟩,
     ⟨"", .guarantee .zero⟩]
  sound := by decide +kernel

/-- The draw and the rules with a higher figure each. -/
def promisedMore : Plan where
  rules :=
    [⟨"", .base (.ofNat 2000) true⟩,
     ⟨"", .flatRate .all (.ofNat 110)⟩,
     ⟨"", .unitTiers .all [⟨.ofNat 1, some (.ofNat 8), .ofNat 120⟩] false⟩,
     ⟨"", .grossShare (.ofNat 26) (.ofNat 5) (some (.ofNat 350)) (some .zero)⟩,
     ⟨"", .grossTiers .all [⟨.zero, none, .ofNat 25⟩] true .total⟩,
     ⟨"", .volumeBonus .all [⟨.ofNat 1, .ofNat 75⟩]⟩,
     ⟨"", .addOn .all (.ofNat 10) (.ofNat 5) .zero⟩,
     ⟨"", .guarantee (.ofNat 900)⟩]
  sound := by decide +kernel

/-- A deal is paid no less under a higher draw and higher rates of every kind. -/
theorem evaluate_promisedMore :
    List.Forall₂ (fun r r' : Rule => r.terms.AtMost r'.terms) promised.rules promisedMore.rules ∧
      Deal.NoneNegative [Deal.dressed] ∧ InEnvelope promised [Deal.dressed] ∧
      InEnvelope promisedMore [Deal.dressed] ∧
      ∃ b b', promised.evaluate [Deal.dressed] = .ok b ∧
        promisedMore.evaluate [Deal.dressed] = .ok b' ∧
        b.basePay.value ≤ b'.basePay.value ∧ b.bonus.value ≤ b'.bonus.value ∧
        b.commission.value ≤ b'.commission.value ∧ b.totalPay.value ≤ b'.totalPay.value := by
  have tier : ∀ {lower rate rate' : Decimal} {stated : Option Decimal},
      rate.value ≤ rate'.value → List.Forall₂ Tier.AtMost [⟨lower, stated, rate⟩]
        [⟨lower, stated, rate'⟩] := fun h => .cons ⟨rfl, rfl, h⟩ .nil
  have hrates : List.Forall₂ (fun r r' : Rule => r.terms.AtMost r'.terms) promised.rules
      promisedMore.rules :=
    .cons (.base true (by norm_num)) <| .cons (.flatRate .all (by norm_num)) <|
    .cons (.unitTiers .all false (tier (by norm_num))) <|
    .cons (.grossShare (by norm_num) le_rfl (.capped (by norm_num) (by norm_num))
      (.uncapped (by simp) (by simp))) <|
    .cons (.grossTiers .all true .total (tier (by norm_num))) <|
    .cons (.volumeBonus .all (.cons ⟨rfl, by norm_num⟩ .nil)) <|
    .cons (.addOn .all le_rfl (by norm_num) le_rfl) <| .cons (.guarantee (by norm_num)) .nil
  have hpos : Deal.NoneNegative [Deal.dressed] := by
    simp [Deal.NoneNegative, Deal.figures, Deal.dressed, Deal.plain]
  have henv : InEnvelope promised [Deal.dressed] :=
    .of_digits (by decide +kernel) (by decide) (by decide +kernel) (by decide +kernel)
  have henv' : InEnvelope promisedMore [Deal.dressed] :=
    .of_digits (by decide +kernel) (by decide) (by decide +kernel) (by decide +kernel)
  exact ⟨hrates, hpos, henv, henv', evaluate_of_atMost hrates hpos henv henv'⟩

end Plan

end DealerPay
