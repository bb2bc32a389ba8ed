import DealerPay.Plan.Basic
import DealerPay.Proofs.Decimal.Value

/-!
# Plans that are accepted

Which rules are sound and which lists of rules make a plan.

* `Terms.IsWellFormed` says by values what a sound rule is: no amount and no rate is below zero, and
  no tier ends before it starts. `Rule.isSound_iff` is the agreement with the search for flaws.
* `firstFlaw?_eq_none_iff`: no flaw is found exactly where every rule is sound.
* `length_positionsOf`: the positions of rules are as many as the rules.
* `Plan.ofRules_eq_ok_iff`: a plan holds the rules that it was made of. They are sound, and in
  strict mode there is one salary or draw at most.
-/

namespace DealerPay

/-! ## Sound rules -/

/-- Whether a tier starts and pays at zero or above, and does not end before it starts. -/
structure Tier.IsWellFormed (t : Tier) : Prop where
  /-- It starts at zero or above. -/
  lower : 0 ≤ t.lower.value
  /-- It pays nothing below zero. -/
  rate : 0 ≤ t.rate.value
  /-- It ends at its start or above, if it ends. -/
  upper : ∀ u ∈ t.upper, t.lower.value ≤ u.value

/-- Whether a threshold and its bonus are zero or above. -/
structure Threshold.IsWellFormed (t : Threshold) : Prop where
  /-- It is reached at zero or above. -/
  lower : 0 ≤ t.lower.value
  /-- The bonus takes nothing away. -/
  amount : 0 ≤ t.amount.value

/-- Whether the amounts and rates of a rule are zero or above, and its tiers end where they start or
above. Caps may be anything. -/
def Terms.IsWellFormed : Terms → Prop
  | base amount _ => 0 ≤ amount.value
  | flatRate _ perUnit => 0 ≤ perUnit.value
  | unitTiers _ tiers _ => ∀ t ∈ tiers, t.IsWellFormed
  | grossShare front back _ _ => 0 ≤ front.value ∧ 0 ≤ back.value
  | grossTiers _ tiers _ _ => ∀ t ∈ tiers, t.IsWellFormed
  | volumeBonus _ thresholds => ∀ t ∈ thresholds, t.IsWellFormed
  | addOn _ accessory spiff tradeSpiff =>
    (0 ≤ accessory.value ∧ 0 ≤ spiff.value) ∧ 0 ≤ tradeSpiff.value
  | guarantee perUnit => 0 ≤ perUnit.value

/-- A figure is no flaw exactly if it is zero or above. -/
theorem Flaw.ofNegative_eq_nil_iff {figure : Figure} {d : Decimal} :
    Flaw.ofNegative figure d = [] ↔ 0 ≤ d.value := by
  unfold ofNegative
  rw [← not_lt, ← Decimal.isNegative_iff]
  split
  · next h => simp [h]
  · next h => simp [h]

/-- A tier is no flaw by its end exactly if it ends at its start or above. -/
theorem Tier.inversion_eq_nil_iff {index : ℕ} {t : Tier} :
    t.inversion index = [] ↔ ∀ u ∈ t.upper, t.lower.value ≤ u.value := by
  unfold inversion
  cases hu : t.upper with
  | none => simp
  | some u =>
    simp only [Option.mem_def, Option.some.injEq, forall_eq', Decimal.lt_iff]
    split
    · next h => simpa using h
    · next h => simpa using h

/-- What is found item by item is nothing exactly if there is nothing in any item. -/
theorem flatMap_zipIdx_eq_nil_iff {α β : Type} {f : α × ℕ → List β} {P : α → Prop}
    (hf : ∀ x i, f (x, i) = [] ↔ P x) (xs : List α) :
    xs.zipIdx.flatMap f = [] ↔ ∀ x ∈ xs, P x := by
  rw [List.flatMap_eq_nil_iff]
  constructor
  · intro h x hx
    obtain ⟨n, hn, rfl⟩ := List.mem_iff_getElem.1 hx
    have hindex : (xs[n], n) ∈ xs.zipIdx :=
      List.mk_mem_zipIdx_iff_getElem?.2 (List.getElem?_eq_getElem hn)
    exact (hf _ n).1 (h _ hindex)
  · rintro h ⟨x, i⟩ hx
    exact (hf x i).2 (h x (List.fst_mem_of_mem_zipIdx hx))

/-- Tiers have no flaw exactly if all of them are well formed. -/
theorem Tier.flaws_eq_nil_iff {kind : TierKind} {tiers : List Tier} :
    Tier.flaws kind tiers = [] ↔ ∀ t ∈ tiers, t.IsWellFormed := by
  have bounds : ∀ (t : Tier) (i : ℕ), t.boundFlaws i = [] ↔
      0 ≤ t.lower.value ∧ ∀ u ∈ t.upper, t.lower.value ≤ u.value := by
    intro t i
    rw [boundFlaws, List.append_eq_nil_iff, Flaw.ofNegative_eq_nil_iff, inversion_eq_nil_iff]
  unfold flaws
  rw [List.append_eq_nil_iff, flatMap_zipIdx_eq_nil_iff bounds,
    flatMap_zipIdx_eq_nil_iff fun (t : Tier) i => Flaw.ofNegative_eq_nil_iff]
  constructor
  · rintro ⟨hbounds, hrates⟩ t ht
    exact ⟨(hbounds t ht).1, hrates t ht, (hbounds t ht).2⟩
  · intro h
    exact ⟨fun t ht => ⟨(h t ht).lower, (h t ht).upper⟩, fun t ht => (h t ht).rate⟩

/-- A threshold has no flaw exactly if it is well formed. -/
theorem Threshold.flaws_eq_nil_iff {t : Threshold} {index : ℕ} :
    t.flaws index = [] ↔ t.IsWellFormed := by
  unfold flaws
  rw [List.append_eq_nil_iff, Flaw.ofNegative_eq_nil_iff, Flaw.ofNegative_eq_nil_iff]
  exact ⟨fun ⟨hl, ha⟩ => ⟨hl, ha⟩, fun h => ⟨h.lower, h.amount⟩⟩

/-- A rule is sound exactly if its terms are well formed. -/
theorem Rule.isSound_iff {r : Rule} : r.isSound = true ↔ r.terms.IsWellFormed := by
  unfold isSound
  rw [List.isEmpty_iff]
  cases r.terms with
  | base | flatRate | guarantee => exact Flaw.ofNegative_eq_nil_iff
  | unitTiers | grossTiers => exact Tier.flaws_eq_nil_iff
  | volumeBonus s thresholds =>
    exact flatMap_zipIdx_eq_nil_iff (fun _ _ => Threshold.flaws_eq_nil_iff) thresholds
  | grossShare | addOn =>
    simp only [Terms.flaws, Terms.IsWellFormed, List.append_eq_nil_iff, Flaw.ofNegative_eq_nil_iff]

/-! ## Plans -/

/-- No flaw is found exactly where every rule is sound. -/
theorem firstFlaw?_eq_none_iff {i : ℕ} {rules : List Rule} :
    firstFlaw? i rules = none ↔ ∀ r ∈ rules, r.isSound = true := by
  refine ⟨isSound_of_firstFlaw?_eq_none, fun h => ?_⟩
  induction rules generalizing i with
  | nil => rfl
  | cons r rest ih =>
    obtain ⟨hr, hrest⟩ := List.forall_mem_cons.1 h
    rw [firstFlaw?, List.isEmpty_iff.1 hr]
    exact ih hrest

/-- The rules of a plan are well formed. -/
theorem Plan.isWellFormed (p : Plan) : ∀ r ∈ p.rules, r.terms.IsWellFormed :=
  fun r hr => Rule.isSound_iff.1 (p.sound r hr)

/-- The positions of rules are as many as the rules. -/
theorem length_positionsOf (q : Rule → Bool) (rules : List Rule) :
    (positionsOf q rules).length = rules.countP q := by
  have hcount : rules.zipIdx.countP (q ∘ Prod.fst) = rules.countP q := by
    rw [← List.countP_map, List.zipIdx_map_fst]
  rw [positionsOf, List.length_map, ← List.countP_eq_length_filter, ← hcount]
  rfl

/-- A plan holds the rules that it was made of. They are sound, and in strict mode there is one
salary or draw at most. -/
theorem Plan.ofRules_eq_ok_iff {strict : Bool} {rules : List Rule} {p : Plan} :
    Plan.ofRules strict rules = .ok p ↔
      p.rules = rules ∧ (strict = true → rules.countP Rule.isBase ≤ 1) := by
  have several : (strict && decide (1 < (positionsOf Rule.isBase rules).length)) = true ↔
      ¬(strict = true → rules.countP Rule.isBase ≤ 1) := by
    rw [length_positionsOf, Bool.and_eq_true, decide_eq_true_iff, Classical.not_imp, not_le]
  unfold ofRules
  split
  · next i flaw h =>
    refine ⟨nofun, fun ⟨hp, _⟩ => ?_⟩
    have hnone : firstFlaw? 0 rules = none := firstFlaw?_eq_none_iff.2 (hp ▸ p.sound)
    rw [hnone] at h
    cases h
  · next h =>
    simp only
    by_cases hs : strict = true → rules.countP Rule.isBase ≤ 1
    · rw [if_neg (mt several.1 (not_not.2 hs)), Except.ok.injEq]
      refine ⟨fun hp => hp ▸ ⟨rfl, hs⟩, fun ⟨hp, _⟩ => ?_⟩
      cases p
      cases hp
      rfl
    · rw [if_pos (several.2 hs)]
      exact ⟨nofun, fun ⟨_, hp⟩ => absurd hp hs⟩

end DealerPay
