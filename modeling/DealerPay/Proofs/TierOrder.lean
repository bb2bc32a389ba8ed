import DealerPay.Proofs.Completion.Evaluation
import DealerPay.Proofs.Exact.Ordering
import DealerPay.Proofs.Slicing

/-!
# Tiers in any order

The order in which a rule lists its tiers or thresholds is for presentation, as long as those that
start at the same number of units stay in order among themselves.

* `Terms.Relists`: terms that differ in the order of tiers or thresholds alone.
  `Terms.Relists.earnings_eq`: they earn the same in every period, down to the texts and to the
  reports of arithmetic that breaks off.
* `Plan.ofRules_of_relists` and `Plan.evaluate_eq_of_relists`: so a plan with such rules is accepted
  in the same modes, and its outcome is the same for all deals.
* `Terms.earnings_of_isChoice`: units paid retroactively and gross are paid by the tier that the
  units choose, whatever the ends of the tiers.
* `Plan.evaluate_of_relists` puts these together.
-/

namespace DealerPay

/-- Whether a tier starts and pays as another one, wherever the two end. -/
structure Tier.PaysAs (t t' : Tier) : Prop where
  /-- Both start at the same number of units. -/
  lower : t.lower = t'.lower
  /-- Both pay the same. -/
  rate : t.rate = t'.rate

namespace Terms

/-! ## Terms that list the same in another order -/

/-- Whether terms list the same tiers or thresholds as others, those that start at the same number
of units in the same order, and agree with them in all else. -/
inductive Relists : Terms → Terms → Prop
  /-- Nothing is moved. -/
  | same (t : Terms) : Relists t t
  /-- Tiers of units are moved. -/
  | unitTiers {tiers tiers' : List Tier} (s : Scope) (retroactive : Bool)
    (h : KeepsTies Tier.lower tiers tiers') :
    Relists (unitTiers s tiers retroactive) (unitTiers s tiers' retroactive)
  /-- Tiers of gross are moved. -/
  | grossTiers {tiers tiers' : List Tier} (s : Scope) (retroactive : Bool) (basis : GrossBasis)
    (h : KeepsTies Tier.lower tiers tiers') :
    Relists (grossTiers s tiers retroactive basis) (grossTiers s tiers' retroactive basis)
  /-- Thresholds are moved. -/
  | volumeBonus {thresholds thresholds' : List Threshold} (s : Scope)
    (h : KeepsTies Threshold.lower thresholds thresholds') :
    Relists (volumeBonus s thresholds) (volumeBonus s thresholds')

namespace Relists

variable {t t' : Terms}

/-- The kind is the same. -/
theorem kind_eq (h : t.Relists t') : t.kind = t'.kind := by cases h <;> rfl

/-- What is guaranteed is the same. -/
theorem floor?_eq (h : t.Relists t') : t.floor? = t'.floor? := by cases h <;> rfl

/-- Both are well formed if one is. -/
theorem isWellFormed (h : t.Relists t') (ht : t.IsWellFormed) : t'.IsWellFormed := by
  cases h with
  | same => exact ht
  | unitTiers _ _ h | grossTiers _ _ _ h => exact fun x hx => ht x (h.perm.mem_iff.2 hx)
  | volumeBonus _ h => exact fun x hx => ht x (h.perm.mem_iff.2 hx)

/-- Both earn the same, since tiers and thresholds are sorted before they meet the units. -/
theorem earnings_eq (h : t.Relists t') (period : Period) :
    t.earnings period = t'.earnings period := by
  cases h with
  | same => rfl
  | unitTiers _ _ h =>
    have hsorted : Tier.sorted _ = Tier.sorted _ := sortByBound_eq_of_keepsTies h
    simp only [earnings, unitTierEarnings, Tier.reached?, Tier.slices, hsorted]
  | grossTiers _ _ _ h =>
    have hsorted : Tier.sorted _ = Tier.sorted _ := sortByBound_eq_of_keepsTies h
    simp only [earnings, grossTierEarnings, Tier.reached?, hsorted]
  | volumeBonus _ h =>
    have hsorted : Threshold.sorted _ = Threshold.sorted _ := sortByBound_eq_of_keepsTies h
    simp only [earnings, Threshold.reached, hsorted]

/-- Both book the same lines. -/
theorem book_eq (h : t.Relists t') (period : Period) : t.book period = t'.book period := by
  unfold book
  rw [h.earnings_eq]

end Relists

/-! ## The tier that pays -/

/-- What the gross of a scope earns at a tier. -/
def grossEarning (scope : Scope) (retroactive : Bool) (basis : GrossBasis) (gross : Decimal)
    (t : Tier) : Except Failure Earning := do
  let shown ← Amount.plainText t.rate
  return ⟨grossTierText scope basis retroactive shown, ← Decimal.percentOf t.rate gross,
    .commission⟩

/-- Whether one tier alone, if any, pays the units retroactively, and the gross in both modes. -/
structure IsPaidBy (period : Period) (s : Scope) (tiers : List Tier) (choice : Option Tier) :
    Prop where
  /-- All units are paid at its rate. -/
  units : (unitTiers s tiers true).earnings period =
    choice.toList.mapM fun t => sliceEarning (s.lead ++ "Retro Tier") ⟨t, period.unitsOf s⟩
  /-- All gross is paid at its percentage. -/
  gross : ∀ retroactive basis, (grossTiers s tiers retroactive basis).earnings period = do
    let gross ← (← GrossTotals.ofDeals (period.dealsOf s)).basis basis
    choice.toList.mapM (grossEarning s retroactive basis gross)

/-- The tier that the units reach pays. -/
theorem isPaidBy_reached? (period : Period) (s : Scope) (tiers : List Tier) :
    IsPaidBy period s tiers (Exact.reached? (period.unitsOf s).value tiers) := by
  rw [← Tier.reached?_eq]
  constructor
  · rw [earnings, unitTierEarnings]
    cases Tier.reached? (period.unitsOf s) tiers <;> simp
  · intro retroactive basis
    rw [earnings, grossTierEarnings]
    cases Tier.reached? (period.unitsOf s) tiers <;> simp [grossEarning]

/-- A tier that starts and pays as the one that is paid by pays the same, wherever it ends. -/
theorem IsPaidBy.of_paysAs {period : Period} {s : Scope} {tiers : List Tier}
    {choice choice' : Option Tier} (h : IsPaidBy period s tiers choice)
    (hrel : Option.Rel Tier.PaysAs choice choice') : IsPaidBy period s tiers choice' := by
  cases hrel with
  | none => exact h
  | @some t t' ht =>
    have hunits : ∀ name units, sliceEarning name ⟨t', units⟩ = sliceEarning name ⟨t, units⟩ :=
      fun name units => by simp only [sliceEarning, ht.rate]
    have hgross : ∀ retroactive basis gross,
        grossEarning s retroactive basis gross t' = grossEarning s retroactive basis gross t :=
      fun retroactive basis gross => by simp only [grossEarning, ht.rate]
    constructor
    · simpa only [Option.toList_some, List.mapM_cons, List.mapM_nil, hunits] using h.units
    · simpa only [Option.toList_some, List.mapM_cons, List.mapM_nil, hgross] using h.gross

end Terms

/-! ## Plans -/

namespace Plan

variable {p p' : Plan} {rules rules' : List Rule}

/-- Rules that list the same in another order are of the same kinds. -/
theorem map_kind_of_relists
    (h : List.Forall₂ (fun r r' : Rule => r.terms.Relists r'.terms) rules rules') :
    rules'.map Rule.kind = rules.map Rule.kind :=
  map_eq_map_of_forall₂ (h.imp fun _ _ hr => hr.kind_eq.symm)

/-- Rules of the same kinds are as many of each. -/
theorem countP_of_map_kind (h : rules'.map Rule.kind = rules.map Rule.kind) (q : RuleKind → Bool) :
    (rules'.countP fun r => q r.kind) = rules.countP fun r => q r.kind := by
  have hcount := congrArg (List.countP q) h
  rwa [List.countP_map, List.countP_map] at hcount

/-- A plan is accepted as well with its tiers and thresholds in another order. -/
theorem ofRules_of_relists {strict : Bool} (hp : ofRules strict rules = .ok p)
    (h : List.Forall₂ (fun r r' : Rule => r.terms.Relists r'.terms) rules rules') :
    ∃ p', ofRules strict rules' = .ok p' := by
  obtain ⟨hrules, hbases⟩ := ofRules_eq_ok_iff.1 hp
  have hwell : ∀ r ∈ rules, r.terms.IsWellFormed := hrules ▸ p.isWellFormed
  have hsound : ∀ r' ∈ rules', r'.isSound = true :=
    forall_mem_of_forall₂ ((List.forall₂_and_left _ _).2 ⟨hwell, h⟩)
      fun _ _ hr => Rule.isSound_iff.2 (hr.2.isWellFormed hr.1)
  refine ⟨⟨rules', hsound⟩, ofRules_eq_ok_iff.2 ⟨rfl, fun hs => ?_⟩⟩
  have hcount : rules'.countP Rule.isBase = rules.countP Rule.isBase :=
    countP_of_map_kind (map_kind_of_relists h) (· == .base)
  exact hcount ▸ hbases hs

/-- A plan has the same outcome for all deals with its tiers and thresholds in another order. -/
theorem evaluate_eq_of_relists
    (h : List.Forall₂ (fun r r' : Rule => r.terms.Relists r'.terms) p.rules p'.rules)
    (deals : List Deal) : p'.evaluate deals = p.evaluate deals := by
  have hbook : ∀ period, p'.book period = p.book period := by
    intro period
    have hbooks : p'.rules.map (fun r => r.terms.book period) =
        p.rules.map fun r => r.terms.book period :=
      map_eq_map_of_forall₂ (h.imp fun _ _ hr => (hr.book_eq period).symm)
    have hrun := congrArg (List.mapM id) hbooks
    rw [List.mapM_map, List.mapM_map] at hrun
    exact congrArg (List.flatten <$> ·) hrun
  have hfloors : p'.floors = p.floors := by
    have hfloor : p'.rules.map (fun r => r.terms.floor?) = p.rules.map fun r => r.terms.floor? :=
      map_eq_map_of_forall₂ (h.imp fun _ _ hr => hr.floor?_eq.symm)
    have hids := congrArg (List.filterMap id) hfloor
    rwa [List.filterMap_map, List.filterMap_map] at hids
  have hwarnings : p'.warnings = p.warnings := by
    have hcount := countP_of_map_kind (map_kind_of_relists h)
    have hbases : p'.rules.countP Rule.isBase = p.rules.countP Rule.isBase := hcount (· == .base)
    have hguarantees : p'.rules.countP Rule.isGuarantee = p.rules.countP Rule.isGuarantee :=
      hcount (· == .guarantee)
    unfold warnings ambiguities
    rw [hbases, hguarantees]
  unfold evaluate payFor
  simp only [hbook, hfloors, hwarnings]

/-- The order in which tiers and thresholds are listed is immaterial except among ties: a plan is
accepted as well with them in another order and has the same outcome for all deals, which is a
breakdown for all that was read. Units that are paid retroactively, and gross, are paid by the tier
listed last among those with the greatest lower bound that the units reach; if tiers end elsewhere,
they are paid the same. -/
theorem evaluate_of_relists {strict : Bool} (hp : ofRules strict rules = .ok p)
    (h : List.Forall₂ (fun r r' : Rule => r.terms.Relists r'.terms) rules rules') :
    (∃ p', ofRules strict rules' = .ok p' ∧ (∀ deals, p'.evaluate deals = p.evaluate deals) ∧
      ∀ deals, (∀ r ∈ rules, r.IsRead) → (rules.map fun r => 1 + r.terms.parts).sum < 10 ^ 9 →
        (∀ d ∈ deals, d.IsRead) → deals.length < 10 ^ 9 →
        ∃ b, p.evaluate deals = .ok b ∧ p'.evaluate deals = .ok b) ∧
    ∀ (period : Period) (s : Scope) (tiers : List Tier), ∃ choice,
      Tier.IsChoice (period.unitsOf s).value tiers choice ∧
      Terms.IsPaidBy period s tiers choice ∧
      ∀ tiers', List.Forall₂ Tier.PaysAs tiers tiers' → Terms.IsPaidBy period s tiers' choice := by
  have hrules := (ofRules_eq_ok_iff.1 hp).1
  obtain ⟨p', hp'⟩ := ofRules_of_relists hp h
  have hrules' := (ofRules_eq_ok_iff.1 hp').1
  have hsame : ∀ deals, p'.evaluate deals = p.evaluate deals :=
    evaluate_eq_of_relists (by rwa [hrules, hrules'])
  refine ⟨⟨p', hp', hsame, ?_⟩, ?_⟩
  · intro deals hread hparts hdeals hcount
    subst hrules
    obtain ⟨⟨b, -, hb, -⟩, -⟩ := returns_of_isRead hread hparts hdeals hcount
    exact ⟨b, hb, (hsame deals).trans hb⟩
  · intro period s tiers
    refine ⟨_, Tier.isChoice_reached? _ tiers, Terms.isPaidBy_reached? period s tiers, ?_⟩
    intro tiers' hends
    have hback : List.Forall₂ Tier.PaysAs tiers' tiers :=
      hends.flip.imp fun _ _ ht => ⟨ht.lower.symm, ht.rate.symm⟩
    exact (Terms.isPaidBy_reached? period s tiers').of_paysAs
      (Exact.reached?_rel (fun _ _ ht => congrArg Decimal.value ht.lower) hback _)

/-- Overlapping tiers and two bonuses, the higher one first. -/
def unsorted : Plan where
  rules :=
    [Rule.overlapping, ⟨"", .volumeBonus .all [⟨.ofNat 4, .ofNat 100⟩, ⟨.ofNat 2, .ofNat 50⟩]⟩]
  sound := by decide +kernel

/-- The tiers with the first one behind the next one, and the bonuses the other way round. -/
def resorted : List Rule :=
  [⟨"", .unitTiers .all
    [⟨.ofNat 1, some ⟨false, 25, -1⟩, .ofNat 10⟩, ⟨.ofNat 3, some (.ofNat 4), .ofNat 20⟩,
      ⟨.ofNat 1, some (.ofNat 2), .ofNat 15⟩, ⟨.ofNat 4, none, .ofNat 30⟩,
      ⟨.ofNat 4, some (.ofNat 9), .ofNat 40⟩] false⟩,
    ⟨"", .volumeBonus .all [⟨.ofNat 2, .ofNat 50⟩, ⟨.ofNat 4, .ofNat 100⟩]⟩]

/-- The rules of the plan were read. -/
theorem isRead_of_mem_unsorted : ∀ r ∈ unsorted.rules, r.IsRead := by
  intro r hr
  simp only [unsorted, List.mem_cons, List.not_mem_nil, or_false] at hr
  rcases hr with rfl | rfl
  · exact Rule.isRead_overlapping
  · exact ⟨.direct, .volumeBonus, [("thresholds", .list
        [.object [("from", .int 4), ("amount", .int 100)],
          .object [("from", .int 2), ("amount", .int 50)]])],
      Reading.result?_eq_some_iff.1 (by decide +kernel)⟩

/-- Four and a half units are paid the same by both. -/
theorem evaluate_resorted :
    ofRules true unsorted.rules = .ok unsorted ∧
      List.Forall₂ (fun r r' : Rule => r.terms.Relists r'.terms) unsorted.rules resorted ∧
      (∀ r ∈ unsorted.rules, r.IsRead) ∧ (∀ d ∈ Deal.wholesAndSplit 4, d.IsRead) ∧
      ∃ p' b, ofRules true resorted = .ok p' ∧
        unsorted.evaluate (Deal.wholesAndSplit 4) = .ok b ∧
        p'.evaluate (Deal.wholesAndSplit 4) = .ok b := by
  have hp : ofRules true unsorted.rules = .ok unsorted :=
    ofRules_eq_ok_iff.2 ⟨rfl, fun _ => by decide +kernel⟩
  have h : List.Forall₂ (fun r r' : Rule => r.terms.Relists r'.terms) unsorted.rules resorted :=
    .cons (.unitTiers _ _ (.swap (by norm_num) _)) <|
      .cons (.volumeBonus _ (.swap (by norm_num) _)) .nil
  have hdeals := Deal.isRead_of_mem_wholesAndSplit 4
  obtain ⟨⟨p', hp', -, hreturns⟩, -⟩ := evaluate_of_relists hp h
  obtain ⟨b, hb, hb'⟩ := hreturns _ isRead_of_mem_unsorted (by decide +kernel) hdeals (by decide)
  exact ⟨hp, h, isRead_of_mem_unsorted, hdeals, p', b, hp', hb, hb'⟩

end Plan

end DealerPay
