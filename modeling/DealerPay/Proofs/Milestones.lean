import DealerPay.Pay.Milestone
import DealerPay.Proofs.Decimal.Dollars
import DealerPay.Proofs.Exact.Ordering
import DealerPay.Proofs.Slicing

/-!
# Milestones

Which bonuses an evaluation announces, and in which words.

* `Threshold.AreDue` are the thresholds that pay a bonus for units, told from the thresholds as they
  are listed; `Threshold.areDue_filter_reached` is the agreement with the walk through the sorted
  thresholds.
* `Threshold.Announces` is the text for one of them. A line that books a bonus is announced exactly
  if the bonus is a cent at least (`Threshold.IsBookedAs.isEarnedBonus_iff`), and in this text
  (`Threshold.IsBookedAs.exists_milestone`).
* `Terms.Unlocks` are the texts of one rule: those of its bonuses, and none for any other rule.
* `Plan.milestones_of_evaluate`: the texts of an evaluation are those of its rules, in the order of
  the plan. Salaries, draws, guarantees and what is set against a draw have none.
-/

namespace DealerPay

variable {p : Plan} {deals : List Deal} {b : Breakdown} {period : Period} {s : Scope}

/-! ## The bonuses that are due -/

namespace Threshold

/-- Whether units are paid the bonus of a threshold: they reach it, and the bonus is a cent at
least. -/
def IsDue (u : ℚ) (t : Threshold) : Prop :=
  t.lower.value ≤ u ∧ 1 / 100 ≤ nearestCent t.amount.value

instance (u : ℚ) (t : Threshold) : Decidable (t.IsDue u) :=
  inferInstanceAs (Decidable (_ ∧ _))

/-- Whether a list holds the thresholds whose bonus units are paid, from the lowest to the highest
one; those that are reached at the same units stand as they are listed. -/
structure AreDue (u : ℚ) (thresholds due : List Threshold) : Prop where
  /-- They are those of the thresholds, with ties in the same order. -/
  keepsTies : KeepsTies lower (thresholds.filter fun t => t.IsDue u) due
  /-- They ascend. -/
  ascending : due.Pairwise fun t t' => t.lower.value ≤ t'.lower.value

/-- The thresholds whose bonus units are paid are found by a walk through the sorted ones. -/
theorem areDue_filter_reached (u : ℚ) (thresholds : List Threshold) :
    AreDue u thresholds ((Exact.reached lower u thresholds).filter
      fun t => 1 / 100 ≤ nearestCent t.amount.value) := by
  have hdue : (Exact.reached lower u thresholds).filter
      (fun t => 1 / 100 ≤ nearestCent t.amount.value) =
        (Exact.sortedBy lower thresholds).filter fun t => t.IsDue u := by
    rw [Exact.reached, List.filter_filter]
    refine List.filter_congr fun t _ => ?_
    rw [← Bool.decide_and]
    exact decide_eq_decide.2 and_comm
  rw [hdue]
  exact ⟨(Exact.keepsTies_sortedBy lower thresholds).filter _,
    (Exact.pairwise_sortedBy lower thresholds).filter _⟩

/-! ## One bonus -/

/-- Whether a text announces the bonus of a threshold within a scope: it names the scope, the units
to reach, and the nearest whole dollars of the bonus in cents, in groups of three digits. -/
def Announces (s : Scope) (t : Threshold) (text : String) : Prop :=
  ∃ shown n digits, Amount.plainText t.lower = .ok shown ∧
    IsNearestEven (nearestCent t.amount.value) n ∧ Decimal.IsThousands n digits ∧
    text = s.lead ++ "Unit Bonus (>=" ++ shown ++ " units) unlocked: $" ++ String.ofList digits

/-- Whether a line books the bonus of a threshold within a scope. -/
structure IsBookedAs (s : Scope) (t : Threshold) (i : LineItem) : Prop where
  /-- It is a bonus. -/
  category : i.category = .bonus
  /-- It pays the bonus in cents. -/
  amount : i.amount.value = nearestCent t.amount.value
  /-- It names the scope and the units to reach. -/
  description : ∃ shown, Amount.plainText t.lower = .ok shown ∧
    i.description = s.lead ++ "Unit Bonus (>=" ++ shown ++ " units)"

/-- An earning by a threshold is booked as its bonus. -/
theorem isBookedAs_of_book {t : Threshold} {e : Earning} {i : LineItem}
    (he : Terms.thresholdEarning s t = .ok e) (hi : e.book = .ok i) : t.IsBookedAs s i := by
  obtain ⟨shown, hshown, rfl⟩ := Terms.thresholdEarning_eq_ok.1 he
  obtain ⟨cents, hcents, rfl⟩ := Earning.book_iff.1 hi
  exact ⟨rfl, Decimal.value_of_toCents hcents, shown, hshown, rfl⟩

namespace IsBookedAs

variable {t : Threshold} {i : LineItem} (h : t.IsBookedAs s i)
include h

/-- The line is announced exactly if the bonus is a cent at least. -/
theorem isEarnedBonus_iff : i.isEarnedBonus = true ↔ 1 / 100 ≤ nearestCent t.amount.value := by
  unfold LineItem.isEarnedBonus
  rw [h.category, Bool.and_eq_true, Decimal.isPositive_iff, h.amount, nearestCent_pos_iff]
  exact and_iff_right rfl

/-- A line that pays something is announced in the words of its threshold. -/
theorem exists_milestone (hpos : 1 / 100 ≤ nearestCent t.amount.value)
    (hmost : |t.amount.value| ≤ 10 ^ 14) :
    ∃ text, i.milestone = .ok text ∧ t.Announces s text := by
  obtain ⟨shown, hshown, hdescription⟩ := h.description
  have hvalue : 0 < i.amount.value := by
    rw [h.amount]
    exact nearestCent_pos_iff.2 hpos
  have hsmall : |i.amount.value| ≤ 10 ^ 14 := by
    rw [h.amount]
    exact_mod_cast abs_nearestCent_le (n := 10 ^ 14) (by exact_mod_cast hmost)
  obtain ⟨n, digits, hn, hdigits, hdollars⟩ :=
    Amount.dollars_of_isAmount (Decimal.isAmount_of_abs_le hsmall)
  rw [abs_of_pos hvalue, h.amount] at hn
  refine ⟨_, bind_eq_ok.2 ⟨_, hdollars, rfl⟩, shown, n, digits, hshown, hn, hdigits, ?_⟩
  have hwords : " units) unlocked: $" = " units)" ++ (" unlocked: " ++ "$") := rfl
  rw [hdescription, Decimal.negative_of_pos hvalue, hwords]
  simp only [String.append_assoc, Decimal.signChars, Bool.false_eq_true, if_false, List.nil_append]

end IsBookedAs

end Threshold

/-! ## The texts of a rule -/

/-- A line that is announced is shown. -/
theorem LineItem.isShown_of_isEarnedBonus {i : LineItem} (h : i.isEarnedBonus = true) :
    i.isShown = true := by
  unfold isEarnedBonus at h
  rw [Bool.and_eq_true, Decimal.isPositive_iff] at h
  have hzero : i.amount.isZero = false := by
    rw [← Bool.not_eq_true, Decimal.isZero_iff]
    exact h.2.ne'
  rw [isShown, hzero, Bool.not_false, Bool.or_true]

/-- A line that is no bonus is not announced. -/
theorem LineItem.isEarnedBonus_of_ne {i : LineItem} (h : i.category ≠ .bonus) :
    i.isEarnedBonus = false := by
  rw [isEarnedBonus, beq_eq_false_iff_ne.2 h, Bool.false_and]

namespace Terms

variable {t : Terms} {thresholds : List Threshold} {items : List LineItem}

/-- Whether texts are those that a rule with these terms is announced by in a period: one for each
bonus that is due by its thresholds, and none for terms of another kind. -/
def Unlocks (period : Period) : Terms → List String → Prop
  | volumeBonus s thresholds, texts =>
    ∃ due, Threshold.AreDue (period.unitsOf s).value thresholds due ∧
      List.Forall₂ (Threshold.Announces s) due texts
  | _, texts => texts = []

/-- Thresholds that are reached book one line each. -/
theorem forall₂_isBookedAs (h : (volumeBonus s thresholds).book period = .ok items) :
    List.Forall₂ (Threshold.IsBookedAs s)
      (Exact.reached Threshold.lower (period.unitsOf s).value thresholds) items := by
  obtain ⟨es, hes, hitems⟩ := bind_eq_ok.1 h
  rw [earnings, Threshold.reached_eq, mapM_eq_ok] at hes
  have hbooked := forall₂_comp_iff.2 ⟨es, hes, mapM_eq_ok.1 hitems⟩
  refine hbooked.imp fun t i ht => ?_
  obtain ⟨e, he, hi⟩ := ht
  exact Threshold.isBookedAs_of_book he (liftM_eq_ok.1 hi)

/-- The bonuses that are due are announced. -/
theorem exists_announces (h : (volumeBonus s thresholds).book period = .ok items)
    (hwell : ∀ t ∈ thresholds, t.IsWellFormed)
    (hmost : ∀ t ∈ thresholds, t.amount.value < 10 ^ 14) :
    ∃ due texts, Threshold.AreDue (period.unitsOf s).value thresholds due ∧
      List.Forall₂ (Threshold.Announces s) due texts ∧
      List.Forall₂ (fun i text => i.milestone = .ok text)
        (items.filter LineItem.isEarnedBonus) texts := by
  have hdue := Threshold.areDue_filter_reached (period.unitsOf s).value thresholds
  have hbooked := List.rel_filter (p := fun t : Threshold => 1 / 100 ≤ nearestCent t.amount.value)
    (q := LineItem.isEarnedBonus)
    (fun t i ht => decide_eq_true_iff.trans ht.isEarnedBonus_iff.symm) (forall₂_isBookedAs h)
  generalize (Exact.reached Threshold.lower (period.unitsOf s).value thresholds).filter
    (fun t => 1 / 100 ≤ nearestCent t.amount.value) = due at hdue hbooked
  have hamount : ∀ t ∈ due, 1 / 100 ≤ nearestCent t.amount.value ∧ |t.amount.value| ≤ 10 ^ 14 := by
    intro t ht
    obtain ⟨hmem, hisDue⟩ := List.mem_filter.1 (hdue.keepsTies.perm.mem_iff.2 ht)
    rw [abs_of_nonneg (hwell t hmem).amount]
    exact ⟨(of_decide_eq_true hisDue).2, (hmost t hmem).le⟩
  have hannounced : List.Forall₂ (Relation.Comp (Threshold.Announces s)
      fun text i => i.milestone = .ok text) due (items.filter LineItem.isEarnedBonus) := by
    refine ((List.forall₂_and_left _ _).2 ⟨hamount, hbooked⟩).imp fun t i ht => ?_
    obtain ⟨⟨hpos, hsmall⟩, hline⟩ := ht
    obtain ⟨text, hwritten, htext⟩ := hline.exists_milestone hpos hsmall
    exact ⟨text, htext, hwritten⟩
  obtain ⟨texts, hannounces, hwritten⟩ := forall₂_comp_iff.1 hannounced
  exact ⟨due, texts, hdue, hannounces, hwritten.flip⟩

/-- What a rule books is announced by its texts. -/
theorem exists_unlocks (h : t.book period = .ok items) (hwell : t.IsWellFormed)
    (hmost : ∀ s thresholds, t = volumeBonus s thresholds →
      ∀ t ∈ thresholds, t.amount.value < 10 ^ 14) :
    ∃ texts, t.Unlocks period texts ∧ List.Forall₂ (fun i text => i.milestone = .ok text)
      (items.filter LineItem.isEarnedBonus) texts := by
  have hnone : t.category ≠ .bonus → items.filter LineItem.isEarnedBonus = [] := by
    intro hne
    refine filter_eq_nil_of_forall fun i hi => LineItem.isEarnedBonus_of_ne ?_
    rwa [category_of_mem_book h i hi]
  cases t with
  | volumeBonus s thresholds =>
    obtain ⟨due, texts, hdue, hannounces, hwritten⟩ :=
      exists_announces h hwell (hmost s thresholds rfl)
    exact ⟨texts, ⟨due, hdue, hannounces⟩, hwritten⟩
  | base amount isDraw =>
    refine ⟨[], rfl, ?_⟩
    rw [hnone (by cases isDraw <;> exact fun h => nomatch h)]
    exact .nil
  | _ =>
    refine ⟨[], rfl, ?_⟩
    rw [hnone fun h => nomatch h]
    exact .nil

end Terms

/-! ## The texts of an evaluation -/

namespace Plan

/-- The bonuses that are announced are those that the rules book: they are all shown, and neither a
guarantee nor an offset is one. -/
theorem Steps.filter_isEarnedBonus (st : p.Steps deals b) :
    b.items.filter LineItem.isEarnedBonus = st.booked.filter LineItem.isEarnedBonus := by
  have hoffset : ∀ i : LineItem, i.category = .drawOffset → i.isEarnedBonus = false := by
    intro i hi
    exact LineItem.isEarnedBonus_of_ne (by rw [hi]; decide)
  have hadded : st.added.filter LineItem.isEarnedBonus = [] := by
    refine filter_eq_nil_of_forall fun i hi => LineItem.isEarnedBonus_of_ne ?_
    rw [(st.line_of_mem_added i hi).1]
    decide
  have hshown : ∀ i ∈ st.booked ++ st.added,
      (i.isEarnedBonus && i.isShown) = i.isEarnedBonus := by
    intro i _
    cases hi : i.isEarnedBonus with
    | false => rfl
    | true => exact LineItem.isShown_of_isEarnedBonus hi
  rw [st.filter_items hoffset, Steps.shown, List.filter_filter, List.filter_congr hshown,
    List.filter_append, hadded, List.append_nil]

/-- The texts of an evaluation are those of its rules, in the order of the plan: one for each bonus
that is due, from the lowest threshold of a rule to the highest one. -/
theorem milestones_of_evaluate (hmost : ∀ r ∈ p.rules, ∀ s thresholds,
      r.terms = .volumeBonus s thresholds → ∀ t ∈ thresholds, t.amount.value < 10 ^ 14)
    (h : p.evaluate deals = .ok b) :
    ∃ period groups, Period.ofDeals deals = .ok period ∧ b.milestones = .ok groups.flatten ∧
      List.Forall₂ (fun r texts => r.terms.Unlocks period texts) p.rules groups := by
  obtain ⟨st⟩ := exists_steps h
  obtain ⟨books, hbooks, hbooked⟩ := st.exists_books
  have hrules : ∀ r ∈ p.rules, r.terms.IsWellFormed ∧ ∀ s thresholds,
      r.terms = .volumeBonus s thresholds → ∀ t ∈ thresholds, t.amount.value < 10 ^ 14 :=
    fun r hr => ⟨p.isWellFormed r hr, hmost r hr⟩
  have hunlocked : List.Forall₂ (Relation.Comp (fun r texts => r.terms.Unlocks st.period texts)
      fun texts items => List.Forall₂ (fun i text => i.milestone = .ok text)
        (items.filter LineItem.isEarnedBonus) texts) p.rules books := by
    refine ((List.forall₂_and_left _ _).2 ⟨hrules, hbooks⟩).imp fun r items hr => ?_
    obtain ⟨⟨hwell, hmost⟩, hbook⟩ := hr
    exact Terms.exists_unlocks hbook hwell hmost
  obtain ⟨groups, hgroups, hwritten⟩ := forall₂_comp_iff.1 hunlocked
  refine ⟨st.period, groups, st.ofDeals, ?_, hgroups⟩
  unfold Breakdown.milestones
  rw [st.filter_isEarnedBonus, hbooked, List.filter_flatten, mapM_eq_ok]
  exact List.rel_flatten (List.forall₂_map_left_iff.2 hwritten.flip)

/-- A draw, a guarantee, and bonuses for new vehicles and for all of them: with a tie, out of order,
one of less than a cent and one that is not reached. -/
def rewarded : Plan where
  rules :=
    [⟨"", .base (.ofNat 90) true⟩,
      ⟨"", .volumeBonus (.only .new)
        [⟨.ofNat 4, ⟨false, 123456750, -2⟩⟩, ⟨⟨false, 20, -1⟩, .ofNat 50⟩,
          ⟨.ofNat 3, ⟨false, 4, -3⟩⟩, ⟨.ofNat 2, .ofNat 75⟩, ⟨.ofNat 5, .ofNat 700⟩]⟩,
      ⟨"", .guarantee (.ofNat 10)⟩,
      ⟨"", .volumeBonus .all [⟨⟨false, 450, -2⟩, ⟨false, 5, -1⟩⟩]⟩]
  sound := by decide +kernel

/-- What four and a half units unlock. -/
theorem milestones_of_rewarded :
    (∀ r ∈ rewarded.rules, ∀ s thresholds, r.terms = .volumeBonus s thresholds →
      ∀ t ∈ thresholds, t.amount.value < 10 ^ 14) ∧
      ∃ b period groups, rewarded.evaluate (Deal.wholesAndSplit 4) = .ok b ∧
        Period.ofDeals (Deal.wholesAndSplit 4) = .ok period ∧
        b.milestones = .ok groups.flatten ∧
        List.Forall₂ (fun r texts => r.terms.Unlocks period texts) rewarded.rules groups ∧
        groups.flatten = ["New - Unit Bonus (>=2 units) unlocked: $50",
          "New - Unit Bonus (>=2 units) unlocked: $75",
          "New - Unit Bonus (>=4 units) unlocked: $1,234,568",
          "Unit Bonus (>=4.5 units) unlocked: $0"] := by
  have hmost : ∀ r ∈ rewarded.rules, ∀ s thresholds, r.terms = .volumeBonus s thresholds →
      ∀ t ∈ thresholds, t.amount.value < 10 ^ 14 := by
    have hbound : Decimal.value ⟨false, 1, 14⟩ = 10 ^ 14 := by
      norm_num [Decimal.value, Decimal.digits]
    intro r hr s thresholds hterms t ht
    rw [← hbound, ← Decimal.lt_iff]
    simp only [rewarded, List.mem_cons, List.not_mem_nil, or_false] at hr
    rcases hr with rfl | rfl | rfl | rfl
    · cases hterms
    · cases hterms
      revert t
      decide +kernel
    · cases hterms
    · cases hterms
      revert t
      decide +kernel
  have htexts : (rewarded.evaluate (Deal.wholesAndSplit 4) >>= fun b => liftM b.milestones) =
      .ok ["New - Unit Bonus (>=2 units) unlocked: $50",
        "New - Unit Bonus (>=2 units) unlocked: $75",
        "New - Unit Bonus (>=4 units) unlocked: $1,234,568",
        "Unit Bonus (>=4.5 units) unlocked: $0"] :=
    eq_ok_of_toOption (by decide +kernel)
  obtain ⟨b, hb, hmilestones⟩ := bind_eq_ok.1 htexts
  obtain ⟨period, groups, hperiod, hgroups, hunlocks⟩ := milestones_of_evaluate hmost hb
  refine ⟨hmost, b, period, groups, hb, hperiod, hgroups, hunlocks, ?_⟩
  exact Except.ok.inj (hgroups.symm.trans (liftM_eq_ok.1 hmilestones))

end Plan

end DealerPay
