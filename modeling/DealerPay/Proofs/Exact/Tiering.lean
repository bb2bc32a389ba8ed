import DealerPay.Proofs.Exact.Envelope

/-!
# Tiers over the rationals

Meeting the tiers of a rule takes comparisons only, except that slices are cut by subtraction.

* `sortByBound_eq`: sorting compares values, so it is the stable sort by values.
* `Tier.reached?_eq` and `Threshold.reached_eq`: the tier and the thresholds that units reach are
  those of the rational semantics.
* `Tier.slices_exact`: so are the slices of ordinary units, because each subtraction is exact. The
  invariant of the walk is that what is accounted for stays among numbers that are apart by what can
  be written (`Spaced`), as the numbers on the grid of the units are.
* `Exact.mem_slices`: a slice belongs to a tier of the rule and takes some of the units, never more
  than there are; `Exact.onGrid_of_mem_slices` is its grid.
-/

namespace DealerPay

/-! ## Order by a bound -/

section Sorting

variable {α : Type} (bound : α → Decimal)

/-- Inserting an item compares values. -/
theorem insertByBound_eq (x : α) (xs : List α) :
    insertByBound bound x xs =
      xs.orderedInsert (fun a b => (bound a).value ≤ (bound b).value) x := by
  induction xs with
  | nil => rfl
  | cons y rest ih =>
    rw [insertByBound, List.orderedInsert_cons, ih]
    simp only [Decimal.le_iff]

/-- Sorting is the stable sort by values. -/
theorem sortByBound_eq (xs : List α) : sortByBound bound xs = Exact.sortedBy bound xs := by
  unfold Exact.sortedBy
  induction xs with
  | nil => rfl
  | cons x rest ih => rw [sortByBound, ih, insertByBound_eq, List.insertionSort_cons]

end Sorting

/-- Sorting keeps the items. -/
theorem Exact.mem_sortedBy {α : Type} {bound : α → Decimal} {xs : List α} {x : α} :
    x ∈ Exact.sortedBy bound xs ↔ x ∈ xs := List.mem_insertionSort _

/-- Sorting keeps the number of items. -/
theorem Exact.length_sortedBy {α : Type} (bound : α → Decimal) (xs : List α) :
    (Exact.sortedBy bound xs).length = xs.length := List.length_insertionSort _ _

/-- Sorting puts items in the order of their bounds. -/
theorem Exact.pairwise_sortedBy {α : Type} (bound : α → Decimal) (xs : List α) :
    (Exact.sortedBy bound xs).Pairwise fun x y => (bound x).value ≤ (bound y).value := by
  have : Std.Total fun x y => (bound x).value ≤ (bound y).value := ⟨fun x y => le_total _ _⟩
  have : IsTrans α fun x y => (bound x).value ≤ (bound y).value := ⟨fun x y z => le_trans⟩
  exact List.pairwise_insertionSort _ xs

/-! ## What units reach -/

/-- The tier that units reach is the one that their value reaches. -/
theorem Tier.reached?_eq (units : Decimal) (tiers : List Tier) :
    Tier.reached? units tiers = Exact.reached? units.value tiers := by
  unfold Tier.reached? Tier.sorted Exact.reached? Exact.reached
  simp only [sortByBound_eq, Decimal.le_iff]

/-- The thresholds that units reach are those that their value reaches. -/
theorem Threshold.reached_eq (units : Decimal) (thresholds : List Threshold) :
    Threshold.reached units thresholds =
      Exact.reached Threshold.lower units.value thresholds := by
  unfold Threshold.reached Threshold.sorted Exact.reached
  simp only [sortByBound_eq, Decimal.le_iff]

namespace Exact

variable {u a : ℚ} {tiers : List Tier} {t : Tier}

/-- What is reached is among what there is. -/
theorem mem_of_mem_reached {α : Type} {bound : α → Decimal} {xs : List α} {x : α}
    (h : x ∈ reached bound u xs) : x ∈ xs := mem_sortedBy.1 (List.mem_of_mem_filter h)

/-- No more is reached than there is. -/
theorem length_reached_le {α : Type} (bound : α → Decimal) (xs : List α) :
    (reached bound u xs).length ≤ xs.length :=
  (List.length_filter_le _ _).trans (length_sortedBy bound xs).le

/-- The tier that is reached is one of the tiers. -/
theorem mem_of_reached? (h : reached? u tiers = some t) : t ∈ tiers :=
  mem_of_mem_reached (List.mem_of_getLast? h)

/-! ## Slices -/

/-- A ceiling is not above the units. -/
theorem ceiling_le (t : Tier) (u : ℚ) : ceiling t u ≤ u := by
  unfold ceiling
  split
  · exact min_le_left _ _
  · exact le_rfl

/-- A slice belongs to one of the tiers and takes some of the units beyond those accounted for. -/
theorem mem_slicesFrom {taken : Tier × ℚ} (h : taken ∈ slicesFrom u a tiers) :
    taken.1 ∈ tiers ∧ 0 < taken.2 ∧ taken.2 ≤ u - a := by
  induction tiers generalizing a with
  | nil => simp [slicesFrom] at h
  | cons t rest ih =>
    rw [slicesFrom] at h
    split at h
    · next hlt =>
      rcases List.mem_cons.1 h with rfl | h
      · have := ceiling_le t u
        refine ⟨List.mem_cons_self, ?_, ?_⟩
        · show 0 < ceiling t u - a
          linarith [hlt.2]
        · show ceiling t u - a ≤ u - a
          linarith
      · obtain ⟨hmem, hpos, hle⟩ := ih h
        exact ⟨List.mem_cons_of_mem t hmem, hpos, by linarith [hlt.2]⟩
    · obtain ⟨hmem, hpos, hle⟩ := ih h
      exact ⟨List.mem_cons_of_mem t hmem, hpos, hle⟩

/-- A slice belongs to one of the tiers and takes some of the units. -/
theorem mem_slices {taken : Tier × ℚ} (h : taken ∈ slices u tiers) :
    taken.1 ∈ tiers ∧ 0 < taken.2 ∧ taken.2 ≤ u := by
  obtain ⟨hmem, hpos, hle⟩ := mem_slicesFrom h
  exact ⟨mem_sortedBy.1 hmem, hpos, by linarith⟩

/-- A slice is cut between what is accounted for and ceilings, so that it has what the differences
of such numbers have. -/
theorem of_mem_slicesFrom {P Q : ℚ → Prop} (hsub : ∀ {x y : ℚ}, P x → P y → Q (x - y)) (ha : P a)
    (ht : ∀ t ∈ tiers, P (ceiling t u)) {taken : Tier × ℚ} (h : taken ∈ slicesFrom u a tiers) :
    Q taken.2 := by
  induction tiers generalizing a with
  | nil => simp [slicesFrom] at h
  | cons t rest ih =>
    obtain ⟨hceil, hrest⟩ := List.forall_mem_cons.1 ht
    rw [slicesFrom] at h
    split at h
    · rcases List.mem_cons.1 h with rfl | h
      · exact hsub hceil ha
      · exact ih hceil hrest h
    · exact ih ha hrest h

/-- A slice of ordinary units takes an ordinary number of them. -/
theorem onGrid_of_mem_slices (hu : OnGrid 4 (10 ^ 16) u) (ht : ∀ t ∈ tiers, t.IsOrdinary)
    {taken : Tier × ℚ} (h : taken ∈ slices u tiers) : OnGrid 4 (10 ^ 16) taken.2 := by
  obtain ⟨-, hpos, hle⟩ := mem_slices h
  have hgrid : OnGrid 4 (10 ^ 16 + 10 ^ 16) taken.2 :=
    of_mem_slicesFrom (fun hx hy => hx.sub hy) .zero
      (fun t h => onGrid_ceiling (ht t (mem_sortedBy.1 h)).upper hu) h
  apply hgrid.of_abs_le
  calc |taken.2| = taken.2 := abs_of_pos hpos
    _ ≤ |u| := hle.trans (le_abs_self u)
    _ ≤ _ := hu.abs_le

/-- There are no more slices than tiers. -/
theorem length_slicesFrom_le (u a : ℚ) (tiers : List Tier) :
    (slicesFrom u a tiers).length ≤ tiers.length := by
  induction tiers generalizing a with
  | nil => exact le_rfl
  | cons t rest ih =>
    rw [slicesFrom]
    split
    · exact Nat.succ_le_succ (ih _)
    · exact (ih a).trans (Nat.le_succ _)

end Exact

/-- Whether numbers of a sort are apart by what can be written, nothing being one of them. -/
structure Spaced (P : ℚ → Prop) : Prop where
  /-- Nothing is one of them. -/
  zero : P 0
  /-- What lies between two of them can be written. -/
  sub : ∀ {x y : ℚ}, P x → P y → Decimal.working.Represents (x - y)

/-- Numbers of a spaced sort can be written. -/
theorem Spaced.represents {P : ℚ → Prop} (hP : Spaced P) {x : ℚ} (hx : P x) :
    Decimal.working.Represents x := by
  simpa using hP.sub hx hP.zero

/-- The numbers on a grid are a spaced sort. -/
theorem spaced_onGrid {k m : ℕ} (hm : m + m < 10 ^ 28) (hk : k ≤ 28) : Spaced (OnGrid k m) where
  zero := .zero
  sub hx hy := (hx.sub hy).represents hm hk

namespace Tier

/-- A slice by its tier and the value of its units. -/
def Slice.exact (s : Slice) : Tier × ℚ := (s.tier, s.units.value)

/-- The ceiling of a tier is worth the ceiling of the rational semantics. -/
theorem value_ceiling (t : Tier) (units : Decimal) :
    (t.ceiling units).value = Exact.ceiling t units.value := by
  unfold ceiling Exact.ceiling
  cases t.upper with
  | none => rfl
  | some upper => exact Decimal.value_least units upper

/-- The slices beyond what is accounted for are exact: the walk compares values, and what it takes
is the exact difference as long as both ends are numbers of one spaced sort. -/
theorem slicesFrom_exact {P : ℚ → Prop} (hP : Spaced P) {units : Decimal} {tiers : List Tier}
    (ht : ∀ t ∈ tiers, P (Exact.ceiling t units.value)) {accounted : Decimal}
    (ha : P accounted.value) :
    Yields (slicesFrom units accounted tiers) fun ss =>
      ss.map Slice.exact = Exact.slicesFrom units.value accounted.value tiers := by
  induction tiers generalizing accounted with
  | nil => exact .ok rfl
  | cons t rest ih =>
    have hrest : ∀ t ∈ rest, P (Exact.ceiling t units.value) :=
      fun t' h' => ht t' (List.mem_cons_of_mem t h')
    have hceil := ht t List.mem_cons_self
    have hle := Exact.ceiling_le t units.value
    rw [slicesFrom, Exact.slicesFrom]
    by_cases hskip : units ≤ accounted ∨ units < t.lower
    · have hnone : ¬ (t.lower.value ≤ units.value ∧
          accounted.value < Exact.ceiling t units.value) := by
        rw [Decimal.le_iff, Decimal.lt_iff] at hskip
        rintro ⟨h1, h2⟩
        rcases hskip with h | h <;> linarith
      rw [if_pos hskip, if_neg hnone]
      exact ih hrest ha
    · rw [if_neg hskip]
      rw [Decimal.le_iff, Decimal.lt_iff, not_or, not_le, not_lt] at hskip
      refine (Decimal.sub_of_represents (by rw [value_ceiling]; exact hP.sub hceil ha)).bind ?_
      intro taken htaken
      rw [value_ceiling] at htaken
      by_cases hpos : taken.isPositive = true
      · rw [if_pos hpos]
        rw [Decimal.isPositive_iff] at hpos
        rw [if_pos ⟨hskip.2, by linarith⟩]
        have hnext : accounted.value + taken.value = Exact.ceiling t units.value := by linarith
        refine (Decimal.add_of_represents (by rw [hnext]; exact hP.represents hceil)).bind ?_
        intro next hn
        rw [hnext] at hn
        refine (ih hrest (by rwa [hn])).bind ?_
        intro ss hss
        apply Yields.pure
        rw [List.map_cons, hss, hn, Slice.exact, htaken]
      · rw [if_neg hpos]
        rw [Decimal.isPositive_iff, htaken] at hpos
        rw [if_neg fun h => hpos (by linarith [h.2])]
        exact ih hrest ha

/-- The slices of units are exact if all ceilings are numbers of one spaced sort. -/
theorem slices_exact_of_spaced {P : ℚ → Prop} (hP : Spaced P) {units : Decimal}
    {tiers : List Tier} (ht : ∀ t ∈ tiers, P (Exact.ceiling t units.value)) :
    Yields (slices units tiers) fun ss =>
      ss.map Slice.exact = Exact.slices units.value tiers := by
  have hsorted : ∀ t ∈ Exact.sortedBy Tier.lower tiers, P (Exact.ceiling t units.value) :=
    fun t h => ht t (Exact.mem_sortedBy.1 h)
  have hzero : P Decimal.zero.value := by
    rw [Decimal.value_zero]
    exact hP.zero
  have h := slicesFrom_exact hP hsorted hzero
  unfold slices sorted Exact.slices
  rwa [sortByBound_eq, ← Decimal.value_zero]

/-- The slices of ordinary units are exact. -/
theorem slices_exact {units : Decimal} (hu : OnGrid 4 (10 ^ 16) units.value) {tiers : List Tier}
    (ht : ∀ t ∈ tiers, ∀ x ∈ t.upper, x.IsOrdinary) :
    Yields (slices units tiers) fun ss =>
      ss.map Slice.exact = Exact.slices units.value tiers :=
  slices_exact_of_spaced (spaced_onGrid (by norm_num) (by norm_num))
    fun t h => Exact.onGrid_ceiling (ht t h) hu

end Tier

end DealerPay
