import DealerPay.Proofs.Exact.Tiering
import Mathlib.Algebra.Order.Group.MinMax
import Mathlib.Order.WithBot

/-!
# Slices in closed form

The walk through the tiers carries along what it has accounted for. Whatever the tiers are, in
whatever order and however they overlap, that is the smaller one of the units and the largest upper
bound so far, so that each slice can be told without the walk.

* `Exact.height` is the largest upper bound of some tiers, `Exact.covered` are the units that they
  cover, and `Exact.tranche` is what the tier at an index adds to those before it.
* `Exact.slicesFrom_covered_cons` is one step of the walk: it starts at what the tiers before it
  cover, takes what the next tier adds, and is then at what that tier covers with them. By
  `Exact.slicesFrom_covered` the whole walk takes what each tier adds.
* `Exact.slices_eq`: the slices of units are what the tiers they reach add, one after the other.
  `Exact.sum_slices`: together they are what these tiers cover.
-/

namespace DealerPay

/-- The number of units at which a tier ends, if it ends. -/
def Tier.top (t : Tier) : WithTop ℚ :=
  match t.upper with
  | some upper => upper.value
  | none => ⊤

namespace Exact

/-- The number of units at which the last of some tiers ends, and zero without tiers. -/
def height (tiers : List Tier) : WithTop ℚ := (tiers.map Tier.top).foldl max 0

/-- The units that some tiers cover: all of them up to where the last tier ends. -/
def covered (u : ℚ) (tiers : List Tier) : ℚ := min u ((height tiers).untopD u)

/-- The units that the tier at an index covers and none before it does. -/
def tranche (u : ℚ) (tiers : List Tier) (i : ℕ) : ℚ :=
  covered u (tiers.take (i + 1)) - covered u (tiers.take i)

/-- The units that each tier covers and none before it does. -/
def tranches (u : ℚ) (tiers : List Tier) : List (Tier × ℚ) :=
  tiers.zipIdx.map fun x => (x.1, tranche u tiers x.2)

variable {u a : ℚ} {t : Tier} {tiers : List Tier}

/-! ## What tiers cover -/

/-- What tiers cover is the smaller one of the units and their height. -/
theorem coe_covered (u : ℚ) (tiers : List Tier) :
    (covered u tiers : WithTop ℚ) = min (u : WithTop ℚ) (height tiers) := by
  unfold covered
  cases height tiers with
  | top => simp
  | coe x => simp

/-- No tiers cover nothing. -/
theorem covered_nil (hu : 0 ≤ u) : covered u [] = 0 := min_eq_right hu

/-- Tiers cover no more than there is. -/
theorem covered_le (u : ℚ) (tiers : List Tier) : covered u tiers ≤ u := min_le_left _ _

/-- What one tier covers is the smaller one of the units and its end. -/
theorem coe_ceiling (t : Tier) (u : ℚ) : (ceiling t u : WithTop ℚ) = min (u : WithTop ℚ) t.top := by
  unfold ceiling Tier.top
  cases t.upper with
  | none => simp
  | some upper => simp

/-- The height of tiers is that of those in front or that of the last one. -/
theorem height_concat (tiers : List Tier) (t : Tier) :
    height (tiers ++ [t]) = max (height tiers) t.top := by
  unfold height
  rw [List.map_append, List.foldl_append]
  rfl

/-- One more tier covers the units up to its ceiling. -/
theorem covered_concat (u : ℚ) (tiers : List Tier) (t : Tier) :
    covered u (tiers ++ [t]) = max (covered u tiers) (ceiling t u) := by
  apply WithTop.coe_injective
  rw [coe_covered, height_concat, min_max_distrib_left, ← coe_covered, ← coe_ceiling,
    WithTop.coe_max]

/-- One more tier in front covers the units up to its ceiling. -/
theorem covered_cons (u : ℚ) (t : Tier) (tiers : List Tier) :
    covered u (t :: tiers) = max (ceiling t u) (covered u tiers) := by
  induction tiers using List.reverseRecOn with
  | nil =>
    have h := covered_concat u [] t
    rwa [List.nil_append, max_comm] at h
  | append_singleton front last ih =>
    rw [← List.cons_append, covered_concat, covered_concat, ih, max_assoc]

/-- More tiers cover no less. -/
theorem covered_le_covered_concat (u : ℚ) (tiers : List Tier) (t : Tier) :
    covered u tiers ≤ covered u (tiers ++ [t]) := by
  rw [covered_concat]
  exact le_max_left _ _

/-! ## The walk -/

/-- Tiers that the units do not reach are passed over. -/
theorem slicesFrom_filter (u a : ℚ) (tiers : List Tier) :
    slicesFrom u a (tiers.filter fun t => t.lower.value ≤ u) = slicesFrom u a tiers := by
  induction tiers generalizing a with
  | nil => rfl
  | cons t rest ih =>
    rw [List.filter_cons]
    by_cases hreach : t.lower.value ≤ u
    · rw [if_pos (decide_eq_true hreach), slicesFrom, slicesFrom, ih, ih]
    · rw [if_neg (by simpa using hreach), slicesFrom, if_neg fun h => hreach h.1, ih]

/-- What the first tier behind others adds to them. -/
theorem tranche_append (u : ℚ) (done : List Tier) (t : Tier) (rest : List Tier) :
    tranche u (done ++ t :: rest) done.length = covered u (done ++ [t]) - covered u done := by
  have htake : (done ++ t :: rest).take (done.length + 1) = done ++ [t] := by
    rw [List.take_append]
    simp
  unfold tranche
  rw [htake, List.take_left]

/-- There is one for each tier. -/
theorem length_tranches (u : ℚ) (tiers : List Tier) :
    (tranches u tiers).length = tiers.length := by
  unfold tranches
  rw [List.length_map, List.length_zipIdx]

/-- What a tier covers and none before it does stands at the place of the tier. -/
theorem getElem?_tranches {i : ℕ} (hi : i < tiers.length) :
    (tranches u tiers)[i]? = some (tiers[i], tranche u tiers i) := by
  unfold tranches
  rw [List.getElem?_map, List.getElem?_zipIdx, List.getElem?_eq_getElem hi]
  simp

/-- No tier takes anything from those before it. -/
theorem tranche_nonneg {i : ℕ} (hi : i < tiers.length) : 0 ≤ tranche u tiers i := by
  unfold tranche
  rw [List.take_add_one, List.getElem?_eq_getElem hi]
  exact sub_nonneg.2 (covered_le_covered_concat _ _ _)

/-- The walk behind some tiers comes to one that it reaches: it takes what that tier adds to those
before it, if that is anything, and goes on behind it. -/
theorem slicesFrom_covered_cons (done : List Tier) (hreach : t.lower.value ≤ u)
    (rest : List Tier) :
    slicesFrom u (covered u done) (t :: rest) =
      [(t, covered u (done ++ [t]) - covered u done)].filter (fun taken => 0 < taken.2) ++
        slicesFrom u (covered u (done ++ [t])) rest := by
  rw [slicesFrom, covered_concat]
  by_cases htakes : covered u done < ceiling t u
  · rw [if_pos ⟨hreach, htakes⟩, max_eq_right htakes.le,
      List.filter_cons_of_pos (by simpa using htakes), List.filter_nil, List.singleton_append]
  · rw [if_neg fun h => htakes h.2, max_eq_left (not_lt.1 htakes),
      List.filter_cons_of_neg (by simp), List.filter_nil, List.nil_append]

/-- The walk behind some tiers takes what each tier that it reaches adds to those before it. -/
theorem slicesFrom_covered {rest : List Tier} (h : ∀ t ∈ rest, t.lower.value ≤ u)
    (done : List Tier) :
    slicesFrom u (covered u done) rest =
      ((rest.zipIdx done.length).map fun x => (x.1, tranche u (done ++ rest) x.2)).filter
        fun taken => 0 < taken.2 := by
  induction rest generalizing done with
  | nil => rfl
  | cons t rest ih =>
    obtain ⟨hreach, hrest⟩ := List.forall_mem_cons.1 h
    have hnext := ih hrest (done ++ [t])
    rw [List.append_assoc, List.singleton_append, List.length_append, List.length_singleton]
      at hnext
    rw [slicesFrom_covered_cons done hreach, hnext, ← List.filter_append, List.zipIdx_cons,
      List.map_cons, tranche_append, List.singleton_append]

/-- The walk behind some tiers takes what those that it reaches add to them together. -/
theorem sum_slicesFrom_covered {rest : List Tier} (h : ∀ t ∈ rest, t.lower.value ≤ u)
    (done : List Tier) :
    ((slicesFrom u (covered u done) rest).map Prod.snd).sum =
      covered u (done ++ rest) - covered u done := by
  induction rest generalizing done with
  | nil => simp [slicesFrom]
  | cons t rest ih =>
    obtain ⟨hreach, hrest⟩ := List.forall_mem_cons.1 h
    have hnext := ih hrest (done ++ [t])
    rw [List.append_assoc, List.singleton_append] at hnext
    have hfirst : (([(t, covered u (done ++ [t]) - covered u done)].filter
        fun taken => 0 < taken.2).map Prod.snd).sum =
          covered u (done ++ [t]) - covered u done := by
      rcases (covered_le_covered_concat u done t).eq_or_lt with heq | hlt
      · simp [heq]
      · rw [List.filter_cons_of_pos (by simpa using hlt)]
        simp
    rw [slicesFrom_covered_cons done hreach, List.map_append, List.sum_append, hfirst, hnext]
    ring

/-! ## Slices -/

/-- The slices of units come from the walk through the tiers that they reach. -/
theorem slices_eq_slicesFrom_reached (hu : 0 ≤ u) (tiers : List Tier) :
    slices u tiers = slicesFrom u (covered u []) (reached Tier.lower u tiers) := by
  unfold slices reached
  rw [covered_nil hu, slicesFrom_filter]

/-- The units reach the tiers that they reach. -/
theorem lower_le_of_mem_reached (ht : t ∈ reached Tier.lower u tiers) : t.lower.value ≤ u := by
  simpa using List.of_mem_filter ht

/-- The slices of units are what the tiers that they reach add to those before them. -/
theorem slices_eq (hu : 0 ≤ u) (tiers : List Tier) :
    slices u tiers =
      (tranches u (reached Tier.lower u tiers)).filter fun taken => 0 < taken.2 := by
  rw [slices_eq_slicesFrom_reached hu, slicesFrom_covered fun t => lower_le_of_mem_reached]
  rfl

/-- Together the slices are what these tiers cover. -/
theorem sum_slices (hu : 0 ≤ u) (tiers : List Tier) :
    ((slices u tiers).map Prod.snd).sum = covered u (reached Tier.lower u tiers) := by
  rw [slices_eq_slicesFrom_reached hu,
    sum_slicesFrom_covered fun t => lower_le_of_mem_reached, covered_nil hu, sub_zero]
  rfl

end Exact

end DealerPay
