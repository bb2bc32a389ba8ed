import DealerPay.Proofs.Exact.Raise
import DealerPay.Proofs.Exact.Slicing
import DealerPay.Proofs.Layout

/-!
# The order in which tiers are listed

Tiers and thresholds are sorted before they meet the units, and the sort is stable. The order in
which they are listed matters among those with equal bounds alone.

* `KeepsTies`: two lists hold the same items, those with equal bounds in the same order.
* `Exact.filter_sortedBy`: sorting keeps the order of items with equal bounds, and by
  `eq_of_pairwise_of_filter_eq` a sorted list is determined by it. Hence
  `sortByBound_eq_of_keepsTies`.
* `Tier.IsChoice`: the tier that units choose, told from the tiers as they are listed. It is the
  last one among those with the greatest lower bound that the units reach; where a tier ends plays
  no part. `Tier.isChoice_reached?` is the agreement with the walk through the sorted tiers.
-/

namespace DealerPay

/-! ## Items with equal bounds -/

section Ties

variable {α : Type} {bound : α → Decimal} {xs ys zs : List α}

/-- Whether two lists hold the same items, those with equal bounds in the same order. -/
structure KeepsTies (bound : α → Decimal) (xs ys : List α) : Prop where
  /-- The items are the same. -/
  perm : xs.Perm ys
  /-- Those with one bound are in the same order. -/
  ties : ∀ v : ℚ, xs.filter (fun x => (bound x).value = v) = ys.filter fun x => (bound x).value = v

namespace KeepsTies

/-- The first two items change places if they have different bounds. -/
theorem swap {x y : α} (hne : (bound x).value ≠ (bound y).value) (xs : List α) :
    KeepsTies bound (x :: y :: xs) (y :: x :: xs) where
  perm := .swap y x xs
  ties v := by
    by_cases hx : (bound x).value = v
    · have hy : (bound y).value ≠ v := fun hy => hne (hx.trans hy.symm)
      simp [hx, hy]
    · simp [List.filter_cons, hx]

/-- Either list has the order of the other one. -/
theorem symm (h : KeepsTies bound xs ys) : KeepsTies bound ys xs where
  perm := h.perm.symm
  ties v := (h.ties v).symm

/-- One order after the other. -/
theorem trans (h : KeepsTies bound xs ys) (h' : KeepsTies bound ys zs) : KeepsTies bound xs zs where
  perm := h.perm.trans h'.perm
  ties v := (h.ties v).trans (h'.ties v)

/-- A filter may leave items out. -/
theorem filter (h : KeepsTies bound xs ys) (q : α → Bool) :
    KeepsTies bound (xs.filter q) (ys.filter q) where
  perm := h.perm.filter q
  ties v := by rw [List.filter_comm, h.ties v, List.filter_comm]

end KeepsTies

/-- Sorting keeps the order of items with equal bounds. -/
theorem Exact.filter_sortedBy (bound : α → Decimal) (xs : List α) (v : ℚ) :
    (sortedBy bound xs).filter (fun x => (bound x).value = v) =
      xs.filter fun x => (bound x).value = v := by
  have : Std.Total fun x y => (bound x).value ≤ (bound y).value := ⟨fun x y => le_total _ _⟩
  have : IsTrans α fun x y => (bound x).value ≤ (bound y).value := ⟨fun x y z => le_trans⟩
  have hties : (xs.filter fun x => (bound x).value = v).Pairwise
      fun x y => (bound x).value ≤ (bound y).value := by
    apply List.pairwise_of_forall_mem_list
    intro x hx y hy
    have hxv : (bound x).value = v := by simpa using List.of_mem_filter hx
    have hyv : (bound y).value = v := by simpa using List.of_mem_filter hy
    exact (hxv.trans hyv.symm).le
  have hsub := (List.sublist_insertionSort hties List.filter_sublist).filter
    fun x => (bound x).value = v
  rw [List.filter_filter] at hsub
  simp only [Bool.and_self] at hsub
  exact (hsub.eq_of_length ((List.perm_insertionSort _ xs).filter _).length_eq.symm).symm

/-- A sorted list holds the items that were sorted, those with equal bounds in the same order. -/
theorem Exact.keepsTies_sortedBy (bound : α → Decimal) (xs : List α) :
    KeepsTies bound xs (sortedBy bound xs) where
  perm := (List.perm_insertionSort _ xs).symm
  ties v := (filter_sortedBy bound xs v).symm

/-- A list in ascending order is determined by the order of its items with equal bounds. -/
theorem eq_of_pairwise_of_keepsTies (hxs : xs.Pairwise fun x y => (bound x).value ≤ (bound y).value)
    (hys : ys.Pairwise fun x y => (bound x).value ≤ (bound y).value) (h : KeepsTies bound xs ys) :
    xs = ys := by
  induction xs generalizing ys with
  | nil => exact h.perm.nil_eq
  | cons x xs ih =>
    cases ys with
    | nil => exact h.perm.eq_nil
    | cons y ys =>
      rw [List.pairwise_cons] at hxs hys
      -- both heads have the least bound there is, so the first item with that bound is the head
      have hxy : (bound x).value ≤ (bound y).value :=
        (List.forall_mem_cons.2 ⟨le_rfl, hxs.1⟩ : ∀ z ∈ x :: xs, (bound x).value ≤ (bound z).value)
          y (h.perm.mem_iff.2 List.mem_cons_self)
      have hyx : (bound y).value ≤ (bound x).value :=
        (List.forall_mem_cons.2 ⟨le_rfl, hys.1⟩ : ∀ z ∈ y :: ys, (bound y).value ≤ (bound z).value)
          x (h.perm.mem_iff.1 List.mem_cons_self)
      have hheads := h.ties (bound x).value
      rw [List.filter_cons_of_pos (by simp),
        List.filter_cons_of_pos (by simpa using le_antisymm hyx hxy), List.cons.injEq] at hheads
      obtain ⟨rfl, hrest⟩ := hheads
      rw [ih hxs.2 hys.2 ⟨h.perm.cons_inv, fun v => ?_⟩]
      by_cases hv : (bound x).value = v
      · rw [← hv]
        exact hrest
      · have htail := h.ties v
        rwa [List.filter_cons_of_neg (by simpa using hv),
          List.filter_cons_of_neg (by simpa using hv)] at htail

/-- Sorting does not depend on the order, apart from that of items with equal bounds. -/
theorem sortByBound_eq_of_keepsTies (h : KeepsTies bound xs ys) :
    sortByBound bound xs = sortByBound bound ys := by
  rw [sortByBound_eq, sortByBound_eq]
  exact eq_of_pairwise_of_keepsTies (Exact.pairwise_sortedBy bound xs)
    (Exact.pairwise_sortedBy bound ys)
    (((Exact.keepsTies_sortedBy bound xs).symm.trans h).trans (Exact.keepsTies_sortedBy bound ys))

end Ties

/-! ## The tier that units choose -/

namespace Tier

/-- Whether units choose a tier: they reach it and none with a greater lower bound, and of those
with its lower bound it is listed last. They choose none where they reach none. -/
def IsChoice (u : ℚ) (tiers : List Tier) : Option Tier → Prop
  | some t => ∃ front back, tiers = front ++ t :: back ∧ t.lower.value ≤ u ∧
      (∀ t' ∈ tiers, t'.lower.value ≤ u → t'.lower.value ≤ t.lower.value) ∧
      ∀ t' ∈ back, t'.lower.value ≠ t.lower.value
  | none => ∀ t ∈ tiers, u < t.lower.value

/-- The tier that units reach is the one that they choose. -/
theorem isChoice_reached? (u : ℚ) (tiers : List Tier) :
    IsChoice u tiers (Exact.reached? u tiers) := by
  have hreached : ∀ t ∈ tiers, t.lower.value ≤ u → t ∈ Exact.reached lower u tiers :=
    fun t ht hle => List.mem_filter.2 ⟨Exact.mem_sortedBy.2 ht, decide_eq_true hle⟩
  unfold Exact.reached?
  cases hlast : (Exact.reached lower u tiers).getLast? with
  | none =>
    intro t ht
    by_contra hle
    rw [List.getLast?_eq_none_iff] at hlast
    exact List.not_mem_nil (hlast ▸ hreached t ht (not_lt.1 hle))
  | some t =>
    obtain ⟨init, hinit⟩ := List.getLast?_eq_some_iff.1 hlast
    have hle : t.lower.value ≤ u := Exact.lower_le_of_mem_reached (List.mem_of_getLast? hlast)
    have hascending : (init ++ [t]).Pairwise fun x y : Tier => x.lower.value ≤ y.lower.value :=
      hinit ▸ (Exact.pairwise_sortedBy lower tiers).filter _
    have hgreatest : ∀ t' ∈ tiers, t'.lower.value ≤ u → t'.lower.value ≤ t.lower.value := by
      intro t' ht' hle'
      have hmem := hreached t' ht' hle'
      rw [hinit, List.mem_append, List.mem_singleton] at hmem
      rcases hmem with hmem | rfl
      · exact (List.pairwise_append.1 hascending).2.2 t' hmem t (List.mem_singleton_self t)
      · exact le_rfl
    have hties : (tiers.filter fun t' => t'.lower.value = t.lower.value).getLast? = some t := by
      have hfilter : (tiers.filter fun t' => t'.lower.value = t.lower.value) =
          (Exact.reached lower u tiers).filter fun t' => t'.lower.value = t.lower.value := by
        rw [← Exact.filter_sortedBy, Exact.reached, List.filter_filter]
        refine List.filter_congr fun t' _ => ?_
        by_cases heq : t'.lower.value = t.lower.value <;> simp [heq, hle]
      rw [hfilter, hinit, List.filter_append]
      simp
    rcases exists_last_or_forall (fun t' : Tier => t'.lower.value = t.lower.value) tiers with
      hnone | ⟨front, last, back, hsplit, hequal, hback⟩
    · rw [filter_eq_nil_of_forall hnone] at hties
      cases hties
    · have hfound : ((front ++ last :: back).filter fun t' : Tier =>
          t'.lower.value = t.lower.value).getLast? = some last :=
        getLast?_filter_append hequal hback
      rw [← hsplit, hties, Option.some_inj] at hfound
      subst hfound
      exact ⟨front, back, hsplit, hle, hgreatest, fun t' ht' => by simpa using hback t' ht'⟩

/-- Of two tiers from four units on the one that is listed last is reached, though it ends before
the units and the other one does not. -/
example : reached? ⟨false, 65, -1⟩
    [⟨.ofNat 7, none, .ofNat 50⟩, ⟨⟨false, 40, -1⟩, none, .ofNat 40⟩,
      ⟨.ofNat 4, some (.ofNat 5), .ofNat 30⟩, ⟨.ofNat 1, none, .ofNat 20⟩] =
    some ⟨.ofNat 4, some (.ofNat 5), .ofNat 30⟩ := by decide +kernel

end Tier

end DealerPay
