import DealerPay.Proofs.Exact.Pay

/-!
# Guarantees over the rationals

Guarantees raise a commission one after the other. Each of them adds a line for what is missing at
its turn, so that the lines depend on the order of the guarantees; what the commission ends at does
not.

* `Exact.fst_topUps_eq_foldl`: the commission ends at the largest of what is earned and what is
  required.
* `Exact.fst_guaranteed`: what the guarantees add to the commission is what their lines say.
* `Exact.amounts_topUps`: the lines are the increases of the running maximum.
* `Exact.fst_guaranteed_perm`: the order of the guarantees makes no difference to the commission.
* `Exact.fst_guaranteed_mono`: more units, more commission and higher guarantees do not end at less.
-/

namespace DealerPay.Exact

/-! ## The commission -/

/-- Raising a commission to guarantees in turn takes the maximum. -/
theorem fst_topUps_eq_foldl (units commission : ℚ) (floors : List ℚ) :
    (topUps units commission floors).1 =
      (floors.map fun f => nearestCent (units * f)).foldl max commission := by
  induction floors generalizing commission with
  | nil => rfl
  | cons floor rest ih =>
    rw [topUps, List.map_cons, List.foldl_cons]
    simp only
    split
    · next h => rw [ih, max_eq_right h.le]
    · next h => rw [ih, max_eq_left (not_lt.1 h)]

/-- A running maximum stays where it is if no number is above it. -/
theorem foldl_max_eq_self {xs : List ℚ} {c : ℚ} (h : ∀ x ∈ xs, x ≤ c) : xs.foldl max c = c := by
  induction xs with
  | nil => rfl
  | cons x rest ih =>
    obtain ⟨hx, hrest⟩ := List.forall_mem_cons.1 h
    rw [List.foldl_cons, max_eq_left hx, ih hrest]

/-- A running maximum ends at the larger one of where it starts and the greatest number. -/
theorem foldl_max_of_isGreatest {xs : List ℚ} {most : ℚ} (h : IsGreatest {x | x ∈ xs} most)
    (c : ℚ) : xs.foldl max c = max c most := by
  obtain ⟨hmem, hle⟩ := h
  obtain ⟨front, back, rfl⟩ := List.append_of_mem hmem
  have hmiddle : (front ++ most :: back).Perm (most :: (front ++ back)) := List.perm_middle
  rw [hmiddle.foldl_eq, List.foldl_cons]
  apply foldl_max_eq_self
  intro x hx
  exact (hle (hmiddle.mem_iff.2 (List.mem_cons_of_mem most hx))).trans (le_max_right c most)

/-- The order of guarantees makes no difference to the commission. -/
theorem fst_guaranteed_perm {floors floors' : List ℚ} (h : floors.Perm floors')
    (units commission : ℚ) :
    (guaranteed units commission floors).1 = (guaranteed units commission floors').1 := by
  unfold guaranteed
  split
  · rw [fst_topUps_eq_foldl, fst_topUps_eq_foldl]
    exact (h.map _).foldl_eq commission
  · rfl

/-- A guarantee takes nothing from a commission. -/
theorem le_fst_topUps (units commission : ℚ) (floors : List ℚ) :
    commission ≤ (topUps units commission floors).1 := by
  induction floors generalizing commission with
  | nil => exact le_rfl
  | cons floor rest ih =>
    rw [topUps]
    simp only
    split
    · next h => exact h.le.trans (ih _)
    · exact ih commission

/-- A running maximum is not below any of the numbers. -/
theorem le_foldl_max {xs : List ℚ} {x : ℚ} (hx : x ∈ xs) (c : ℚ) : x ≤ xs.foldl max c := by
  have hstart : ∀ (ys : List ℚ) (a : ℚ), a ≤ ys.foldl max a := by
    intro ys
    induction ys with
    | nil => exact fun a => le_rfl
    | cons y rest ih => exact fun a => (le_max_left a y).trans (ih _)
  obtain ⟨front, back, rfl⟩ := List.append_of_mem hx
  rw [List.foldl_append, List.foldl_cons]
  exact (le_max_right _ x).trans (hstart back _)

/-- A running maximum stays below what neither its start nor any of the numbers exceeds. -/
theorem foldl_max_le {xs : List ℚ} {c most : ℚ} (hc : c ≤ most) (h : ∀ x ∈ xs, x ≤ most) :
    xs.foldl max c ≤ most := by
  induction xs generalizing c with
  | nil => exact hc
  | cons x rest ih =>
    obtain ⟨hx, hrest⟩ := List.forall_mem_cons.1 h
    exact ih (max_le hc hx) hrest

/-- More units, more commission and guarantees that are not lower do not end at less commission. -/
theorem fst_topUps_mono {units units' commission commission' : ℚ} {floors floors' : List ℚ}
    (hf : ∀ f ∈ floors, 0 ≤ f) (hfloors : ∀ f ∈ floors, ∃ f' ∈ floors', f ≤ f')
    (hpos : 0 ≤ units') (hu : units ≤ units') (hc : commission ≤ commission') :
    (topUps units commission floors).1 ≤ (topUps units' commission' floors').1 := by
  have hstart := hc.trans (le_fst_topUps units' commission' floors')
  rw [fst_topUps_eq_foldl units'] at hstart ⊢
  rw [fst_topUps_eq_foldl]
  refine foldl_max_le hstart (List.forall_mem_map.2 fun f hmem => ?_)
  obtain ⟨f', hmem', hle⟩ := hfloors f hmem
  calc nearestCent (units * f) ≤ nearestCent (units' * f') :=
        nearestCent_mono (mul_le_mul hu hle (hf f hmem) hpos)
    _ ≤ _ := le_foldl_max (List.mem_map_of_mem hmem') _

/-- More units, more commission and guarantees that are not lower do not end at less commission,
where anything was delivered or not. -/
theorem fst_guaranteed_mono {units units' commission commission' : ℚ} {floors floors' : List ℚ}
    (hf : ∀ f ∈ floors, 0 ≤ f) (hfloors : ∀ f ∈ floors, ∃ f' ∈ floors', f ≤ f')
    (hu : units ≤ units') (hc : commission ≤ commission') :
    (guaranteed units commission floors).1 ≤ (guaranteed units' commission' floors').1 := by
  unfold guaranteed
  by_cases h : 0 < units
  · rw [if_pos h, if_pos (h.trans_le hu)]
    exact fst_topUps_mono hf hfloors (h.trans_le hu).le hu hc
  · rw [if_neg h]
    split
    · exact hc.trans (le_fst_topUps _ _ _)
    · exact hc

/-! ## The lines -/

/-- What guarantees add to a commission is what their lines say. -/
theorem fst_topUps (units commission : ℚ) (floors : List ℚ) :
    (topUps units commission floors).1 =
      commission + ((topUps units commission floors).2.map Line.amount).sum := by
  induction floors generalizing commission with
  | nil => simp [topUps]
  | cons floor rest ih =>
    rw [topUps]
    simp only
    split
    · rw [List.map_cons, List.sum_cons, ih]
      ring
    · exact ih commission

/-- What guarantees add to a commission is what their lines say, where anything was delivered or
not. -/
theorem fst_guaranteed (units commission : ℚ) (floors : List ℚ) :
    (guaranteed units commission floors).1 =
      commission + ((guaranteed units commission floors).2.map Line.amount).sum := by
  unfold guaranteed
  split
  · exact fst_topUps units commission floors
  · simp

/-- What neighbours in a list increase by, where they do. -/
def increases (xs : List ℚ) : List ℚ :=
  (xs.zipWith (fun x y => y - x) xs.tail).filter fun d => 0 < d

/-- The increases of a running maximum begin with that of its first step, if there is one. -/
theorem increases_scanl_cons (c x : ℚ) (xs : List ℚ) :
    increases ((x :: xs).scanl max c) =
      (if c < x then [x - c] else []) ++ increases (xs.scanl max (max c x)) := by
  obtain ⟨later, hlater⟩ : ∃ later, xs.scanl max (max c x) = max c x :: later := by
    cases xs with
    | nil => exact ⟨[], rfl⟩
    | cons y ys => exact ⟨_, List.scanl_cons⟩
  rw [List.scanl_cons, hlater]
  unfold increases
  rw [List.tail_cons, List.zipWith_cons_cons, List.filter_cons, List.tail_cons]
  by_cases hlt : c < x
  · simp [hlt, max_eq_right hlt.le]
  · simp [hlt, max_eq_left (not_lt.1 hlt)]

/-- The lines of guarantees are the increases of the running maximum of what is earned and what is
required. -/
theorem amounts_topUps (units commission : ℚ) (floors : List ℚ) :
    (topUps units commission floors).2.map Line.amount =
      increases ((floors.map fun f => nearestCent (units * f)).scanl max commission) := by
  induction floors generalizing commission with
  | nil => rfl
  | cons floor rest ih =>
    rw [topUps, List.map_cons, increases_scanl_cons]
    simp only
    split
    · next h =>
      rw [max_eq_right h.le, List.map_cons, ih]
      rfl
    · next h => rw [max_eq_left (not_lt.1 h), ih, List.nil_append]

/-- Each line of guarantees adds something. -/
theorem pos_of_mem_topUps {units commission : ℚ} {floors : List ℚ} :
    ∀ l ∈ (topUps units commission floors).2, 0 < l.amount := by
  induction floors generalizing commission with
  | nil => simp [topUps]
  | cons floor rest ih =>
    rw [topUps]
    simp only
    split
    · next h => exact List.forall_mem_cons.2 ⟨sub_pos.2 h, ih⟩
    · exact ih

/-- The lines of guarantees are guarantees. -/
theorem category_of_mem_topUps {units commission : ℚ} {floors : List ℚ} :
    ∀ l ∈ (topUps units commission floors).2, l.category = .guarantee := by
  induction floors generalizing commission with
  | nil => simp [topUps]
  | cons floor rest ih =>
    rw [topUps]
    simp only
    split
    · exact List.forall_mem_cons.2 ⟨rfl, ih⟩
    · exact ih

/-- The lines of guarantees are guarantees, where anything was delivered or not. -/
theorem category_of_mem_guaranteed {units commission : ℚ} {floors : List ℚ} :
    ∀ l ∈ (guaranteed units commission floors).2, l.category = .guarantee := by
  unfold guaranteed
  split
  · exact category_of_mem_topUps
  · simp

end DealerPay.Exact
