import DealerPay.Proofs.Decimal.Cents

/-!
# Grids of decimals

How large the numbers of a computation become, and how many decimals they need. A rational lies on
a grid when it is a whole number of units of so many decimals, and not too many of them; a grid with
fewer units than twenty-eight digits can count is one on which arithmetic does not round.

* `OnGrid k m x`: `x` is `n / 10 ^ k` for an integer `n` of size at most `m`.
* `OnGrid.add`, `OnGrid.mul`, `OnGrid.sum` and their companions say which grid a result is on.
* `Decimal.add_of_onGrid`, `Decimal.mul_of_onGrid`, `Decimal.percentOf_of_onGrid` and
  `Decimal.sum_of_onGrid` are exact arithmetic, from the grids of the operands alone.
-/

namespace DealerPay

/-- Whether a rational is a whole number of units of `k` decimals, at most `m` either way. -/
def OnGrid (k m : ℕ) (x : ℚ) : Prop := ∃ n : ℤ, x = n / 10 ^ k ∧ |n| ≤ m

namespace OnGrid

variable {k k' m m' : ℕ} {x y : ℚ}

/-- Zero is on every grid. -/
theorem zero : OnGrid k m 0 := ⟨0, by simp, by simp⟩

/-- A grid may be extended. -/
theorem mono (h : OnGrid k m x) (hm : m ≤ m') : OnGrid k m' x := by
  obtain ⟨n, hx, hn⟩ := h
  exact ⟨n, hx, hn.trans (by exact_mod_cast hm)⟩

/-- A grid may be refined. -/
theorem finer (h : OnGrid k m x) (j : ℕ) : OnGrid (k + j) (m * 10 ^ j) x := by
  obtain ⟨n, hx, hn⟩ := h
  refine ⟨n * 10 ^ j, ?_, ?_⟩
  · have h10 : (10 : ℚ) ^ j ≠ 0 := by positivity
    rw [hx, pow_add]
    push_cast
    exact (mul_div_mul_right _ _ h10).symm
  · rw [abs_mul, abs_of_pos (by positivity : (0 : ℤ) < 10 ^ j)]
    push_cast
    exact mul_le_mul_of_nonneg_right hn (by positivity)

/-- The size of a number on a grid. -/
protected theorem abs_le (h : OnGrid k m x) : |x| ≤ m / 10 ^ k := by
  obtain ⟨n, hx, hn⟩ := h
  have hq : |(n : ℚ)| ≤ m := by exact_mod_cast hn
  rw [hx, abs_div, abs_of_pos (by positivity : (0 : ℚ) < 10 ^ k)]
  exact div_le_div_of_nonneg_right hq (by positivity)

/-- A number on a grid is bounded by the size of the grid. -/
theorem abs_le_natCast (h : OnGrid k m x) {B : ℕ} (hm : m ≤ B * 10 ^ k) : |x| ≤ B := by
  have hpos : (0 : ℚ) < 10 ^ k := by positivity
  refine h.abs_le.trans ((div_le_iff₀ hpos).2 ?_)
  exact_mod_cast hm

/-- A number on a grid needs no more units of it than its size allows. -/
theorem of_abs_le (h : OnGrid k m x) (hx : |x| ≤ m' / 10 ^ k) : OnGrid k m' x := by
  obtain ⟨n, rfl, -⟩ := h
  refine ⟨n, rfl, ?_⟩
  have hpos : (0 : ℚ) < 10 ^ k := by positivity
  rw [abs_div, abs_of_pos hpos, div_le_div_iff_of_pos_right hpos] at hx
  exact_mod_cast hx

/-- The grid of a number with the other sign. -/
theorem neg (h : OnGrid k m x) : OnGrid k m (-x) := by
  obtain ⟨n, hx, hn⟩ := h
  exact ⟨-n, by rw [hx]; push_cast; ring, by rwa [abs_neg]⟩

/-- The grid of a sum. -/
theorem add (hx : OnGrid k m x) (hy : OnGrid k m' y) : OnGrid k (m + m') (x + y) := by
  obtain ⟨a, hx, ha⟩ := hx
  obtain ⟨b, hy, hb⟩ := hy
  refine ⟨a + b, by rw [hx, hy]; push_cast; ring, ?_⟩
  calc |a + b| ≤ |a| + |b| := abs_add_le a b
    _ ≤ ((m + m' : ℕ) : ℤ) := by push_cast; exact add_le_add ha hb

/-- The grid of a difference. -/
theorem sub (hx : OnGrid k m x) (hy : OnGrid k m' y) : OnGrid k (m + m') (x - y) := by
  rw [sub_eq_add_neg]
  exact hx.add hy.neg

/-- The grid of a product. -/
theorem mul (hx : OnGrid k m x) (hy : OnGrid k' m' y) : OnGrid (k + k') (m * m') (x * y) := by
  obtain ⟨a, hx, ha⟩ := hx
  obtain ⟨b, hy, hb⟩ := hy
  refine ⟨a * b, by rw [hx, hy, pow_add]; push_cast; exact div_mul_div_comm _ _ _ _, ?_⟩
  rw [abs_mul]
  push_cast
  exact mul_le_mul ha hb (abs_nonneg b) (Nat.cast_nonneg m)

/-- The grid of a hundredth. -/
theorem hundredth (h : OnGrid k m x) : OnGrid (k + 2) m (x / 100) := by
  obtain ⟨n, hx, hn⟩ := h
  refine ⟨n, ?_, hn⟩
  rw [hx, div_div, pow_add]
  norm_num

/-- The smaller of two numbers on a grid is on it. -/
protected theorem min (hx : OnGrid k m x) (hy : OnGrid k m y) : OnGrid k m (min x y) := by
  rcases min_choice x y with h | h <;> rwa [h]

/-- The larger of two numbers on a grid is on it. -/
protected theorem max (hx : OnGrid k m x) (hy : OnGrid k m y) : OnGrid k m (max x y) := by
  rcases max_choice x y with h | h <;> rwa [h]

/-- The grid of a sum of numbers on one grid. -/
protected theorem sum {xs : List ℚ} (h : ∀ x ∈ xs, OnGrid k m x) :
    OnGrid k (xs.length * m) xs.sum := by
  induction xs with
  | nil => exact zero
  | cons x rest ih =>
    have hx := h x List.mem_cons_self
    have hrest := ih fun y hy => h y (List.mem_cons_of_mem x hy)
    rw [List.sum_cons, List.length_cons, Nat.succ_mul, Nat.add_comm]
    exact hx.add hrest

/-- Cents are on the grid of two decimals. -/
theorem cents {B : ℕ} (h : |x| ≤ B) : OnGrid 2 (B * 100) (nearestCent x) := by
  refine OnGrid.of_abs_le (m := (roundAway (x * 100)).natAbs)
    ⟨roundAway (x * 100), by norm_num [nearestCent], by simp⟩ ?_
  have hbound := abs_nearestCent_le h
  push_cast
  linarith

/-- A number of cents is not rounded. -/
theorem nearestCent_eq (h : OnGrid 2 m x) : nearestCent x = x := by
  obtain ⟨n, hx, -⟩ := h
  exact nearestCent_of_cents (n := n) (by rw [hx]; norm_num)

/-- Numbers on a grid that twenty-eight digits can count can be written. -/
theorem represents (h : OnGrid k m x) (hm : m < 10 ^ 28) (hk : k ≤ 28) :
    Decimal.working.Represents x := by
  have habs := h.abs_le
  obtain ⟨n, hx, hn⟩ := h
  have hmz : (m : ℤ) < 10 ^ 28 := by exact_mod_cast hm
  refine ⟨n, -k, ?_, hn.trans_lt hmz, ?_, ?_⟩
  · rw [hx, zpow_neg, zpow_natCast, div_eq_mul_inv]
  · show (-999999 : ℤ) - (28 : ℕ) + 1 ≤ -k
    omega
  · have hmq : (m : ℚ) < 10 ^ 28 := by exact_mod_cast hm
    have hk1 : (m : ℚ) / 10 ^ k ≤ m := div_le_self (Nat.cast_nonneg m) (one_le_pow₀ (by norm_num))
    calc |x| ≤ m := habs.trans hk1
      _ < 10 ^ 28 := hmq
      _ = (10 : ℚ) ^ (28 : ℤ) := by norm_num
      _ ≤ (10 : ℚ) ^ (Decimal.working.highest + 1) := tenPow_le (by decide)

end OnGrid

namespace Decimal

variable {a b d : Decimal} {k k' m m' : ℕ}

/-- A sum of numbers on one grid is exact. -/
theorem add_of_onGrid (ha : OnGrid k m a.value) (hb : OnGrid k m' b.value)
    (hm : m + m' < 10 ^ 28) (hk : k ≤ 28) :
    Yields (a.add b) fun r => r.value = a.value + b.value :=
  add_of_represents ((ha.add hb).represents hm hk)

/-- A difference of numbers on one grid is exact. -/
theorem sub_of_onGrid (ha : OnGrid k m a.value) (hb : OnGrid k m' b.value)
    (hm : m + m' < 10 ^ 28) (hk : k ≤ 28) :
    Yields (a.sub b) fun r => r.value = a.value - b.value :=
  sub_of_represents ((ha.sub hb).represents hm hk)

/-- A product of numbers on grids is exact. -/
theorem mul_of_onGrid (ha : OnGrid k m a.value) (hb : OnGrid k' m' b.value)
    (hm : m * m' < 10 ^ 28) (hk : k + k' ≤ 28) :
    Yields (a.mul b) fun r => r.value = a.value * b.value :=
  mul_of_represents ((ha.mul hb).represents hm hk)

/-- A percentage of numbers on grids is exact. -/
theorem percentOf_of_onGrid (hd : OnGrid k m d.value) (hp : OnGrid k' m' a.value)
    (hm : m * m' < 10 ^ 28) (hk : k + k' + 2 ≤ 28) :
    Yields (percentOf a d) fun r => r.value = d.value * a.value / 100 :=
  percentOf_of_represents ((hd.mul hp).represents hm (by omega))
    ((hd.mul hp).hundredth.represents hm hk)

/-- A sum of a list of numbers on one grid is exact. -/
theorem sum_of_onGrid {ds : List Decimal} (h : ∀ d ∈ ds, OnGrid k m d.value)
    (hm : ds.length * m < 10 ^ 28) (hk : k ≤ 28) :
    Yields (sum ds) fun r => r.value = (ds.map value).sum := by
  apply sum_of_represents
  intro front hf
  have hfront : OnGrid k ((front.map value).length * m) (front.map value).sum := by
    apply OnGrid.sum
    intro x hx
    obtain ⟨d, hd, rfl⟩ := List.mem_map.1 hx
    exact h d (hf.subset hd)
  rw [List.length_map] at hfront
  exact hfront.represents ((Nat.mul_le_mul_right m hf.length_le).trans_lt hm) hk

/-- A sum of the figures of some items is exact if they are on one grid. -/
theorem sum_of_map_eq {α : Type} {ds : List Decimal} {xs : List α} {figure : α → ℚ}
    (hds : ds.map value = xs.map figure) (hx : ∀ x ∈ xs, OnGrid k m (figure x))
    (hm : xs.length * m < 10 ^ 28) (hk : k ≤ 28) :
    Yields (sum ds) fun r => r.value = (xs.map figure).sum := by
  have hgrid : ∀ d ∈ ds, OnGrid k m d.value := by
    intro d hd
    have hmem : d.value ∈ xs.map figure := hds ▸ List.mem_map_of_mem hd
    obtain ⟨x, hxs, hv⟩ := List.mem_map.1 hmem
    exact hv ▸ hx x hxs
  have hlen : ds.length = xs.length := by simpa using congrArg List.length hds
  refine (sum_of_onGrid hgrid (by rwa [hlen]) hk).mono ?_
  intro r hr
  rw [hr, hds]

/-- The cents of a number on a grid. -/
theorem toCents_of_onGrid (h : OnGrid k m d.value) (hm : m < 10 ^ 48) :
    Yields d.toCents fun r => r.value = nearestCent d.value ∧ r.exponent = -2 := by
  apply toCents_of_abs_lt
  have hk1 : (m : ℚ) / 10 ^ k ≤ m := div_le_self (Nat.cast_nonneg m) (one_le_pow₀ (by norm_num))
  have hmq : (m : ℚ) + 1 ≤ 10 ^ 48 := by exact_mod_cast hm
  have := h.abs_le
  linarith

end Decimal

end DealerPay
