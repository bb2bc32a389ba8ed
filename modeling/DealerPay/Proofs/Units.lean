import DealerPay.Period
import DealerPay.Proofs.Decimal.Size
import DealerPay.Proofs.Valid

/-!
# The units of any number of deals

Deals are vehicles and halves of vehicles, and however many of them there are, their running sum has
a result. Below `10 ^ 27` it does not round. From there on twenty-eight digits hold whole numbers
only, so that halves are rounded, and at `10 ^ 28` it comes to a stop.

* `IsUnits` says what a number of units looks like: it is a whole number of halves, it can be
  written, and it is `10 ^ 28` at most. From `10 ^ 27` on it is whole.
* `Decimal.add_isUnits` is the step: a share added to a number of units gives a number of units.
  `Deal.unitCount_isUnits` is the sum, and `Period.ofDeals_isUnits` are the units of a period.
* `IsUnits.represents_sub`: what is left of a number of units can be written, if a whole number is
  taken away.
-/

namespace DealerPay

/-! ## Whole numbers and halves -/

/-- A number from `10 ^ 27` on that can be written is whole. -/
theorem exists_natCast_of_represents {x : ℚ} (hx : Decimal.working.Represents x)
    (h : 10 ^ 27 ≤ x) : ∃ n : ℕ, x = n := by
  obtain ⟨n, e, rfl, hn, -, -⟩ := hx
  have hpos := tenPow_pos e
  have hnq : (n : ℚ) < (10 : ℚ) ^ (28 : ℤ) := by
    have : (n : ℚ) < 10 ^ 28 := by exact_mod_cast lt_of_abs_lt hn
    exact_mod_cast this
  have hplace : 0 ≤ e := by
    have hlt : (10 : ℚ) ^ (27 : ℤ) < (10 : ℚ) ^ (28 + e) := by
      rw [tenPow_add]
      refine lt_of_le_of_lt ?_ (mul_lt_mul_of_pos_right hnq hpos)
      exact_mod_cast h
    have := lt_of_tenPow_lt hlt
    omega
  have hn0 : (0 : ℚ) < n := pos_of_mul_pos_left (lt_of_lt_of_le (by norm_num) h) hpos.le
  lift n to ℕ using by exact_mod_cast hn0.le
  lift e to ℕ using hplace
  exact ⟨n * 10 ^ e, by push_cast; rw [zpow_natCast]⟩

/-- A whole number up to `10 ^ 28` can be written. -/
theorem represents_natCast {n : ℕ} (h : n ≤ 10 ^ 28) : Decimal.working.Represents (n : ℚ) := by
  rcases h.eq_or_lt with rfl | hlt
  · exact represents_of_eq 1 28 (by norm_num) (by norm_num) (by norm_num)
  · exact represents_of_eq n 0 (by simp) hlt (by norm_num)

/-- A whole number of halves below `10 ^ 27` can be written. -/
theorem represents_half {n : ℕ} (h : (n : ℚ) / 2 < 10 ^ 27) :
    Decimal.working.Represents ((n : ℚ) / 2) := by
  have hn : 5 * n < 10 ^ 28 := by
    have : (5 * n : ℚ) < 10 ^ 28 := by linarith
    exact_mod_cast this
  refine OnGrid.represents (k := 1) (m := 5 * n) ⟨5 * n, ?_, ?_⟩ hn (by norm_num)
  · push_cast
    ring
  · rw [abs_of_nonneg (by positivity)]
    push_cast
    exact le_rfl

/-! ## Numbers of units -/

/-- Whether a number is one of units: a whole number of halves that can be written, and not above
the one where running sums come to a stop. -/
structure IsUnits (x : ℚ) : Prop where
  /-- It is a whole number of halves. -/
  halves : ∃ n : ℕ, x = n / 2
  /-- It can be written. -/
  represents : Decimal.working.Represents x
  /-- It is not too large. -/
  le : x ≤ 10 ^ 28

namespace IsUnits

variable {u x y : ℚ}

/-- Nothing is a number of units. -/
theorem zero : IsUnits 0 := ⟨⟨0, by simp⟩, Decimal.working.represents_zero, by norm_num⟩

/-- A number of units is not negative. -/
theorem nonneg (h : IsUnits u) : 0 ≤ u := by
  obtain ⟨n, rfl⟩ := h.halves
  positivity

/-- A large number of units is whole. -/
theorem natCast_of_le (h : IsUnits u) (hlarge : 10 ^ 27 ≤ u) : ∃ n : ℕ, u = n :=
  exists_natCast_of_represents h.represents hlarge

/-- What is left of a number of units when a whole number is taken away can be written. -/
theorem represents_sub (h : IsUnits u) {n : ℕ} (hn : (n : ℚ) ≤ u) :
    Decimal.working.Represents (u - n) := by
  have hle := h.le
  rcases lt_or_ge u (10 ^ 27) with hsmall | hlarge
  · obtain ⟨m, rfl⟩ := h.halves
    have hmn : 2 * n ≤ m := by
      have : (2 * n : ℚ) ≤ m := by linarith
      exact_mod_cast this
    have hsub : (m : ℚ) / 2 - n = ((m - 2 * n : ℕ) : ℚ) / 2 := by
      push_cast [hmn]
      ring
    rw [hsub]
    apply represents_half
    rw [← hsub]
    have : (0 : ℚ) ≤ n := Nat.cast_nonneg n
    linarith
  · obtain ⟨m, rfl⟩ := h.natCast_of_le hlarge
    have hmn : n ≤ m := by exact_mod_cast hn
    have hm : m ≤ 10 ^ 28 := by exact_mod_cast hle
    have hsub : (m : ℚ) - n = ((m - n : ℕ) : ℚ) := by push_cast [hmn]; ring
    rw [hsub]
    exact represents_natCast (by omega)

/-- A number of units of an ordinary size is on the grid of one decimal. -/
theorem onGrid (h : IsUnits u) {m : ℕ} (hu : u ≤ m) : OnGrid 1 (m * 10) u := by
  obtain ⟨n, rfl⟩ := h.halves
  have hgrid : OnGrid 1 (5 * n) ((n : ℚ) / 2) :=
    ⟨5 * n, by push_cast; ring, by rw [abs_of_nonneg (by positivity)]; push_cast; exact le_rfl⟩
  apply hgrid.of_abs_le
  rw [abs_of_nonneg (by positivity)]
  push_cast
  linarith

end IsUnits

/-! ## Sums of shares -/

/-- A share added to a number of units gives a number of units. -/
theorem Decimal.add_isUnits {a d : Decimal} (ha : IsUnits a.value) (hd : Deal.isShare d = true) :
    Yields (a.add d) fun r => IsUnits r.value := by
  have hcases := Deal.value_count hd
  have hpos : 1 / 2 ≤ d.value ∧ d.value ≤ 1 := by
    rcases hcases with h | h <;> rw [h] <;> norm_num
  have hnonneg := ha.nonneg
  have hle := ha.le
  obtain ⟨r, hr, hbound⟩ := add_stalls (k := 0) (a := a) (b := d)
    (by rw [abs_of_nonneg hnonneg]; linarith) (by rw [abs_of_pos (by linarith)]; linarith)
    (by norm_num)
  have hr0 := nonneg_of_add hr (by linarith)
  rw [abs_of_nonneg hr0, pow_zero, mul_one] at hbound
  refine ⟨r, hr, ?_, represents_of_add hr, hbound⟩
  rcases lt_or_ge (a.value + d.value) (10 ^ 27) with hsmall | hlarge
  · -- below this, the exact sum is a whole number of halves that can be written
    obtain ⟨n, hn⟩ := ha.halves
    obtain ⟨m, hm⟩ : ∃ m : ℕ, a.value + d.value = m / 2 := by
      rcases hcases with h | h
      · exact ⟨n + 1, by rw [hn, h]; push_cast; ring⟩
      · exact ⟨n + 2, by rw [hn, h]; push_cast; ring⟩
    have hfits : working.Represents (a.value + d.value) := hm ▸ represents_half (hm ▸ hsmall)
    exact ⟨m, by rw [(add_of_represents hfits).of_eq hr, hm]⟩
  · -- from there on the result is large itself, hence whole
    have hreach := tenPow_le_abs_of_add (p := 27) hr
      (by rw [abs_of_nonneg hnonneg, abs_of_pos (by linarith)]; linarith)
      (by rw [abs_of_nonneg hnonneg, abs_of_pos (by linarith)]; linarith) (by norm_num)
      (by rw [abs_of_nonneg (by linarith)]; exact_mod_cast hlarge)
    rw [abs_of_nonneg hr0] at hreach
    obtain ⟨n, hn⟩ := exists_natCast_of_represents (represents_of_add hr) (by exact_mod_cast hreach)
    exact ⟨2 * n, by rw [hn]; push_cast; ring⟩

/-- The units of any number of deals are a number of units. -/
theorem Deal.unitCount_isUnits {sold : List Deal} (h : ∀ d ∈ sold, Deal.isShare d.count = true) :
    Yields (Deal.unitCount sold) fun u => IsUnits u.value := by
  have run : ∀ start : Decimal, IsUnits start.value →
      Yields ((sold.map Deal.count).foldlM Decimal.add start) fun u => IsUnits u.value := by
    induction sold with
    | nil => exact fun _ hstart => .pure hstart
    | cons d rest ih =>
      intro start hstart
      rw [List.map_cons, List.foldlM_cons]
      refine (Decimal.add_isUnits hstart (h d List.mem_cons_self)).bind ?_
      intro next hnext
      exact ih (fun d' h' => h d' (List.mem_cons_of_mem d h')) next hnext
  exact run .zero (by rw [Decimal.value_zero]; exact .zero)

/-- The units of every scope of a period are a number of units. -/
theorem Period.ofDeals_isUnits {deals : List Deal} (h : ∀ d ∈ deals, d.IsRead) :
    Yields (Period.ofDeals deals) fun p =>
      p.delivered = Deal.delivered deals ∧ ∀ s, IsUnits (p.unitsOf s).value := by
  have hshare : ∀ d ∈ Deal.delivered deals, Deal.isShare d.count = true :=
    fun d hd => (h d (List.mem_of_mem_filter hd)).isShare
  have hseen : ∀ s, ∀ d ∈ Deal.seen s (Deal.delivered deals), Deal.isShare d.count = true :=
    fun s d hd => hshare d (Deal.mem_seen.1 hd).1
  unfold Period.ofDeals
  refine (Deal.unitCount_isUnits hshare).bind ?_
  intro all hall
  refine (Deal.unitCount_isUnits (hseen (.only .new))).bind ?_
  intro new hnew
  refine (Deal.unitCount_isUnits (hseen (.only .used))).bind ?_
  intro used hused
  refine .pure ⟨rfl, fun s => ?_⟩
  match s with
  | .all => exact hall
  | .only .new => exact hnew
  | .only .used => exact hused

end DealerPay
