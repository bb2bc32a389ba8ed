import DealerPay.Proofs.Slicing

/-!
# Brackets of whole units

Tiers that are listed as brackets of whole units: `1` to `8`, `9` to `12`, and so on. Units are
whole numbers and halves, and a tier is only paid for units that reach its lower bound. So half a
unit beyond the end of a bracket is not paid by any tier.

* `Tier.AreBrackets` are such tiers, and `Tier.Between` says that some number of units lies between
  the end of a bracket and the beginning of the next.
* `Exact.covered_of_brackets`: brackets cover all units from the first lower bound on, unless they
  lie between two of them; then they cover all but one half.
* `Terms.units_of_brackets`: that is what a rule with such tiers pays, for any number of deals.
  `unpricedHalf` is a plan that leaves a half unpaid.
-/

namespace DealerPay

namespace Tier

/-- Whether a tier begins one unit above the end of another one, which is a whole number. -/
def Continues (t t' : Tier) : Prop :=
  ∃ upper ∈ t.upper, (∃ n : ℤ, upper.value = n) ∧ t'.lower.value = upper.value + 1

/-- Whether tiers are brackets of whole units: each begins one unit above the end of the one before
it, and the last one is open. -/
structure AreBrackets (tiers : List Tier) : Prop where
  /-- Each begins one unit above the end of the one before it. -/
  chain : tiers.IsChain Continues
  /-- The last one is open. -/
  last : ∃ t, tiers.getLast? = some t ∧ t.upper = none

/-- Whether units lie beyond the end of one of the tiers, but by less than one. -/
def Between (u : ℚ) (tiers : List Tier) : Prop :=
  ∃ t ∈ tiers, ∃ upper ∈ t.upper, upper.value < u ∧ u < upper.value + 1

/-- Units lie beyond the end of the first tier or of one of the others. -/
theorem between_cons {u : ℚ} {t : Tier} {upper : Decimal} (h : upper ∈ t.upper)
    {tiers : List Tier} :
    Between u (t :: tiers) ↔ (upper.value < u ∧ u < upper.value + 1) ∨ Between u tiers := by
  constructor
  · rintro ⟨x, hx, upper', hupper', hu⟩
    rcases List.mem_cons.1 hx with rfl | hx
    · cases h.symm.trans hupper'
      exact .inl hu
    · exact .inr ⟨x, hx, upper', hupper', hu⟩
  · rintro (hu | ⟨x, hx, hu⟩)
    · exact ⟨t, List.mem_cons_self, upper, h, hu⟩
    · exact ⟨x, List.mem_cons_of_mem t hx, hu⟩

/-- Units do not lie behind tiers that they do not reach. -/
theorem not_between_of_lt {u : ℚ} {tiers : List Tier} (hwell : ∀ t ∈ tiers, t.IsWellFormed)
    (h : ∀ t ∈ tiers, u < t.lower.value) : ¬ Between u tiers := by
  rintro ⟨t, ht, upper, hupper, hlow, -⟩
  have hend : t.lower.value ≤ upper.value := (hwell t ht).upper upper hupper
  linarith [h t ht]

/-- Brackets end at whole numbers. -/
theorem AreBrackets.exists_int {tiers : List Tier} (h : AreBrackets tiers) :
    ∀ t ∈ tiers, ∀ upper ∈ t.upper, ∃ n : ℤ, upper.value = n := by
  obtain ⟨hchain, last, hlast, hopen⟩ := h
  induction hchain with
  | nil => simp
  | singleton t =>
    rw [List.getLast?_singleton, Option.some.injEq] at hlast
    simp [hlast, hopen]
  | @cons_cons t t' rest hnext _ ih =>
    refine List.forall_mem_cons.2 ⟨?_, ih (by rwa [List.getLast?_cons_cons] at hlast)⟩
    obtain ⟨upper, hupper, hwhole, -⟩ := hnext
    intro x hx
    cases hupper.symm.trans hx
    exact hwhole

end Tier

/-! ## What brackets cover -/

namespace Exact

variable {u : ℚ} {tiers : List Tier}

/-- Units that lie between brackets are half a unit beyond the end of one. -/
theorem eq_add_half {x : ℚ} {m : ℤ} {n : ℕ} (hx : x = m) (hu : u = n / 2) (hlt : x < u)
    (hlt' : u < x + 1) : u = x + 1 / 2 := by
  subst hx hu
  have h1 : (2 * m : ℚ) < n := by linarith
  have h2 : (n : ℚ) < 2 * m + 2 := by linarith
  have h1z : 2 * m < n := by exact_mod_cast h1
  have h2z : (n : ℤ) < 2 * m + 2 := by exact_mod_cast h2
  have hn : (n : ℤ) = 2 * m + 1 := by omega
  have hnq : (n : ℚ) = 2 * m + 1 := by exact_mod_cast hn
  linarith

/-- Whether a number is all of some units, or a whole number of them. -/
def IsAllOrWhole (u x : ℚ) : Prop := x ≤ u ∧ (x = u ∨ ∃ n : ℕ, x = n)

/-- The ceiling of a bracket is all of the units or a whole number of them. -/
theorem ceiling_of_brackets (hb : Tier.AreBrackets tiers) (hwell : ∀ t ∈ tiers, t.IsWellFormed)
    {t : Tier} (ht : t ∈ tiers) (u : ℚ) : IsAllOrWhole u (ceiling t u) := by
  refine ⟨ceiling_le t u, ?_⟩
  unfold ceiling
  cases hupper : t.upper with
  | none => exact .inl rfl
  | some upper =>
    obtain ⟨n, hn⟩ := hb.exists_int t ht upper hupper
    have hn0 : (0 : ℚ) ≤ n := hn ▸ (hwell t ht).lower.trans ((hwell t ht).upper upper hupper)
    lift n to ℕ using by exact_mod_cast hn0
    rcases min_choice u upper.value with h | h
    · exact .inl h
    · exact .inr ⟨n, h.trans (by exact_mod_cast hn)⟩

/-- The last one of the brackets that units reach covers them, but for one half where they lie
between it and the next one. -/
theorem covered_of_last_reached {t : Tier} {upper : Decimal} (hupper : upper ∈ t.upper)
    (hwell : t.IsWellFormed) {m : ℤ} (hm : upper.value = m) {n : ℕ} (hu : u = n / 2)
    (hnext : u < upper.value + 1) :
    (¬upper.value < u → covered u [t] = u) ∧ (upper.value < u → covered u [t] = u - 1 / 2) := by
  have hnonneg : 0 ≤ u := by
    rw [hu]
    positivity
  have hupper0 : 0 ≤ upper.value := hwell.lower.trans (hwell.upper upper hupper)
  rw [Option.mem_def] at hupper
  rw [covered_cons, covered_nil hnonneg, ceiling, hupper, max_eq_left (le_min hnonneg hupper0)]
  constructor
  · intro h
    exact min_eq_left (not_lt.1 h)
  · intro h
    rw [min_eq_right h.le, eq_add_half hm hu h hnext]
    ring

/-- Brackets cover all units from the first lower bound on, but for one half where the units lie
between two of them. -/
theorem covered_of_brackets (hb : Tier.AreBrackets tiers)
    (hwell : ∀ t ∈ tiers, t.IsWellFormed)
    (hsorted : tiers.Pairwise fun t t' => t.lower.value ≤ t'.lower.value) {n : ℕ}
    (hu : u = n / 2) (hfirst : ∀ t ∈ tiers.head?, t.lower.value ≤ u) :
    (¬ Tier.Between u tiers → covered u (tiers.filter fun t => t.lower.value ≤ u) = u) ∧
      (Tier.Between u tiers →
        covered u (tiers.filter fun t => t.lower.value ≤ u) = u - 1 / 2) := by
  have hnonneg : 0 ≤ u := by
    rw [hu]
    positivity
  obtain ⟨hchain, last, hlast, hopen⟩ := hb
  induction hchain with
  | nil => cases hlast
  | singleton t =>
    rw [List.getLast?_singleton, Option.some.injEq] at hlast
    subst hlast
    have hreach : t.lower.value ≤ u := hfirst t rfl
    have hcovered : covered u [t] = u := by
      rw [covered_cons, covered_nil hnonneg, ceiling, hopen]
      exact max_eq_left hnonneg
    rw [List.filter_cons_of_pos (by simpa using hreach), List.filter_nil, hcovered]
    refine ⟨fun _ => rfl, ?_⟩
    rintro ⟨t', ht', upper, hupper, -⟩
    rw [List.mem_singleton.1 ht', hopen] at hupper
    cases hupper
  | @cons_cons t t' rest hnext _ ih =>
    obtain ⟨hwellt, hwellrest⟩ := List.forall_mem_cons.1 hwell
    obtain ⟨-, hsortedrest⟩ := List.pairwise_cons.1 hsorted
    obtain ⟨upper, hupper, ⟨m, hm⟩, hlower⟩ := hnext
    have hreach : t.lower.value ≤ u := hfirst t rfl
    rw [List.filter_cons_of_pos (by simpa using hreach), Tier.between_cons hupper]
    rcases le_or_gt t'.lower.value u with hreach' | hlt
    · -- the units reach the next bracket, and this one covers less than those behind it
      have hceil : ceiling t u = upper.value := by
        rw [ceiling, hupper]
        exact min_eq_right (by linarith)
      have hnot : ¬ (upper.value < u ∧ u < upper.value + 1) := by
        rintro ⟨-, h⟩
        linarith
      obtain ⟨hall, hhalf⟩ := ih hwellrest hsortedrest
        (fun x hx => by cases hx; exact hreach') (by rwa [List.getLast?_cons_cons] at hlast)
      rw [covered_cons, hceil]
      constructor
      · intro h
        rw [hall fun h' => h (.inr h')]
        exact max_eq_right (by linarith)
      · intro h
        rw [hhalf (h.resolve_left hnot)]
        exact max_eq_right (by linarith)
    · -- this is the last bracket that the units reach
      have hbeyond : ∀ x ∈ t' :: rest, u < x.lower.value := by
        intro x hx
        rcases List.mem_cons.1 hx with rfl | hx
        · exact hlt
        · exact hlt.trans_le ((List.pairwise_cons.1 hsortedrest).1 x hx)
      have hnone : (t' :: rest).filter (fun x => x.lower.value ≤ u) = [] :=
        List.filter_eq_nil_iff.2 fun x hx => by simpa using hbeyond x hx
      have hnext : u < upper.value + 1 := by linarith
      rw [hnone, or_iff_left (Tier.not_between_of_lt hwellrest hbeyond), and_iff_left hnext]
      exact covered_of_last_reached hupper hwellt hm hu hnext

end Exact

/-! ## What brackets pay -/

/-- Some units and the whole numbers up to them are apart by what can be written. -/
theorem IsUnits.spaced {u : ℚ} (h : IsUnits u) : Spaced (Exact.IsAllOrWhole u) where
  zero := ⟨h.nonneg, .inr ⟨0, by simp⟩⟩
  sub := by
    rintro x y ⟨hx, rfl | ⟨n, rfl⟩⟩ ⟨hy, rfl | ⟨m, rfl⟩⟩
    · rw [sub_self]
      exact Decimal.working.represents_zero
    · exact h.represents_sub hy
    · rw [← neg_sub]
      exact (h.represents_sub hx).neg
    · have hle := h.le
      have hn : n ≤ 10 ^ 28 := by exact_mod_cast hx.trans hle
      have hm : m ≤ 10 ^ 28 := by exact_mod_cast hy.trans hle
      rcases le_total m n with hmn | hnm
      · have hsub : (n : ℚ) - m = ((n - m : ℕ) : ℚ) := by push_cast [hmn]; ring
        rw [hsub]
        exact represents_natCast (by omega)
      · have hsub : (n : ℚ) - m = -((m - n : ℕ) : ℚ) := by push_cast [hnm]; ring
        rw [hsub]
        exact (represents_natCast (by omega)).neg

variable {s : Scope} {tiers : List Tier}

/-- A rule whose tiers are brackets of whole units, paid slice by slice, pays all units from the
first lower bound on, unless they lie between two brackets. Then it pays all but one half. -/
theorem Terms.units_of_brackets {r : Rule} (hread : r.IsRead) (hsound : r.isSound = true)
    (hterms : r.terms = .unitTiers s tiers false) (hb : Tier.AreBrackets (Tier.sorted tiers))
    {deals : List Deal} (hdeals : ∀ d ∈ deals, d.IsRead) :
    ∃ period, Period.ofDeals deals = .ok period ∧
      ((∀ t ∈ (Tier.sorted tiers).head?, t.lower.value ≤ (period.unitsOf s).value) →
        ∃ slices lines, Tier.slices (period.unitsOf s) tiers = .ok slices ∧
          Terms.PaysTranches s (period.unitsOf s).value
            (Exact.reached Tier.lower (period.unitsOf s).value tiers) slices lines ∧
          r.terms.block (Deal.delivered deals) =
            .ok (lines.filter fun line => line.amount.value ≠ 0) ∧
          ((slices.map fun sl => sl.units.value).sum = (period.unitsOf s).value ↔
            ¬ Tier.Between (period.unitsOf s).value (Tier.sorted tiers)) ∧
          (Tier.Between (period.unitsOf s).value (Tier.sorted tiers) →
            (slices.map fun sl => sl.units.value).sum = (period.unitsOf s).value - 1 / 2)) := by
  obtain ⟨period, hperiod, -, hunits⟩ := Period.ofDeals_isUnits hdeals
  refine ⟨period, hperiod, fun hfirst => ?_⟩
  have hu := hunits s
  have hperm := sortByBound_perm Tier.lower tiers
  have hwell : ∀ t ∈ Tier.sorted tiers, t.IsWellFormed := by
    have h := Rule.isSound_iff.1 hsound
    rw [hterms] at h
    exact fun t ht => h t (hperm.mem_iff.1 ht)
  have hceil : ∀ t ∈ tiers, Exact.IsAllOrWhole (period.unitsOf s).value
      (Exact.ceiling t (period.unitsOf s).value) :=
    fun t ht => Exact.ceiling_of_brackets hb hwell (hperm.mem_iff.2 ht) _
  obtain ⟨slices, lines, hslices, hpays, hblock⟩ :=
    exists_paysTranches hread hterms hperiod hu hu.spaced hceil
  obtain ⟨n, hn⟩ := hu.halves
  obtain ⟨hall, hhalf⟩ := Exact.covered_of_brackets hb hwell
    (by rw [Tier.sorted, sortByBound_eq]; exact Exact.pairwise_sortedBy _ _) hn hfirst
  have hsum : (slices.map fun sl => sl.units.value).sum =
      Exact.covered (period.unitsOf s).value
        ((Tier.sorted tiers).filter fun t => t.lower.value ≤ (period.unitsOf s).value) := by
    rw [hpays.sum_units, Tier.sorted, sortByBound_eq]
    rfl
  refine ⟨slices, lines, hslices, hpays, hblock, ⟨?_, ?_⟩, ?_⟩
  · intro h hbetween
    rw [hsum, hhalf hbetween] at h
    linarith
  · intro h
    rw [hsum, hall h]
  · intro h
    rw [hsum, hhalf h]

/-! ## Half a unit that no bracket takes -/

/-- Two brackets. -/
def Tier.twoBrackets : List Tier :=
  [⟨.ofNat 1, some (.ofNat 8), .ofNat 100⟩, ⟨.ofNat 9, none, .ofNat 150⟩]

/-- A rule with these brackets. -/
def Rule.bracketed : Rule := ⟨"", .unitTiers .all Tier.twoBrackets false⟩

/-- The rule was read. -/
theorem Rule.isRead_bracketed : Rule.bracketed.IsRead :=
  ⟨.direct, .unitTiers, [("tiers", .list
    [.object [("from", .int 1), ("to", .int 8), ("amount", .int 100)],
      .object [("from", .int 9), ("amount", .int 150)]])],
    Reading.result?_eq_some_iff.1 (by decide +kernel)⟩

/-- Its tiers are brackets. -/
theorem Tier.areBrackets_twoBrackets : Tier.AreBrackets (Tier.sorted Tier.twoBrackets) where
  chain := by
    have hsorted : Tier.sorted Tier.twoBrackets = Tier.twoBrackets := by decide +kernel
    rw [hsorted, twoBrackets, List.isChain_cons_cons]
    refine ⟨⟨.ofNat 8, rfl, ⟨8, ?_⟩, ?_⟩, List.isChain_singleton _⟩ <;>
      norm_num [Decimal.value, Decimal.digits, Decimal.ofNat]
  last := ⟨⟨.ofNat 9, none, .ofNat 150⟩, by decide +kernel, rfl⟩

/-- Nine and a half units lie in the second bracket and are paid in full. -/
theorem Rule.units_bracketed :
    Rule.bracketed.IsRead ∧ Rule.bracketed.isSound = true ∧
      Tier.AreBrackets (Tier.sorted Tier.twoBrackets) ∧
      (∀ d ∈ Deal.wholesAndSplit 9, d.IsRead) ∧
      ∃ period, Period.ofDeals (Deal.wholesAndSplit 9) = .ok period ∧
        (∀ t ∈ (Tier.sorted Tier.twoBrackets).head?,
          t.lower.value ≤ (period.unitsOf .all).value) ∧
        ¬ Tier.Between (period.unitsOf .all).value (Tier.sorted Tier.twoBrackets) ∧
        ∃ slices, Tier.slices (period.unitsOf .all) Tier.twoBrackets = .ok slices ∧
          (slices.map fun sl => sl.units.value).sum = (period.unitsOf .all).value := by
  have hsound : Rule.bracketed.isSound = true := by decide +kernel
  have hdeals := Deal.isRead_of_mem_wholesAndSplit 9
  obtain ⟨period, hperiod, hunits⟩ := Terms.units_of_brackets Rule.isRead_bracketed hsound rfl
    Tier.areBrackets_twoBrackets hdeals
  have hsorted : Tier.sorted Tier.twoBrackets = Tier.twoBrackets := by decide +kernel
  have hvalue : (period.unitsOf .all).value = 19 / 2 := by
    have hone : Period.ofDeals (Deal.wholesAndSplit 9) =
        .ok ⟨Deal.wholesAndSplit 9, ⟨false, 95, -1⟩, ⟨false, 95, -1⟩, .zero⟩ :=
      eq_ok_of_toOption (by decide +kernel)
    cases hone.symm.trans hperiod
    norm_num [Period.unitsOf, Decimal.value, Decimal.digits]
  have hfirst : ∀ t ∈ (Tier.sorted Tier.twoBrackets).head?,
      t.lower.value ≤ (period.unitsOf .all).value := by
    rw [hsorted, hvalue]
    rintro t ⟨⟩
    norm_num [Decimal.value, Decimal.digits, Decimal.ofNat]
  have hbetween : ¬ Tier.Between (period.unitsOf .all).value (Tier.sorted Tier.twoBrackets) := by
    rw [hsorted, hvalue]
    rintro ⟨t, ht, upper, hupper, -, hlt⟩
    simp only [Tier.twoBrackets, List.mem_cons, List.not_mem_nil, or_false] at ht
    rcases ht with rfl | rfl
    · cases hupper
      norm_num [Decimal.value, Decimal.digits, Decimal.ofNat] at hlt
    · cases hupper
  obtain ⟨slices, lines, hslices, -, -, hsum, -⟩ := hunits hfirst
  exact ⟨Rule.isRead_bracketed, hsound, Tier.areBrackets_twoBrackets, hdeals, period, hperiod,
    hfirst, hbetween, slices, hslices, hsum.2 hbetween⟩

/-- A plan with these brackets. -/
def unpricedHalf : Plan where
  rules := [Rule.bracketed]
  sound := by decide +kernel

/-- What the plan pays for eight vehicles and half of one: nothing for the half. -/
def unpricedHalfPay : Breakdown where
  items := [⟨"Unit Tier (8.0 @ $100/ea)", ⟨false, 80000, -2⟩, .commission⟩]
  totalPay := ⟨false, 80000, -2⟩
  totalUnits := ⟨false, 85, -1⟩
  totalGross := .zero
  commission := ⟨false, 80000, -2⟩
  bonus := .zero
  basePay := .zero
  isDraw := false
  warnings := []

/-- Half a unit beyond the end of a bracket is not paid: the slices of eight and a half units are
eight units. -/
theorem unpricedHalf_leaves_half :
    Rule.bracketed.IsRead ∧ Tier.AreBrackets (Tier.sorted Tier.twoBrackets) ∧
      (∀ d ∈ Deal.wholesAndSplit 8, d.IsRead) ∧
      unpricedHalf.evaluate (Deal.wholesAndSplit 8) = .ok unpricedHalfPay ∧
      ∃ period slices, Period.ofDeals (Deal.wholesAndSplit 8) = .ok period ∧
        (∀ t ∈ (Tier.sorted Tier.twoBrackets).head?,
          t.lower.value ≤ (period.unitsOf .all).value) ∧
        Tier.slices (period.unitsOf .all) Tier.twoBrackets = .ok slices ∧
        (slices.map fun sl => sl.units.value).sum ≠ (period.unitsOf .all).value := by
  have hsorted : Tier.sorted Tier.twoBrackets = Tier.twoBrackets := by decide +kernel
  refine ⟨Rule.isRead_bracketed, Tier.areBrackets_twoBrackets,
    Deal.isRead_of_mem_wholesAndSplit 8, eq_ok_of_toOption (by decide +kernel),
    ⟨Deal.wholesAndSplit 8, ⟨false, 85, -1⟩, ⟨false, 85, -1⟩, .zero⟩,
    [⟨⟨.ofNat 1, some (.ofNat 8), .ofNat 100⟩, .ofNat 8⟩],
    eq_ok_of_toOption (by decide +kernel), ?_, eq_ok_of_toOption (by decide +kernel), ?_⟩
  · rw [hsorted]
    rintro t ⟨⟩
    norm_num [Period.unitsOf, Decimal.value, Decimal.digits, Decimal.ofNat]
  · norm_num [Period.unitsOf, Decimal.value, Decimal.digits, Decimal.ofNat]

end DealerPay
