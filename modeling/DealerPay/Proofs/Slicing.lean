import DealerPay.Proofs.Completion.Earning
import DealerPay.Proofs.Exact.Slicing
import DealerPay.Proofs.Layout
import DealerPay.Proofs.Units

/-!
# Lines of slices

What a rule with tiers shows that are paid slice by slice. Its tiers may be listed in any order,
overlap, leave gaps, start at the same number of units, and be open in the middle.

* `Terms.sliceLine` is the line of one slice. `Terms.book_unitTiers`: the rule books one for each
  slice.
* `Terms.PaysTranches` compares the slices and their lines with the tiers that the units reach: each
  tier is paid for the units that it covers and no tier before it does.
* `Terms.block_of_unitTiers`: every such rule shows the lines of the tiers that the units reach, but
  for those that pay nothing, in one piece of the breakdown.
-/

namespace DealerPay

variable {s : Scope} {sl : Tier.Slice} {line : LineItem} {tiers : List Tier} {period : Period}

/-! ## One slice -/

namespace Terms

/-- The line of a slice of the units of a scope. -/
def sliceLine (s : Scope) (sl : Tier.Slice) : Except Failure LineItem := do
  liftM (← sliceEarning (s.lead ++ "Unit Tier") sl).book

/-- The line of a slice is that of its earning. -/
theorem sliceLine_eq_ok :
    sliceLine s sl = .ok line ↔
      ∃ e, sliceEarning (s.lead ++ "Unit Tier") sl = .ok e ∧ e.book = .ok line := by
  unfold sliceLine
  simp only [bind_eq_ok, liftM_eq_ok]

/-- Every slice of units has a line. -/
theorem exists_sliceLine (s : Scope) (hu : |sl.units.value| ≤ 10 ^ 28)
    (hr : sl.tier.rate.IsAmount) : ∃ line, sliceLine s sl = .ok line := by
  have htwice : |sl.units.value| ≤ (2 : ℕ) * 10 ^ 28 := hu.trans (by norm_num)
  obtain ⟨e, hearned, he⟩ :=
    sliceEarning_bounded (s.lead ++ "Unit Tier") (by norm_num) htwice hr
  obtain ⟨cents, hcents, -⟩ := Decimal.toCents_of_abs_le (n := 2 * 10 ^ (28 + 15))
    (by exact_mod_cast he) (by norm_num)
  exact ⟨_, sliceLine_eq_ok.2 ⟨e, hearned, bind_eq_ok.2 ⟨cents, hcents, rfl⟩⟩⟩

/-- The line of a slice is shown if it pays something. -/
theorem isShown_of_sliceLine (h : sliceLine s sl = .ok line) :
    line.isShown = decide (line.amount.value ≠ 0) := by
  obtain ⟨e, he, hbook⟩ := sliceLine_eq_ok.1 h
  have hcategory : line.category = .commission := by
    rw [(Earning.book_eq_ok hbook).1, (earning_of_sliceEarning he).1]
  have hzero : line.amount.isZero = decide (line.amount.value = 0) := by
    rw [← Bool.coe_iff_coe, Decimal.isZero_iff, decide_eq_true_iff]
  simp [LineItem.isShown, LineItem.isBase, hcategory, hzero]

/-- The line of a slice of no units pays nothing. -/
theorem value_sliceLine_of_zero (h : sliceLine s sl = .ok line) (hu : sl.units.value = 0) :
    line.amount.value = 0 := by
  obtain ⟨e, he, hbook⟩ := sliceLine_eq_ok.1 h
  obtain ⟨shown, pay, -, hpay, rfl⟩ := sliceEarning_eq_ok.1 he
  have hzero : sl.units.value * sl.tier.rate.value = 0 := by rw [hu, zero_mul]
  have hfits : Decimal.working.Represents (sl.units.value * sl.tier.rate.value) :=
    hzero ▸ Decimal.working.represents_zero
  have hvalue : pay.value = 0 := by rw [(Decimal.mul_of_represents hfits).of_eq hpay, hzero]
  rw [Earning.value_of_book hbook]
  show nearestCent pay.value = 0
  rw [hvalue]
  exact nearestCent_of_cents (n := 0) (by norm_num)

/-! ## All slices -/

/-- A rule books the lines of the slices of its units. -/
theorem book_unitTiers {ss : List Tier.Slice} {lines : List LineItem}
    (hslices : Tier.slices (period.unitsOf s) tiers = .ok ss)
    (h : List.Forall₂ (fun sl line => sliceLine s sl = .ok line) ss lines) :
    (unitTiers s tiers false).book period = .ok lines := by
  obtain ⟨es, hes, hbook⟩ := forall₂_comp_iff.1 (h.imp fun _ _ => sliceLine_eq_ok.1)
  have hearnings : (unitTiers s tiers false).earnings period = .ok es :=
    bind_eq_ok.2 ⟨ss, liftM_eq_ok.2 hslices, mapM_eq_ok.2 hes⟩
  exact bind_eq_ok.2 ⟨es, hearnings, mapM_eq_ok.2 (hbook.imp fun _ _ => liftM_eq_ok.2)⟩

/-- Slices of no units may be put between the slices: their lines are not shown. -/
theorem exists_forall₂_filter {full : List Tier.Slice} {lines : List LineItem}
    (h0 : ∀ sl ∈ full, 0 ≤ sl.units.value)
    (h : List.Forall₂ (fun sl line => sliceLine s sl = .ok line) full lines) :
    ∃ items, List.Forall₂ (fun sl line => sliceLine s sl = .ok line)
        (full.filter fun sl => 0 < sl.units.value) items ∧
      items.filter LineItem.isShown = lines.filter fun line => line.amount.value ≠ 0 := by
  induction h with
  | nil => exact ⟨[], .nil, rfl⟩
  | @cons sl line full lines hline _ ih =>
    obtain ⟨hfirst, hrest⟩ := List.forall_mem_cons.1 h0
    obtain ⟨items, hitems, hshown⟩ := ih hrest
    rcases hfirst.eq_or_lt with hzero | hpos
    · have hvalue := value_sliceLine_of_zero hline hzero.symm
      refine ⟨items, ?_, ?_⟩
      · rwa [List.filter_cons_of_neg (by simp [← hzero])]
      · rwa [List.filter_cons_of_neg (by simp [hvalue])]
    · refine ⟨line :: items, ?_, ?_⟩
      · rw [List.filter_cons_of_pos (by simpa using hpos)]
        exact .cons hline hitems
      · rw [List.filter_cons, List.filter_cons, hshown, isShown_of_sliceLine hline]

end Terms

/-- Slices that take what is taken of some tiers, and no units of the others, are the ones that take
something. -/
theorem Tier.exists_slices {xs : List (Tier × ℚ)} (h0 : ∀ x ∈ xs, 0 ≤ x.2) {ss : List Slice}
    (h : ss.map Slice.exact = xs.filter fun x => 0 < x.2) :
    ∃ full : List Slice, full.map Slice.exact = xs ∧
      full.filter (fun sl => 0 < sl.units.value) = ss := by
  induction xs generalizing ss with
  | nil => exact ⟨[], rfl, (List.map_eq_nil_iff.1 h).symm⟩
  | cons x rest ih =>
    obtain ⟨hfirst, hrest⟩ := List.forall_mem_cons.1 h0
    rcases hfirst.eq_or_lt with hzero | hpos
    · rw [List.filter_cons_of_neg (by simp [← hzero])] at h
      obtain ⟨full, hfull, hss⟩ := ih hrest h
      refine ⟨⟨x.1, .zero⟩ :: full, ?_, ?_⟩
      · rw [List.map_cons, hfull, Slice.exact, Decimal.value_zero, hzero]
      · rw [List.filter_cons_of_neg (by simp), hss]
    · rw [List.filter_cons_of_pos (by simpa using hpos), List.map_eq_cons_iff] at h
      obtain ⟨sl, ss, rfl, hsl, hmap⟩ := h
      obtain ⟨full, hfull, hss⟩ := ih hrest hmap
      have hunits : 0 < sl.units.value := by
        rw [← hsl] at hpos
        exact hpos
      refine ⟨sl :: full, ?_, ?_⟩
      · rw [List.map_cons, hfull, hsl]
      · rw [List.filter_cons_of_pos (by simpa using hunits), hss]

/-! ## The tiers that are reached -/

/-- What is paid for units of a scope whose tiers are paid slice by slice, the units reaching some
of the tiers. -/
structure Terms.PaysTranches (s : Scope) (u : ℚ) (reached : List Tier) (slices : List Tier.Slice)
    (lines : List LineItem) : Prop where
  /-- The slices are what each tier covers and no tier before it does, where that is anything. -/
  slices_eq : slices.map Tier.Slice.exact =
    (Exact.tranches u reached).filter fun taken => 0 < taken.2
  /-- Together they are what all these tiers cover. -/
  sum_units : (slices.map fun sl => sl.units.value).sum = Exact.covered u reached
  /-- There is a line for each tier. -/
  length_lines : lines.length = reached.length
  /-- It pays the units that the tier covers and no tier before it does. -/
  line : ∀ (i : ℕ) (h : i < reached.length), ∃ (taken : Decimal) (line : LineItem),
    taken.value = Exact.tranche u reached i ∧
      Terms.sliceLine s ⟨reached[i], taken⟩ = .ok line ∧ lines[i]? = some line

namespace Exact

variable {u : ℚ}

/-- What a tier covers and none before it does is nothing, or a slice of the units. -/
theorem tranches_bounded (hu : 0 ≤ u) {taken : Tier × ℚ}
    (h : taken ∈ tranches u (reached Tier.lower u tiers)) :
    taken.1 ∈ tiers ∧ 0 ≤ taken.2 ∧ taken.2 ≤ u := by
  obtain ⟨⟨t, i⟩, hi, rfl⟩ := List.mem_map.1 h
  have hindex := List.mk_mem_zipIdx_iff_getElem?.1 hi
  have hnonneg := tranche_nonneg (u := u) (List.getElem?_eq_some_iff.1 hindex).1
  refine ⟨mem_of_mem_reached (List.mem_of_getElem? hindex), hnonneg, ?_⟩
  rcases hnonneg.eq_or_lt with hzero | hpos
  · rwa [← hzero]
  · have hmem : (t, tranche u (reached Tier.lower u tiers) i) ∈ slices u tiers := by
      rw [slices_eq hu]
      exact List.mem_filter.2 ⟨h, by simpa using hpos⟩
    exact (mem_slices hmem).2.2

end Exact

/-- Slices of what each tier covers and none before it does are paid by these tiers. -/
theorem Terms.paysTranches {u : ℚ} (hu : 0 ≤ u) {full : List Tier.Slice} {lines : List LineItem}
    (hfull : full.map Tier.Slice.exact = Exact.tranches u (Exact.reached Tier.lower u tiers))
    (h : List.Forall₂ (fun sl line => sliceLine s sl = .ok line) full lines) :
    PaysTranches s u (Exact.reached Tier.lower u tiers)
      (full.filter fun sl => 0 < sl.units.value) lines := by
  have hslices : (full.filter fun sl => 0 < sl.units.value).map Tier.Slice.exact =
      Exact.slices u tiers := by
    rw [Exact.slices_eq hu, ← hfull, List.filter_map]
    rfl
  have hlength : full.length = (Exact.reached Tier.lower u tiers).length := by
    rw [← Exact.length_tranches u, ← hfull, List.length_map]
  refine ⟨by rw [hslices, Exact.slices_eq hu], ?_, h.length_eq ▸ hlength, fun i hi => ?_⟩
  · rw [← Exact.sum_slices hu, ← hslices, List.map_map]
    rfl
  · have hi' : i < full.length := hlength ▸ hi
    have hi'' : i < lines.length := h.length_eq ▸ hi'
    have hline := h.get hi' hi''
    have hsl : full[i].exact = ((Exact.reached Tier.lower u tiers)[i],
        Exact.tranche u (Exact.reached Tier.lower u tiers) i) := by
      have hget := Exact.getElem?_tranches (u := u) hi
      rw [← hfull, List.getElem?_map, List.getElem?_eq_getElem hi'] at hget
      exact Option.some.inj hget
    refine ⟨full[i].units, lines[i], congrArg Prod.snd hsl, ?_, List.getElem?_eq_getElem hi''⟩
    have htier : full[i].tier = (Exact.reached Tier.lower u tiers)[i] := congrArg Prod.fst hsl
    rw [← htier]
    exact hline

/-- A rule whose tiers are paid slice by slice pays them tier by tier, if the slices are cut without
rounding. It shows a line for each tier, but for those that pay nothing. -/
theorem Terms.exists_paysTranches {r : Rule} (hread : r.IsRead)
    (hterms : r.terms = .unitTiers s tiers false) {deals : List Deal}
    (hperiod : Period.ofDeals deals = .ok period) (hu : IsUnits (period.unitsOf s).value)
    {P : ℚ → Prop} (hP : Spaced P)
    (hceil : ∀ t ∈ tiers, P (Exact.ceiling t (period.unitsOf s).value)) :
    ∃ slices lines, Tier.slices (period.unitsOf s) tiers = .ok slices ∧
      PaysTranches s (period.unitsOf s).value
        (Exact.reached Tier.lower (period.unitsOf s).value tiers) slices lines ∧
      r.terms.block (Deal.delivered deals) =
        .ok (lines.filter fun line => line.amount.value ≠ 0) := by
  obtain ⟨ss, hss, hexact⟩ := Tier.slices_exact_of_spaced hP hceil
  rw [Exact.slices_eq hu.nonneg] at hexact
  obtain ⟨full, hfull, rfl⟩ :=
    Tier.exists_slices (fun x hx => (Exact.tranches_bounded hu.nonneg hx).2.1) hexact
  have hmem : ∀ sl ∈ full, sl.tier ∈ tiers ∧ 0 ≤ sl.units.value ∧
      sl.units.value ≤ (period.unitsOf s).value := by
    intro sl hsl
    have htaken := List.mem_map_of_mem (f := Tier.Slice.exact) hsl
    rw [hfull] at htaken
    exact Exact.tranches_bounded hu.nonneg htaken
  -- every tier that is reached has a line, also one whose slice takes nothing
  have hline : ∀ sl ∈ full, Yields (sliceLine s sl) fun line => sliceLine s sl = .ok line := by
    intro sl hsl
    obtain ⟨htier, h0, hle⟩ := hmem sl hsl
    have hrate : sl.tier.rate.IsAmount := by
      apply hread.isAmount
      rw [hterms]
      exact List.mem_flatMap.2 ⟨sl.tier, htier, by simp [Tier.figures]⟩
    obtain ⟨line, hline⟩ := exists_sliceLine s
      (by rw [abs_of_nonneg h0]; exact hle.trans hu.le) hrate
    exact ⟨line, hline, hline⟩
  obtain ⟨lines, -, hlines⟩ := Yields.mapM hline
  obtain ⟨items, hitems, hshown⟩ := exists_forall₂_filter (fun sl hsl => (hmem sl hsl).2.1) hlines
  refine ⟨_, lines, hss, paysTranches hu.nonneg hfull hlines, ?_⟩
  rw [← hshown, hterms]
  exact block_eq_ok hperiod (book_unitTiers hss hitems)

/-- A rule whose tiers are paid slice by slice shows a line for each tier that the units reach, in
the order of their lower bounds, but for those that pay nothing. Each pays the units that the tier
covers and no tier before it does, and all slices together are never more than the units. In every
breakdown these lines stand in one piece. -/
theorem Terms.block_of_unitTiers {r : Rule} (hread : r.IsRead)
    (hterms : r.terms = .unitTiers s tiers false)
    (hupper : ∀ t ∈ tiers, ∀ x ∈ t.upper, x.IsOrdinary) {deals : List Deal}
    (hdeals : ∀ d ∈ deals, d.IsRead) :
    ∃ period, Period.ofDeals deals = .ok period ∧
      ((period.unitsOf s).value < 10 ^ 5 → ∃ slices lines,
        Tier.slices (period.unitsOf s) tiers = .ok slices ∧
        Terms.PaysTranches s (period.unitsOf s).value
          (Exact.reached Tier.lower (period.unitsOf s).value tiers) slices lines ∧
        (slices.map fun sl => sl.units.value).sum ≤ (period.unitsOf s).value ∧
        r.terms.block (Deal.delivered deals) =
          .ok (lines.filter fun line => line.amount.value ≠ 0) ∧
        ∀ (p : Plan) (b : Breakdown), r ∈ p.rules → p.evaluate deals = .ok b →
          (lines.filter fun line => line.amount.value ≠ 0) <:+: b.items) := by
  obtain ⟨period, hperiod, -, hunits⟩ := Period.ofDeals_isUnits hdeals
  refine ⟨period, hperiod, fun hlt => ?_⟩
  have hu := hunits s
  have hgrid : OnGrid 4 (10 ^ 16) (period.unitsOf s).value :=
    ((hu.onGrid (m := 10 ^ 5) (by exact_mod_cast hlt.le)).finer 3).mono (by norm_num)
  obtain ⟨slices, lines, hslices, hpays, hblock⟩ := exists_paysTranches hread hterms hperiod hu
    (spaced_onGrid (by norm_num) (by norm_num)) fun t ht => Exact.onGrid_ceiling (hupper t ht) hgrid
  refine ⟨slices, lines, hslices, hpays, hpays.sum_units ▸ Exact.covered_le _ _, hblock, ?_⟩
  intro p b hr hb
  obtain ⟨⟨blocks, added, l⟩, -⟩ := Plan.layout_of_evaluate hb
  exact l.isInfix_of_block hr hblock

/-- Tiers that are out of order, overlap, leave a gap and start at the same number of units, one of
them open in the middle. -/
def Tier.overlapping : List Tier :=
  [⟨.ofNat 3, some (.ofNat 4), .ofNat 20⟩, ⟨.ofNat 1, some ⟨false, 25, -1⟩, .ofNat 10⟩,
    ⟨.ofNat 1, some (.ofNat 2), .ofNat 15⟩, ⟨.ofNat 4, none, .ofNat 30⟩,
    ⟨.ofNat 4, some (.ofNat 9), .ofNat 40⟩]

/-- A rule with these tiers. -/
def Rule.overlapping : Rule := ⟨"", .unitTiers .all Tier.overlapping false⟩

/-- The rule was read. -/
theorem Rule.isRead_overlapping : Rule.overlapping.IsRead := by
  refine ⟨.direct, .unitTiers, [("tiers", .list
    [.object [("from", .int 3), ("to", .int 4), ("amount", .int 20)],
      .object [("from", .int 1), ("to", .text "2.5"), ("amount", .int 10)],
      .object [("from", .int 1), ("to", .int 2), ("amount", .int 15)],
      .object [("from", .int 4), ("amount", .int 30)],
      .object [("from", .int 4), ("to", .int 9), ("amount", .int 40)]])], ?_⟩
  exact Reading.result?_eq_some_iff.1 (by decide +kernel)

/-- Half of a vehicle. -/
def Deal.split : Deal := { Deal.plain with count := .half }

/-- Some vehicles and half of one. -/
def Deal.wholesAndSplit (n : ℕ) : List Deal := List.replicate n Deal.plain ++ [Deal.split]

/-- These deals were read. -/
theorem Deal.isRead_of_mem_wholesAndSplit (n : ℕ) : ∀ d ∈ Deal.wholesAndSplit n, d.IsRead := by
  have hplain : Deal.plain.IsRead := ⟨[], Reading.result?_eq_some_iff.1 (by decide +kernel)⟩
  have hsplit : Deal.split.IsRead :=
    ⟨[("count", .text "0.5")], Reading.result?_eq_some_iff.1 (by decide +kernel)⟩
  intro d hd
  rcases List.mem_append.1 hd with hd | hd
  · rwa [List.eq_of_mem_replicate hd]
  · rwa [List.mem_singleton.1 hd]

/-- Of four and a half units, the first tier pays two and a half, the second nothing, and the third
goes on behind the gap; the open tier leaves nothing to the last one. -/
theorem Rule.block_overlapping :
    Rule.overlapping.IsRead ∧ (∀ t ∈ Tier.overlapping, ∀ x ∈ t.upper, x.IsOrdinary) ∧
      (∀ d ∈ Deal.wholesAndSplit 4, d.IsRead) ∧
      ∃ period, Period.ofDeals (Deal.wholesAndSplit 4) = .ok period ∧
        (period.unitsOf .all).value < 10 ^ 5 ∧
        (∃ slices lines, Tier.slices (period.unitsOf .all) Tier.overlapping = .ok slices ∧
          Terms.PaysTranches .all (period.unitsOf .all).value
            (Exact.reached Tier.lower (period.unitsOf .all).value Tier.overlapping) slices lines) ∧
        Rule.overlapping.terms.block (Deal.wholesAndSplit 4) =
          .ok [⟨"Unit Tier (2.5 @ $10/ea)", ⟨false, 2500, -2⟩, .commission⟩,
            ⟨"Unit Tier (1.5 @ $20/ea)", ⟨false, 3000, -2⟩, .commission⟩,
            ⟨"Unit Tier (0.5 @ $30/ea)", ⟨false, 1500, -2⟩, .commission⟩] := by
  have hupper : ∀ t ∈ Tier.overlapping, ∀ x ∈ t.upper, x.IsOrdinary := by
    have hdigits : ∀ t ∈ Tier.overlapping, ∀ x ∈ t.upper.toList, x.HasOrdinaryDigits := by
      decide +kernel
    exact fun t ht x hx => (hdigits t ht x (Option.mem_toList.2 hx)).isOrdinary
  have hdeals := Deal.isRead_of_mem_wholesAndSplit 4
  obtain ⟨period, hperiod, hpays⟩ :=
    Terms.block_of_unitTiers Rule.isRead_overlapping rfl hupper hdeals
  have hunits : (period.unitsOf .all).value < 10 ^ 5 := by
    have hone : Period.ofDeals (Deal.wholesAndSplit 4) =
        .ok ⟨Deal.wholesAndSplit 4, ⟨false, 45, -1⟩, ⟨false, 45, -1⟩, .zero⟩ :=
      eq_ok_of_toOption (by decide +kernel)
    cases hone.symm.trans hperiod
    norm_num [Period.unitsOf, Decimal.value, Decimal.digits]
  obtain ⟨slices, lines, hslices, hlines, -, -, -⟩ := hpays hunits
  exact ⟨Rule.isRead_overlapping, hupper, hdeals, period, hperiod, hunits,
    ⟨slices, lines, hslices, hlines⟩, eq_ok_of_toOption (by decide +kernel)⟩

end DealerPay
