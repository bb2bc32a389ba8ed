import DealerPay.Proofs.Aggregates
import DealerPay.Proofs.Completion.Projection
import DealerPay.Proofs.Growth

/-!
# Projections by units

A projection counts whole units and half a unit for any fraction, at the gross of each unit, and
whoever is projected to sell more is paid no less.

* `Projection.deals_exact`: the projected deals are a whole one for each whole unit and a half one
  for a fraction (`Projection.dealsOf`), whatever is written for the units.
* `Projection.total_dealsOf`: a sum over them is that of one whole deal, times the units that are
  counted (`Projection.counted`).
* `Projection.grows_dealsOf`: with more units the deals grow. Where a whole unit is reached, the
  half deal grows into a whole one.
* `Plan.project_exact` evaluates the deals over the rationals, and `Plan.project_by_units` says what
  is reported for units as they are handed over.
-/

namespace DealerPay

/-! ## Figures -/

/-- Whether a figure is in whole cents, of size below ten million. -/
def Decimal.IsPrice (d : Decimal) : Prop := (∃ n : ℤ, d.value = n / 100) ∧ |d.value| < 10 ^ 7

namespace Decimal

variable {d : Decimal}

/-- A price is an ordinary figure. -/
theorem IsPrice.isOrdinary (h : d.IsPrice) : d.IsOrdinary := by
  obtain ⟨⟨n, hn⟩, hlt⟩ := h
  refine ⟨⟨n * 100, ?_⟩, hlt⟩
  rw [hn]
  push_cast
  ring

/-- Nothing is an ordinary figure. -/
theorem isOrdinary_zero : Decimal.zero.IsOrdinary :=
  HasOrdinaryDigits.isOrdinary (by decide +kernel)

/-- One is an ordinary figure. -/
theorem isOrdinary_one : Decimal.one.IsOrdinary :=
  HasOrdinaryDigits.isOrdinary (by decide +kernel)

/-- One half is an ordinary figure. -/
theorem isOrdinary_half : Decimal.half.IsOrdinary :=
  HasOrdinaryDigits.isOrdinary (by decide +kernel)

/-- Half of a price is exact, and an ordinary figure. -/
theorem IsPrice.half (h : d.IsPrice) :
    Yields (d.mul Decimal.half) fun r => r.value + r.value = d.value ∧ r.IsOrdinary := by
  have hhalf : OnGrid 1 5 Decimal.half.value := ⟨5, by norm_num, by norm_num⟩
  refine (Decimal.mul_of_onGrid h.isOrdinary.onGrid hhalf (by norm_num) (by norm_num)).mono ?_
  intro r hr
  rw [value_half] at hr
  obtain ⟨⟨n, hn⟩, hlt⟩ := h
  refine ⟨by rw [hr]; ring, ⟨n * 50, ?_⟩, ?_⟩
  · rw [hr, hn]
    push_cast
    ring
  · rw [hr, abs_mul, abs_of_pos (by norm_num : (0 : ℚ) < 1 / 2)]
    linarith [abs_nonneg d.value]

/-- The whole part of a number above zero is its floor. -/
theorem whole_eq_floor (h : 0 < d.value) : d.whole = (⌊d.value⌋₊ : ℤ) := by
  have hnonneg : 0 ≤ d.whole := by
    unfold whole
    rw [negative_of_pos h]
    exact Int.natCast_nonneg _
  rw [← toNat_whole, Int.toNat_of_nonneg hnonneg]

/-- A number is a whole one exactly if it is worth its whole part. -/
theorem same_whole_iff (h : 0 < d.value) :
    d.same (ofInt d.whole) = true ↔ d.value = ⌊d.value⌋₊ := by
  have hcount : ofInt (⌊d.value⌋₊ : ℤ) = ofNat ⌊d.value⌋₊ := by simp [ofInt, ofNat]
  rw [same_iff, whole_eq_floor h, hcount, value_ofNat]

end Decimal

/-! ## Projected deals -/

namespace Projection

variable {x : Projection} {whole half half' : Deal} {u u' : ℚ}

/-- The units that are counted: the whole ones, and one half for any fraction. -/
def counted (u : ℚ) : ℚ := ⌊u⌋₊ + if u = ⌊u⌋₊ then 0 else 1 / 2

/-- The deals of units: a whole one for each whole unit, and a half one for any fraction. -/
def dealsOf (whole half : Deal) (u : ℚ) : List Deal :=
  List.replicate ⌊u⌋₊ whole ++ if u = ⌊u⌋₊ then [] else [half]

/-- The shared deal is half of the whole one, with ordinary figures. -/
theorem sharedDeal_exact (hf : x.front.IsPrice) (hb : x.back.IsPrice) :
    Yields x.sharedDeal fun d =>
      x.wholeDeal.IsSplitInto d d ∧ ∀ y ∈ d.figures, y.IsOrdinary := by
  unfold sharedDeal
  refine hf.half.bind ?_
  rintro front ⟨hfront, hfrontOrdinary⟩
  refine hb.half.bind ?_
  rintro back ⟨hback, hbackOrdinary⟩
  have hnothing : Decimal.zero.value + Decimal.zero.value = Decimal.zero.value := by simp
  refine .pure ⟨?_, forall_mem_figures Decimal.isOrdinary_zero rfl Decimal.isOrdinary_half
    hfrontOrdinary hbackOrdinary⟩
  exact ⟨Decimal.value_one, ⟨Decimal.value_half, Decimal.value_half⟩, ⟨rfl, rfl⟩, ⟨rfl, rfl⟩,
    hfront, hback, hnothing, hnothing, hnothing⟩

/-- The deals that a projection stands for. -/
theorem deals_exact (hpos : 0 < x.units.value) (hf : x.front.IsPrice) (hb : x.back.IsPrice) :
    Yields x.deals fun deals => ∃ half, x.wholeDeal.IsSplitInto half half ∧
      (∀ y ∈ half.figures, y.IsOrdinary) ∧ deals = dealsOf x.wholeDeal half x.units.value := by
  obtain ⟨half, hhalf, hsplit, hordinary⟩ := sharedDeal_exact hf hb
  unfold deals dealsOf
  simp only [Decimal.same_whole_iff hpos, Decimal.toNat_whole]
  split
  · exact .pure ⟨half, hsplit, hordinary, (List.append_nil _).symm⟩
  · refine .bind_of_eq hhalf ?_
    exact .pure ⟨half, hsplit, hordinary, rfl⟩

/-- A sum over the deals of units is that of a whole one, times the units that are counted. -/
theorem total_dealsOf {figure : Deal → Decimal}
    (hhalf : (figure half).value + (figure half).value = (figure whole).value) (u : ℚ) :
    Exact.total figure (dealsOf whole half u) = (figure whole).value * counted u := by
  unfold Exact.total dealsOf counted
  rw [List.map_append, List.map_replicate, List.sum_append, List.sum_replicate, nsmul_eq_mul]
  split
  · simp
    ring
  · simp
    linarith

/-- A half deal is at most as large as any other half of the same whole one. -/
theorem atMost_half (h : whole.IsSplitInto half half) (h' : whole.IsSplitInto half' half') :
    half.AtMost half' where
  condition := h.condition.1.trans h'.condition.1.symm
  status := h.status.1.trans h'.status.1.symm
  count := (h.halves.1.trans h'.halves.1.symm).le
  frontGross := by linarith [h.frontGross, h'.frontGross]
  backGross := by linarith [h.backGross, h'.backGross]
  accessory := by linarith [h.accessory, h'.accessory]
  spiffs := by linarith [h.spiffs, h'.spiffs]
  tradeSpiff := by linarith [h.tradeSpiff, h'.tradeSpiff]

/-- A half deal is at most as large as the whole one, if that has no figure below zero. -/
theorem atMost_whole (h : whole.IsSplitInto half half) (hpos : ∀ x ∈ whole.figures, 0 ≤ x.value) :
    half.AtMost whole where
  condition := h.condition.1
  status := h.status.1
  count := by rw [h.halves.1, h.whole]; norm_num
  frontGross := by linarith [h.frontGross, hpos whole.frontGross (by simp [Deal.figures])]
  backGross := by linarith [h.backGross, hpos whole.backGross (by simp [Deal.figures])]
  accessory := by linarith [h.accessory, hpos whole.accessory (by simp [Deal.figures])]
  spiffs := by linarith [h.spiffs, hpos whole.spiffs (by simp [Deal.figures])]
  tradeSpiff := by linarith [h.tradeSpiff, hpos whole.tradeSpiff (by simp [Deal.figures])]

/-- The deals of more units grow out of those of fewer. -/
theorem grows_dealsOf (h : whole.IsSplitInto half half) (h' : whole.IsSplitInto half' half')
    (hpos : ∀ x ∈ whole.figures, 0 ≤ x.value) (hu : 0 ≤ u) (hle : u ≤ u') :
    Deal.Grows (dealsOf whole half u) (dealsOf whole half' u') := by
  have hkept : List.Forall₂ Deal.AtMost (List.replicate ⌊u⌋₊ whole) (List.replicate ⌊u⌋₊ whole) :=
    List.forall₂_same.2 fun d _ => .refl d
  unfold dealsOf
  rcases (Nat.floor_mono hle).eq_or_lt with heq | hlt
  · -- no further whole unit: a fraction can only be added
    rw [← heq]
    by_cases hfraction : u = ⌊u⌋₊
    · rw [if_pos hfraction, List.append_nil]
      exact ⟨_, hkept, (List.sublist_append_left _ _).subperm⟩
    · have hfraction' : u' ≠ ⌊u⌋₊ := fun heq' =>
        hfraction (le_antisymm (hle.trans_eq heq') (Nat.floor_le hu))
      rw [if_neg hfraction, if_neg hfraction']
      exact ⟨_, List.rel_append hkept (.cons (atMost_half h h') .nil), .refl _⟩
  · -- a further whole unit: it makes room for a whole deal in place of the half one
    refine ⟨List.replicate ⌊u⌋₊ whole ++ if u = ⌊u⌋₊ then [] else [whole], ?_, ?_⟩
    · split
      · exact List.rel_append hkept .nil
      · exact List.rel_append hkept (.cons (atMost_whole h hpos) .nil)
    · have hroom : List.replicate ⌊u⌋₊ whole ++ [whole] = List.replicate (⌊u⌋₊ + 1) whole :=
        List.replicate_succ'.symm
      have hsub : (List.replicate (⌊u⌋₊ + 1) whole).Sublist (List.replicate ⌊u'⌋₊ whole) :=
        List.replicate_sublist_replicate whole |>.2 hlt
      refine List.Sublist.subperm (List.Sublist.trans ?_ (List.sublist_append_left _ _))
      refine List.Sublist.trans ?_ hsub
      rw [← hroom]
      split
      · exact List.Sublist.append_left (List.nil_sublist _) _
      · exact .refl _

/-- The deals of units have what the whole one and the half one have. -/
theorem forall_mem_dealsOf {P : Deal → Prop} (hwhole : P whole) (hhalf : P half) :
    ∀ d ∈ dealsOf whole half u, P d := by
  intro d hd
  rcases List.mem_append.1 hd with hd | hd
  · rwa [List.eq_of_mem_replicate hd]
  · split at hd
    · cases hd
    · rwa [List.mem_singleton.1 hd]

/-- The deals of fewer than a hundred thousand units are ordinary if their figures are. -/
theorem ordinaryDeals_dealsOf (hwhole : ∀ y ∈ whole.figures, y.IsOrdinary)
    (hhalf : ∀ y ∈ half.figures, y.IsOrdinary) (hlt : u < 10 ^ 5) :
    Exact.OrdinaryDeals (dealsOf whole half u) := by
  refine ⟨forall_mem_dealsOf hwhole hhalf, ?_⟩
  have hcount : ⌊u⌋₊ < 10 ^ 5 := (Nat.floor_lt' (by norm_num)).2 (by exact_mod_cast hlt)
  have htail : (if u = ⌊u⌋₊ then [] else [half]).length ≤ 1 := by split <;> simp
  unfold dealsOf
  rw [List.length_append, List.length_replicate]
  omega

/-- The deals of units are delivered. -/
theorem delivered_dealsOf (hhalf : x.wholeDeal.IsSplitInto half half) :
    Deal.delivered (dealsOf x.wholeDeal half u) = dealsOf x.wholeDeal half u := by
  have hstatus : half.isDelivered = true := by
    unfold Deal.isDelivered
    rw [hhalf.status.1]
    rfl
  exact List.filter_eq_self.2 (forall_mem_dealsOf rfl hstatus)

/-- The figures of the whole deal are ordinary. -/
theorem isOrdinary_of_mem_wholeDeal (hf : x.front.IsPrice) (hb : x.back.IsPrice) :
    ∀ y ∈ x.wholeDeal.figures, y.IsOrdinary :=
  forall_mem_figures Decimal.isOrdinary_zero rfl Decimal.isOrdinary_one hf.isOrdinary
    hb.isOrdinary

/-- The figures of the whole deal are not below zero if the gross is not. -/
theorem nonneg_of_mem_wholeDeal (hf : 0 ≤ x.front.value) (hb : 0 ≤ x.back.value) :
    ∀ y ∈ x.wholeDeal.figures, 0 ≤ y.value := by
  have hone : 0 ≤ Decimal.one.value := by simp
  exact forall_mem_figures Decimal.value_zero.ge rfl hone hf hb

/-- Nor are those of half of it. -/
theorem nonneg_of_mem_half (h : whole.IsSplitInto half half)
    (hpos : ∀ y ∈ whole.figures, 0 ≤ y.value) : ∀ y ∈ half.figures, 0 ≤ y.value := by
  intro y hy
  simp only [Deal.figures, List.forall_mem_cons] at hpos
  obtain ⟨-, hfront, hback, haccessory, hspiffs, htrade, -⟩ := hpos
  simp only [Deal.figures, List.mem_cons, List.not_mem_nil, or_false] at hy
  rcases hy with rfl | rfl | rfl | rfl | rfl | rfl
  · rw [h.halves.1]
    norm_num
  · linarith [h.frontGross]
  · linarith [h.backGross]
  · linarith [h.accessory]
  · linarith [h.spiffs]
  · linarith [h.tradeSpiff]

end Projection

/-! ## What is reported -/

namespace Plan

variable {p : Plan} {x : Projection}

/-- Figures that are handed over are projected as what is read of them. -/
theorem result_projectFor {units front back condition : Value}
    (hu : Amount.ofValue units = .ok x.units) (hf : Amount.ofValue front = .ok x.front)
    (hb : Amount.ofValue back = .ok x.back)
    (hc : Projection.readCondition condition = .accepted x.condition) :
    (p.projectFor units front back condition).result =
      (p.runProjection x).result.mapError .failure := by
  have hgross : Projection.readGross front back = .ok (x.front, x.back) := by
    unfold Projection.readGross
    rw [hf, hb]
    rfl
  unfold projectFor
  rw [hu]
  by_cases hidle : p.isIdle x.units = true
  · simp [runProjection, hidle, Except.mapError]
  · simp [hidle, hgross, hc]

/-- Nothing is projected without units. -/
theorem runProjection_of_nonpos (h : x.units.value ≤ 0) :
    (p.runProjection x).result = .ok .empty := by
  have hidle : p.isIdle x.units = true := by
    have hpositive : x.units.isPositive = false := by
      rw [← Bool.not_eq_true, Decimal.isPositive_iff]
      exact not_lt.2 h
    unfold isIdle
    rw [hpositive, Bool.not_false, Bool.or_true]
  unfold runProjection
  rw [if_pos hidle]
  rfl

/-- A projection pays over the rationals what its deals pay. -/
theorem project_exact (hrules : p.rules ≠ [])
    (hr : ∀ r ∈ p.rules, ∀ y ∈ r.terms.figures, y.IsOrdinary)
    (hn : (p.rules.map fun r => 1 + r.terms.parts).sum < 10 ^ 5) (hpos : 0 < x.units.value)
    (hlt : x.units.value < 10 ^ 5) (hf : x.front.IsPrice) (hb : x.back.IsPrice) :
    Yields (p.runProjection x).result fun b => ∃ half, x.wholeDeal.IsSplitInto half half ∧
      b.exact = Exact.payFor p.rules (Projection.dealsOf x.wholeDeal half x.units.value) := by
  have hbusy : ¬p.isIdle x.units = true := by
    unfold isIdle
    rw [Decimal.isPositive_iff.2 hpos, List.isEmpty_eq_false_iff.2 hrules]
    exact Bool.false_ne_true
  obtain ⟨deals, hdeals, half, hsplit, hhalf, rfl⟩ := Projection.deals_exact hpos hf hb
  have hdelivered := Projection.delivered_dealsOf (u := x.units.value) hsplit
  have hordinary := Projection.ordinaryDeals_dealsOf
    (Projection.isOrdinary_of_mem_wholeDeal hf hb) hhalf hlt
  unfold runProjection
  rw [if_neg hbusy, hdeals]
  show Yields (p.run _).result _
  rw [result_run]
  refine (p.evaluate_exact_of_ordinary (hdelivered.symm ▸ hordinary) hr hn).mono ?_
  intro b hb
  rw [Exact.evaluate, hdelivered] at hb
  exact ⟨half, hsplit, hb⟩

/-- The units that are projected are those that are counted. -/
theorem units_dealsOf {half : Deal} (h : x.wholeDeal.IsSplitInto half half) (u : ℚ) :
    Exact.units (Projection.dealsOf x.wholeDeal half u) .all = Projection.counted u := by
  have hhalves : half.count.value + half.count.value = x.wholeDeal.count.value := by
    rw [h.halves.1, h.whole]
    norm_num
  rw [Exact.units, Deal.seen_all, Projection.total_dealsOf hhalves, h.whole, one_mul]

/-- The gross that is projected is that of one unit, times the units that are counted. -/
theorem gross_dealsOf {half : Deal} (h : x.wholeDeal.IsSplitInto half half) (u : ℚ) :
    Exact.gross (Projection.dealsOf x.wholeDeal half u) .all .total =
      (x.front.value + x.back.value) * Projection.counted u := by
  rw [Exact.gross, Deal.seen_all, Projection.total_dealsOf h.frontGross,
    Projection.total_dealsOf h.backGross, add_mul]
  rfl

/-- What is projected to be paid is no less for more units. -/
theorem runProjection_mono (hrules : p.rules ≠ [])
    (hr : ∀ r ∈ p.rules, ∀ y ∈ r.terms.figures, y.IsOrdinary)
    (hn : (p.rules.map fun r => 1 + r.terms.parts).sum < 10 ^ 5)
    (hrise : ∀ r ∈ p.rules, r.terms.IsProgressive) {u u' f g : Decimal} {c : Condition}
    (hf : f.IsPrice) (hg : g.IsPrice) (hfpos : 0 ≤ f.value) (hgpos : 0 ≤ g.value)
    (hle : u.value ≤ u'.value) (hlt : u'.value < 10 ^ 5) :
    ∃ b b', (p.runProjection ⟨u, f, g, c⟩).result = .ok b ∧
      (p.runProjection ⟨u', f, g, c⟩).result = .ok b' ∧ b.totalPay.value ≤ b'.totalPay.value := by
  have hwhole : ∀ (v : Decimal), ∀ y ∈ (Projection.wholeDeal ⟨v, f, g, c⟩).figures, 0 ≤ y.value :=
    fun v => Projection.nonneg_of_mem_wholeDeal hfpos hgpos
  have hnone : ∀ {v : Decimal} {half : Deal},
      (Projection.wholeDeal ⟨v, f, g, c⟩).IsSplitInto half half →
      Deal.NoneNegative (Projection.dealsOf (Projection.wholeDeal ⟨v, f, g, c⟩) half v.value) :=
    fun h => Projection.forall_mem_dealsOf (hwhole _) (Projection.nonneg_of_mem_half h (hwhole _))
  have hnothing : Breakdown.empty.totalPay.value = 0 := Decimal.value_zero
  rcases le_or_gt u.value 0 with hu | hu
  · have hidle := runProjection_of_nonpos (p := p) (x := ⟨u, f, g, c⟩) hu
    rcases le_or_gt u'.value 0 with hu' | hu'
    · exact ⟨_, _, hidle, runProjection_of_nonpos hu', le_rfl⟩
    · obtain ⟨b', hb', half', hsplit', hexact'⟩ :=
        p.project_exact (x := ⟨u', f, g, c⟩) hrules hr hn hu' hlt hf hg
      have htotal : b'.totalPay.value = _ := congrArg Exact.Pay.total hexact'
      refine ⟨_, b', hidle, hb', ?_⟩
      rw [hnothing, htotal]
      exact Exact.total_payFor_nonneg (hnone hsplit') p.isWellFormed
  · obtain ⟨b, hb, half, hsplit, hexact⟩ :=
      p.project_exact (x := ⟨u, f, g, c⟩) hrules hr hn hu (hle.trans_lt hlt) hf hg
    obtain ⟨b', hb', half', hsplit', hexact'⟩ :=
      p.project_exact (x := ⟨u', f, g, c⟩) hrules hr hn (hu.trans_le hle) hlt hf hg
    have htotal : b.totalPay.value = _ := congrArg Exact.Pay.total hexact
    have htotal' : b'.totalPay.value = _ := congrArg Exact.Pay.total hexact'
    refine ⟨b, b', hb, hb', ?_⟩
    rw [htotal, htotal']
    exact (Exact.payFor_mono (Projection.grows_dealsOf hsplit hsplit' (hwhole u) hu.le hle)
      (hnone hsplit') (hnone hsplit) p.sound hrise).2.2

/-- Projections are in step with the units. For units above zero, as they are handed over, the
whole ones are reported and half a one for any fraction, and the gross of each unit that many times.
Where the gross is not below zero, and higher tiers pay no less where one tier pays for everything,
more units are projected to be paid no less, those of zero and below included. -/
theorem project_by_units (hrules : p.rules ≠ [])
    (hr : ∀ r ∈ p.rules, ∀ y ∈ r.terms.figures, y.IsOrdinary)
    (hn : (p.rules.map fun r => 1 + r.terms.parts).sum < 10 ^ 5) {front back condition : Value}
    {f g : Decimal} {c : Condition} (hfront : Amount.ofValue front = .ok f)
    (hback : Amount.ofValue back = .ok g)
    (hcondition : Projection.readCondition condition = .accepted c) (hf : f.IsPrice)
    (hg : g.IsPrice) :
    (∀ units u, Amount.ofValue units = .ok u → 0 < u.value → u.value < 10 ^ 5 →
      ∃ b, (p.projectFor units front back condition).result = .ok b ∧
        b.totalUnits.value = ⌊u.value⌋₊ + (if u.value = ⌊u.value⌋₊ then 0 else 1 / 2) ∧
        b.totalGross.value = (f.value + g.value) * b.totalUnits.value) ∧
    (0 ≤ f.value → 0 ≤ g.value → (∀ r ∈ p.rules, r.terms.IsProgressive) →
      ∀ units units' u u', Amount.ofValue units = .ok u → Amount.ofValue units' = .ok u' →
        u.value ≤ u'.value → u'.value < 10 ^ 5 →
        ∃ b b', (p.projectFor units front back condition).result = .ok b ∧
          (p.projectFor units' front back condition).result = .ok b' ∧
          b.totalPay.value ≤ b'.totalPay.value) := by
  have hread : ∀ {units : Value} {u : Decimal} {b : Breakdown}, Amount.ofValue units = .ok u →
      (p.runProjection ⟨u, f, g, c⟩).result = .ok b →
      (p.projectFor units front back condition).result = .ok b := by
    intro units u b hu hb
    rw [result_projectFor (x := ⟨u, f, g, c⟩) hu hfront hback hcondition, hb]
    rfl
  constructor
  · intro units u hu hpos hlt
    obtain ⟨b, hb, half, hsplit, hexact⟩ :=
      p.project_exact (x := ⟨u, f, g, c⟩) hrules hr hn hpos hlt hf hg
    have hunits : b.totalUnits.value = Projection.counted u.value :=
      (congrArg Exact.Pay.units hexact).trans (units_dealsOf hsplit u.value)
    have hgross : b.totalGross.value = (f.value + g.value) * Projection.counted u.value :=
      (congrArg Exact.Pay.gross hexact).trans (gross_dealsOf hsplit u.value)
    exact ⟨b, hread hu hb, hunits, hunits ▸ hgross⟩
  · intro hfpos hgpos hrise units units' u u' hu hu' hle hlt
    obtain ⟨b, b', hb, hb', htotal⟩ :=
      runProjection_mono hrules hr hn hrise hf hg hfpos hgpos hle hlt
    exact ⟨b, b', hread hu hb, hread hu' hb', htotal⟩

/-- Ten units and a fraction are projected as ten and a half one, and paid no more than eleven. -/
theorem project_by_units_rising :
    ∃ f g u u', rising.rules ≠ [] ∧
      (∀ r ∈ rising.rules, ∀ y ∈ r.terms.figures, y.IsOrdinary) ∧
      (rising.rules.map fun r => 1 + r.terms.parts).sum < 10 ^ 5 ∧
      Amount.ofValue (.text "1500.50") = .ok f ∧ Amount.ofValue .null = .ok g ∧
      Projection.readCondition (.text "New") = .accepted .new ∧ f.IsPrice ∧ g.IsPrice ∧
      0 ≤ f.value ∧ 0 ≤ g.value ∧ (∀ r ∈ rising.rules, r.terms.IsProgressive) ∧
      Amount.ofValue (.text "10.2") = .ok u ∧ Amount.ofValue (.int 11) = .ok u' ∧
      0 < u.value ∧ u.value ≤ u'.value ∧ u'.value < 10 ^ 5 ∧
      (∃ b,
        (rising.projectFor (.text "10.2") (.text "1500.50") .null (.text "New")).result = .ok b ∧
        b.totalUnits.value = ⌊u.value⌋₊ + (if u.value = ⌊u.value⌋₊ then 0 else 1 / 2) ∧
        b.totalGross.value = (f.value + g.value) * b.totalUnits.value) ∧
      ∃ b b',
        (rising.projectFor (.text "10.2") (.text "1500.50") .null (.text "New")).result = .ok b ∧
        (rising.projectFor (.int 11) (.text "1500.50") .null (.text "New")).result = .ok b' ∧
        b.totalPay.value ≤ b'.totalPay.value := by
  have hrules : rising.rules ≠ [] := by decide +kernel
  have hr : ∀ r ∈ rising.rules, ∀ y ∈ r.terms.figures, y.IsOrdinary := fun r hmem y hy =>
    ((by decide +kernel : ∀ r ∈ rising.rules, ∀ y ∈ r.terms.figures, y.HasOrdinaryDigits)
      r hmem y hy).isOrdinary
  have hn : (rising.rules.map fun r => 1 + r.terms.parts).sum < 10 ^ 5 := by decide +kernel
  obtain ⟨f, hfront, hfvalue⟩ : ∃ f, Amount.ofValue (.text "1500.50") = .ok f ∧
      f.value = 3001 / 2 :=
    ⟨⟨false, 150050, -2⟩, eq_ok_of_toOption (by decide +kernel),
      by norm_num [Decimal.value, Decimal.digits]⟩
  obtain ⟨u, hu, huvalue⟩ : ∃ u, Amount.ofValue (.text "10.2") = .ok u ∧ u.value = 51 / 5 :=
    ⟨⟨false, 102, -1⟩, eq_ok_of_toOption (by decide +kernel),
      by norm_num [Decimal.value, Decimal.digits]⟩
  obtain ⟨u', hu', huvalue'⟩ : ∃ u', Amount.ofValue (.int 11) = .ok u' ∧ u'.value = 11 :=
    ⟨.ofNat 11, eq_ok_of_toOption (by decide +kernel), by norm_num⟩
  have hback : Amount.ofValue .null = .ok .zero := rfl
  have hcondition : Projection.readCondition (.text "New") = .accepted .new := rfl
  have hf : f.IsPrice := by
    unfold Decimal.IsPrice
    rw [hfvalue]
    exact ⟨⟨150050, by norm_num⟩, by norm_num⟩
  have hg : Decimal.zero.IsPrice := ⟨⟨0, by simp⟩, by simp⟩
  have hfpos : 0 ≤ f.value := by rw [hfvalue]; norm_num
  have hgpos : 0 ≤ Decimal.zero.value := by simp
  have hpos : 0 < u.value := by rw [huvalue]; norm_num
  have hlt : u.value < 10 ^ 5 := by rw [huvalue]; norm_num
  have hle : u.value ≤ u'.value := by rw [huvalue, huvalue']; norm_num
  have hlt' : u'.value < 10 ^ 5 := by rw [huvalue']; norm_num
  obtain ⟨hreport, hmono⟩ := project_by_units hrules hr hn hfront hback hcondition hf hg
  exact ⟨f, .zero, u, u', hrules, hr, hn, hfront, hback, hcondition, hf, hg, hfpos, hgpos,
    isProgressive_rising, hu, hu', hpos, hle, hlt', hreport _ u hu hpos hlt,
    hmono hfpos hgpos isProgressive_rising _ _ u u' hu hu' hle hlt'⟩

end Plan

end DealerPay
