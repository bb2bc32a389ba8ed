import DealerPay.Proofs.Acceptance
import DealerPay.Proofs.Agreement

/-!
# The order of the rules

The order of the rules of a plan is for presentation, as long as salaries and draws stay in order
among themselves: the last of those is the one that counts.

* `Breakdown.Rearranges`: two breakdowns pay the same by the same lines, in whatever order.
  Guarantees are the exception. Each of them adds what is missing at its turn, so that their lines
  depend on the order and only what they add up to does not.
* `Exact.totals_eq_of_perm`: the rational semantics pays the same in all.
* `Plan.Layout.blocks_perm`: the blocks of the rules are rearranged, since each of them depends on
  its rule alone. Besides them and the guarantees there is the offset of the commission at most.
* `Plan.evaluate_of_perm`: evaluations of rearranged rules are rearrangements of each other.
-/

namespace DealerPay

/-- Whether two breakdowns pay the same by the same lines, in whatever order. The lines of
guarantees only have to add up to the same. -/
structure Breakdown.Rearranges (b b' : Breakdown) : Prop where
  /-- The totals agree. -/
  totals : b.TotalsAgree b'
  /-- The lines other than guarantees are the same, up to their order. -/
  items : (b.items.filter fun i => i.category != .guarantee).Perm
    (b'.items.filter fun i => i.category != .guarantee)
  /-- The guarantees add up to the same. -/
  guarantees :
    ((b.items.filter fun i => i.category == .guarantee).map fun i => i.amount.value).sum =
      ((b'.items.filter fun i => i.category == .guarantee).map fun i => i.amount.value).sum

/-! ## What is paid in all -/

namespace Exact

variable {rules rules' : List Rule}

/-- The lines of rearranged rules are rearranged. -/
theorem booked_perm (h : rules.Perm rules') (sold : List Deal) :
    (booked rules sold).Perm (booked rules' sold) :=
  (h.flatMap_right _).map _

/-- Rearranged lines add up to the same. -/
theorem subtotal_perm {lines lines' : List Line} (h : lines.Perm lines') (c : Category) :
    subtotal c lines = subtotal c lines' :=
  ((h.filter _).map _).sum_eq

/-- Salaries and draws are the rules that hold one. -/
theorem filterMap_base? (rules : List Rule) :
    (rules.filterMap fun r => base? r.terms) =
      (rules.filter Rule.isBase).filterMap fun r => base? r.terms := by
  rw [List.filterMap_filter]
  congr 1
  funext r
  unfold Rule.isBase Rule.kind
  cases r.terms <;> rfl

/-- The salary or draw that counts depends on the salaries and draws alone, and on their order. -/
theorem basePay_eq (h : rules.filter Rule.isBase = rules'.filter Rule.isBase) :
    basePay rules = basePay rules' := by
  unfold basePay
  rw [filterMap_base? rules, filterMap_base? rules', h]

/-- Rearranged rules pay the same in all. -/
theorem totals_eq_of_perm (h : rules.Perm rules')
    (hbase : rules.filter Rule.isBase = rules'.filter Rule.isBase) (sold : List Deal) :
    { payFor rules sold with lines := [] } = { payFor rules' sold with lines := [] } := by
  have hcommission := subtotal_perm (booked_perm h sold) .commission
  have hbonus := subtotal_perm (booked_perm h sold) .bonus
  have hguaranteed := fst_guaranteed_perm (h.filterMap fun r => floor? r.terms)
    (units sold .all) (subtotal .commission (booked rules' sold))
  unfold payFor floors
  simp only [hcommission, hbonus, hguaranteed, basePay_eq hbase]

/-- Setting the commission against a draw leaves the lines of every other category alone. -/
theorem filter_withOffset {c : Category} (hc : c ≠ .drawOffset) (base : ℚ × Bool) (commission : ℚ)
    (lines : List Line) :
    (withOffset base commission lines).filter (fun l => l.category == c) =
      lines.filter fun l => l.category == c := by
  unfold withOffset
  split
  · exact filter_insertAfterLast _ _ _ (beq_eq_false_iff_ne.2 hc.symm)
  · rfl

/-- No rule books a guarantee. -/
theorem filter_guarantee_booked (rules : List Rule) (sold : List Deal) :
    (booked rules sold).filter (fun l => l.category == .guarantee) = [] := by
  apply filter_eq_nil_of_forall
  intro l hl
  have hearned := isEarned_of_mem_booked hl
  cases hc : l.category <;> simp [hc, Category.isEarned] at hearned ⊢

/-- The guarantees among the lines are those that add something. -/
theorem filter_guarantee_lines (rules : List Rule) (sold : List Deal) :
    (payFor rules sold).lines.filter (fun l => l.category == .guarantee) =
      (guaranteed (units sold .all) (subtotal .commission (booked rules sold))
        (floors rules)).2.filter Line.isShown := by
  have hadded : ∀ l ∈ (guaranteed (units sold .all) (subtotal .commission (booked rules sold))
      (floors rules)).2, (l.category == .guarantee) = true := fun l hl => by
    rw [category_of_mem_guaranteed l hl]
    rfl
  unfold payFor
  simp only
  rw [filter_withOffset (by decide), List.filter_comm, List.filter_append,
    filter_guarantee_booked, List.nil_append, List.filter_eq_self.2 hadded]

/-- The guarantees add up to the difference that they make to the commission. -/
theorem subtotal_guarantee (rules : List Rule) (sold : List Deal) :
    subtotal .guarantee (payFor rules sold).lines =
      (payFor rules sold).commission - subtotal .commission (booked rules sold) := by
  have hraised := fst_guaranteed (units sold .all) (subtotal .commission (booked rules sold))
    (floors rules)
  unfold subtotal at hraised ⊢
  rw [filter_guarantee_lines, sum_filter_isShown]
  show _ = (guaranteed _ _ _).1 - _
  unfold subtotal
  linarith

end Exact

/-! ## The lines -/

namespace Plan

variable {p p' : Plan} {deals sold : List Deal} {b b' : Breakdown}
  {blocks blocks' : List (List LineItem)} {added added' : List LineItem}

/-- Lines that no rule adds as guarantees are not guarantees. -/
theorem Layout.filter_flatten (l : p.Layout sold b blocks added) (items : List LineItem)
    (h : ∀ i ∈ items, i ∈ blocks.flatten) :
    items.filter (fun i => i.category != .guarantee) = items := by
  apply List.filter_eq_self.2
  intro i hi
  have hearned := l.isEarned_of_mem_block i (h i hi)
  unfold Category.isEarned at hearned
  exact (Bool.and_eq_true _ _ ▸ hearned).1

/-- The lines that guarantees add are guarantees. -/
theorem Layout.filter_added (l : p.Layout sold b blocks added) :
    added.filter (fun i => i.category != .guarantee) = [] := by
  apply filter_eq_nil_of_forall
  intro i hi
  rw [l.isGuarantee_of_mem_added i hi]
  rfl

/-- Where no commission is set against a draw, the lines other than guarantees are the blocks of the
rules. -/
theorem Layout.filter_items_of_not_offsetsDraw (l : p.Layout sold b blocks added)
    (h : ¬p.OffsetsDraw b) :
    b.items.filter (fun i => i.category != .guarantee) = blocks.flatten := by
  rw [l.items_of_not_offsetsDraw h, List.filter_append, l.filter_added, List.append_nil,
    l.filter_flatten _ fun i hi => hi]

/-- Where it is, they are the blocks of the rules and the offset of the commission. -/
theorem Layout.filter_items_of_offsetsDraw (l : p.Layout sold b blocks added)
    (h : p.OffsetsDraw b) : ∃ offset ∈ b.items, offset.category = .drawOffset ∧
      (b.items.filter fun i => i.category != .guarantee).Perm (offset :: blocks.flatten) := by
  obtain ⟨-, -, -, frontBlocks, line, offset, backBlocks, -, -, -, hblocks, -, hoffset, -,
    hitems⟩ := l.items_of_offsetsDraw h
  refine ⟨offset, by rw [hitems]; simp, hoffset, ?_⟩
  have hflat : blocks.flatten = (frontBlocks.flatten ++ [line]) ++ backBlocks.flatten := by
    rw [hblocks, List.flatten_append, List.flatten_cons, List.append_assoc]
  have hfront := l.filter_flatten (frontBlocks.flatten ++ [line]) fun i hi => by
    rw [hflat]
    exact List.mem_append_left _ hi
  have hback := l.filter_flatten backBlocks.flatten fun i hi => by
    rw [hflat]
    exact List.mem_append_right _ hi
  have hkept :
      (offset :: (backBlocks.flatten ++ added)).filter (fun i => i.category != .guarantee) =
        offset :: backBlocks.flatten := by
    rw [List.filter_cons, hoffset, if_pos (by decide), List.filter_append, hback, l.filter_added,
      List.append_nil]
  rw [hitems, List.append_cons, List.filter_append, hfront, hkept, hflat]
  exact List.perm_middle

/-- The blocks of rearranged rules are rearranged: each of them depends on its rule alone. -/
theorem Layout.blocks_perm (l : p.Layout sold b blocks added)
    (l' : p'.Layout sold b' blocks' added') (h : p.rules.Perm p'.rules) :
    blocks.Perm blocks' := by
  obtain ⟨between, hbetween, hperm⟩ := List.perm_comp_forall₂ h l'.forall_block
  have hunique : Relator.RightUnique fun (r : Rule) block => r.terms.block sold = .ok block :=
    fun r block block' hr hr' => Except.ok.inj (hr.symm.trans hr')
  rw [List.right_unique_forall₂' hunique l.forall_block hbetween]
  exact hperm

/-! ## Evaluation -/

/-- Rearranged rules are in the envelope as well. -/
theorem inEnvelope_of_perm (h : InEnvelope p deals) (hperm : p.rules.Perm p'.rules) :
    InEnvelope p' deals where
  dealFigures := h.dealFigures
  dealCount := h.dealCount
  ruleFigures := fun r hr => h.ruleFigures r (hperm.mem_iff.2 hr)
  ruleCount := by
    rw [← (hperm.map fun r => 1 + r.terms.parts).sum_eq]
    exact h.ruleCount

/-- Evaluations by rearranged rules are rearrangements of each other. -/
theorem rearranges_of_perm (henv : InEnvelope p deals) (hb : p.evaluate deals = .ok b)
    (hb' : p'.evaluate deals = .ok b') (hperm : p.rules.Perm p'.rules)
    (hbase : p.rules.filter Rule.isBase = p'.rules.filter Rule.isBase) : b.Rearranges b' := by
  have hexact := (p.evaluate_exact henv).of_eq hb
  have hexact' := (p'.evaluate_exact (inEnvelope_of_perm henv hperm)).of_eq hb'
  have hwarnings : b.warnings = b'.warnings := by
    rw [warnings_of_evaluate hb, warnings_of_evaluate hb', warnings, warnings, ambiguities,
      ambiguities, hperm.countP_eq, hperm.countP_eq]
  have htotals : b.TotalsAgree b' :=
    .of_exact hexact hexact' (Exact.totals_eq_of_perm hperm hbase _) hwarnings
  refine ⟨htotals, ?_, ?_⟩
  · obtain ⟨s⟩ := exists_steps hb
    obtain ⟨s'⟩ := exists_steps hb'
    obtain ⟨blocks, added, l⟩ := s.exists_layout
    obtain ⟨blocks', added', l'⟩ := s'.exists_layout
    have hblocks := (l.blocks_perm l' hperm).flatten
    have hoffsets : p.OffsetsDraw b ↔ p'.OffsetsDraw b' := by
      unfold OffsetsDraw lastBase?
      rw [hbase, htotals.commission, htotals.basePay]
    by_cases h : p.OffsetsDraw b
    · obtain ⟨i, hi, hc, hitems⟩ := l.filter_items_of_offsetsDraw h
      obtain ⟨i', hi', hc', hitems'⟩ :=
        l'.filter_items_of_offsetsDraw (hoffsets.1 h)
      have hoffset : i = i' := s.offset_eq s' hexact hexact' htotals.commission hi hc hi' hc'
      rw [← hoffset] at hitems'
      exact hitems.trans ((hblocks.cons i).trans hitems'.symm)
    · rw [l.filter_items_of_not_offsetsDraw h,
        l'.filter_items_of_not_offsetsDraw (mt hoffsets.2 h)]
      exact hblocks
  · have sum_eq : ∀ {p : Plan} {b : Breakdown}, b.exact = Exact.evaluate p.rules deals →
        ((b.items.filter fun i => i.category == .guarantee).map fun i => i.amount.value).sum =
          b.commission.value -
            Exact.subtotal .commission (Exact.booked p.rules (Deal.delivered deals)) := by
      intro p b hexact
      have hsum := Exact.subtotal_guarantee p.rules (Deal.delivered deals)
      rw [← Exact.evaluate, ← hexact] at hsum
      rw [Exact.subtotal, Breakdown.exact, List.filter_map, List.map_map] at hsum
      exact hsum
    rw [sum_eq hexact, sum_eq hexact', htotals.commission,
      Exact.subtotal_perm (Exact.booked_perm hperm _)]

/-- The order of rules is for presentation: rules in another order, with the salaries and draws in
the same order among themselves, make a plan as well, and an evaluation by it rearranges the
breakdown. -/
theorem evaluate_of_perm {strict : Bool} {rules rules' : List Rule}
    (hp : ofRules strict rules = .ok p) (hperm : rules.Perm rules')
    (hbase : rules.filter Rule.isBase = rules'.filter Rule.isBase) (henv : InEnvelope p deals) :
    ∃ p' b b', ofRules strict rules' = .ok p' ∧ p.evaluate deals = .ok b ∧
      p'.evaluate deals = .ok b' ∧ b.Rearranges b' := by
  obtain ⟨rfl, hstrict⟩ := ofRules_eq_ok_iff.1 hp
  have hsound : ∀ r ∈ rules', r.isSound = true := fun r hr => p.sound r (hperm.mem_iff.2 hr)
  have hp' : ofRules strict rules' = .ok ⟨rules', hsound⟩ := by
    rw [ofRules_eq_ok_iff, ← hperm.countP_eq]
    exact ⟨rfl, hstrict⟩
  obtain ⟨b, hb, -⟩ := p.evaluate_exact henv
  obtain ⟨b', hb', -⟩ := (Plan.mk rules' hsound).evaluate_exact (inEnvelope_of_perm henv hperm)
  exact ⟨_, b, b', hp', hb, hb', rearranges_of_perm henv hb hb' hperm hbase⟩

/-- The plan with the two salaries and draws in the middle, from the last rule to the first but for
those. -/
def overdrawnReversed : List Rule :=
  [⟨"", .flatRate .all (.ofNat 100)⟩,
   ⟨"", .base (.ofNat 200) false⟩,
   ⟨"", .volumeBonus .all [⟨.one, .ofNat 50⟩]⟩,
   ⟨"", .base (.ofNat 1000) true⟩,
   ⟨"", .guarantee (.ofNat 500)⟩]

/-- The plan is accepted in both orders, and what it pays for one vehicle is rearranged, the offset
of the commission with it. -/
theorem evaluate_overdrawnReversed :
    ofRules false overdrawn.rules = .ok overdrawn ∧ overdrawn.rules.Perm overdrawnReversed ∧
      overdrawn.rules.filter Rule.isBase = overdrawnReversed.filter Rule.isBase ∧
      InEnvelope overdrawn [Deal.plain] ∧
      ∃ p' b b', ofRules false overdrawnReversed = .ok p' ∧
        overdrawn.evaluate [Deal.plain] = .ok b ∧ p'.evaluate [Deal.plain] = .ok b' ∧
        b.Rearranges b' := by
  have hp : ofRules false overdrawn.rules = .ok overdrawn :=
    ofRules_eq_ok_iff.2 ⟨rfl, fun h => absurd h Bool.false_ne_true⟩
  have hperm : overdrawn.rules.Perm overdrawnReversed := by decide +kernel
  have hbase : overdrawn.rules.filter Rule.isBase = overdrawnReversed.filter Rule.isBase := rfl
  have henv : InEnvelope overdrawn [Deal.plain] :=
    .of_digits (by decide +kernel) (by decide) (by decide +kernel) (by decide +kernel)
  exact ⟨hp, hperm, hbase, henv, evaluate_of_perm hp hperm hbase henv⟩

end Plan

end DealerPay
