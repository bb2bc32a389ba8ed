import DealerPay.Plan.Draft
import DealerPay.Proofs.Outcome
import Mathlib.Data.List.InsertIdx
import Mathlib.Data.List.Perm.Basic

/-!
# Rules that are moved

A rule is moved by taking it out and putting it in again, so that every position between the two
shifts by one, in the direction that depends on which of them comes first. None of this is seen in
what a move is: the rule stands at its new position, and without it both drafts are the same.

* `Draft.HasRuleAt` says which positions hold a rule; `Draft.index_of_hasRuleAt` and
  `Draft.index_of_not_hasRuleAt` are what becomes of one that does and of one that does not.
* `Draft.IsMoved` is the relation between two drafts. It can be read from either side
  (`Draft.IsMoved.symm`), goes on through a second move of the rule (`Draft.IsMoved.trans`), and
  leaves only one draft (`Draft.IsMoved.rules_eq`).
* `Draft.move_eq_ok_iff`: moving has exactly these results.
* `Draft.move_isInvertible` are the laws of moves, with what is said of positions without a rule.
-/

namespace DealerPay

namespace Draft

variable {d d' d'' : Draft} {i j k : Nat} {p q : Int}

/-! ## Positions -/

/-- Whether there is a rule at a position. -/
def HasRuleAt (d : Draft) (p : Int) : Prop := 0 ≤ p ∧ p < d.length

/-- A position with a rule is the index of that rule. -/
theorem index_of_hasRuleAt (h : d.HasRuleAt p) :
    ∃ hp : p.toNat < d.rules.length, d.index p = .ok ⟨p.toNat, hp⟩ := by
  obtain ⟨hnonneg, hlt⟩ := h
  unfold length at hlt
  have hp : p.toNat < d.rules.length := by omega
  refine ⟨hp, ?_⟩
  unfold index index?
  rw [dif_pos ⟨hnonneg, hp⟩]

/-- A position without a rule is reported, with the number of rules that there are. -/
theorem index_of_not_hasRuleAt (h : ¬ d.HasRuleAt p) :
    d.index p = .error (.noRule p d.length) := by
  have hout : ¬ (0 ≤ p ∧ p.toNat < d.rules.length) := by
    rintro ⟨hnonneg, hlt⟩
    refine h ⟨hnonneg, ?_⟩
    unfold length
    omega
  unfold index index?
  rw [dif_neg hout]

/-- A rule is removed by leaving out its position. -/
theorem remove_of_hasRuleAt (h : d.HasRuleAt p) :
    d.remove p = .ok ⟨d.rules.eraseIdx p.toNat⟩ := by
  obtain ⟨hp, hindex⟩ := index_of_hasRuleAt h
  unfold remove
  rw [hindex]
  rfl

/-! ## Moves -/

/-- Whether a draft is another one with the rule at index `i` moved to index `j`. -/
structure IsMoved (d : Draft) (i j : Nat) (d' : Draft) : Prop where
  /-- There is a rule to move. -/
  start : i < d.length
  /-- Its new index is one of the moved draft. -/
  target : j < d'.length
  /-- It stands there. -/
  rule : d'.rules[j]? = d.rules[i]?
  /-- Without it both have the same rules in the same order. -/
  others : d'.rules.eraseIdx j = d.rules.eraseIdx i

namespace IsMoved

/-- A move back is a move. -/
theorem symm (h : d.IsMoved i j d') : d'.IsMoved j i d :=
  ⟨h.target, h.start, h.rule.symm, h.others.symm⟩

/-- A move of the rule that was moved is one move. -/
theorem trans (h : d.IsMoved i j d') (h' : d'.IsMoved j k d'') : d.IsMoved i k d'' :=
  ⟨h.start, h'.target, h'.rule.trans h.rule, h'.others.trans h.others⟩

/-- A move adds no rule and drops none. -/
theorem length_eq (h : d.IsMoved i j d') : d'.length = d.length := by
  have hstart := List.length_eraseIdx_add_one h.start
  have htarget := List.length_eraseIdx_add_one h.target
  rw [h.others] at htarget
  exact htarget.symm.trans hstart

/-- A move rearranges the rules. -/
theorem perm (h : d.IsMoved i j d') : d'.rules.Perm d.rules :=
  (List.perm_eraseIdx_of_getElem?_eq h.rule).1 (.of_eq h.others)

/-- There is one draft only with the rule moved: the others with the rule put in among them. -/
theorem rules_eq (h : d.IsMoved i j d') : d'.rules = relocate d.rules ⟨i, h.start⟩ j := by
  have htarget : j < d'.rules.length := h.target
  have hstart : i < d.rules.length := h.start
  have hrule : d'.rules[j] = d.rules[i] := by
    have hsome := h.rule
    rw [List.getElem?_eq_getElem htarget, List.getElem?_eq_getElem hstart] at hsome
    exact Option.some.inj hsome
  calc d'.rules = (d'.rules.eraseIdx j).insertIdx j d'.rules[j] :=
        (List.insertIdx_eraseIdx_getElem htarget).symm
    _ = (d.rules.eraseIdx i).insertIdx j d.rules[i] := by rw [h.others, hrule]

end IsMoved

/-- Taking a rule out and putting it in again moves it. -/
theorem isMoved_relocate (hi : i < d.rules.length) (hj : j < d.rules.length) :
    d.IsMoved i j ⟨relocate d.rules ⟨i, hi⟩ j⟩ := by
  have hroom : j ≤ (d.rules.eraseIdx i).length := by
    have := List.length_eraseIdx_add_one hi
    omega
  refine ⟨hi, ?_, ?_, List.eraseIdx_insertIdx_self _⟩
  · show j < ((d.rules.eraseIdx i).insertIdx j d.rules[i]).length
    rw [List.length_insertIdx_of_le_length hroom]
    omega
  · show ((d.rules.eraseIdx i).insertIdx j d.rules[i])[j]? = _
    rw [List.getElem?_insertIdx_self, if_pos hroom, List.getElem?_eq_getElem hi]

/-- A move between two positions with rules relocates the rule. -/
theorem move_of_hasRuleAt (hp : d.HasRuleAt p) (hq : d.HasRuleAt q) :
    ∃ d', d.move p q = .ok d' ∧ d.IsMoved p.toNat q.toNat d' := by
  obtain ⟨hi, hpindex⟩ := index_of_hasRuleAt hp
  obtain ⟨hj, hqindex⟩ := index_of_hasRuleAt hq
  refine ⟨_, ?_, isMoved_relocate hi hj⟩
  unfold move
  rw [hpindex, hqindex]
  rfl

/-- A move from a position without a rule is refused for that position, whatever the other one. -/
theorem move_of_not_hasRuleAt (h : ¬ d.HasRuleAt p) :
    d.move p q = .error (.noRule p d.length) := by
  unfold move
  rw [index_of_not_hasRuleAt h]
  rfl

/-- A move of a rule to a position without one is refused for that position. -/
theorem move_of_not_hasRuleAt_target (hp : d.HasRuleAt p) (hq : ¬ d.HasRuleAt q) :
    d.move p q = .error (.noRule q d.length) := by
  obtain ⟨hi, hindex⟩ := index_of_hasRuleAt hp
  unfold move
  rw [hindex, index_of_not_hasRuleAt hq]
  rfl

/-- The results of moves between positions with rules are the drafts with the rule moved. -/
theorem move_eq_ok_iff (hp : d.HasRuleAt p) (hq : d.HasRuleAt q) :
    d.move p q = .ok d' ↔ d.IsMoved p.toNat q.toNat d' := by
  obtain ⟨m, hmove, hmoved⟩ := move_of_hasRuleAt hp hq
  rw [hmove, Except.ok.injEq]
  constructor
  · rintro rfl
    exact hmoved
  · intro h
    have hrules : m.rules = d'.rules := hmoved.rules_eq.trans h.rules_eq.symm
    cases m
    cases d'
    cases hrules
    rfl

/-- Two moves of a rule, one after the other, are one move to where the second one ends. A second
position without a rule is refused as it is without the first move. -/
theorem move_move (hp : d.HasRuleAt p) (hq : d.HasRuleAt q) (h : d.move p q = .ok d') (r : Int) :
    d'.move q r = d.move p r := by
  have hmoved := (move_eq_ok_iff hp hq).1 h
  have hlength := hmoved.length_eq
  have hq' : d'.HasRuleAt q := ⟨hq.1, by rw [hlength]; exact hq.2⟩
  by_cases hr : d.HasRuleAt r
  · have hr' : d'.HasRuleAt r := ⟨hr.1, by rw [hlength]; exact hr.2⟩
    obtain ⟨m, hmove, hmoved'⟩ := move_of_hasRuleAt hq' hr'
    rw [hmove, eq_comm, move_eq_ok_iff hp hr]
    exact hmoved.trans hmoved'
  · have hr' : ¬ d'.HasRuleAt r := fun hr' => hr ⟨hr'.1, by rw [← hlength]; exact hr'.2⟩
    rw [move_of_not_hasRuleAt_target hp hr, move_of_not_hasRuleAt_target hq' hr', hlength]

/-- Moving a rule is invertible and disturbs nothing else. Between two positions with rules it gives
a draft of the same length with the rule at its new position and the other rules in their old order.
Moving the rule back gives the old draft, moving it on is one move, and removing it from where it
stands leaves what removing it in the first place leaves. A position without a rule is refused, the
first of two. -/
theorem move_isInvertible (d : Draft) (p q : Int) :
    (d.HasRuleAt p → d.HasRuleAt q → ∃ d', d.move p q = .ok d' ∧
      d'.length = d.length ∧ d.IsMoved p.toNat q.toNat d' ∧ d'.rules.Perm d.rules ∧
      d'.move q p = .ok d ∧ (∀ r, d'.move q r = d.move p r) ∧ d'.remove q = d.remove p) ∧
    (¬ d.HasRuleAt p → d.move p q = .error (.noRule p d.length)) ∧
    (d.HasRuleAt p → ¬ d.HasRuleAt q → d.move p q = .error (.noRule q d.length)) := by
  refine ⟨fun hp hq => ?_, move_of_not_hasRuleAt, move_of_not_hasRuleAt_target⟩
  obtain ⟨d', hmove, hmoved⟩ := move_of_hasRuleAt hp hq
  have hlength := hmoved.length_eq
  have hp' : d'.HasRuleAt p := ⟨hp.1, by rw [hlength]; exact hp.2⟩
  have hq' : d'.HasRuleAt q := ⟨hq.1, by rw [hlength]; exact hq.2⟩
  refine ⟨d', hmove, hlength, hmoved, hmoved.perm, (move_eq_ok_iff hq' hp').2 hmoved.symm,
    move_move hp hq hmove, ?_⟩
  rw [remove_of_hasRuleAt hq', remove_of_hasRuleAt hp, hmoved.others]

/-- A salary, two rates of one kind, and a guarantee behind them. -/
def salaryFirst : Draft :=
  ⟨[⟨"", .base (.ofNat 2000) false⟩, ⟨"", .flatRate (.only .new) (.ofNat 300)⟩,
    ⟨"", .flatRate (.only .used) (.ofNat 250)⟩, ⟨"", .guarantee (.ofNat 150)⟩]⟩

/-- The guarantee moves in front of the others and back again. There is no rule in front of the
first one nor behind the last one. -/
theorem move_isInvertible_salaryFirst :
    salaryFirst.HasRuleAt 3 ∧ salaryFirst.HasRuleAt 0 ∧
      (∃ d', salaryFirst.move 3 0 = .ok d' ∧
        d'.rules.map Rule.kind = [.guarantee, .base, .flatRate, .flatRate] ∧
        d'.move 0 3 = .ok salaryFirst ∧ d'.move 0 2 = salaryFirst.move 3 2 ∧
        d'.remove 0 = salaryFirst.remove 3) ∧
      ¬ salaryFirst.HasRuleAt (-1) ∧ salaryFirst.move (-1) 4 = .error (.noRule (-1) 4) ∧
      ¬ salaryFirst.HasRuleAt 4 ∧ salaryFirst.move 3 4 = .error (.noRule 4 4) := by
  have hlast : salaryFirst.HasRuleAt 3 := ⟨by decide, by decide⟩
  have hfirst : salaryFirst.HasRuleAt 0 := ⟨by decide, by decide⟩
  have hbefore : ¬ salaryFirst.HasRuleAt (-1) := fun h => absurd h.1 (by decide)
  have hbehind : ¬ salaryFirst.HasRuleAt 4 := fun h => absurd h.2 (by decide)
  obtain ⟨d', hmove, -, hmoved, -, hback, hon, hremove⟩ :=
    (move_isInvertible salaryFirst 3 0).1 hlast hfirst
  refine ⟨hlast, hfirst, ⟨d', hmove, ?_, hback, hon 2, hremove⟩, hbefore,
    (move_isInvertible salaryFirst (-1) 4).2.1 hbefore, hbehind,
    (move_isInvertible salaryFirst 3 4).2.2 hlast hbehind⟩
  rw [hmoved.rules_eq]
  rfl

end Draft

end DealerPay
