import DealerPay.Pay.Evaluation
import DealerPay.Proofs.Acceptance
import DealerPay.Proofs.Outcome
import Mathlib.Order.Bounds.Basic

/-!
# Plans that are refused

Which list of rules is refused, which rule is blamed for it, and what is noted of a list that is
not.

* `exists_of_firstFlaw?`: the search for flaws stops at the first rule that has one, and reports the
  first flaw of that rule.
* `Plan.start_of_flawed`: the blame falls on the least position of a rule that is not well formed,
  in strict mode and out of it.
* `Plan.start_of_severalBases`: without such a rule, strict mode refuses a second salary or draw and
  blames no single rule.
* `Plan.start_of_wellFormed`: everything else is a plan, and what is noted are its warnings.
* `Plan.IsRefusal` is what a refusal can say, `Plan.isRefusal_of_ofRules` that it says nothing else.
* `Plan.start_spec` has all cases together.
-/

namespace DealerPay

variable {strict : Bool} {rules : List Rule}

/-! ## The first flaw -/

/-- The search for flaws reports the first flaw of the first rule that has one. -/
theorem exists_of_firstFlaw? {i k : ℕ} {flaw : Flaw} (h : firstFlaw? i rules = some (k, flaw)) :
    ∃ front r back, rules = front ++ r :: back ∧ k = i + front.length ∧
      (∀ r' ∈ front, r'.isSound = true) ∧ r.terms.flaws.head? = some flaw := by
  induction rules generalizing i with
  | nil => cases h
  | cons r rest ih =>
    rw [firstFlaw?] at h
    cases hflaws : r.terms.flaws with
    | cons first others =>
      rw [hflaws] at h
      cases h
      exact ⟨[], r, rest, rfl, rfl, List.forall_mem_nil _, by rw [hflaws]; rfl⟩
    | nil =>
      rw [hflaws] at h
      obtain ⟨front, r', back, rfl, rfl, hfront, hhead⟩ := ih h
      have hr : r.isSound = true := by
        unfold Rule.isSound
        rw [hflaws]
        rfl
      refine ⟨r :: front, r', back, rfl, ?_, List.forall_mem_cons.2 ⟨hr, hfront⟩, hhead⟩
      rw [List.length_cons]
      omega

/-- A rule with a flaw is not well formed. -/
theorem Rule.not_isWellFormed_of_head? {r : Rule} {flaw : Flaw}
    (h : r.terms.flaws.head? = some flaw) : ¬r.terms.IsWellFormed := by
  rw [← Rule.isSound_iff, Rule.isSound, List.isEmpty_iff]
  intro hnil
  rw [hnil] at h
  cases h

/-- An item stands at the position that the items in front of it count. -/
theorem getElem?_length_of_append_cons {α : Type} {front back : List α} {x : α} :
    (front ++ x :: back)[front.length]? = some x := by
  rw [List.getElem?_append_right le_rfl, Nat.sub_self, List.getElem?_cons_zero]

/-- The positions of the rules that are not well formed. -/
def flawedPositions (rules : List Rule) : Set ℕ :=
  {i | ∃ r, rules[i]? = some r ∧ ¬r.terms.IsWellFormed}

/-- The rule behind sound ones is at the least position of a rule that is not well formed, if it is
not well formed itself. -/
theorem isLeast_flawedPositions (front back : List Rule) {r : Rule}
    (hfront : ∀ r' ∈ front, r'.isSound = true) (hr : ¬r.terms.IsWellFormed) :
    IsLeast (flawedPositions (front ++ r :: back)) front.length := by
  refine ⟨⟨r, getElem?_length_of_append_cons, hr⟩, ?_⟩
  rintro i ⟨r', hget, hflawed⟩
  by_contra hlt
  rw [List.getElem?_append_left (not_le.1 hlt)] at hget
  exact hflawed (Rule.isSound_iff.1 (hfront r' (List.mem_of_getElem? hget)))

/-! ## Refusals -/

namespace Plan

/-- The rule that is not well formed and stands first is blamed, for its first flaw. -/
theorem start_of_flawed (h : ∃ r ∈ rules, ¬r.terms.IsWellFormed) :
    ∃ (i : ℕ) (r : Rule) (flaw : Flaw), IsLeast (flawedPositions rules) i ∧
      rules[i]? = some r ∧ r.terms.flaws.head? = some flaw ∧
      ∀ strict, start strict rules = ⟨.error (.ofFault (.flawed flaw) (some i)), []⟩ := by
  cases hflaw : firstFlaw? 0 rules with
  | none =>
    obtain ⟨r, hr, hflawed⟩ := h
    exact absurd (Rule.isSound_iff.1 (firstFlaw?_eq_none_iff.1 hflaw r hr)) hflawed
  | some found =>
    obtain ⟨i, flaw⟩ := found
    obtain ⟨front, r, back, hrules, hi, hfront, hhead⟩ := exists_of_firstFlaw? hflaw
    rw [Nat.zero_add] at hi
    subst hi
    refine ⟨front.length, r, flaw, ?_, ?_, hhead, fun strict => ?_⟩
    · rw [hrules]
      exact isLeast_flawedPositions front back hfront (Rule.not_isWellFormed_of_head? hhead)
    · rw [hrules]
      exact getElem?_length_of_append_cons
    · have hof : ofRules strict rules = .error (.ofFault (.flawed flaw) (some front.length)) := by
        unfold ofRules
        split
        · next i' flaw' hfound =>
          rw [hflaw] at hfound
          cases hfound
          rfl
        · next hfound =>
          rw [hflaw] at hfound
          cases hfound
      rw [start, hof]

/-- Where every rule is well formed, strict mode refuses a second salary or draw. -/
theorem start_of_severalBases (h : ∀ r ∈ rules, r.terms.IsWellFormed)
    (hbases : 2 ≤ rules.countP Rule.isBase) :
    start true rules =
      ⟨.error (.ofFault (.severalBases (positionsOf Rule.isBase rules)) none), []⟩ := by
  have hsound : firstFlaw? 0 rules = none :=
    firstFlaw?_eq_none_iff.2 fun r hr => Rule.isSound_iff.2 (h r hr)
  have hof : ofRules true rules =
      .error (.ofFault (.severalBases (positionsOf Rule.isBase rules)) none) := by
    unfold ofRules
    split
    · next i flaw hfound =>
      rw [hsound] at hfound
      cases hfound
    · refine if_pos ?_
      rw [length_positionsOf, Bool.true_and, decide_eq_true_iff]
      exact hbases
  rw [start, hof]

/-- Where every rule is well formed, everything else is a plan of these rules. -/
theorem start_of_wellFormed (h : ∀ r ∈ rules, r.terms.IsWellFormed)
    (hbases : strict = true → rules.countP Rule.isBase < 2) :
    ∃ p : Plan, start strict rules = ⟨.ok p, p.notes⟩ ∧ p.rules = rules := by
  let p : Plan := ⟨rules, fun r hr => Rule.isSound_iff.2 (h r hr)⟩
  have hof : ofRules strict rules = .ok p :=
    ofRules_eq_ok_iff.2 ⟨rfl, fun hs => Nat.lt_succ_iff.1 (hbases hs)⟩
  exact ⟨p, by rw [start, hof], rfl⟩

/-- What a refusal of rules says. The rule at the least position of one that is not well formed is
to blame, for its first flaw. Where there is none, strict mode has found several salaries or draws,
and no single rule is to blame. -/
inductive IsRefusal (strict : Bool) (rules : List Rule) : PlanError → Prop where
  /-- A rule is to blame. -/
  | flawed {i : ℕ} {r : Rule} {flaw : Flaw} (least : IsLeast (flawedPositions rules) i)
      (get : rules[i]? = some r) (first : r.terms.flaws.head? = some flaw) :
      IsRefusal strict rules (.ofFault (.flawed flaw) (some i))
  /-- No single rule is to blame. -/
  | severalBases (wellFormed : ∀ r ∈ rules, r.terms.IsWellFormed) (isStrict : strict = true)
      (several : 2 ≤ rules.countP Rule.isBase) :
      IsRefusal strict rules (.ofFault (.severalBases (positionsOf Rule.isBase rules)) none)

/-- A refusal of rules names no consultant. -/
theorem IsRefusal.consultant_eq_none {e : PlanError} (h : IsRefusal strict rules e) :
    e.consultant = none := by
  cases h <;> rfl

/-- Rules are not refused for anything else. -/
theorem isRefusal_of_ofRules {e : PlanError} (h : ofRules strict rules = .error e) :
    IsRefusal strict rules e := by
  have hstart : (start strict rules).result = .error e := by rw [start, h]
  by_cases hflawed : ∃ r ∈ rules, ¬r.terms.IsWellFormed
  · obtain ⟨i, r, flaw, hleast, hget, hfirst, hall⟩ := start_of_flawed hflawed
    rw [hall strict] at hstart
    cases hstart
    exact .flawed hleast hget hfirst
  · have hwell : ∀ r ∈ rules, r.terms.IsWellFormed := by simpa using hflawed
    by_cases hbases : strict = true → rules.countP Rule.isBase < 2
    · obtain ⟨p, hp, -⟩ := start_of_wellFormed hwell hbases
      rw [hp] at hstart
      cases hstart
    · obtain ⟨rfl, hseveral⟩ := Classical.not_imp.1 hbases
      rw [start_of_severalBases hwell (not_lt.1 hseveral)] at hstart
      cases hstart
      exact .severalBases hwell rfl (not_lt.1 hseveral)

/-- A list of rules that is put to use is a plan of these rules. -/
theorem rules_of_start_eq_ok {p : Plan} (h : (start strict rules).result = .ok p) :
    p.rules = rules := by
  unfold start at h
  split at h
  · next q hof =>
    cases h
    exact (ofRules_eq_ok_iff.1 hof).1
  · cases h

/-- Both modes make the same plan of the same rules, where they make one. -/
theorem eq_of_start_eq_ok {strict' : Bool} {p q : Plan} (hp : (start strict rules).result = .ok p)
    (hq : (start strict' rules).result = .ok q) : p = q := by
  have h : p.rules = q.rules := (rules_of_start_eq_ok hp).trans (rules_of_start_eq_ok hq).symm
  cases p
  cases q
  cases h
  rfl

/-- A list of rules is checked in three steps. A rule that is not well formed refuses it, and the
one at the least position is blamed, in strict mode and out of it. Where there is none, strict mode
refuses a second salary or draw, which no single rule is blamed for. Everything else is a plan, with
one warning if it has several salaries or draws and then one if it has several guarantees; a plan of
both modes pays the same in both. -/
theorem start_spec (rules : List Rule) :
    ((∃ r ∈ rules, ¬r.terms.IsWellFormed) →
      ∃ (i : ℕ) (r : Rule) (flaw : Flaw), IsLeast (flawedPositions rules) i ∧
        rules[i]? = some r ∧ r.terms.flaws.head? = some flaw ∧
        ∀ strict, start strict rules = ⟨.error (.ofFault (.flawed flaw) (some i)), []⟩) ∧
    ((∀ r ∈ rules, r.terms.IsWellFormed) →
      (2 ≤ rules.countP Rule.isBase →
        start true rules =
          ⟨.error (.ofFault (.severalBases (positionsOf Rule.isBase rules)) none), []⟩) ∧
      ∀ strict : Bool, (strict = true → rules.countP Rule.isBase < 2) →
        ∃ p : Plan, start strict rules = ⟨.ok p, p.notes⟩ ∧ p.rules = rules ∧
          p.warnings =
            (if 2 ≤ rules.countP Rule.isBase then
              [toString (rules.countP Rule.isBase)
                ++ " base salary/draw rules configured; the last one sets base pay and draw mode"]
            else []) ++
            (if 2 ≤ rules.countP Rule.isGuarantee then
              [toString (rules.countP Rule.isGuarantee)
                ++ " minimum commission rules configured; each guarantee is applied in turn"]
            else [])) ∧
    ∀ p q : Plan, (start true rules).result = .ok p → (start false rules).result = .ok q →
      ∀ deals : List Deal, p.evaluate deals = q.evaluate deals := by
  refine ⟨start_of_flawed, fun h => ⟨start_of_severalBases h, fun strict hbases => ?_⟩, ?_⟩
  · obtain ⟨p, hstart, hrules⟩ := start_of_wellFormed h hbases
    refine ⟨p, hstart, hrules, ?_⟩
    rw [warnings, hrules]
    rfl
  · intro p q hp hq deals
    rw [eq_of_start_eq_ok hp hq]

/-- Rules of which the second and the third are flawed. -/
def flawedRules : List Rule :=
  [⟨"", .base (.ofNat 1000) false⟩,
   ⟨"", .flatRate .all (.ofInt (-1))⟩,
   ⟨"", .unitTiers .all [⟨.ofNat 5, some (.ofNat 3), .ofNat 10⟩] false⟩,
   ⟨"", .base (.ofNat 500) true⟩]

/-- Rules without a flaw, two of them salaries and two of them guarantees. -/
def doubledRules : List Rule :=
  [⟨"", .base (.ofNat 1000) false⟩, ⟨"", .guarantee (.ofNat 100)⟩,
   ⟨"", .base (.ofNat 500) true⟩, ⟨"", .guarantee (.ofNat 150)⟩]

/-- The second rule is blamed where the third is flawed as well; two salaries are refused in strict
mode only; without one of them both modes pay the same. -/
theorem start_flawed_and_doubled :
    start true flawedRules =
        ⟨.error (.ofFault (.flawed (.negative (.field "amount_per_unit") (.ofInt (-1)))) (some 1)),
          []⟩ ∧
      start true doubledRules = ⟨.error (.ofFault (.severalBases [0, 2]) none), []⟩ ∧
      (∃ p : Plan, start false doubledRules = ⟨.ok p, p.notes⟩ ∧ p.rules = doubledRules ∧
        p.warnings =
          ["2 base salary/draw rules configured; the last one sets base pay and draw mode",
           "2 minimum commission rules configured; each guarantee is applied in turn"]) ∧
      ∃ p q : Plan, (start true (doubledRules.take 2)).result = .ok p ∧
        (start false (doubledRules.take 2)).result = .ok q ∧
        p.evaluate [Deal.plain] = q.evaluate [Deal.plain] := by
  have hsound : ∀ r ∈ doubledRules, r.terms.IsWellFormed := by
    simp only [← Rule.isSound_iff]
    decide +kernel
  have htake : ∀ r ∈ doubledRules.take 2, r.terms.IsWellFormed :=
    fun r hr => hsound r (List.mem_of_mem_take hr)
  have hfirst : ¬Terms.IsWellFormed (.flatRate .all (.ofInt (-1))) :=
    Rule.not_isWellFormed_of_head? (r := ⟨"", .flatRate .all (.ofInt (-1))⟩) rfl
  refine ⟨?_, ((start_spec doubledRules).2.1 hsound).1 (by decide), ?_, ?_⟩
  · obtain ⟨i, r, flaw, hleast, hget, hhead, hstart⟩ :=
      (start_spec flawedRules).1 ⟨_, List.mem_cons_of_mem _ List.mem_cons_self, hfirst⟩
    have hi : i = 1 := hleast.unique
      (isLeast_flawedPositions [⟨"", .base (.ofNat 1000) false⟩] _ (by decide +kernel) hfirst)
    subst hi
    cases hget
    cases hhead
    exact hstart true
  · obtain ⟨p, hstart, hrules, hwarnings⟩ :=
      ((start_spec doubledRules).2.1 hsound).2 false nofun
    exact ⟨p, hstart, hrules, hwarnings⟩
  · obtain ⟨p, hp, -⟩ := ((start_spec (doubledRules.take 2)).2.1 htake).2 true fun _ => by decide
    obtain ⟨q, hq, -⟩ := ((start_spec (doubledRules.take 2)).2.1 htake).2 false nofun
    have hp' := congrArg Journal.Noted.result hp
    have hq' := congrArg Journal.Noted.result hq
    exact ⟨p, q, hp', hq', (start_spec _).2.2 p q hp' hq' _⟩

end Plan

end DealerPay
