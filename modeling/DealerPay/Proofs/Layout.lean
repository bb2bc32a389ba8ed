import DealerPay.Proofs.Acceptance
import DealerPay.Proofs.Decimal.Size
import DealerPay.Proofs.Steps

/-!
# The layout of a breakdown

Which lines a breakdown shows, and in which order: a block of lines for each rule, in the order of
the plan, then the guarantees, and right behind the salary or draw that counts the line that sets the
commission against it, where there is one.

* `Terms.block` are the lines of one rule. They are computed from its terms and the delivered deals,
  so that the rules around it cannot matter.
* `Plan.OffsetsDraw` says when the commission is set against a draw.
* `Plan.Layout` is the order of the lines, with a field for each fact about it.
* `Plan.Layout.isInfix_of_block`: the lines of one rule stand in one piece.
* `Plan.layout_of_evaluate`: every evaluation has its lines in this order. It also says where a line
  may be worth nothing, and where it has to be worth something.
-/

namespace DealerPay

variable {p : Plan} {deals sold : List Deal} {b : Breakdown} {period : Period}

/-! ## Lists -/

section Lists

variable {α β : Type}

/-- A list has a last item of a sort, or none of it. -/
theorem exists_last_or_forall (q : α → Bool) (xs : List α) :
    (∀ x ∈ xs, q x = false) ∨
      ∃ front x back, xs = front ++ x :: back ∧ q x = true ∧ ∀ y ∈ back, q y = false := by
  induction xs with
  | nil => exact .inl (by simp)
  | cons x rest ih =>
    rcases ih with hnone | ⟨front, y, back, rfl, hy, hback⟩
    · cases hx : q x with
      | false => exact .inl (List.forall_mem_cons.2 ⟨hx, hnone⟩)
      | true => exact .inr ⟨[], x, rest, rfl, hx, hnone⟩
    · exact .inr ⟨x :: front, y, back, rfl, hy, hback⟩

/-- A filter keeps nothing of a list that has no item of its sort. -/
theorem filter_eq_nil_of_forall {q : α → Bool} {xs : List α} (h : ∀ x ∈ xs, q x = false) :
    xs.filter q = [] := by
  apply List.filter_eq_nil_iff.2
  intro x hx
  rw [h x hx]
  exact Bool.false_ne_true

/-- The last item of a sort is the last one of those that a filter keeps. -/
theorem getLast?_filter_append {q : α → Bool} {front back : List α} {x : α} (hx : q x = true)
    (hback : ∀ y ∈ back, q y = false) :
    ((front ++ x :: back).filter q).getLast? = some x := by
  rw [List.filter_append, List.filter_cons_of_pos hx, filter_eq_nil_of_forall hback,
    List.getLast?_append]
  rfl

/-- A new item is put right behind the last one of a sort. -/
theorem insertAfterLast_append {q : α → Bool} (x : α) (front : List α) {y : α} {back : List α}
    (hy : q y = true) (hback : ∀ z ∈ back, q z = false) :
    insertAfterLast q x (front ++ y :: back) = front ++ y :: x :: back := by
  induction front with
  | nil =>
    have hnone : back.any q = false := List.any_eq_false.2 fun z hz => by simp [hback z hz]
    rw [List.nil_append, insertAfterLast, hy, hnone]
    rfl
  | cons z rest ih =>
    have hsome : (rest ++ y :: back).any q = true := List.any_eq_true.2 ⟨y, by simp, hy⟩
    rw [List.cons_append, insertAfterLast, hsome, ih]
    simp

/-- A pairing of a list with an item in the middle has a partner for it, and pairs the two sides. -/
theorem exists_of_forall₂_append {R : α → β → Prop} {front back : List α} {x : α} {ys : List β}
    (h : List.Forall₂ R (front ++ x :: back) ys) :
    ∃ front' y back', ys = front' ++ y :: back' ∧ List.Forall₂ R front front' ∧ R x y ∧
      List.Forall₂ R back back' := by
  induction front generalizing ys with
  | nil =>
    obtain ⟨y, back', hx, hback, rfl⟩ := List.forall₂_cons_left_iff.1 h
    exact ⟨[], y, back', rfl, .nil, hx, hback⟩
  | cons z rest ih =>
    obtain ⟨y, ys', hz, hrest, rfl⟩ := List.forall₂_cons_left_iff.1 h
    obtain ⟨front', y', back', rfl, hfront, hx, hback⟩ := ih hrest
    exact ⟨y :: front', y', back', rfl, .cons hz hfront, hx, hback⟩

end Lists

/-! ## Blocks -/

/-- The lines that a rule with these terms shows for delivered deals. -/
def Terms.block (sold : List Deal) (t : Terms) : Except Failure (List LineItem) := do
  return (← t.book (← Period.ofDeals sold)).filter LineItem.isShown

/-- Deals that are not delivered make no difference to a period. -/
theorem Period.ofDeals_delivered (deals : List Deal) :
    Period.ofDeals (Deal.delivered deals) = Period.ofDeals deals := by
  have hidem : Deal.delivered (Deal.delivered deals) = Deal.delivered deals := by
    unfold Deal.delivered
    rw [List.filter_filter]
    simp
  unfold Period.ofDeals
  rw [hidem]

/-- The block of a rule is what it books, without the lines that are not shown. -/
theorem Terms.block_eq_ok {t : Terms} {items : List LineItem}
    (hp : Period.ofDeals deals = .ok period) (h : t.book period = .ok items) :
    t.block (Deal.delivered deals) = .ok (items.filter LineItem.isShown) := by
  unfold block
  rw [Period.ofDeals_delivered, hp]
  show (t.book period >>= fun items => pure (items.filter LineItem.isShown)) = _
  rw [h]
  rfl

/-- A rule books lines of its own category. -/
theorem Terms.category_of_mem_book {t : Terms} {items : List LineItem}
    (h : t.book period = .ok items) : ∀ i ∈ items, i.category = t.category := by
  intro i hi
  obtain ⟨es, hes, hbook⟩ := bind_eq_ok.1 h
  obtain ⟨e, he, hline⟩ := exists_of_mem_mapM hbook hi
  rw [(Earning.book_eq_ok (liftM_eq_ok.1 hline)).1]
  exact category_of_mem_earnings hes e he

/-- The lines of a rule are a salary or a draw exactly if the rule is one. -/
theorem Terms.isBase_of_mem_book {r : Rule} {items : List LineItem}
    (h : r.terms.book period = .ok items) : ∀ i ∈ items, i.isBase = r.isBase := by
  intro i hi
  have hc := category_of_mem_book h i hi
  unfold LineItem.isBase Rule.isBase Rule.kind
  rw [hc]
  cases r.terms with
  | base amount isDraw => cases isDraw <;> rfl
  | _ => rfl

/-- A salary or draw books one line, whatever it is worth. -/
theorem Terms.book_base {amount : Decimal} {isDraw : Bool} {items : List LineItem}
    (h : (base amount isDraw).book period = .ok items) :
    ∃ line : LineItem, items = [line] ∧ line.category = (base amount isDraw).category := by
  have hc := category_of_mem_book h
  simp only [book, earnings, bind_eq_ok, Except.ok.injEq, exists_eq_left'] at h
  rw [List.mapM_cons, List.mapM_nil, bind_eq_ok] at h
  obtain ⟨line, -, h⟩ := h
  cases h
  exact ⟨line, rfl, hc line List.mem_cons_self⟩

/-- A rule that is a salary or draw books one line. -/
theorem Terms.book_of_isBase {r : Rule} (hr : r.isBase = true) {items : List LineItem}
    (h : r.terms.book period = .ok items) :
    ∃ line : LineItem, items = [line] ∧ line.category = r.terms.category := by
  unfold Rule.isBase Rule.kind at hr
  cases ht : r.terms with
  | base amount isDraw =>
    rw [ht] at h
    exact book_base h
  | _ =>
    rw [ht] at hr
    cases hr

/-- A salary or draw has one line for its block. -/
theorem Terms.block_of_isBase {r : Rule} (hr : r.isBase = true) {block : List LineItem}
    (h : r.terms.block sold = .ok block) :
    ∃ line : LineItem, block = [line] ∧ line.category = r.terms.category := by
  simp only [Terms.block, bind_eq_ok, pure_eq_ok, liftM_eq_ok] at h
  obtain ⟨period, -, items, hitems, rfl⟩ := h
  obtain ⟨line, rfl, hline⟩ := book_of_isBase hr hitems
  have hshown : line.isShown = true := by
    unfold LineItem.isShown
    rw [isBase_of_mem_book hitems line List.mem_cons_self, hr]
    rfl
  exact ⟨line, by rw [List.filter_cons_of_pos hshown, List.filter_nil], hline⟩

/-- A guarantee has no lines in its block. -/
theorem Terms.block_of_isGuarantee {r : Rule} (hr : r.isGuarantee = true) {block : List LineItem}
    (h : r.terms.block sold = .ok block) : block = [] := by
  simp only [Terms.block, bind_eq_ok, pure_eq_ok, liftM_eq_ok] at h
  obtain ⟨period, -, items, hitems, rfl⟩ := h
  unfold Rule.isGuarantee Rule.kind at hr
  cases ht : r.terms with
  | guarantee perUnit =>
    rw [ht] at hitems
    cases hitems
    rfl
  | _ =>
    rw [ht] at hr
    cases hr

/-! ## Amounts -/

/-- A line is worth the nearest cents of its earning. -/
theorem Earning.value_of_book {e : Earning} {i : LineItem} (h : e.book = .ok i) :
    i.amount.value = nearestCent e.amount.value :=
  Decimal.value_of_toCents (Earning.book_eq_ok h).2

/-- No rule books a bonus below zero. -/
theorem Plan.bonus_nonneg {booked : List LineItem} (h : p.book period = .ok booked) :
    ∀ i ∈ booked, i.category = .bonus → 0 ≤ i.amount.value := by
  intro i hi hbonus
  obtain ⟨r, hrule, es, hes, e, he, hline⟩ := Plan.exists_of_mem_book h hi
  have hc := Terms.category_of_mem_earnings hes e he
  rw [← (Earning.book_eq_ok hline).1, hbonus] at hc
  rw [Earning.value_of_book hline]
  apply nearestCent_nonneg
  cases ht : r.terms with
  | volumeBonus s thresholds =>
    rw [ht] at hes
    obtain ⟨t, hmem, hearned⟩ := exists_of_mem_mapM hes he
    obtain ⟨shown, -, rfl⟩ := Terms.thresholdEarning_eq_ok.1 hearned
    have hin : t ∈ thresholds :=
      (sortByBound_perm Threshold.lower thresholds).mem_iff.1 (List.mem_of_mem_filter hmem)
    have hwell := Rule.isSound_iff.1 (p.sound r hrule)
    rw [ht] at hwell
    exact (hwell t hin).amount
  | base amount isDraw =>
    rw [ht] at hc
    cases isDraw <;> cases hc
  | _ =>
    rw [ht] at hc
    cases hc

/-- No guarantee takes anything away: it adds what is missing. -/
theorem nonneg_of_mem_topUps {units commission raised : Decimal} {floors : List Decimal}
    {items : List LineItem} (h : topUps units commission floors = .ok (raised, items)) :
    ∀ i ∈ items, 0 ≤ i.amount.value := by
  induction floors generalizing commission items with
  | nil =>
    cases h
    simp
  | cons floor rest ih =>
    rcases topUps_cons h with
      h | ⟨required, gap, added, next, items', hlt, hgap, hadded, -, hrest, rfl⟩
    · exact ih h
    · intro i hi
      rcases List.mem_cons.1 hi with rfl | hi
      · show 0 ≤ added.value
        rw [Decimal.value_of_toCents hadded]
        exact nearestCent_nonneg (Decimal.nonneg_of_sub hgap (Decimal.lt_iff.1 hlt).le)
      · exact ih hrest i hi

/-- A line that is shown is worth something, unless it is a salary or a draw. -/
theorem LineItem.ne_zero_of_isShown {i : LineItem} (h : i.isShown = true)
    (hb : i.isBase = false) : i.amount.value ≠ 0 := by
  unfold isShown at h
  rw [hb, Bool.false_or, Bool.not_eq_true'] at h
  intro hzero
  rw [← Decimal.isZero_iff, h] at hzero
  cases hzero

/-! ## The salary or draw that counts -/

/-- Rules that are no salaries and no draws book no lines of that sort. -/
theorem Terms.isBase_of_mem_flatten {rules : List Rule} {books : List (List LineItem)}
    (h : List.Forall₂ (fun r items => r.terms.book period = .ok items) rules books)
    (hr : ∀ r ∈ rules, r.isBase = false) : ∀ i ∈ books.flatten, i.isBase = false := by
  induction h with
  | nil => simp
  | cons hbook _ ih =>
    obtain ⟨hhead, hrest⟩ := List.forall_mem_cons.1 hr
    intro i hi
    rw [List.flatten_cons, List.mem_append] at hi
    rcases hi with hi | hi
    · rw [isBase_of_mem_book hbook i hi, hhead]
    · exact ih hrest i hi

/-- A salary or draw that no other one follows has one line, and none of that sort follows it. -/
theorem Terms.books_of_last {front back : List Rule} {r : Rule} {books : List (List LineItem)}
    (h : List.Forall₂ (fun r items => r.terms.book period = .ok items) (front ++ r :: back) books)
    (hr : r.isBase = true) (hback : ∀ r' ∈ back, r'.isBase = false) :
    ∃ (frontBooks : List (List LineItem)) (line : LineItem) (backBooks : List (List LineItem)),
      books = frontBooks ++ [line] :: backBooks ∧ frontBooks.length = front.length ∧
        line.isBase = true ∧ line.category = r.terms.category ∧
        ∀ i ∈ backBooks.flatten, i.isBase = false := by
  obtain ⟨frontBooks, items, backBooks, rfl, hfront, hbook, hbackBooks⟩ :=
    exists_of_forall₂_append h
  obtain ⟨line, rfl, hcategory⟩ := book_of_isBase hr hbook
  have hline : line.isBase = true := by
    rw [isBase_of_mem_book hbook line List.mem_cons_self, hr]
  exact ⟨frontBooks, line, backBooks, rfl, hfront.length_eq.symm, hline, hcategory,
    isBase_of_mem_flatten hbackBooks hback⟩

namespace Plan

/-- The salary or draw that counts: the last one. -/
def lastBase? (p : Plan) : Option Rule := (p.rules.filter Rule.isBase).getLast?

/-- Whether the commission is set against a draw: the last salary or draw is a draw, and it is more
than the commission. -/
def OffsetsDraw (p : Plan) (b : Breakdown) : Prop :=
  (∃ r, p.lastBase? = some r ∧ r.terms.category = .draw) ∧ b.commission.value < b.basePay.value

/-- The salary or draw that counts is one that no other follows. -/
theorem exists_of_lastBase? {r : Rule} (h : p.lastBase? = some r) :
    ∃ front back, p.rules = front ++ r :: back ∧ r.isBase = true ∧
      ∀ r' ∈ back, r'.isBase = false := by
  unfold lastBase? at h
  rcases exists_last_or_forall Rule.isBase p.rules with hnone | ⟨front, r', back, hrules, hr, hback⟩
  · rw [filter_eq_nil_of_forall hnone] at h
    cases h
  · rw [hrules, getLast?_filter_append hr hback] at h
    cases h
    exact ⟨front, back, hrules, hr, hback⟩

namespace Steps

variable (s : p.Steps deals b)
include s

/-- The lines of each rule. -/
theorem exists_books :
    ∃ books, List.Forall₂ (fun r items => r.terms.book s.period = .ok items) p.rules books ∧
      s.booked = books.flatten := by
  have h := s.book
  simp only [Plan.book, bind_eq_ok, pure_eq_ok] at h
  obtain ⟨books, hbooks, hflat⟩ := h
  exact ⟨books, mapM_eq_ok.1 hbooks, hflat.symm⟩

/-- A breakdown reports a draw exactly if the last salary or draw is one. -/
theorem isDraw_iff :
    b.isDraw = true ↔ ∃ r, p.lastBase? = some r ∧ r.terms.category = .draw := by
  obtain ⟨books, hbooks, hbooked⟩ := s.exists_books
  have hbase := s.base
  unfold BasePay.ofItems at hbase
  cases hlast : p.lastBase? with
  | none =>
    have hnone : ∀ r ∈ p.rules, r.isBase = false := by
      intro r hr
      rw [← Bool.not_eq_true]
      exact List.filter_eq_nil_iff.1 (List.getLast?_eq_none_iff.1 hlast) r hr
    rw [hbooked, filter_eq_nil_of_forall (Terms.isBase_of_mem_flatten hbooks hnone)] at hbase
    have hdraw : b.isDraw = false := (congrArg BasePay.isDraw hbase).symm
    rw [hdraw]
    constructor
    · intro h
      cases h
    · rintro ⟨r, hr, -⟩
      cases hr
  | some r =>
    obtain ⟨front, back, hrules, hr, hback⟩ := exists_of_lastBase? hlast
    rw [hrules] at hbooks
    obtain ⟨frontBooks, line, backBooks, rfl, -, hline, hcategory, hlines⟩ :=
      Terms.books_of_last hbooks hr hback
    rw [hbooked, List.flatten_append, List.flatten_cons, List.singleton_append,
      getLast?_filter_append hline hlines] at hbase
    have hdraw : b.isDraw = (line.category == .draw) := (congrArg BasePay.isDraw hbase).symm
    rw [hdraw, beq_iff_eq, hcategory]
    constructor
    · intro h
      exact ⟨r, rfl, h⟩
    · rintro ⟨r', hr', hc⟩
      cases hr'
      exact hc

/-- The test of a settlement is whether the commission is set against a draw. -/
theorem exceeds_iff : (BasePay.ofItems s.booked).exceeds b.commission = true ↔ p.OffsetsDraw b := by
  rw [s.base]
  unfold BasePay.exceeds OffsetsDraw
  rw [Bool.and_eq_true, decide_eq_true_eq, Decimal.lt_iff]
  show b.isDraw = true ∧ _ ↔ _
  rw [s.isDraw_iff]

/-- The commission is set against a draw by one line, right behind the last salary or draw. -/
theorem items_of_offsetsDraw (h : p.OffsetsDraw b) :
    ∃ offset : LineItem, offset.category = .drawOffset ∧
      (Decimal.zero.sub b.commission >>= Decimal.toCents) = .ok offset.amount ∧
      b.items = insertAfterLast LineItem.isBase offset s.shown := by
  have hitems := s.items
  unfold withOffset at hitems
  rw [if_pos (s.exceeds_iff.2 h)] at hitems
  obtain ⟨offset, hoffset, hitems⟩ := bind_eq_ok.1 hitems
  obtain ⟨gap, cents, hgap, hcents, rfl⟩ := BasePay.offset_eq_ok.1 hoffset
  exact ⟨_, rfl, bind_eq_ok.2 ⟨gap, hgap, hcents⟩, (pure_eq_ok.1 hitems).symm⟩

/-- Without a draw that is more than the commission, no line is added. -/
theorem items_of_not_offsetsDraw (h : ¬p.OffsetsDraw b) : b.items = s.shown := by
  have hitems := s.items
  unfold withOffset at hitems
  rw [if_neg (mt s.exceeds_iff.1 h)] at hitems
  exact (Except.ok.inj hitems).symm

/-- A line that is worth nothing is a salary, a draw or an offset. -/
theorem category_of_value_eq_zero : ∀ i ∈ b.items, i.amount.value = 0 →
    i.category = .base ∨ i.category = .draw ∨ i.category = .drawOffset := by
  have shown : ∀ i ∈ s.shown, i.amount.value = 0 → i.category = .base ∨ i.category = .draw := by
    intro i hi hzero
    by_contra hne
    rw [not_or] at hne
    apply LineItem.ne_zero_of_isShown (List.of_mem_filter hi) _ hzero
    unfold LineItem.isBase
    rw [Bool.or_eq_false_iff, beq_eq_false_iff_ne, beq_eq_false_iff_ne]
    exact hne
  intro i hi hzero
  rcases s.items_cases with h | ⟨offset, hoffset, -, h⟩
  · rw [h] at hi
    rcases shown i hi hzero with hc | hc
    · exact .inl hc
    · exact .inr (.inl hc)
  · rw [h] at hi
    rcases mem_of_mem_insertAfterLast _ _ _ hi with rfl | hi
    · exact .inr (.inr hoffset)
    · rcases shown i hi hzero with hc | hc
      · exact .inl hc
      · exact .inr (.inl hc)

/-- Every bonus and every guarantee pays something. -/
theorem pos_of_category : ∀ i ∈ b.items, i.category = .bonus ∨ i.category = .guarantee →
    0 < i.amount.value := by
  intro i hi hc
  have hzero : i.amount.value ≠ 0 := by
    intro hzero
    rcases s.category_of_value_eq_zero i hi hzero with h | h | h <;> rw [h] at hc <;> simp at hc
  have hshown : i ∈ s.shown := by
    rcases s.items_cases with h | ⟨offset, hoffset, -, h⟩
    · rw [← h]
      exact hi
    · rw [h] at hi
      rcases mem_of_mem_insertAfterLast _ _ _ hi with rfl | hi
      · rw [hoffset] at hc
        simp at hc
      · exact hi
  apply lt_of_le_of_ne _ hzero.symm
  -- a bonus is booked by a rule and a guarantee is not, so that each is where its sign is known
  rcases List.mem_append.1 (List.mem_of_mem_filter hshown) with hi | hi
  · rcases hc with hc | hc
    · exact bonus_nonneg s.book i hi hc
    · have hearned := isEarned_of_mem_book s.book i hi
      rw [hc] at hearned
      cases hearned
  · rcases eq_or_topUps_of_guaranteed s.guarantees with h | h
    · exact nonneg_of_mem_topUps h i hi
    · exact nonneg_of_mem_topUps h i hi

end Steps

/-! ## The order of the lines -/

/-- The order of the lines of a breakdown: the blocks of the rules, in the order of the plan, then
the guarantees, and right behind the salary or draw that counts the line that sets the commission
against it, where there is one. -/
structure Layout (p : Plan) (sold : List Deal) (b : Breakdown) (blocks : List (List LineItem))
    (added : List LineItem) : Prop where
  /-- Each rule has its own block, which its terms and the delivered deals determine. -/
  forall_block : List.Forall₂ (fun r block => r.terms.block sold = .ok block) p.rules blocks
  /-- A salary or draw has one line. -/
  block_of_isBase : ∀ r ∈ p.rules, r.isBase = true → ∃ line, r.terms.block sold = .ok [line]
  /-- A guarantee has no line of its own. -/
  block_of_isGuarantee : ∀ r ∈ p.rules, r.isGuarantee = true → r.terms.block sold = .ok []
  /-- No block has a guarantee or an offset in it. -/
  isEarned_of_mem_block : ∀ i ∈ blocks.flatten, i.category.isEarned = true
  /-- Behind the blocks stand guarantees only. -/
  isGuarantee_of_mem_added : ∀ i ∈ added, i.category = .guarantee
  /-- Where no commission is set against a draw, these are all the lines. -/
  items_of_not_offsetsDraw : ¬p.OffsetsDraw b → b.items = blocks.flatten ++ added
  /-- Where it is, one line more stands right behind that of the last salary or draw, and it takes
  the commission from nothing. -/
  items_of_offsetsDraw : p.OffsetsDraw b →
    ∃ (front : List Rule) (r : Rule) (back : List Rule) (frontBlocks : List (List LineItem))
      (line offset : LineItem) (backBlocks : List (List LineItem)),
      p.rules = front ++ r :: back ∧ r.isBase = true ∧ (∀ r' ∈ back, r'.isBase = false) ∧
      blocks = frontBlocks ++ [line] :: backBlocks ∧ frontBlocks.length = front.length ∧
      offset.category = .drawOffset ∧
      (Decimal.zero.sub b.commission >>= Decimal.toCents) = .ok offset.amount ∧
      b.items = frontBlocks.flatten ++ line :: offset :: (backBlocks.flatten ++ added)

/-- Every evaluation has its lines in this order. -/
theorem Steps.exists_layout (s : p.Steps deals b) :
    ∃ blocks added, p.Layout (Deal.delivered deals) b blocks added := by
  obtain ⟨books, hbooks, hbooked⟩ := s.exists_books
  have hblocks : List.Forall₂ (fun r block => r.terms.block (Deal.delivered deals) = .ok block)
      p.rules (books.map (List.filter LineItem.isShown)) := by
    rw [List.forall₂_map_right_iff]
    exact hbooks.imp fun r items h => Terms.block_eq_ok s.ofDeals h
  have hblock : ∀ r ∈ p.rules, ∃ block, r.terms.block (Deal.delivered deals) = .ok block := by
    intro r hr
    obtain ⟨front, back, hrules⟩ := List.append_of_mem hr
    rw [hrules] at hblocks
    obtain ⟨-, block, -, -, -, h, -⟩ := exists_of_forall₂_append hblocks
    exact ⟨block, h⟩
  have hshown : s.shown = (books.map (List.filter LineItem.isShown)).flatten ++
      s.added.filter LineItem.isShown := by
    rw [Steps.shown, List.filter_append, hbooked, List.filter_flatten]
  refine ⟨books.map (List.filter LineItem.isShown), s.added.filter LineItem.isShown, hblocks,
    ?_, ?_, ?_, ?_, ?_, ?_⟩
  · intro r hr hbase
    obtain ⟨block, h⟩ := hblock r hr
    obtain ⟨line, rfl, -⟩ := Terms.block_of_isBase hbase h
    exact ⟨line, h⟩
  · intro r hr hguarantee
    obtain ⟨block, h⟩ := hblock r hr
    rw [Terms.block_of_isGuarantee hguarantee h] at h
    exact h
  · intro i hi
    rw [← List.filter_flatten, ← hbooked] at hi
    exact isEarned_of_mem_book s.book i (List.mem_of_mem_filter hi)
  · intro i hi
    exact (s.line_of_mem_added i (List.mem_of_mem_filter hi)).1
  · intro h
    rw [s.items_of_not_offsetsDraw h, hshown]
  · intro h
    obtain ⟨offset, hcategory, hamount, hitems⟩ := s.items_of_offsetsDraw h
    obtain ⟨⟨r, hlast, -⟩, -⟩ := h
    obtain ⟨front, back, hrules, hr, hback⟩ := exists_of_lastBase? hlast
    rw [hrules] at hbooks
    obtain ⟨frontBooks, line, backBooks, rfl, hlength, hline, -, hlines⟩ :=
      Terms.books_of_last hbooks hr hback
    -- that line is always shown, and no line behind it is a salary or draw: the offset goes there
    have hline' : line.isShown = true := by
      unfold LineItem.isShown
      rw [hline]
      rfl
    have hrest : ∀ i ∈ (backBooks.map (List.filter LineItem.isShown)).flatten ++
        s.added.filter LineItem.isShown, i.isBase = false := by
      intro i hi
      rcases List.mem_append.1 hi with hi | hi
      · rw [← List.filter_flatten] at hi
        exact hlines i (List.mem_of_mem_filter hi)
      · unfold LineItem.isBase
        rw [(s.line_of_mem_added i (List.mem_of_mem_filter hi)).1]
        rfl
    have hmap : (frontBooks ++ [line] :: backBooks).map (List.filter LineItem.isShown) =
        frontBooks.map (List.filter LineItem.isShown) ++
          [line] :: backBooks.map (List.filter LineItem.isShown) := by
      rw [List.map_append, List.map_cons, List.filter_cons_of_pos hline', List.filter_nil]
    refine ⟨front, r, back, _, line, offset, _, hrules, hr, hback, hmap, ?_, hcategory, hamount, ?_⟩
    · rw [List.length_map, hlength]
    · rw [hitems, hshown, hmap, List.flatten_append, List.flatten_cons, List.singleton_append,
        List.append_assoc, List.cons_append, insertAfterLast_append offset _ hline hrest]

namespace Layout

variable {blocks : List (List LineItem)} {added : List LineItem}

/-- Neither a rule nor a guarantee has an offset of its own. -/
theorem countP_eq_zero (l : p.Layout sold b blocks added) {items : List LineItem}
    (h : ∀ i ∈ items, i ∈ blocks.flatten ++ added) :
    items.countP (fun i => i.category == .drawOffset) = 0 := by
  rw [List.countP_eq_zero]
  intro i hi hc
  rw [beq_iff_eq] at hc
  rcases List.mem_append.1 (h i hi) with hmem | hmem
  · have hearned := l.isEarned_of_mem_block i hmem
    rw [hc] at hearned
    cases hearned
  · rw [l.isGuarantee_of_mem_added i hmem] at hc
    cases hc

/-- Where the commission is set against a draw, one line does so. -/
theorem countP_of_offsetsDraw (l : p.Layout sold b blocks added) (h : p.OffsetsDraw b) :
    b.items.countP (fun i => i.category == .drawOffset) = 1 := by
  obtain ⟨-, -, -, frontBlocks, line, offset, backBlocks, -, -, -, rfl, -, hoffset, -, hitems⟩ :=
    l.items_of_offsetsDraw h
  have hfront : (frontBlocks.flatten ++ [line]).countP (fun i => i.category == .drawOffset) = 0 :=
    l.countP_eq_zero fun i hi => by
      rw [List.flatten_append, List.flatten_cons]
      simp only [List.mem_append] at hi ⊢
      tauto
  have hback : (backBlocks.flatten ++ added).countP (fun i => i.category == .drawOffset) = 0 :=
    l.countP_eq_zero fun i hi => by
      rw [List.flatten_append, List.flatten_cons]
      simp only [List.mem_append] at hi ⊢
      tauto
  rw [hitems, List.append_cons, List.countP_append, List.countP_cons, hfront, hback, hoffset]
  rfl

/-- Where it is not, no line does. -/
theorem countP_of_not_offsetsDraw (l : p.Layout sold b blocks added) (h : ¬p.OffsetsDraw b) :
    b.items.countP (fun i => i.category == .drawOffset) = 0 := by
  rw [l.items_of_not_offsetsDraw h]
  exact l.countP_eq_zero fun i hi => hi

/-- A commission is set against a draw by at most one line. -/
theorem countP_le_one (l : p.Layout sold b blocks added) :
    b.items.countP (fun i => i.category == .drawOffset) ≤ 1 := by
  by_cases h : p.OffsetsDraw b
  · rw [l.countP_of_offsetsDraw h]
  · rw [l.countP_of_not_offsetsDraw h]
    exact Nat.zero_le 1

/-- There is a line that sets the commission against a draw exactly if the last salary or draw is a
draw and more than the commission. -/
theorem exists_offset_iff (l : p.Layout sold b blocks added) :
    (∃ i ∈ b.items, i.category = .drawOffset) ↔ p.OffsetsDraw b := by
  have hpos : (∃ i ∈ b.items, i.category = .drawOffset) ↔
      0 < b.items.countP (fun i => i.category == .drawOffset) := by
    rw [List.countP_pos_iff]
    simp only [beq_iff_eq]
  rw [hpos]
  by_cases h : p.OffsetsDraw b
  · rw [l.countP_of_offsetsDraw h]
    simp [h]
  · rw [l.countP_of_not_offsetsDraw h]
    simp [h]

/-- The block of a rule stands in the breakdown in one piece. -/
theorem isInfix_of_block (l : p.Layout sold b blocks added) {r : Rule} (hr : r ∈ p.rules)
    {block : List LineItem} (h : r.terms.block sold = .ok block) : block <:+: b.items := by
  have hmem : block ∈ blocks := by
    obtain ⟨front, back, hrules⟩ := List.append_of_mem hr
    have hblocks := l.forall_block
    rw [hrules] at hblocks
    obtain ⟨front', block', back', rfl, -, hblock, -⟩ := exists_of_forall₂_append hblocks
    cases h.symm.trans hblock
    simp
  by_cases hoffset : p.OffsetsDraw b
  · obtain ⟨-, -, -, frontBlocks, line, offset, backBlocks, -, -, -, rfl, -, -, -, hitems⟩ :=
      l.items_of_offsetsDraw hoffset
    rw [hitems]
    rcases List.mem_append.1 hmem with hfront | hrest
    · exact (List.infix_of_mem_flatten hfront).trans (List.prefix_append _ _).isInfix
    · rcases List.mem_cons.1 hrest with rfl | hback
      · exact ⟨_, _, (List.append_cons _ _ _).symm⟩
      · refine (List.infix_of_mem_flatten hback).trans ?_
        exact ⟨frontBlocks.flatten ++ [line, offset], added, by simp⟩
  · rw [l.items_of_not_offsetsDraw hoffset]
    exact (List.infix_of_mem_flatten hmem).trans (List.prefix_append _ _).isInfix

end Layout

/-- Every breakdown has its lines in the order of the rules, with the guarantees behind them. One
line at most sets the commission against a draw, and it is there exactly if the last salary or draw
is a draw and more than the commission. All lines are in cents; those that are worth nothing are
salaries, draws and offsets, and bonuses and guarantees are above zero. -/
theorem layout_of_evaluate (h : p.evaluate deals = .ok b) :
    (∃ blocks added, p.Layout (Deal.delivered deals) b blocks added) ∧
      b.items.countP (fun i => i.category == .drawOffset) ≤ 1 ∧
      ((∃ i ∈ b.items, i.category = .drawOffset) ↔ p.OffsetsDraw b) ∧
      (∀ i ∈ b.items, i.amount.exponent = -2) ∧
      (∀ i ∈ b.items, i.amount.value = 0 →
        i.category = .base ∨ i.category = .draw ∨ i.category = .drawOffset) ∧
      ∀ i ∈ b.items, i.category = .bonus ∨ i.category = .guarantee → 0 < i.amount.value := by
  obtain ⟨s⟩ := exists_steps h
  obtain ⟨blocks, added, l⟩ := s.exists_layout
  exact ⟨⟨blocks, added, l⟩, l.countP_le_one, l.exists_offset_iff, s.exponent_of_mem_items,
    s.category_of_value_eq_zero, s.pos_of_category⟩

/-- A plan with a salary and a draw, between which and behind which other rules stand. -/
def overdrawn : Plan where
  rules :=
    [⟨"", .guarantee (.ofNat 500)⟩,
     ⟨"", .base (.ofNat 200) false⟩,
     ⟨"", .volumeBonus .all [⟨.one, .ofNat 50⟩]⟩,
     ⟨"", .base (.ofNat 1000) true⟩,
     ⟨"", .flatRate .all (.ofNat 100)⟩]
  sound := by decide +kernel

/-- What the plan pays for one vehicle: the guaranteed commission is less than the draw. -/
def overdrawnPay : Breakdown where
  items :=
    [⟨"Base Salary", ⟨false, 20000, -2⟩, .base⟩,
     ⟨"Unit Bonus (>=1 units)", ⟨false, 5000, -2⟩, .bonus⟩,
     ⟨"Draw", ⟨false, 100000, -2⟩, .draw⟩,
     ⟨"Commission vs Draw", ⟨true, 50000, -2⟩, .drawOffset⟩,
     ⟨"Flat Rate (1 units)", ⟨false, 10000, -2⟩, .commission⟩,
     ⟨"Minimum Commission Guarantee", ⟨false, 40000, -2⟩, .guarantee⟩]
  totalPay := ⟨false, 105000, -2⟩
  totalUnits := .one
  totalGross := .zero
  commission := ⟨false, 50000, -2⟩
  bonus := ⟨false, 5000, -2⟩
  basePay := ⟨false, 100000, -2⟩
  isDraw := true
  warnings := overdrawn.warnings

/-- The offset stands between the lines of two rules, behind the second of two salaries and draws. -/
theorem layout_overdrawn :
    overdrawn.evaluate [Deal.plain] = .ok overdrawnPay ∧
      (∃ blocks added, overdrawn.Layout [Deal.plain] overdrawnPay blocks added) ∧
      overdrawn.OffsetsDraw overdrawnPay := by
  have h : overdrawn.evaluate [Deal.plain] = .ok overdrawnPay :=
    eq_ok_of_toOption (by decide +kernel)
  obtain ⟨hlayout, -, hoffset, -⟩ := layout_of_evaluate h
  have hsome : ∃ i ∈ overdrawnPay.items, i.category = .drawOffset := by decide
  exact ⟨h, hlayout, hoffset.1 hsome⟩

end Plan

end DealerPay
