import DealerPay.Pay.Evaluation
import DealerPay.Proofs.Decimal.Cents
import DealerPay.Proofs.Texts

/-!
# The steps of an evaluation

What is known of every evaluation that has a result, whatever the figures are.

* `Plan.Steps` are the intermediate results of an evaluation; `Plan.exists_steps` finds them.
* `Terms.flatRateEarning_eq_ok`, `Terms.sliceEarning_eq_ok` and `Terms.thresholdEarning_eq_ok` say
  what is earned and in which words, `Earning.book_iff` and `BasePay.offset_eq_ok` what is booked.
* `Terms.earning_of_mem_earnings`: each rule pays in one category, which is a salary, a draw,
  commission or a bonus, and says for what in plain text. `line_of_mem_topUps`: guarantees book
  nothing but guarantees.
* `foldlM_of_topUps`: the commission with its guarantees is one running sum of lines.
* `Plan.Steps.filter_items`: the lines of the breakdown, looked at by category, are the booked and
  the added ones, without those of nothing.
* `Plan.Steps.isBooked_of_mem_items`: every line was rounded to cents, so it is written with two
  decimals (`Plan.Steps.exponent_of_mem_items`), and has a plain description.
-/

namespace DealerPay

variable {p : Plan} {deals : List Deal} {b : Breakdown}

namespace Plan

/-- The intermediate results of an evaluation. -/
structure Steps (p : Plan) (deals : List Deal) (b : Breakdown) where
  /-- The period that the deals make up. -/
  period : Period
  /-- The lines of all rules. -/
  booked : List LineItem
  /-- The commission before guarantees. -/
  earned : Decimal
  /-- The lines of the guarantees. -/
  added : List LineItem
  /-- The period is that of the deals. -/
  ofDeals : Period.ofDeals deals = .ok period
  /-- The lines are those that the plan books. -/
  book : p.book period = .ok booked
  /-- The commission is the sum of the commission lines. -/
  subtotal_commission : subtotal .commission booked = .ok earned
  /-- The bonuses are the sum of the bonus lines. -/
  subtotal_bonus : subtotal .bonus booked = .ok b.bonus
  /-- The guarantees raise the commission. -/
  guarantees : guaranteed period.units earned p.floors = .ok (b.commission, added)
  /-- The lines of nothing are left out, and the commission is set against a draw. -/
  items : withOffset (BasePay.ofItems booked) b.commission
    ((booked ++ added).filter LineItem.isShown) = .ok b.items
  /-- The total is settled with the salary or draw. -/
  settle : (BasePay.ofItems booked).settle b.commission b.bonus = .ok b.totalPay
  /-- The salary or draw is the last one that was booked. -/
  base : BasePay.ofItems booked = ⟨b.basePay, b.isDraw⟩
  /-- The units are those of the period. -/
  units : period.units = b.totalUnits

/-- An evaluation that has a result went through its steps. -/
theorem exists_steps (h : p.evaluate deals = .ok b) : Nonempty (p.Steps deals b) := by
  simp only [evaluate, payFor, bind_eq_ok, liftM_eq_ok, pure_eq_ok] at h
  obtain ⟨period, hperiod, booked, hbook, earned, hearned, bonus, hbonus, ⟨commission, added⟩,
    hguarantees, items, hitems, totalPay, hsettle, totals, -, totalGross, -, rfl⟩ := h
  exact ⟨period, booked, earned, added, hperiod, hbook, hearned, hbonus, hguarantees, hitems,
    hsettle, rfl, rfl⟩

/-- A breakdown carries the notes on its plan. -/
theorem warnings_of_evaluate (h : p.evaluate deals = .ok b) : b.warnings = p.warnings := by
  simp only [evaluate, payFor, bind_eq_ok, liftM_eq_ok, pure_eq_ok] at h
  obtain ⟨-, -, -, -, -, -, -, -, -, -, -, -, -, -, -, -, -, -, rfl⟩ := h
  rfl

end Plan

/-! ## Descriptions -/

open Text (IsPlain)

/-- What stands before a description is plain. -/
theorem Scope.isPlain_lead (s : Scope) : IsPlain s.lead := by
  rcases s with _ | (_ | _) <;> decide

/-- A number shown as amounts are is plain. -/
theorem Amount.isPlain_of_plainText {d : Decimal} {text : String} (h : plainText d = .ok text) :
    IsPlain text := by
  simp only [plainText, plain, bind_eq_ok, liftM_eq_ok, pure_eq_ok] at h
  obtain ⟨_, -, r, -, rfl⟩ := h
  exact r.isPlain_positional

/-- What an earning by the tiers of gross is called is plain if the percentage is. -/
theorem Terms.isPlain_grossTierText (s : Scope) (basis : GrossBasis) (retroactive : Bool)
    {percent : String} (h : IsPlain percent) :
    IsPlain (grossTierText s basis retroactive percent) := by
  have hbasis : IsPlain basis.text := by cases basis <;> decide
  have hlead : IsPlain s.lead := s.isPlain_lead
  unfold grossTierText
  split
  · exact ((((hlead.append (by decide)).append hbasis).append (by decide)).append h).append
      (by decide)
  · exact (((hlead.append hbasis).append (by decide)).append h).append (by decide)

/-! ## Categories -/

/-- Whether a rule may pay in this category: guarantees and offsets are booked apart. -/
def Category.isEarned (c : Category) : Bool := c != .guarantee && c != .drawOffset

/-- A flat rate earns commission for its units, and names them. -/
theorem Terms.flatRateEarning_eq_ok {period : Period} {s : Scope} {perUnit : Decimal}
    {e : Earning} : flatRateEarning period s perUnit = .ok e ↔
      ∃ shown pay, Amount.plainText (period.unitsOf s) = .ok shown ∧
        (period.unitsOf s).mul perUnit = .ok pay ∧
        ⟨s.lead ++ "Flat Rate (" ++ shown ++ " units)", pay, .commission⟩ = e := by
  simp only [flatRateEarning, bind_eq_ok, pure_eq_ok, liftM_eq_ok, exists_and_left]

/-- A slice earns commission for its units, and names them and their rate. -/
theorem Terms.sliceEarning_eq_ok {name : String} {s : Tier.Slice} {e : Earning} :
    sliceEarning name s = .ok e ↔
      ∃ shown pay, Amount.plainText s.tier.rate = .ok shown ∧
        s.units.mul s.tier.rate = .ok pay ∧
        ⟨name ++ " (" ++ s.units.fixed 1 ++ " @ $" ++ shown ++ "/ea)", pay, .commission⟩ = e := by
  simp only [sliceEarning, bind_eq_ok, pure_eq_ok, liftM_eq_ok, exists_and_left]

/-- A threshold earns its bonus, and names the units to reach. -/
theorem Terms.thresholdEarning_eq_ok {s : Scope} {t : Threshold} {e : Earning} :
    thresholdEarning s t = .ok e ↔
      ∃ shown, Amount.plainText t.lower = .ok shown ∧
        ⟨s.lead ++ "Unit Bonus (>=" ++ shown ++ " units)", t.amount, .bonus⟩ = e := by
  simp only [thresholdEarning, bind_eq_ok, pure_eq_ok]

/-- A slice earns commission, and says so in plain text. -/
theorem Terms.earning_of_sliceEarning {name : String} {s : Tier.Slice} {e : Earning}
    (h : sliceEarning name s = .ok e) :
    e.category = .commission ∧ (IsPlain name → IsPlain e.description) := by
  obtain ⟨shown, -, hshown, -, rfl⟩ := sliceEarning_eq_ok.1 h
  refine ⟨rfl, fun hname => ?_⟩
  have hunits : IsPlain (s.units.fixed 1) := Decimal.isPlain_positional _
  exact ((((hname.append (by decide)).append hunits).append (by decide)).append
    (Amount.isPlain_of_plainText hshown)).append (by decide)

/-- The category in which terms pay; a guarantee pays nothing of its own. -/
def Terms.category : Terms → Category
  | base _ isDraw => if isDraw then .draw else .base
  | volumeBonus .. => .bonus
  | _ => .commission

/-- Everything that a rule earns is of the category of its terms and has a plain description. -/
theorem Terms.earning_of_mem_earnings {t : Terms} {period : Period} {es : List Earning}
    (h : t.earnings period = .ok es) :
    ∀ e ∈ es, e.category = t.category ∧ IsPlain e.description := by
  intro e he
  cases t with
  | base amount isDraw =>
    cases h
    rw [List.mem_singleton.1 he]
    cases isDraw with
    | true => exact ⟨rfl, (by decide : IsPlain "Draw")⟩
    | false => exact ⟨rfl, (by decide : IsPlain "Base Salary")⟩
  | flatRate s perUnit =>
    simp only [earnings, bind_eq_ok, pure_eq_ok] at h
    obtain ⟨e', he', rfl⟩ := h
    rw [List.mem_singleton.1 he]
    obtain ⟨shown, -, hshown, -, rfl⟩ := flatRateEarning_eq_ok.1 he'
    exact ⟨rfl, ((s.isPlain_lead.append (by decide)).append
      (Amount.isPlain_of_plainText hshown)).append (by decide)⟩
  | unitTiers s tiers retroactive =>
    simp only [earnings, unitTierEarnings] at h
    cases retroactive with
    | true =>
      rw [if_pos rfl] at h
      cases hr : Tier.reached? (period.unitsOf s) tiers with
      | none =>
        simp only [hr, pure_eq_ok] at h
        subst h
        cases he
      | some t =>
        simp only [hr, bind_eq_ok, pure_eq_ok] at h
        obtain ⟨e', he', rfl⟩ := h
        rw [List.mem_singleton.1 he]
        obtain ⟨hcategory, hplain⟩ := earning_of_sliceEarning he'
        exact ⟨hcategory, hplain (s.isPlain_lead.append (by decide))⟩
    | false =>
      rw [if_neg Bool.false_ne_true, bind_eq_ok] at h
      obtain ⟨ss, -, h⟩ := h
      obtain ⟨s', -, hs'⟩ := exists_of_mem_mapM h he
      obtain ⟨hcategory, hplain⟩ := earning_of_sliceEarning hs'
      exact ⟨hcategory, hplain (s.isPlain_lead.append (by decide))⟩
  | grossShare front back frontCap backCap =>
    simp only [earnings, grossShareEarnings, bind_eq_ok, pure_eq_ok] at h
    obtain ⟨sums, -, frontText, hfront, backText, hback, rfl⟩ := h
    simp only [List.mem_cons, List.not_mem_nil, or_false] at he
    rcases he with rfl | rfl
    · exact ⟨rfl, (Amount.isPlain_of_plainText hfront).append (by decide)⟩
    · exact ⟨rfl, (Amount.isPlain_of_plainText hback).append (by decide)⟩
  | grossTiers s tiers retroactive basis =>
    simp only [earnings, grossTierEarnings, bind_eq_ok] at h
    obtain ⟨totals, -, gross, -, h⟩ := h
    cases hr : Tier.reached? (period.unitsOf s) tiers with
    | none =>
      simp only [hr, pure_eq_ok] at h
      subst h
      cases he
    | some t =>
      simp only [hr, bind_eq_ok, pure_eq_ok] at h
      obtain ⟨shown, hshown, pay, -, rfl⟩ := h
      rw [List.mem_singleton.1 he]
      exact ⟨rfl, isPlain_grossTierText s basis retroactive (Amount.isPlain_of_plainText hshown)⟩
  | volumeBonus s thresholds =>
    obtain ⟨t, -, ht⟩ := exists_of_mem_mapM h he
    obtain ⟨shown, hshown, rfl⟩ := thresholdEarning_eq_ok.1 ht
    exact ⟨rfl, ((s.isPlain_lead.append (by decide)).append
      (Amount.isPlain_of_plainText hshown)).append (by decide)⟩
  | addOn s accessory spiff tradeSpiff =>
    simp only [earnings, addOnEarnings, bind_eq_ok, pure_eq_ok] at h
    obtain ⟨totals, -, shares, -, rfl⟩ := h
    simp only [List.mem_cons, List.not_mem_nil, or_false] at he
    rcases he with rfl | rfl | rfl
    · exact ⟨rfl, (by decide : IsPlain "Accessory Commission")⟩
    · exact ⟨rfl, (by decide : IsPlain "Spiff Commission")⟩
    · exact ⟨rfl, (by decide : IsPlain "Trade Spiff Commission")⟩
  | guarantee perUnit =>
    cases h
    cases he

/-- Everything that a rule earns is of the category of its terms. -/
theorem Terms.category_of_mem_earnings {t : Terms} {period : Period} {es : List Earning}
    (h : t.earnings period = .ok es) : ∀ e ∈ es, e.category = t.category :=
  fun e he => (earning_of_mem_earnings h e he).1

/-- No terms pay guarantees or offsets. -/
theorem Terms.isEarned_category (t : Terms) : t.category.isEarned = true := by
  cases t with
  | base amount isDraw => cases isDraw <;> rfl
  | _ => rfl

/-- No rule earns a guarantee or an offset. -/
theorem Terms.isEarned_of_mem_earnings {t : Terms} {period : Period} {es : List Earning}
    (h : t.earnings period = .ok es) : ∀ e ∈ es, e.category.isEarned = true := by
  intro e he
  rw [category_of_mem_earnings h e he]
  exact t.isEarned_category

/-- An earning is booked in cents, with what is said of it. -/
theorem Earning.book_iff {e : Earning} {i : LineItem} :
    e.book = .ok i ↔
      ∃ cents, e.amount.toCents = .ok cents ∧ ⟨e.description, cents, e.category⟩ = i := by
  simp only [book, bind_eq_ok, pure_eq_ok]

/-- The line of an earning has its category and is in cents. -/
theorem Earning.book_eq_ok {e : Earning} {i : LineItem} (h : e.book = .ok i) :
    i.category = e.category ∧ e.amount.toCents = .ok i.amount := by
  obtain ⟨cents, hcents, rfl⟩ := book_iff.1 h
  exact ⟨rfl, hcents⟩

/-- Whether a line was booked. -/
structure LineItem.IsBooked (i : LineItem) : Prop where
  /-- Its amount was rounded to cents. -/
  exists_toCents : ∃ x : Decimal, x.toCents = .ok i.amount
  /-- Its description is plain. -/
  isPlain : IsPlain i.description

/-- The line of an earning with a plain description is booked. -/
theorem Earning.isBooked_of_book {e : Earning} {i : LineItem} (h : e.book = .ok i)
    (he : IsPlain e.description) : i.IsBooked := by
  obtain ⟨cents, hcents, rfl⟩ := book_iff.1 h
  exact ⟨⟨e.amount, hcents⟩, he⟩

/-- The lines of a plan are the lines of earnings of its rules. -/
theorem Plan.exists_of_mem_book {period : Period} {booked : List LineItem}
    (h : p.book period = .ok booked) {i : LineItem} (hi : i ∈ booked) :
    ∃ r ∈ p.rules, ∃ es, r.terms.earnings period = .ok es ∧ ∃ e ∈ es, e.book = .ok i := by
  simp only [book, bind_eq_ok, pure_eq_ok] at h
  obtain ⟨books, hbooks, rfl⟩ := h
  obtain ⟨items, hitems, hi⟩ := List.mem_flatten.1 hi
  obtain ⟨r, hr, hbook⟩ := exists_of_mem_mapM hbooks hitems
  simp only [Terms.book, bind_eq_ok] at hbook
  obtain ⟨es, hes, hbook⟩ := hbook
  obtain ⟨e, he, hline⟩ := exists_of_mem_mapM hbook hi
  exact ⟨r, hr, es, hes, e, he, liftM_eq_ok.1 hline⟩

/-- No rule books a guarantee or an offset. -/
theorem Plan.isEarned_of_mem_book {period : Period} {booked : List LineItem}
    (h : p.book period = .ok booked) : ∀ i ∈ booked, i.category.isEarned = true := by
  intro i hi
  obtain ⟨r, -, es, hes, e, he, hline⟩ := Plan.exists_of_mem_book h hi
  rw [(Earning.book_eq_ok hline).1]
  exact Terms.isEarned_of_mem_earnings hes e he

/-! ## Guarantees -/

/-- What one guarantee does: it leaves the commission alone or adds one line in cents to it, for
what is missing from what is required. -/
theorem topUps_cons {units commission floor raised : Decimal} {rest : List Decimal}
    {items : List LineItem} (h : topUps units commission (floor :: rest) = .ok (raised, items)) :
    topUps units commission rest = .ok (raised, items) ∨
      ∃ (required gap added next : Decimal) (items' : List LineItem), commission < required ∧
        required.sub commission = .ok gap ∧ gap.toCents = .ok added ∧
        commission.add added = .ok next ∧ topUps units next rest = .ok (raised, items') ∧
        items = ⟨"Minimum Commission Guarantee", added, .guarantee⟩ :: items' := by
  simp only [topUps, bind_eq_ok] at h
  obtain ⟨wanted, -, required, -, h⟩ := h
  split at h
  · next hlt =>
    simp only [bind_eq_ok, pure_eq_ok] at h
    obtain ⟨gap, hgap, added, hadded, next, hnext, ⟨raised', items'⟩, hrest, h⟩ := h
    cases h
    exact .inr ⟨required, gap, added, next, items', hlt, hgap, hadded, hnext, hrest, rfl⟩
  · exact .inl h

/-- The lines of guarantees are guarantees. -/
theorem line_of_mem_topUps {units commission raised : Decimal} {floors : List Decimal}
    {items : List LineItem} (h : topUps units commission floors = .ok (raised, items)) :
    ∀ i ∈ items, i.category = .guarantee ∧ i.IsBooked := by
  induction floors generalizing commission items with
  | nil =>
    cases h
    simp
  | cons floor rest ih =>
    rcases topUps_cons h with h | ⟨-, gap, added, next, items', -, -, hadded, -, hrest, rfl⟩
    · exact ih h
    · intro i hi
      rcases List.mem_cons.1 hi with rfl | hi
      · exact ⟨rfl, ⟨gap, hadded⟩, (by decide : IsPlain "Minimum Commission Guarantee")⟩
      · exact ih hrest i hi

/-- The commission with its guarantees is the running sum of their lines. -/
theorem foldlM_of_topUps {units commission raised : Decimal} {floors : List Decimal}
    {items : List LineItem} (h : topUps units commission floors = .ok (raised, items)) :
    (items.map (·.amount)).foldlM Decimal.add commission = .ok raised := by
  induction floors generalizing commission items with
  | nil => cases h; rfl
  | cons floor rest ih =>
    rcases topUps_cons h with h | ⟨-, gap, added, next, items', -, -, -, hnext, hrest, rfl⟩
    · exact ih h
    · rw [List.map_cons, List.foldlM_cons]
      exact bind_eq_ok.2 ⟨next, hnext, ih hrest⟩

/-- The commission with its guarantees, where anything was delivered or not. -/
theorem eq_or_topUps_of_guaranteed {units commission raised : Decimal} {floors : List Decimal}
    {items : List LineItem} (h : guaranteed units commission floors = .ok (raised, items)) :
    topUps units commission floors = .ok (raised, items) ∨
      topUps units commission [] = .ok (raised, items) := by
  unfold guaranteed at h
  split at h
  · exact .inl h
  · exact .inr h

/-! ## Offsets -/

/-- An offset takes the commission from zero, in cents. -/
theorem BasePay.offset_eq_ok {commission : Decimal} {i : LineItem} :
    offset commission = .ok i ↔
      ∃ gap cents, Decimal.zero.sub commission = .ok gap ∧ gap.toCents = .ok cents ∧
        ⟨"Commission vs Draw", cents, .drawOffset⟩ = i := by
  simp only [offset, bind_eq_ok, pure_eq_ok, exists_and_left]

/-! ## Lines of the breakdown -/

section InsertAfterLast

variable {α : Type} (p : α → Bool) (x : α) (xs : List α)

/-- An item that a filter drops may as well not be put in. -/
theorem filter_insertAfterLast {q : α → Bool} (hx : q x = false) :
    (insertAfterLast p x xs).filter q = xs.filter q := by
  induction xs with
  | nil => rfl
  | cons y rest ih =>
    rw [insertAfterLast]
    split
    · simp [List.filter_cons, hx]
    · simp [List.filter_cons, ih]

/-- Nothing but the new item is put in. -/
theorem mem_of_mem_insertAfterLast {y : α} (h : y ∈ insertAfterLast p x xs) : y = x ∨ y ∈ xs := by
  induction xs with
  | nil => cases h
  | cons z rest ih =>
    rw [insertAfterLast] at h
    split at h
    · simp only [List.mem_cons] at h ⊢
      tauto
    · simp only [List.mem_cons] at h ⊢
      rcases h with rfl | h
      · exact .inr (.inl rfl)
      · exact (ih h).imp_right .inr

end InsertAfterLast

namespace Plan.Steps

variable (s : p.Steps deals b)

/-- The lines that are shown before a commission is set against a draw. -/
def shown : List LineItem := (s.booked ++ s.added).filter LineItem.isShown

/-- The lines of the breakdown are those that are shown, or those with an offset. -/
theorem items_cases :
    b.items = s.shown ∨
      ∃ i : LineItem, i.category = .drawOffset ∧ i.IsBooked ∧
        b.items = insertAfterLast LineItem.isBase i s.shown := by
  have h := s.items
  unfold withOffset at h
  split at h
  · obtain ⟨i, hi, hitems⟩ := bind_eq_ok.1 h
    obtain ⟨gap, cents, -, hcents, rfl⟩ := BasePay.offset_eq_ok.1 hi
    have hplain : IsPlain "Commission vs Draw" := by decide
    exact .inr ⟨_, rfl, ⟨⟨gap, hcents⟩, hplain⟩, (pure_eq_ok.1 hitems).symm⟩
  · exact .inl (Except.ok.inj h).symm

/-- The added lines are guarantees. -/
theorem line_of_mem_added : ∀ i ∈ s.added, i.category = .guarantee ∧ i.IsBooked := by
  rcases eq_or_topUps_of_guaranteed s.guarantees with h | h
  · exact line_of_mem_topUps h
  · exact line_of_mem_topUps h

/-- By category, the lines of the breakdown are the booked and the added ones that are shown, as
long as offsets are not asked for. -/
theorem filter_items {q : LineItem → Bool} (hq : ∀ i, i.category = .drawOffset → q i = false) :
    b.items.filter q = s.shown.filter q := by
  rcases s.items_cases with h | ⟨i, hi, -, h⟩
  · rw [h]
  · rw [h, filter_insertAfterLast _ _ _ (hq i hi)]

/-- Every line was booked. -/
theorem isBooked_of_mem_items (s : p.Steps deals b) : ∀ i ∈ b.items, i.IsBooked := by
  have shown : ∀ i ∈ s.shown, i.IsBooked := by
    intro i hi
    rcases List.mem_append.1 (List.mem_of_mem_filter hi) with hi | hi
    · obtain ⟨r, -, es, hes, e, he, hline⟩ := Plan.exists_of_mem_book s.book hi
      exact Earning.isBooked_of_book hline (Terms.earning_of_mem_earnings hes e he).2
    · exact (s.line_of_mem_added i hi).2
  rcases s.items_cases with h | ⟨i, -, hi, h⟩
  · rw [h]
    exact shown
  · intro j hj
    rw [h] at hj
    rcases mem_of_mem_insertAfterLast _ _ _ hj with rfl | hj
    · exact hi
    · exact shown j hj

/-- Every line is written with two decimals. -/
theorem exponent_of_mem_items (s : p.Steps deals b) : ∀ i ∈ b.items, i.amount.exponent = -2 := by
  intro i hi
  obtain ⟨x, hx⟩ := (s.isBooked_of_mem_items i hi).exists_toCents
  exact Decimal.exponent_of_toCents hx

end Plan.Steps

end DealerPay
