import DealerPay.Amount
import Mathlib.Data.List.Forall2
import Mathlib.Logic.Relation

/-!
# Outcomes of computations

Most of the library computes in `Except`, because arithmetic may report a signal. What is proved of
such a computation is that it has a result and what the result is.

* `Yields x P` says so: `x` has a result, and `P` holds of it.
* `Yields.bind` and its companions follow the steps of a computation, so that a proof about it has
  the shape of its definition. `Yields.mapM` goes through a list.
* `bind_eq_ok` is the way back: what is known of a computation whose result is given. `mapM_eq_ok`
  pairs a list with its results, and `forall₂_comp_iff` follows two passes item by item.
-/

namespace DealerPay

variable {ε α β γ : Type}

/-- The computation has a result, and `P` holds of it. -/
def Yields (x : Except ε α) (P : α → Prop) : Prop := ∃ a, x = .ok a ∧ P a

/-- A computation in two steps has a result exactly when both steps have one. -/
theorem bind_eq_ok {x : Except ε α} {f : α → Except ε β} {b : β} :
    x >>= f = .ok b ↔ ∃ a, x = .ok a ∧ f a = .ok b := by
  cases x with
  | error e => simp [bind, Except.bind]
  | ok a => simp [bind, Except.bind]

/-- A computation that returns at once has the result that it returns. -/
@[simp] theorem pure_eq_ok {a b : α} : (pure a : Except ε α) = .ok b ↔ a = b :=
  Except.ok.injEq a b ▸ Iff.rfl

/-- A computation whose result is known has that result. -/
theorem eq_ok_of_toOption {x : Except ε α} {a : α} (h : x.toOption = some a) : x = .ok a := by
  cases x with
  | error e => cases h
  | ok b => cases h; rfl

/-- A lifted computation has the result of the computation itself. -/
theorem liftM_eq_ok {x : Except Signal α} {a : α} :
    (liftM x : Except Failure α) = .ok a ↔ x = .ok a := by
  cases x with
  | error e => simp [liftM, monadLift, MonadLift.monadLift, Except.mapError]
  | ok a => simp [liftM, monadLift, MonadLift.monadLift, Except.mapError]

/-- A list is gone through with a result exactly when each of its items has one. -/
theorem mapM_eq_ok {f : α → Except ε β} {xs : List α} {ys : List β} :
    xs.mapM f = .ok ys ↔ List.Forall₂ (fun x y => f x = .ok y) xs ys := by
  induction xs generalizing ys with
  | nil => cases ys <;> simp [pure, Except.pure]
  | cons x rest ih =>
    rw [List.mapM_cons, bind_eq_ok]
    constructor
    · rintro ⟨y, hy, h⟩
      obtain ⟨ys', hys', h⟩ := bind_eq_ok.1 h
      cases h
      exact .cons hy (ih.1 hys')
    · rintro (_ | ⟨hy, h⟩)
      exact ⟨_, hy, bind_eq_ok.2 ⟨_, ih.2 h, rfl⟩⟩

/-- A computation that goes through a list item by item gives what a map gives. -/
theorem map_eq_map_of_forall₂ {f : α → γ} {g : β → γ} {xs : List α} {ys : List β}
    (h : List.Forall₂ (fun x y => g y = f x) xs ys) : ys.map g = xs.map f := by
  induction h with
  | nil => rfl
  | cons hxy _ ih => rw [List.map_cons, List.map_cons, hxy, ih]

/-- Two lists are paired by way of third items exactly if they are by way of a third list. -/
theorem forall₂_comp_iff {R : α → β → Prop} {S : β → γ → Prop} {xs : List α} {zs : List γ} :
    List.Forall₂ (Relation.Comp R S) xs zs ↔
      ∃ ys, List.Forall₂ R xs ys ∧ List.Forall₂ S ys zs := by
  constructor
  · intro h
    induction h with
    | nil => exact ⟨[], .nil, .nil⟩
    | cons hxz _ ih =>
      obtain ⟨y, hxy, hyz⟩ := hxz
      obtain ⟨ys, hxys, hyzs⟩ := ih
      exact ⟨y :: ys, .cons hxy hxys, .cons hyz hyzs⟩
  · rintro ⟨ys, hxys, hyzs⟩
    induction hxys generalizing zs with
    | nil =>
      cases hyzs
      exact .nil
    | cons hxy _ ih =>
      obtain ⟨z, zs, hyz, hrest, rfl⟩ := List.forall₂_cons_left_iff.1 hyzs
      exact .cons ⟨_, hxy, hyz⟩ (ih hrest)

/-- What follows of each second component holds of all of them. -/
theorem forall_mem_of_forall₂ {R : α → β → Prop} {Q : β → Prop} {xs : List α} {ys : List β}
    (h : List.Forall₂ R xs ys) (hR : ∀ x y, R x y → Q y) : ∀ y ∈ ys, Q y := by
  induction h with
  | nil => simp
  | cons hxy _ ih => exact List.forall_mem_cons.2 ⟨hR _ _ hxy, ih⟩

/-- Each result of going through a list is the result of one of its items. -/
theorem exists_of_mem_mapM {f : α → Except ε β} {xs : List α} {ys : List β}
    (h : xs.mapM f = .ok ys) {y : β} (hy : y ∈ ys) : ∃ x ∈ xs, f x = .ok y := by
  induction mapM_eq_ok.1 h with
  | nil => cases hy
  | cons hx hrest ih =>
    rcases List.mem_cons.1 hy with rfl | hy
    · exact ⟨_, List.mem_cons_self, hx⟩
    · obtain ⟨x, hmem, hfx⟩ := ih (mapM_eq_ok.2 hrest) hy
      exact ⟨x, List.mem_cons_of_mem _ hmem, hfx⟩

namespace Yields

variable {x : Except ε α} {f : α → Except ε β} {P P' : α → Prop} {Q : β → Prop}

/-- A result that is given at once. -/
theorem ok {a : α} (h : P a) : Yields (.ok a : Except ε α) P := ⟨a, rfl, h⟩

/-- A result that is returned. -/
theorem pure {a : α} (h : P a) : Yields (Pure.pure a : Except ε α) P := ⟨a, rfl, h⟩

/-- What is known of a result may be weakened. -/
theorem mono (h : Yields x P) (hP : ∀ a, P a → P' a) : Yields x P' := by
  obtain ⟨a, hx, ha⟩ := h
  exact ⟨a, hx, hP a ha⟩

/-- One step after another. -/
theorem bind (h : Yields x P) (hf : ∀ a, P a → Yields (f a) Q) : Yields (x >>= f) Q := by
  obtain ⟨a, hx, ha⟩ := h
  obtain ⟨b, hb, hQ⟩ := hf a ha
  exact ⟨b, bind_eq_ok.2 ⟨a, hx, hb⟩, hQ⟩

/-- A step whose result is given. -/
theorem bind_of_eq {a : α} (h : x = .ok a) (hf : Yields (f a) Q) : Yields (x >>= f) Q := by
  subst h
  exact hf

/-- A lifted computation yields what the computation itself yields. -/
theorem lift {x : Except Signal α} (h : Yields x P) :
    Yields (liftM x : Except Failure α) P := by
  obtain ⟨a, hx, ha⟩ := h
  exact ⟨a, liftM_eq_ok.2 hx, ha⟩

/-- What all the results of a computation satisfy is satisfied by the one that is given. -/
theorem of_eq {a : α} (h : Yields x P) (hx : x = .ok a) : P a := by
  obtain ⟨b, hb, hP⟩ := h
  cases hb.symm.trans hx
  exact hP

/-- A list is gone through: each of its items yields its own result. -/
theorem mapM {R : α → β → Prop} {xs : List α} (h : ∀ a ∈ xs, Yields (f a) (R a)) :
    Yields (xs.mapM f) fun ys => List.Forall₂ R xs ys := by
  induction xs with
  | nil => exact pure .nil
  | cons a rest ih =>
    rw [List.mapM_cons]
    refine (h a List.mem_cons_self).bind ?_
    intro b hb
    refine (ih fun c hc => h c (List.mem_cons_of_mem a hc)).bind ?_
    intro bs hbs
    exact pure (.cons hb hbs)

/-- A list is gone through: as many results, each with what the results of its items have. -/
theorem forall_mapM {xs : List α} (h : ∀ a ∈ xs, Yields (f a) Q) :
    Yields (xs.mapM f) fun ys => ys.length = xs.length ∧ ∀ y ∈ ys, Q y := by
  refine (mapM (R := fun _ => Q) h).mono ?_
  intro ys hys
  exact ⟨hys.length_eq.symm, forall_mem_of_forall₂ hys fun _ _ hy => hy⟩

end Yields

end DealerPay
