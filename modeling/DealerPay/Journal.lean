/-!
# Journal

What the library notes down while it works, as data beside its results.

* `Entry` is a note: who made it, how grave it is and what it says.
* `Noted` is a result with the notes made on the way to it, in order. Its monad keeps the order.
-/

namespace DealerPay.Journal

/-- How grave a note is. -/
inductive Level where
  /-- For finding faults. -/
  | debug
  /-- What happened. -/
  | info
  /-- What somebody should look at. -/
  | warning
deriving DecidableEq, Repr

/-- The word for a level. -/
def Level.text : Level → String
  | debug => "DEBUG"
  | info => "INFO"
  | warning => "WARNING"

/-- A note. -/
structure Entry where
  /-- Who made it. -/
  author : String
  /-- How grave it is. -/
  level : Level
  /-- What it says. -/
  message : String
deriving DecidableEq, Repr

/-- A result and the notes made on the way to it. -/
structure Noted (α : Type) where
  /-- The result. -/
  result : α
  /-- The notes, in order. -/
  notes : List Entry
deriving Repr

namespace Noted

variable {α β : Type}

instance : Monad Noted where
  pure a := ⟨a, []⟩
  bind x f := ⟨(f x.result).result, x.notes ++ (f x.result).notes⟩

/-- Makes notes. -/
def note (entries : List Entry) : Noted Unit := ⟨(), entries⟩

@[simp] theorem result_pure (a : α) : (pure a : Noted α).result = a := rfl

@[simp] theorem notes_pure (a : α) : (pure a : Noted α).notes = [] := rfl

@[simp] theorem result_bind (x : Noted α) (f : α → Noted β) :
    (x >>= f).result = (f x.result).result := rfl

@[simp] theorem notes_bind (x : Noted α) (f : α → Noted β) :
    (x >>= f).notes = x.notes ++ (f x.result).notes := rfl

end Noted

end DealerPay.Journal
