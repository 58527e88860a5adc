/-
# Save limits

How many saves a cache may still make. Once the limit is reached every further save is refused;
saves from elsewhere count too, even beyond the limit.

Main statements: `saved_acquire` and `acquire_granted_iff`.
-/
namespace EvalProxy.Cache

/-- A number of saves, and the largest that may be granted. The number starts at zero and grows by
one with each save, so that its 64 bits never run out: it is a natural number. -/
structure SaveLimit where
  max : Option Nat
  saved : Nat

namespace SaveLimit

/-- A limit before the first save. -/
def fresh (max : Option Nat) : SaveLimit := ⟨max, 0⟩

/-- Whether the limit is reached. -/
def isReached (l : SaveLimit) : Bool :=
  match l.max with
  | some max => max ≤ l.saved
  | none => false

/-- The limit with one more save. -/
def record (l : SaveLimit) : SaveLimit := { l with saved := l.saved + 1 }

/-- Asks for a save: whether it is granted, and the limit afterwards. -/
def acquire (l : SaveLimit) : Bool × SaveLimit :=
  if l.isReached then (false, l) else (true, l.record)

/-- A save is granted exactly while the limit is not reached. -/
theorem acquire_granted_iff (l : SaveLimit) : l.acquire.1 = true ↔ l.isReached = false := by
  unfold acquire
  split <;> simp_all

/-- A granted save counts, a refused one does not. -/
theorem saved_acquire (l : SaveLimit) :
    l.acquire.2.saved = l.saved + if l.acquire.1 then 1 else 0 := by
  unfold acquire
  split <;> simp [record]

/-- The largest number of saves stays the same. -/
theorem max_acquire (l : SaveLimit) : l.acquire.2.max = l.max := by
  unfold acquire
  split <;> simp [record]

end SaveLimit

end EvalProxy.Cache
