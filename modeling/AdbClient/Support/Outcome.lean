/-!
# How a computation that can fail ends

A predicate for either end: what the computation returns satisfies the one, what it
fails with the other. The rules follow the way such code is written, so that both are
read off it in one pass.
-/
namespace AdbClient.Support.Outcome
variable {ε α β : Type} {P P' : α → Prop} {Q : β → Prop} {E E' : ε → Prop}

/-- `x` returns a value of `P` or fails with an error of `E`. -/
def Ends (P : α → Prop) (E : ε → Prop) : Except ε α → Prop
  | .ok a => P a
  | .error e => E e

theorem Ends.imp {x : Except ε α} (h : Ends P E x) (hP : ∀ a, P a → P' a)
    (hE : ∀ e, E e → E' e) : Ends P' E' x := by
  cases x with
  | ok a => exact hP a h
  | error e => exact hE e h

/-- What follows may rely on what came before. -/
theorem Ends.bind {x : Except ε α} {f : α → Except ε β} (h : Ends P E x)
    (hf : ∀ a, P a → Ends Q E (f a)) : Ends Q E (x >>= f) := by
  cases x with
  | ok a => exact hf a h
  | error e => exact h

theorem Ends.ite {c : Prop} [Decidable c] {x y : Except ε α} (hx : Ends P E x)
    (hy : Ends P E y) : Ends P E (if c then x else y) := by
  split
  · exact hx
  · exact hy

theorem Ends.of_ok {x : Except ε α} {a : α} (h : Ends P E x) (hx : x = .ok a) : P a := by
  rw [hx] at h
  exact h

end AdbClient.Support.Outcome
