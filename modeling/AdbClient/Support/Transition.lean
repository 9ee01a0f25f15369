/-!
# Guarded runs of a transition system

A system is given by when an action is enabled and by the state it leads to. A
guard restricts the runs that are looked at without changing the system; the
invariant rule asks for preservation only by the steps the guard lets through.
-/
namespace AdbClient.Support.Transition

structure System (σ α : Type) where
  Enabled : σ → α → Prop
  next : σ → α → σ

variable {σ α : Type}

/-- A run from one state to another, every step of it enabled and let through by
the guard in the state it is taken in. -/
inductive Run (S : System σ α) (guard : σ → α → Prop) : σ → List α → σ → Prop
  | nil (s : σ) : Run S guard s [] s
  | cons {s t : σ} {a : α} {as : List α} (henabled : S.Enabled s a) (hguard : guard s a)
      (hrest : Run S guard (S.next s a) as t) : Run S guard s (a :: as) t

/-- What holds at the start and is preserved by every step holds at the end. -/
theorem Run.invariant {S : System σ α} {guard : σ → α → Prop} (Inv : σ → Prop)
    (hstep : ∀ s a, S.Enabled s a → guard s a → Inv s → Inv (S.next s a)) {s t : σ}
    {as : List α} (h : Run S guard s as t) (hs : Inv s) : Inv t := by
  induction h with
  | nil s => exact hs
  | cons henabled hguard _ ih => exact ih (hstep _ _ henabled hguard hs)

/-- Where two systems take the same steps, they have the same runs. -/
theorem Run.transfer {S T : System σ α} {guard : σ → α → Prop} (Inv : σ → Prop)
    (hstep : ∀ s a, S.Enabled s a → guard s a → Inv s →
      T.Enabled s a ∧ T.next s a = S.next s a ∧ Inv (S.next s a))
    {s t : σ} {as : List α} (h : Run S guard s as t) (hs : Inv s) : Run T guard s as t := by
  induction h with
  | nil s => exact .nil s
  | cons henabled hguard _ ih =>
    obtain ⟨hother, hsame, hinv⟩ := hstep _ _ henabled hguard hs
    have hrest := ih hinv
    rw [← hsame] at hrest
    exact .cons hother hguard hrest

/-- Runs are checked by evaluation. -/
def check (S : System σ α) (guard : σ → α → Prop) [∀ s a, Decidable (S.Enabled s a)]
    [∀ s a, Decidable (guard s a)] : σ → List α → Option σ
  | s, [] => some s
  | s, a :: as => if S.Enabled s a ∧ guard s a then check S guard (S.next s a) as else none

theorem Run.of_check {S : System σ α} {guard : σ → α → Prop}
    [∀ s a, Decidable (S.Enabled s a)] [∀ s a, Decidable (guard s a)] {s t : σ} {as : List α}
    (h : check S guard s as = some t) : Run S guard s as t := by
  induction as generalizing s with
  | nil =>
    cases h
    exact .nil _
  | cons a as ih =>
    unfold check at h
    split at h
    next hstep => exact .cons hstep.1 hstep.2 (ih h)
    next => cases h

end AdbClient.Support.Transition
