import AdbClient.Support.Transition

/-!
# Runs seen from outside, and runs that come to an end

An observer is shown some of what the steps of a system do. When every step is
matched by a run of another system over what it shows, so is every run: the one
system refines the other. The second rule lets steps spend and earn a potential of
the state, which bounds how many of them a run can take.
-/
namespace AdbClient.Support.Transition
variable {σ τ α β : Type} {S : System σ α} {guard : σ → α → Prop} {s t u : σ} {as bs : List α}

theorem Run.append (h : Run S guard s as t) (h' : Run S guard t bs u) :
    Run S guard s (as ++ bs) u := by
  induction h with
  | nil s => exact h'
  | cons henabled hguard _ ih => exact .cons henabled hguard (ih h')

theorem Run.single {a : α} (henabled : S.Enabled s a) (hguard : guard s a) :
    Run S guard s [a] (S.next s a) :=
  .cons henabled hguard (.nil _)

/-- A guard that lets more through has more runs. -/
theorem Run.weaken {guard' : σ → α → Prop} (hguard : ∀ s a, guard s a → guard' s a)
    (h : Run S guard s as t) : Run S guard' s as t := by
  induction h with
  | nil s => exact .nil s
  | cons henabled hg _ ih => exact .cons henabled (hguard _ _ hg) ih

/-- What every step preserves may be asked of the states a run goes through. -/
theorem Run.strengthen (Inv : σ → Prop)
    (hstep : ∀ s a, S.Enabled s a → guard s a → Inv s → Inv (S.next s a))
    (h : Run S guard s as t) (hs : Inv s) : Run S (fun x a => guard x a ∧ Inv x) s as t := by
  induction h with
  | nil s => exact .nil s
  | cons henabled hguard _ ih =>
    exact .cons henabled ⟨hguard, hs⟩ (ih (hstep _ _ henabled hguard hs))

/-- What the steps of a run show, one after the other. -/
def trace (S : System σ α) (observe : σ → α → List β) : σ → List α → List β
  | _, [] => []
  | s, a :: as => observe s a ++ trace S observe (S.next s a) as

/-- An invariant that speaks of what has been shown so far. -/
theorem Run.accumulate {observe : σ → α → List β} (Inv : List β → σ → Prop)
    (hstep : ∀ shown s a, S.Enabled s a → guard s a → Inv shown s →
      Inv (shown ++ observe s a) (S.next s a))
    (h : Run S guard s as t) {shown : List β} (hs : Inv shown s) :
    Inv (shown ++ trace S observe s as) t := by
  induction h generalizing shown with
  | nil s =>
    rw [trace, List.append_nil]
    exact hs
  | cons henabled hguard _ ih =>
    have hrest := ih (hstep shown _ _ henabled hguard hs)
    rwa [List.append_assoc] at hrest

/-- Where each step is matched by a run of the other system over what it shows, a
run is matched by one over its trace. -/
theorem Run.simulate {T : System τ β} {guard' : τ → β → Prop} {observe : σ → α → List β}
    (R : σ → τ → Prop)
    (hstep : ∀ s a v, R s v → S.Enabled s a → guard s a →
      ∃ v', Run T guard' v (observe s a) v' ∧ R (S.next s a) v')
    (h : Run S guard s as t) {v : τ} (hR : R s v) :
    ∃ v', Run T guard' v (trace S observe s as) v' ∧ R t v' := by
  induction h generalizing v with
  | nil s => exact ⟨v, .nil v, hR⟩
  | cons henabled hguard _ ih =>
    obtain ⟨v₁, hrun₁, hR₁⟩ := hstep _ _ _ hR henabled hguard
    obtain ⟨v₂, hrun₂, hR₂⟩ := ih hR₁
    exact ⟨v₂, hrun₁.append hrun₂, hR₂⟩

section Potential
variable (rank : σ → Nat)

/-- Some steps cost potential, some add a weight to it: a run has no more of the one
than the others have added to the potential at the start. -/
theorem Run.potential (spends earns : α → Bool) (weight : Nat)
    (hstep : ∀ s a, S.Enabled s a → guard s a →
      rank (S.next s a) + (spends a).toNat ≤ rank s + weight * (earns a).toNat)
    (h : Run S guard s as t) :
    rank t + as.countP spends ≤ rank s + weight * as.countP earns := by
  induction h with
  | nil s => exact Nat.le_refl _
  | @cons s t a as henabled hguard _ ih =>
    have hpaid := hstep _ _ henabled hguard
    have hcount : ∀ p : α → Bool, (a :: as).countP p = as.countP p + (p a).toNat := by
      intro p
      rw [List.countP_cons]
      cases p a <;> rfl
    rw [hcount, hcount, Nat.mul_add]
    omega

/-- Where there is always a step towards the goal that costs potential, the goal
is reached within the potential. -/
theorem exists_run_to (Inv goal : σ → Prop) (progress : α → Prop)
    (hprogress : ∀ s, Inv s → ¬ goal s → ∃ a, S.Enabled s a ∧ guard s a ∧ progress a ∧
      Inv (S.next s a) ∧ rank (S.next s a) < rank s) (hs : Inv s) :
    ∃ as t, Run S guard s as t ∧ goal t ∧ as.length ≤ rank s ∧ ∀ a ∈ as, progress a := by
  induction hn : rank s using Nat.strongRecOn generalizing s with
  | ind n ih =>
    by_cases hgoal : goal s
    · exact ⟨[], s, .nil s, hgoal, Nat.zero_le _, by simp⟩
    · obtain ⟨a, henabled, hguard, ha, hinv, hlt⟩ := hprogress s hs hgoal
      obtain ⟨as, t, hrun, ht, hlen, has⟩ := ih _ (hn ▸ hlt) hinv rfl
      refine ⟨a :: as, t, .cons henabled hguard hrun, ht, ?_, ?_⟩
      · rw [List.length_cons]
        omega
      · intro b hb
        rcases List.mem_cons.mp hb with rfl | hb
        · exact ha
        · exact has b hb

end Potential
end AdbClient.Support.Transition
