import AdbClient.Guarantees.LoopStop
import AdbClient.Source.Destruction

/-!
# When a command object may be destroyed

The destructor of the object does not save its callbacks: it stops the loop after
the members are gone. Whether one of them is still called back is settled in the
state in which the destruction begins: it can be, in some order of the two threads,
exactly if the thread is in the loop or on its way to it. An owner who has called
`stop(true)` before, as `main` does, is on the safe side in every order.
-/
namespace AdbClient.Guarantees.Destruction
open Source Support.Transition EventLoopThread LoopLifetime LoopStop

/-- Nobody is in the loop, and nobody gets there without a start. -/
def OutOfLoop (s : EventLoopThread) : Prop :=
  s.thread = .absent ∧ ¬ Starts s.owner ∨ s.hasLoop = false ∧ s.thread ≠ .inside

section Life
variable {s : EventLoopThread} {a : EventLoopThread.Action}

/-- A loop that is gone is gone for good. -/
theorem next_hasLoop (h : s.hasLoop = false) (a : EventLoopThread.Action) :
    (s.next a).hasLoop = false := by
  cases a with
  | start => exact (start_frame s).2.trans h
  | stop ending => exact (stop_frame s ending).2.trans h
  | owner isOwner =>
    simp only [next, ownerNext]
    cases s.owner with
    | waiting | making =>
      dsimp only
      split <;> exact h
    | halting ending | comparing ending =>
      dsimp only
      split <;> first | exact h | exact (afterStop_frame _ _).2.2 |
        exact (afterStop_frame _ _).2.2.trans h
    | clearing ending => exact (afterStop_frame _ _).2.2
    | _ => exact h
  | thread => exact (threadNext_frame s).2.1.trans h
  | overlook | callback => exact h

/-- Without a loop the thread does not get into it. -/
theorem threadNext_outside (h : s.hasLoop = false) (hthread : s.thread ≠ .inside) :
    s.threadNext.thread ≠ .inside := by
  unfold threadNext
  cases ht : s.thread with
  | inside => exact absurd ht hthread
  | checking | returned =>
    dsimp only
    split <;> simp
  | _ => simp [h, ht]

theorem outOfLoop_next (henabled : s.Enabled a) (hstart : a ≠ .start) (h : OutOfLoop s) :
    OutOfLoop (s.next a) := by
  rcases h with ⟨habsent, hstarts⟩ | ⟨hloop, hthread⟩
  · refine .inl ⟨?_, fun hnext => hstarts (starts_of_next henabled hstart hnext).1⟩
    cases a with
    | start => exact absurd rfl hstart
    | stop ending => exact (stop_frame s ending).1.trans habsent
    | owner isOwner =>
      exact (ownerNext_keeps (fun howner => hstarts (.inr howner)) isOwner).trans habsent
    | thread => exact absurd habsent henabled.2.1.1
    | overlook =>
      rw [henabled.2.1] at habsent
      cases habsent
    | callback => exact habsent
  · refine .inr ⟨next_hasLoop hloop a, ?_⟩
    cases a with
    | start => exact absurd rfl hstart
    | stop ending => rwa [next, (stop_frame s ending).1]
    | owner isOwner =>
      rw [next]
      rcases ownerNext_thread s isOwner with hsame | hspawned
      · rwa [hsame]
      · simp [hspawned]
    | thread => exact threadNext_outside hloop hthread
    | overlook =>
      rw [henabled.2.2.1] at hloop
      cases hloop
    | callback => exact hthread

/-- An owner between two calls whose thread can still be called back. -/
theorem called_of_not_outOfLoop (h : Known s) (hidle : s.owner = .idle) (hout : ¬ OutOfLoop s) :
    s.thread = .inside ∨ s.thread = .calling ∧ s.hasLoop = true := by
  rcases h with h | h | h
  · exact absurd (.inl ⟨h.thread, by simp [Starts, hidle]⟩) hout
  · have hplaces := h.places
    rw [hidle] at hplaces
    rcases hplaces.2.1 with ht | ht
    · exact .inr ⟨ht, h.hasLoop⟩
    · exact .inl ht
  · by_contra hthread
    exact hout (.inr ⟨h.hasLoop, fun ht => hthread (.inl ht)⟩)

end Life
section Object
variable {s t : OwnedObject}

/-- The thread of an object that is being destroyed. -/
def LeftAlone (s : OwnedObject) : Prop := s.remains ≠ .whole ∧ OutOfLoop s.life

theorem leftAlone_next {a : OwnedObject.Action} (henabled : s.Enabled a) (h : LeftAlone s) :
    LeftAlone (s.next a) ∧ a ≠ .life .callback := by
  obtain ⟨hremains, hout⟩ := h
  cases a with
  | destroyMembers => exact absurd henabled.1 hremains
  | destroyCallbacks => exact ⟨⟨by simp [OwnedObject.next], hout⟩, by simp⟩
  | life a =>
    have hstart : a ≠ .start := by
      intro heq
      subst heq
      exact hremains henabled.1
    refine ⟨⟨?_, outOfLoop_next henabled.2 hstart hout⟩, ?_⟩
    · simp only [OwnedObject.next]
      split
      · simp
      · exact hremains
    · intro heq
      cases heq
      have hinside : s.life.thread = .inside := henabled.2.2
      rcases hout with ⟨habsent, -⟩ | ⟨-, hthread⟩
      · rw [habsent] at hinside
        cases hinside
      · exact hthread hinside

theorem no_callback {actions : List OwnedObject.Action} (h : LeftAlone s)
    (hrun : Run OwnedObject.system (fun _ _ => True) s actions t) : .life .callback ∉ actions := by
  induction hrun with
  | nil => exact List.not_mem_nil
  | cons henabled _ _ ih =>
    obtain ⟨hnext, hother⟩ := leftAlone_next henabled h
    exact List.not_mem_cons_of_ne_of_not_mem (Ne.symm hother) (ih hnext)

/-- The life of the loop's thread in a run of the object. -/
def lives (_ : OwnedObject) : OwnedObject.Action → List EventLoopThread.Action
  | .life a => [a]
  | .destroyMembers | .destroyCallbacks => []

theorem life_run {actions : List OwnedObject.Action}
    {guard : OwnedObject → OwnedObject.Action → Prop}
    (hrun : Run OwnedObject.system guard s actions t) :
    Run EventLoopThread.system (fun _ _ => True) s.life
      (trace OwnedObject.system lives s actions) t.life := by
  have hstep : ∀ x a v, v = x.life → OwnedObject.system.Enabled x a → guard x a →
      ∃ v', Run EventLoopThread.system (fun _ _ => True) v (lives x a) v' ∧
        v' = (OwnedObject.system.next x a).life := by
    intro x a v hv henabled _
    subst hv
    cases a with
    | life a => exact ⟨_, Run.single henabled.2 trivial, rfl⟩
    | destroyMembers | destroyCallbacks => exact ⟨_, .nil _, rfl⟩
  obtain ⟨v, hlife, rfl⟩ := hrun.simulate (fun x v => v = x.life) hstep rfl
  exact hlife

end Object

def lifeSteps (steps : List (List EventLoopThread.Action)) : List OwnedObject.Action :=
  steps.flatten.map .life

/-- The loop is started and calls back. -/
def loopStarted : List OwnedObject.Action :=
  lifeSteps [[.start], ownerSteps 2, threadSteps 5, ownerSteps 1, [.callback]]

/-- The owner as `main` is one: he stops the loop with `stop(true)` only, on another
thread than the loop's, and destroys an object that was never started or has been
stopped since. -/
def Orderly (s : OwnedObject) : OwnedObject.Action → Prop
  | .life (.stop .returns) | .life (.owner true) => False
  | .destroyMembers =>
      s.life.status.rank < KStatus.starting.rank ∨ KStatus.stopping.rank ≤ s.life.status.rank
  | _ => True

instance (s : OwnedObject) : (a : OwnedObject.Action) → Decidable (Orderly s a)
  | .life (.stop .returns) | .life (.owner true) => isFalse id
  | .destroyMembers => inferInstanceAs (Decidable (_ ∨ _))
  | .life (.stop .joins) | .life (.stop .destroys) | .life (.owner false) | .life .start
  | .life .thread | .life .overlook | .life .callback | .destroyCallbacks => isTrue trivial

section Orderly
variable {s : EventLoopThread}

/-- What the owner will do when the loop has been stopped. -/
def willBe : OwnerStage → Option Ending
  | .marking ending | .asking ending | .halting ending | .comparing ending | .loopMarking ending
  | .loopStopping ending | .clearing ending => some ending
  | .idle | .starting | .making | .waiting | .joining _ | .gone => none

/-- The invariant of an orderly owner: who stops a loop joins its thread, and a
thread that is in a loop that is gone is being joined. -/
structure Joins (s : EventLoopThread) : Prop where
  known : Known s
  stopping : s.hasLoop = true → willBe s.owner ≠ some .returns
  joining : s.hasLoop = false → s.thread = .inside → ∃ ending, s.owner = .joining ending

/-- Between two calls of an orderly owner a stopped loop has no thread in it. -/
theorem outOfLoop_of_joins (h : Joins s) (hidle : s.owner = .idle)
    (hstopped : s.status.rank < KStatus.starting.rank ∨ KStatus.stopping.rank ≤ s.status.rank) :
    OutOfLoop s := by
  rcases h.known with hunborn | hliving | hover
  · exact .inl ⟨hunborn.thread, by simp [Starts, hidle]⟩
  · have hplaces := hliving.places
    rw [hidle] at hplaces
    have hs : s.status = .started := hplaces.2.2.1
    simp [hs, KStatus.rank] at hstopped
  · refine .inr ⟨hover.hasLoop, fun hinside => ?_⟩
    obtain ⟨ending, howner⟩ := h.joining hover.hasLoop hinside
    rw [hidle] at howner
    cases howner

/-- Who joins goes on when the thread is out of the loop. -/
theorem not_inside_of_joining (h : Known s) {ending : Ending} (howner : s.owner = .joining ending)
    (hgo : s.MayGoOn) : s.thread ≠ .inside := by
  rcases h with hunborn | hliving | hover
  · simp [hunborn.thread]
  · have hplaces := hliving.places
    rw [howner] at hplaces
    exact hplaces.elim
  · simp [(over_joining hover howner hgo false).2.2]

/-- The owner has a loop to stop there. -/
theorem hasLoop_of_clearing (h : Known s) {ending : Ending}
    (howner : s.owner = .comparing ending ∨ s.owner = .clearing ending) : s.hasLoop = true := by
  rcases h with hunborn | hliving | hover
  · exact hunborn.hasLoop
  · exact hliving.hasLoop
  · have hbehind := hover.owner
    rcases howner with howner | howner
    all_goals
      rw [howner] at hbehind
      exact hbehind.elim

/-- When the loop has been stopped its thread is joined. -/
theorem joins_afterStop {t : EventLoopThread} {ending : Ending} (hreturns : ending ≠ .returns)
    (hloop : t.hasLoop = false) (hknown : Known (t.afterStop ending)) :
    Joins (t.afterStop ending) := by
  refine ⟨hknown, ?_, ?_⟩
  · rw [(afterStop_frame t ending).2.2, hloop]
    intro hnone
    cases hnone
  · intro _ _
    cases ending with
    | returns => exact absurd rfl hreturns
    | joins | destroys => exact ⟨_, rfl⟩

/-- A step that changes neither the loop, nor the thread, nor what follows the stop. -/
theorem joins_moves {t : EventLoopThread} (h : Joins s) (hknown : Known t)
    (hother : ∀ ending, s.owner ≠ .joining ending)
    (hwill : s.hasLoop = true → willBe t.owner = willBe s.owner ∨ willBe t.owner = none)
    (hloop : t.hasLoop = s.hasLoop) (hthread : t.thread = s.thread ∨ t.thread ≠ .inside) :
    Joins t := by
  refine ⟨hknown, ?_, ?_⟩
  · intro hl
    have hbefore := hloop.symm.trans hl
    rcases hwill hbefore with hsame | hnone
    · rw [hsame]
      exact h.stopping hbefore
    · simp [hnone]
  · intro hl hinside
    rcases hthread with hsame | hne
    · obtain ⟨ending, howner⟩ := h.joining (hloop.symm.trans hl) (hsame.symm.trans hinside)
      exact absurd howner (hother ending)
    · exact absurd hinside hne

theorem joins_owner (h : Joins s) (hgo : s.MayGoOn) (hknown : Known (s.ownerNext false)) :
    Joins (s.ownerNext false) := by
  cases howner : s.owner with
  | idle | gone => simp [MayGoOn, howner] at hgo
  | starting =>
    rw [ownerNext_starting howner] at hknown ⊢
    exact joins_moves h hknown (by simp [howner]) (fun _ => .inr rfl) rfl (.inl rfl)
  | making =>
    have hthread : (s.ownerNext false).thread = s.thread ∨ (s.ownerNext false).thread ≠ .inside :=
      (ownerNext_thread s false).imp_right fun hspawned => by simp [hspawned]
    refine joins_moves h hknown (by simp [howner]) (fun _ => .inr ?_)
      (ownerNext_hasLoop (.inr howner) false) hthread
    simp only [ownerNext, howner]
    split
    · simp [willBe]
    · rfl
  | waiting =>
    refine joins_moves h hknown (by simp [howner]) (fun _ => .inr ?_) ?_
      (.inl (ownerNext_keeps (by simp [howner]) false))
    · simp only [ownerNext, howner]
      split <;> simp [howner, willBe]
    · simp only [ownerNext, howner]
      split <;> rfl
  | marking ending =>
    rw [ownerNext_marking howner] at hknown ⊢
    exact joins_moves h hknown (by simp [howner]) (fun _ => .inl (by rw [howner]; rfl)) rfl
      (.inl rfl)
  | asking ending =>
    rw [ownerNext_asking howner] at hknown ⊢
    refine joins_moves h hknown (by simp [howner]) (fun hloop => .inl ?_) rfl (.inl rfl)
    simp [afterTid, hloop, howner, willBe]
  | halting ending =>
    cases hloop : s.hasLoop with
    | true =>
      rw [ownerNext_halting howner hloop] at hknown ⊢
      exact joins_moves h hknown (by simp [howner]) (fun _ => .inl (by rw [howner]; rfl)) rfl
        (.inl rfl)
    | false =>
      rw [ownerNext_halting_gone howner hloop] at hknown ⊢
      obtain ⟨hthread, -, hsame⟩ := afterStop_frame s ending
      refine joins_moves h hknown (by simp [howner]) (fun _ => .inr ?_) hsame (.inl hthread)
      rcases afterStop_owner s ending with heq | ⟨joined, heq⟩ <;> rw [heq] <;> rfl
  | comparing ending =>
    have hloop := hasLoop_of_clearing h.known (.inl howner)
    have hreturns : ending ≠ .returns := by
      have hstopping := h.stopping hloop
      rw [howner] at hstopping
      exact fun heq => hstopping (congrArg some heq)
    by_cases hlow : s.loopStatus.rank < KStatus.running.rank
    · have hnext : s.ownerNext false = { s with hasLoop := false }.afterStop ending := by
        simp [ownerNext, howner, hlow]
      rw [hnext] at hknown ⊢
      exact joins_afterStop hreturns rfl hknown
    · rw [ownerNext_comparing howner (Nat.not_lt.mp hlow)] at hknown ⊢
      exact joins_moves h hknown (by simp [howner]) (fun _ => .inl (by rw [howner]; rfl)) rfl
        (.inl rfl)
  | loopMarking ending =>
    rw [ownerNext_loopMarking howner] at hknown ⊢
    exact joins_moves h hknown (by simp [howner]) (fun _ => .inl (by rw [howner]; rfl)) rfl
      (.inl rfl)
  | loopStopping ending =>
    rw [ownerNext_loopStopping howner] at hknown ⊢
    exact joins_moves h hknown (by simp [howner]) (fun _ => .inl (by rw [howner]; rfl)) rfl
      (.inl rfl)
  | clearing ending =>
    have hloop := hasLoop_of_clearing h.known (.inr howner)
    have hreturns : ending ≠ .returns := by
      have hstopping := h.stopping hloop
      rw [howner] at hstopping
      exact fun heq => hstopping (congrArg some heq)
    rw [ownerNext_clearing howner] at hknown ⊢
    exact joins_afterStop hreturns rfl hknown
  | joining ending =>
    have hthread := not_inside_of_joining h.known howner hgo
    rw [ownerNext_joining howner] at hknown ⊢
    refine ⟨hknown, ?_, fun _ hinside => absurd hinside hthread⟩
    intro _
    split <;> simp [willBe]

/-- Starts and joining stops begin between two calls. -/
theorem joins_call (h : Joins s) (hidle : s.owner = .idle) {t : EventLoopThread}
    (hknown : Known t) (hwill : willBe t.owner ≠ some .returns)
    (hframe : t.thread = s.thread ∧ t.hasLoop = s.hasLoop) : Joins t := by
  refine ⟨hknown, fun _ => hwill, ?_⟩
  intro hloop hinside
  obtain ⟨ending, howner⟩ := h.joining (hframe.2.symm.trans hloop) (hframe.1.symm.trans hinside)
  rw [hidle] at howner
  cases howner

theorem joins_next {a : EventLoopThread.Action} (h : Joins s) (henabled : s.Enabled a)
    (hstop : a ≠ .stop .returns) (howner : a ≠ .owner true) :
    Joins (s.next a) ∨ (s.next a).failure = some .terminate := by
  rcases known_next h.known henabled with ⟨-, hknown⟩ | ⟨-, -, hterminate, -⟩
  · left
    cases a with
    | start =>
      have hidle := henabled.2
      refine joins_call h hidle hknown ?_ (start_frame s)
      simp only [next, start]
      split <;> simp [willBe, hidle]
    | stop ending =>
      have hidle := henabled.2
      have hreturns : ending ≠ .returns := fun heq => hstop (congrArg _ heq)
      refine joins_call h hidle hknown ?_ (stop_frame s ending)
      simp only [next, stop]
      split
      · split <;> simp [willBe, afterStop, hidle]
      · simp [willBe, hreturns]
    | owner isOwner =>
      obtain rfl : isOwner = false := eq_false_of_ne_true fun heq => howner (congrArg _ heq)
      exact joins_owner h henabled.2 hknown
    | thread =>
      obtain ⟨hframe, hloop, -⟩ := threadNext_frame s
      refine ⟨hknown, ?_, ?_⟩
      · rw [next, hloop, hframe]
        exact h.stopping
      · rw [next, hloop, hframe]
        intro hgone hinside
        by_cases hbefore : s.thread = .inside
        · exact h.joining hgone hbefore
        · exact absurd hinside (threadNext_outside hgone hbefore)
    | overlook =>
      have hloop : s.hasLoop = true := henabled.2.2.1
      exact ⟨hknown, h.stopping, fun hgone => absurd (hloop.symm.trans hgone) (by decide)⟩
    | callback => exact h
  · exact .inr hterminate

end Orderly
section OrderlyRun
variable {s t : OwnedObject}

/-- The invariant of an object with an orderly owner. -/
def Sheltered (s : OwnedObject) : Prop :=
  s.life.failure = some .terminate ∨
    Joins s.life ∧ (s.remains ≠ .whole → OutOfLoop s.life)

theorem sheltered_next {a : OwnedObject.Action} (henabled : s.Enabled a) (hguard : Orderly s a)
    (h : Sheltered s) : Sheltered (s.next a) := by
  rcases h with hterminate | ⟨hjoins, hout⟩
  · have hfailure : s.life.failure = none := by
      cases a with
      | life a => exact failure_of_enabled henabled.2
      | destroyMembers | destroyCallbacks => exact henabled.2.1
    rw [hterminate] at hfailure
    cases hfailure
  · cases a with
    | destroyMembers =>
      exact .inr ⟨hjoins, fun _ => outOfLoop_of_joins hjoins henabled.2.2 hguard⟩
    | destroyCallbacks => exact .inr ⟨hjoins, fun _ => hout (by simp [henabled.1])⟩
    | life a =>
      have hstop : a ≠ .stop .returns := by
        rintro rfl
        exact hguard
      have howner : a ≠ .owner true := by
        rintro rfl
        exact hguard
      rcases joins_next hjoins henabled.2 hstop howner with hnext | hterminate
      · refine .inr ⟨hnext, fun hremains => ?_⟩
        by_cases hwhole : s.remains = .whole
        · exact absurd (by simp [OwnedObject.next, hwhole]) hremains
        · have hstart : a ≠ .start := by
            rintro rfl
            exact hwhole henabled.1
          exact outOfLoop_next henabled.2 hstart (hout hwhole)
      · exact .inl hterminate

/-- What is left of the object when one of its callbacks runs. -/
def calledBack (s : OwnedObject) : OwnedObject.Action → List Remains
  | .life .callback => [s.remains]
  | _ => []

theorem calledBack_whole {a : OwnedObject.Action} (henabled : s.Enabled a) (h : Sheltered s) :
    ∀ r ∈ calledBack s a, r = .whole := by
  intro r hr
  rcases h with hterminate | ⟨-, hout⟩
  · cases a with
    | destroyMembers | destroyCallbacks => cases hr
    | life a =>
      rw [failure_of_enabled henabled.2] at hterminate
      cases hterminate
  · cases a with
    | destroyMembers | destroyCallbacks => cases hr
    | life a =>
      cases a with
      | callback =>
        obtain rfl := List.mem_singleton.mp hr
        by_contra hremains
        exact (leftAlone_next henabled ⟨hremains, hout hremains⟩).2 rfl
      | _ => cases hr

end OrderlyRun

/-- `main`: the loop is stopped, the object goes, and its destructors stop again. -/
def stoppedFirst : List OwnedObject.Action :=
  loopStarted ++ lifeSteps [[.stop .joins], ownerSteps 6, threadSteps 4, ownerSteps 2] ++
    [.destroyMembers, .life (.stop .joins), .destroyCallbacks, .life (.stop .destroys),
      .life (.owner false)]

end AdbClient.Guarantees.Destruction
