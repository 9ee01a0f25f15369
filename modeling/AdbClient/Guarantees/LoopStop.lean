import AdbClient.Guarantees.LoopLifetime

/-!
# A loop that is stopped

`stop(true)` and the destructor wait for the thread, and from then on there is
nobody who calls back: an object whose loop was stopped so may be taken apart. No
call waits in vain, in whatever state it finds the thread, as long as the loop heeds
the stop: a start waits for a loop that is on its way to run or has run, a join for a
thread that was told to leave. `start` does not wait for `hloop_run`, though, so a stop
can come before it; a loop that overlooks it runs for ever, and who joins it waits.
-/
namespace AdbClient.Guarantees.LoopStop
open Source Support.Transition EventLoopThread LoopLifetime

variable {s : EventLoopThread}

section Join

/-- Nobody is in the loop and nobody gets there. -/
def Deserted (s : EventLoopThread) : Prop :=
  s.failure ≠ none ∨ s.owner = .gone ∧ ¬ s.Alive ∨
    Over s ∧ s.thread ≠ .calling ∧ s.thread ≠ .inside

/-- Only an owner who makes a thread changes it. -/
theorem ownerNext_keeps (h : s.owner ≠ .making) (isOwner : Bool) :
    (s.ownerNext isOwner).thread = s.thread := by
  unfold ownerNext
  cases howner : s.owner with
  | making => exact absurd howner h
  | waiting =>
    dsimp only
    split <;> rfl
  | halting ending | comparing ending =>
    dsimp only
    split <;> first | exact (afterStop_frame _ _).1 | rfl
  | clearing ending => exact (afterStop_frame _ _).1
  | _ => rfl

/-- The owner makes threads and does nothing else to them. -/
theorem ownerNext_thread (s : EventLoopThread) (isOwner : Bool) :
    (s.ownerNext isOwner).thread = s.thread ∨ (s.ownerNext isOwner).thread = .spawned := by
  by_cases howner : s.owner = .making
  · simp only [ownerNext, howner]
    split
    · exact .inl rfl
    · exact .inr rfl
  · exact .inl (ownerNext_keeps howner isOwner)

/-- Without a loop `run` comes back before it gets there. -/
theorem over_threadNext (h : Over s) (hcalling : s.thread ≠ .calling) :
    s.threadNext.thread ≠ .calling ∧ s.threadNext.thread ≠ .inside := by
  obtain ⟨-, hchecking, hentered⟩ := h.thread
  have hloop := h.hasLoop
  cases ht : s.thread with
  | checking => exact absurd ht hchecking
  | entered => exact absurd ht hentered
  | calling => exact absurd ht hcalling
  | returned =>
    have hl := h.stopped (by simp [Within, ht])
    simp [threadNext, ht, hl]
  | _ => simp [threadNext, ht, hloop]

/-- Only the thread overlooks a stop. -/
theorem ownerNext_lost (s : EventLoopThread) (isOwner : Bool) :
    (s.ownerNext isOwner).lost = s.lost := by
  unfold ownerNext
  cases s.owner with
  | making | waiting =>
    dsimp only
    split <;> rfl
  | halting ending | comparing ending =>
    dsimp only
    split <;> cases ending <;> rfl
  | clearing ending => cases ending <;> rfl
  | _ => rfl

theorem threadNext_lost (s : EventLoopThread) : s.threadNext.lost = s.lost := by
  unfold threadNext
  cases s.thread with
  | returned =>
    dsimp only
    split <;> rfl
  | _ => rfl

theorem start_lost (s : EventLoopThread) : s.start.lost = s.lost := by
  unfold start
  split <;> rfl

theorem stop_lost (s : EventLoopThread) (ending : Ending) : (s.stop ending).lost = s.lost := by
  unfold stop
  split
  · split <;> rfl
  · rfl

theorem deserted_next {a : EventLoopThread.Action} (henabled : s.Enabled a) (h : Deserted s) :
    Deserted (s.next a) ∧ a ≠ .callback := by
  rcases h with hfailure | ⟨hgone, hdead⟩ | ⟨hover, hcalling, hinside⟩
  · exact absurd (failure_of_enabled henabled) hfailure
  · cases a with
    | start | stop ending =>
      have hidle := henabled.2
      rw [hgone] at hidle
      cases hidle
    | owner isOwner =>
      have hgo := henabled.2
      simp [MayGoOn, hgone] at hgo
    | thread => exact absurd henabled.2.1 hdead
    | overlook => exact absurd ⟨by simp [henabled.2.1], by simp [henabled.2.1]⟩ hdead
    | callback => exact absurd ⟨by simp [henabled.2], by simp [henabled.2]⟩ hdead
  · have hcallback : a ≠ .callback := by
      intro heq
      subst heq
      exact hinside henabled.2
    refine ⟨?_, hcallback⟩
    rcases over_next hover henabled with ⟨-, hnext⟩ | ⟨-, -, hterminate, -⟩
    · refine .inr (.inr ⟨hnext, ?_⟩)
      cases a with
      | start =>
        rw [next, (start_frame s).1]
        exact ⟨hcalling, hinside⟩
      | stop ending =>
        rw [next, (stop_frame s ending).1]
        exact ⟨hcalling, hinside⟩
      | owner isOwner =>
        rw [next]
        rcases ownerNext_thread s isOwner with hsame | hspawned
        · rw [hsame]
          exact ⟨hcalling, hinside⟩
        · simp [hspawned]
      | thread => exact over_threadNext hover hcalling
      | overlook => exact absurd henabled.2.1 hcalling
      | callback => exact absurd rfl hcallback
    · exact .inl (by simp [hterminate])

/-- Who joins a thread leaves a loop that nobody gets to. -/
theorem deserted_of_joining (h : Known s) {ending : Ending} (howner : s.owner = .joining ending)
    (hgo : s.MayGoOn) (isOwner : Bool) : Deserted (s.ownerNext isOwner) := by
  rcases h with h | h | h
  · have hdestroys : ending = .destroys := by
      rcases h.owner with ⟨-, hidle | hstarting | hjoining | hgone⟩ | ⟨-, hmaking⟩
      all_goals simp_all
    subst hdestroys
    rw [ownerNext_joining howner]
    exact .inr (.inl ⟨rfl, fun halive => halive.1 h.thread⟩)
  · have hplaces := h.places
    rw [howner] at hplaces
    exact hplaces.elim
  · obtain ⟨hover, -, ht⟩ := over_joining h howner hgo isOwner
    have hthread : (s.ownerNext isOwner).thread = s.thread := by simp [ownerNext, howner]
    exact .inr (.inr ⟨hover, by simp [hthread, ht], by simp [hthread, ht]⟩)

theorem no_callback {t : EventLoopThread} {actions : List EventLoopThread.Action}
    (h : Deserted s) (hrun : Run system (fun _ _ => True) s actions t) :
    .callback ∉ actions := by
  induction hrun with
  | nil => exact List.not_mem_nil
  | cons henabled _ _ ih =>
    obtain ⟨hnext, hother⟩ := deserted_next henabled h
    exact List.not_mem_cons_of_ne_of_not_mem (Ne.symm hother) (ih hnext)

end Join

/-- **A joined loop calls nobody back.** When `stop(true)` or the destructor has
joined the thread, no callback runs any more, whatever is called afterwards. -/
theorem stop_is_final {s t : EventLoopThread} {before after : List EventLoopThread.Action}
    {ending : Ending} {isOwner : Bool}
    (hrun : Run system (fun _ _ => True) fresh before s)
    (howner : s.owner = .joining ending) (hjoin : s.Enabled (.owner isOwner))
    (hrest : Run system (fun _ _ => True) (s.next (.owner isOwner)) after t) :
    .callback ∉ after := by
  have hknown : Known s := (sound_run hrun).known hjoin.1
  exact no_callback (deserted_of_joining hknown howner hjoin.2 isOwner) hrest

/-- Up to the join of a loop that has called back. -/
def untilJoin : List EventLoopThread.Action :=
  [[.start], ownerSteps 2, threadSteps 5, ownerSteps 1, [.callback, .stop .joins], ownerSteps 6,
    threadSteps 4, ownerSteps 1].flatten

theorem stop_is_final_restarted :
    ∃ s t, Run system (fun _ _ => True) fresh untilJoin s ∧
      Run system (fun _ _ => True) (s.next (.owner false))
        ([.start] ++ ownerSteps 2 ++ threadSteps 4) t ∧
      .callback ∉ [.start] ++ ownerSteps 2 ++ threadSteps 4 := by
  let s : EventLoopThread :=
    ⟨.joining .joins, .finished, .stopped, true, .stopped, false, true, false, none⟩
  let t : EventLoopThread :=
    ⟨.waiting, .finished, .stopped, true, .stopped, false, true, false, none⟩
  have hrun : Run system (fun _ _ => True) fresh untilJoin s :=
    .of_check (by decide +kernel)
  have hrest : Run system (fun _ _ => True) (s.next (.owner false))
      ([.start] ++ ownerSteps 2 ++ threadSteps 4) t := .of_check (by decide +kernel)
  exact ⟨s, t, hrun, hrest, stop_is_final hrun rfl ⟨rfl, fun _ => rfl⟩ hrest⟩

section Return

/-- The steps the owner has to the end of a call, those of the thread it makes
included. -/
def ownerRank : OwnerStage → Nat
  | .idle | .gone => 0
  | .waiting | .joining _ => 1
  | .clearing _ => 2
  | .loopStopping _ => 3
  | .loopMarking _ => 4
  | .comparing _ => 5
  | .halting _ => 6
  | .asking _ => 7
  | .marking _ => 8
  | .making => 11
  | .starting => 12

def threadRank : ThreadStage → Nat
  | .absent | .finished => 0
  | .ending => 1
  | .returned => 2
  | .left => 3
  | .inside => 4
  | .calling => 5
  | .entered => 6
  | .checking => 7
  | .started => 8
  | .spawned => 9

def rank (s : EventLoopThread) : Nat := ownerRank s.owner + threadRank s.thread

/-- The owner is between two calls or has made the last, or is about to end the
process with a thread that was never joined. -/
def Back (s : EventLoopThread) : Prop :=
  s.owner = .idle ∨ s.owner = .gone ∨ s.owner = .making ∧ s.joinable = true

theorem afterStop_rank (s : EventLoopThread) (ending : Ending) :
    rank (s.afterStop ending) ≤ 1 + threadRank s.thread := by
  cases ending with
  | returns => exact Nat.add_le_add_right (Nat.zero_le 1) _
  | joins | destroys => exact Nat.le_refl _

theorem joinable_of_not_back (hback : ¬ Back s) (howner : s.owner = .making) :
    s.joinable = false := by
  by_contra htrue
  exact hback (.inr (.inr ⟨howner, eq_true_of_ne_false htrue⟩))

/-- Nothing else ends it. -/
theorem ownerNext_failure (hback : ¬ Back s) (isOwner : Bool) :
    (s.ownerNext isOwner).failure = s.failure := by
  cases howner : s.owner with
  | making => rw [ownerNext_making howner (joinable_of_not_back hback howner)]
  | waiting | halting ending | comparing ending =>
    simp only [ownerNext, howner]
    split <;> first | rfl | exact (afterStop_frame _ _).2.1
  | clearing ending =>
    rw [ownerNext_clearing howner]
    exact (afterStop_frame _ ending).2.1
  | _ => simp [ownerNext, howner]

theorem ownerNext_rank (hback : ¬ Back s) (hgo : s.MayGoOn)
    (hwaiting : s.owner = .waiting → KStatus.running.rank ≤ s.loopStatus.rank) :
    rank (s.ownerNext false) < rank s := by
  have hrank : rank s = ownerRank s.owner + threadRank s.thread := rfl
  cases howner : s.owner with
  | idle | gone => simp [MayGoOn, howner] at hgo
  | making =>
    rw [ownerNext_making howner (joinable_of_not_back hback howner), hrank, howner]
    simp only [rank, ownerRank, threadRank]
    omega
  | waiting =>
    rw [ownerNext_waiting howner (hwaiting howner), hrank, howner]
    simp [rank, ownerRank]
  | halting ending =>
    have hle := afterStop_rank s ending
    rw [hrank, howner]
    simp only [ownerNext, howner]
    split
    · simp [rank, ownerRank]
    · exact Nat.lt_of_le_of_lt hle (by simp [ownerRank])
  | comparing ending =>
    have hle := afterStop_rank { s with hasLoop := false } ending
    have hnext : s.ownerNext false = { s with hasLoop := false }.afterStop ending ∨
        s.ownerNext false = { s with owner := .loopMarking ending } := by
      simp only [ownerNext, howner]
      split
      · exact .inl rfl
      · exact .inr rfl
    rw [hrank, howner]
    rcases hnext with heq | heq
    · rw [heq]
      exact Nat.lt_of_le_of_lt hle (by simp [ownerRank])
    · simp [heq, rank, ownerRank]
  | clearing ending =>
    have hle := afterStop_rank { s with hasLoop := false } ending
    rw [hrank, howner, ownerNext_clearing howner]
    exact Nat.lt_of_le_of_lt hle (by simp [ownerRank])
  | joining ending =>
    simp only [ownerNext, howner, rank]
    split <;> simp [ownerRank]
  | _ => simp [ownerNext, howner, rank, ownerRank]

theorem threadNext_rank (halive : s.Alive) (hreturned : s.thread = .returned →
    s.loopStatus = .stopped) : rank s.threadNext < rank s := by
  obtain ⟨habsent, hfinished⟩ := halive
  have howner := (threadNext_frame s).1
  unfold rank
  rw [howner]
  cases ht : s.thread with
  | absent => exact absurd ht habsent
  | finished => exact absurd ht hfinished
  | returned =>
    have hl := hreturned ht
    simp [threadNext, ht, hl, threadRank]
  | started | checking | calling =>
    simp only [threadNext, ht]
    split <;> simp [threadRank]
  | _ => simp [threadNext, ht, threadRank]

theorem known_returned (h : Known s) (ht : s.thread = .returned) : s.loopStatus = .stopped := by
  rcases h with h | h | h
  · rw [h.thread] at ht
    cases ht
  · exact living_returned h ht
  · exact h.stopped (by simp [Within, ht])

/-- An owner who waits has a thread to wait for that goes on. -/
theorem known_waits (h : Known s) (hfailure : s.failure = none) (hlost : s.lost = false)
    (hidle : s.owner ≠ .idle) (hgone : s.owner ≠ .gone) :
    s.MayGoOn ∧ (s.owner = .waiting → KStatus.running.rank ≤ s.loopStatus.rank) ∨
      s.Enabled .thread := by
  cases howner : s.owner with
  | idle => exact absurd howner hidle
  | gone => exact absurd howner hgone
  | joining ending =>
    by_cases hjoined : s.Joined
    · left
      simp [MayGoOn, howner, hjoined]
    · right
      obtain ⟨hjoinable, hnot⟩ := Classical.not_imp.mp hjoined
      rcases h with h | h | h
      · simp [h.joinable] at hjoinable
      · have hplaces := h.places
        rw [howner] at hplaces
        exact hplaces.elim
      · exact ⟨hfailure, ⟨h.thread.1, hnot⟩, fun _ => ⟨h.requested, hlost⟩⟩
  | waiting =>
    by_cases hlow : s.loopStatus.rank < KStatus.running.rank
    · right
      rcases h with h | h | h
      · have hplace := h.owner
        simp [howner] at hplace
      · have hrising := h.places
        rw [howner] at hrising
        obtain ⟨-, ⟨ht, -, -⟩ | ⟨ht | ht | ht, -, -⟩ | ⟨-, -, hl⟩⟩ := hrising
        · exact ⟨hfailure, by simp [Alive, ht], by simp [ht]⟩
        · exact ⟨hfailure, by simp [Alive, ht], by simp [ht]⟩
        · exact ⟨hfailure, by simp [Alive, ht], by simp [ht]⟩
        · exact ⟨hfailure, by simp [Alive, ht], by simp [ht]⟩
        · simp [hl, KStatus.rank] at hlow
      · by_cases hwithin : Within s
        · simp [(h.first hwithin).2, KStatus.rank] at hlow
        · simp [h.stopped hwithin, KStatus.rank] at hlow
    · left
      exact ⟨by simp [MayGoOn, howner], fun _ => Nat.not_lt.mp hlow⟩
  | _ =>
    left
    simp [MayGoOn, howner]

/-- A step inside what the owner and the thread have begun. -/
def Inside (a : EventLoopThread.Action) : Prop := a = .owner false ∨ a = .thread

theorem inside_lost {a : EventLoopThread.Action} (ha : Inside a) : (s.next a).lost = s.lost := by
  rcases ha with rfl | rfl
  · exact ownerNext_lost s false
  · exact threadNext_lost s

theorem known_progress (h : Known s) (hfailure : s.failure = none) (hlost : s.lost = false)
    (hback : ¬ Back s) :
    ∃ a, s.Enabled a ∧ Inside a ∧
      ((s.next a).failure = none ∧ (s.next a).lost = false ∧ Known (s.next a)) ∧
      rank (s.next a) < rank s := by
  have hstep : ∃ a, s.Enabled a ∧ Inside a ∧ (s.next a).failure = none ∧
      rank (s.next a) < rank s := by
    rcases known_waits h hfailure hlost (fun heq => hback (.inl heq))
        (fun heq => hback (.inr (.inl heq))) with ⟨hgo, hwaiting⟩ | hthread
    · exact ⟨.owner false, ⟨hfailure, hgo⟩, .inl rfl, (ownerNext_failure hback _).trans hfailure,
        ownerNext_rank hback hgo hwaiting⟩
    · have hreturned := known_returned h
      exact ⟨.thread, hthread, .inr rfl, (threadNext_failure hreturned).trans hfailure,
        threadNext_rank hthread.2.1 hreturned⟩
  obtain ⟨a, henabled, hinside, hnone, hrank⟩ := hstep
  rcases known_next h henabled with ⟨-, hknown⟩ | ⟨-, -, hterminate, -⟩
  · exact ⟨a, henabled, hinside, ⟨hnone, (inside_lost hinside).trans hlost, hknown⟩, hrank⟩
  · rw [hnone] at hterminate
    cases hterminate

theorem rank_le (s : EventLoopThread) : rank s ≤ 21 := by
  have howner : ownerRank s.owner ≤ 12 := by cases s.owner <;> simp [ownerRank]
  have hthread : threadRank s.thread ≤ 9 := by cases s.thread <;> simp [threadRank]
  exact Nat.add_le_add howner hthread

theorem exists_return (h : Known s) (hfailure : s.failure = none) (hlost : s.lost = false) :
    ∃ actions t, Run system (fun _ _ => True) s actions t ∧ Back t ∧
      actions.length ≤ 21 ∧ ∀ a ∈ actions, Inside a := by
  have hprogress : ∀ u, u.failure = none ∧ u.lost = false ∧ Known u → ¬ Back u →
      ∃ a, u.Enabled a ∧ True ∧ Inside a ∧
        ((u.next a).failure = none ∧ (u.next a).lost = false ∧ Known (u.next a)) ∧
        rank (u.next a) < rank u := by
    intro u hu hback
    obtain ⟨a, henabled, hrest⟩ := known_progress hu.2.2 hu.1 hu.2.1 hback
    exact ⟨a, henabled, trivial, hrest⟩
  have hreach : ∃ actions t, Run system (fun _ _ => True) s actions t ∧ Back t ∧
      actions.length ≤ rank s ∧ ∀ a ∈ actions, Inside a :=
    exists_run_to rank (fun u => u.failure = none ∧ u.lost = false ∧ Known u) Back Inside hprogress
      ⟨hfailure, hlost, h⟩
  obtain ⟨actions, t, hactions, ht, hlength, hinside⟩ := hreach
  exact ⟨actions, t, hactions, ht, Nat.le_trans hlength (rank_le s), hinside⟩

end Return

section Overlooked

/-- The loop has overlooked its stop and runs on. -/
structure RunsOn (s : EventLoopThread) : Prop where
  known : s.failure = none → Known s
  lost : s.lost = true
  inside : s.thread = .inside

/-- What is known of a run so far. -/
def Followed (s : EventLoopThread) : Prop :=
  (s.failure = none → Known s) ∧ (s.lost = true → s.thread = .inside)

theorem joinable_of_inside (h : Known s) (hinside : s.thread = .inside) : s.joinable = true := by
  rcases h with h | h | h
  · have habsent := h.thread
    rw [hinside] at habsent
    cases habsent
  · exact h.joinable
  · exact h.joinable (by simp [Alive, hinside])

theorem known_of_next {a : EventLoopThread.Action} (henabled : s.Enabled a) (h : Known s) :
    (s.next a).failure = none → Known (s.next a) := by
  intro hnone
  rcases known_next h henabled with ⟨-, hknown⟩ | ⟨-, -, hterminate, -⟩
  · exact hknown
  · rw [hnone] at hterminate
    cases hterminate

/-- Nothing gets the thread out of the loop again, and no join comes back. -/
theorem runsOn_next {a : EventLoopThread.Action} (henabled : s.Enabled a) (h : RunsOn s) :
    RunsOn (s.next a) ∧
      ∀ ending, s.owner = .joining ending → (s.next a).owner = .joining ending := by
  have hknown := h.known (failure_of_enabled henabled)
  have hnext := known_of_next henabled hknown
  cases a with
  | start =>
    have hidle := henabled.2
    refine ⟨⟨hnext, ?_, (start_frame s).1.trans h.inside⟩, by simp [hidle]⟩
    exact (start_lost s).trans h.lost
  | stop ending =>
    have hidle := henabled.2
    refine ⟨⟨hnext, ?_, (stop_frame s ending).1.trans h.inside⟩, by simp [hidle]⟩
    exact (stop_lost s ending).trans h.lost
  | owner isOwner =>
    have hmaking : s.owner ≠ .making := by
      intro howner
      exact not_alive_of_known hknown (.inl howner) (by simp [Alive, h.inside])
    refine ⟨⟨hnext, (ownerNext_lost s isOwner).trans h.lost,
      (ownerNext_keeps hmaking isOwner).trans h.inside⟩, ?_⟩
    intro ending howner
    have hgo := henabled.2
    simp [MayGoOn, howner, EventLoopThread.Joined, joinable_of_inside hknown h.inside, h.inside]
      at hgo
  | thread =>
    have hheeded := (henabled.2.2 h.inside).2
    rw [h.lost] at hheeded
    cases hheeded
  | overlook =>
    have hcalling := henabled.2.1
    rw [h.inside] at hcalling
    cases hcalling
  | callback => exact ⟨⟨hnext, h.lost, h.inside⟩, fun _ howner => howner⟩

theorem followed_next {a : EventLoopThread.Action} (henabled : s.Enabled a) (h : Followed s) :
    Followed (s.next a) := by
  have hknown := h.1 (failure_of_enabled henabled)
  by_cases hlost : s.lost = true
  · obtain ⟨hrunsOn, -⟩ := runsOn_next henabled ⟨h.1, hlost, h.2 hlost⟩
    exact ⟨hrunsOn.known, fun _ => hrunsOn.inside⟩
  · refine ⟨known_of_next henabled hknown, ?_⟩
    intro hnow
    cases a with
    | start => exact absurd ((start_lost s).symm.trans hnow) hlost
    | stop ending => exact absurd ((stop_lost s ending).symm.trans hnow) hlost
    | owner isOwner => exact absurd ((ownerNext_lost s isOwner).symm.trans hnow) hlost
    | thread => exact absurd ((threadNext_lost s).symm.trans hnow) hlost
    | overlook => rfl
    | callback => exact absurd hnow hlost

theorem followed_run {t : EventLoopThread} {actions : List EventLoopThread.Action}
    (hrun : Run system (fun _ _ => True) fresh actions t) : Followed t :=
  hrun.invariant Followed (fun _ _ henabled _ h => followed_next henabled h)
    ⟨sound_fresh.known, nofun⟩

theorem runsOn_run {t : EventLoopThread} {actions : List EventLoopThread.Action}
    (hrun : Run system (fun _ _ => True) s actions t) (h : RunsOn s) :
    RunsOn t ∧ ∀ ending, s.owner = .joining ending → t.owner = .joining ending := by
  induction hrun with
  | nil => exact ⟨h, fun _ howner => howner⟩
  | cons henabled _ _ ih =>
    obtain ⟨hnext, hjoining⟩ := runsOn_next henabled h
    obtain ⟨hlast, hstill⟩ := ih hnext
    exact ⟨hlast, fun ending howner => hstill ending (hjoining ending howner)⟩

end Overlooked

/-- **Every call comes back, unless the loop has overlooked its stop.** From every
state of every run in which no `hloop_run` has overlooked a `hloop_stop` before it, 21
steps of the owner and the thread are enough to end the call that is under way, with
no help from the callbacks: neither waits for the other in vain, an owner apart who is
about to make a thread while the last one was never joined. Where a stop has been
overlooked the thread stays in the loop for ever, and whoever joins it is still
joining. -/
theorem owner_comes_back {s : EventLoopThread} {before : List EventLoopThread.Action}
    (hrun : Run system (fun _ _ => True) fresh before s) (hfailure : s.failure = none) :
    (s.lost = false → ∃ actions t, Run system (fun _ _ => True) s actions t ∧ Back t ∧
        actions.length ≤ 21 ∧ ∀ a ∈ actions, Inside a) ∧
      (s.lost = true → ∀ actions t, Run system (fun _ _ => True) s actions t →
        t.thread = .inside ∧ ∀ ending, s.owner = .joining ending → t.owner = .joining ending) := by
  obtain ⟨hknown, hinside⟩ := followed_run hrun
  refine ⟨exists_return (hknown hfailure) hfailure, ?_⟩
  intro hlost actions t hactions
  obtain ⟨hrunsOn, hjoining⟩ := runsOn_run hactions ⟨hknown, hlost, hinside hlost⟩
  exact ⟨hrunsOn.inside, hjoining⟩

/-- A stop between the start and `hloop_run`. -/
def overlooked : List EventLoopThread.Action :=
  [[.start], ownerSteps 2, threadSteps 4, ownerSteps 1, [.stop .joins], ownerSteps 6, [.overlook],
    ownerSteps 1].flatten

theorem owner_comes_back_joining :
    (∃ s actions t, Run system (fun _ _ => True) fresh untilJoin s ∧
      Run system (fun _ _ => True) s actions t ∧ Back t ∧ actions.length ≤ 21) ∧
    ∃ s, Run system (fun _ _ => True) fresh overlooked s ∧ ∀ actions t,
      Run system (fun _ _ => True) s actions t → t.owner = .joining .joins := by
  let s : EventLoopThread :=
    ⟨.joining .joins, .finished, .stopped, true, .stopped, false, true, false, none⟩
  have hrun : Run system (fun _ _ => True) fresh untilJoin s :=
    .of_check (by decide +kernel)
  let u : EventLoopThread :=
    ⟨.joining .joins, .inside, .stopping, true, .stopping, false, true, true, none⟩
  have hlost : Run system (fun _ _ => True) fresh overlooked u :=
    .of_check (by decide +kernel)
  obtain ⟨actions, t, hactions, ht, hlength, -⟩ := (owner_comes_back hrun rfl).1 rfl
  refine ⟨⟨s, actions, t, hrun, hactions, ht, hlength⟩, u, hlost, ?_⟩
  intro actions t hactions
  exact ((owner_comes_back hlost rfl).2 rfl actions t hactions).2 .joins rfl

end AdbClient.Guarantees.LoopStop
