import AdbClient.Source.EventLoopThread
import AdbClient.Support.Simulation

/-!
# The loop's thread from the first start to the destructor

Two threads and two statuses without a lock. In every order of starts and stops the
thread finds the loop stopped where it asserts so, no thread is made while another
one runs, and none outlives the object. A loop that was stopped never runs again:
the thread of a later start comes back from `run` at once, and the start after that
one destroys it before anyone has joined it, which ends the process.
-/
namespace AdbClient.Guarantees.LoopLifetime
open Source Support.Transition EventLoopThread

variable {s : EventLoopThread}

/-- No start has got as far as making a thread. -/
structure Unborn (s : EventLoopThread) : Prop where
  thread : s.thread = .absent
  hasLoop : s.hasLoop = true
  joinable : s.joinable = false
  requested : s.requested = false
  loopStatus : s.loopStatus = .initialized
  owner : s.status = .initialized ∧ (s.owner = .idle ∨ s.owner = .starting ∨
      s.owner = .joining .destroys ∨ s.owner = .gone) ∨
    s.status = .starting ∧ s.owner = .making

/-- The thread is on its way to the loop. -/
def Rising (s : EventLoopThread) : Prop :=
  s.requested = false ∧
    (s.thread = .spawned ∧ s.status = .starting ∧ s.loopStatus = .initialized ∨
      (s.thread = .started ∨ s.thread = .checking ∨ s.thread = .entered) ∧
        s.status = .started ∧ s.loopStatus = .initialized ∨
      (s.thread = .calling ∨ s.thread = .inside) ∧ s.status = .started ∧ s.loopStatus = .running)

/-- The thread is in the loop, which the owner may be about to stop. -/
def Running (s : EventLoopThread) (status loopStatus : KStatus) : Prop :=
  s.requested = false ∧ (s.thread = .calling ∨ s.thread = .inside) ∧ s.status = status ∧
    s.loopStatus = loopStatus

/-- The thread leaves the loop for good. -/
def Leaving (s : EventLoopThread) : Prop :=
  s.requested = true ∧
    ((s.thread = .calling ∨ s.thread = .inside ∨ s.thread = .left) ∧ s.status = .stopping ∧
        s.loopStatus = .stopping ∨
      (s.thread = .returned ∨ s.thread = .ending) ∧ s.status = .stopping ∧
        s.loopStatus = .stopped ∨
      s.thread = .finished ∧ s.status = .stopped ∧ s.loopStatus = .stopped)

/-- How far the owner of a loop has got, and the thread with it. -/
def Places (s : EventLoopThread) : OwnerStage → Prop
  | .waiting => Rising s
  | .idle | .marking _ => Running s .started .running
  | .asking _ | .halting _ | .comparing _ | .loopMarking _ => Running s .stopping .running
  | .loopStopping _ => Running s .stopping .stopping
  | .clearing _ => Leaving s
  | .starting | .making | .joining _ | .gone => False

structure Living (s : EventLoopThread) : Prop where
  hasLoop : s.hasLoop = true
  joinable : s.joinable = true
  places : Places s s.owner

/-- The places of an owner whose loop is gone. -/
def Behind : OwnerStage → Prop
  | .comparing _ | .loopMarking _ | .loopStopping _ | .clearing _ => False
  | _ => True

/-- The thread has got to the loop and has not marked it as stopped. -/
def Within (s : EventLoopThread) : Prop :=
  s.thread = .calling ∨ s.thread = .inside ∨ s.thread = .left

/-- The loop is gone. A thread that is still there is the one that ran it, or one of
a later start, which does not get to it. -/
structure Over (s : EventLoopThread) : Prop where
  hasLoop : s.hasLoop = false
  requested : s.requested = true
  owner : Behind s.owner
  thread : s.thread ≠ .absent ∧ s.thread ≠ .checking ∧ s.thread ≠ .entered
  first : Within s → s.status = .stopping ∧ s.loopStatus = .stopping
  stopped : ¬ Within s → s.loopStatus = .stopped
  joinable : s.Alive → s.joinable = true
  status : s.Alive →
    KStatus.starting.rank ≤ s.status.rank ∧ s.status.rank < KStatus.stopped.rank
  alone : s.owner = .starting ∨ s.owner = .making ∨ s.owner = .gone → s.thread = .finished
  making : s.owner = .making → s.status = .starting

/-- The three parts of a life. -/
def Known (s : EventLoopThread) : Prop := Unborn s ∨ Living s ∨ Over s

section Calls

theorem start_goesOn (h : s.status.rank < KStatus.starting.rank ∨
    KStatus.stopped.rank ≤ s.status.rank) : s.start = { s with owner := .starting } := by
  unfold start
  rw [if_neg (by omega)]

theorem start_busy (h : KStatus.starting.rank ≤ s.status.rank)
    (h' : s.status.rank < KStatus.stopped.rank) : s.start = s := by
  unfold start
  rw [if_pos ⟨h, h'⟩]

theorem stop_goesOn (h : KStatus.starting.rank ≤ s.status.rank)
    (h' : s.status.rank < KStatus.stopping.rank) (ending : Ending) :
    s.stop ending = { s with owner := .marking ending } := by
  unfold stop
  rw [if_neg (by omega)]

/-- With nothing to stop only the destructor goes on, to join. -/
theorem stop_nothing (h : s.status.rank < KStatus.starting.rank ∨
    KStatus.stopping.rank ≤ s.status.rank) (ending : Ending) :
    s.stop ending = s ∨ s.stop ending = { s with owner := .joining .destroys } := by
  unfold stop
  rw [if_pos h]
  split
  · exact .inr rfl
  · exact .inl rfl

/-- After the loop has been stopped the owner is free or joins. -/
theorem afterStop_owner (s : EventLoopThread) (ending : Ending) :
    s.afterStop ending = { s with owner := .idle } ∨
      ∃ joined, s.afterStop ending = { s with owner := .joining joined } := by
  cases ending with
  | returns => exact .inl rfl
  | joins | destroys => exact .inr ⟨_, rfl⟩

end Calls

section Thread

/-- What the thread leaves to the owner. -/
theorem threadNext_frame (s : EventLoopThread) :
    s.threadNext.owner = s.owner ∧ s.threadNext.hasLoop = s.hasLoop ∧
      s.threadNext.joinable = s.joinable ∧ s.threadNext.requested = s.requested := by
  unfold threadNext
  cases s.thread with
  | returned => by_cases hstopped : s.loopStatus = .stopped <;> simp [hstopped]
  | _ => exact ⟨rfl, rfl, rfl, rfl⟩

/-- The assertion holds where the loop has stopped. -/
theorem threadNext_failure (h : s.thread = .returned → s.loopStatus = .stopped) :
    s.threadNext.failure = s.failure := by
  unfold threadNext
  cases ht : s.thread with
  | returned =>
    dsimp only
    rw [if_pos (h ht)]
  | _ => rfl

theorem rising_thread (hloop : s.hasLoop = true) (h : Rising s)
    (henabled : s.Enabled .thread) : Rising s.threadNext := by
  obtain ⟨hrequested, hplace⟩ := h
  obtain ⟨-, ⟨habsent, hfinished⟩, hinside⟩ := henabled
  rcases hplace with ⟨ht, hs, hl⟩ | ⟨ht | ht | ht, hs, hl⟩ | ⟨ht | ht, hs, hl⟩
  · simp [Rising, threadNext, ht, hl, hrequested]
  · simp [Rising, threadNext, ht, hs, hl, hrequested, hloop]
  · simp [Rising, threadNext, ht, hs, hl, hrequested]
  · simp [Rising, threadNext, ht, hs, hrequested]
  · simp [Rising, threadNext, ht, hs, hl, hrequested, hloop]
  · simp [hrequested] at hinside
    exact absurd ht hinside

/-- The loop runs until `hloop_stop` is called. -/
theorem running_thread {status loopStatus : KStatus} (hloop : s.hasLoop = true)
    (h : Running s status loopStatus) (henabled : s.Enabled .thread) :
    Running s.threadNext status loopStatus := by
  obtain ⟨hrequested, ht | ht, hs, hl⟩ := h
  · simp [Running, threadNext, ht, hs, hl, hrequested, hloop]
  · have hcalled := (henabled.2.2 ht).1
    rw [hrequested] at hcalled
    cases hcalled

theorem leaving_thread (h : Leaving s) (henabled : s.Enabled .thread) : Leaving s.threadNext := by
  obtain ⟨hrequested, hplace⟩ := h
  rcases hplace with ⟨ht | ht | ht, hs, hl⟩ | ⟨ht | ht, hs, hl⟩ | ⟨ht, -, -⟩
  · cases hloop : s.hasLoop <;> simp [Leaving, threadNext, ht, hs, hl, hrequested, hloop]
  · simp [Leaving, threadNext, ht, hs, hl, hrequested]
  · simp [Leaving, threadNext, ht, hs, hrequested]
  · simp [Leaving, threadNext, ht, hs, hl, hrequested]
  · simp [Leaving, threadNext, ht, hl, hrequested]
  · exact absurd ht henabled.2.1.2

/-- The thread of a loop that is gone: the first one leaves it, a later one never
gets to it. -/
theorem over_thread (h : Over s) (henabled : s.Enabled .thread) : Over s.threadNext := by
  obtain ⟨hframe, hgone, hjoin, hasked⟩ := threadNext_frame s
  obtain ⟨-, halive, -⟩ := henabled
  have hjoinable := h.joinable halive
  obtain ⟨hlow, hhigh⟩ := h.status halive
  have hbusy : ¬ (s.owner = .starting ∨ s.owner = .making ∨ s.owner = .gone) :=
    fun howner => halive.2 (h.alone howner)
  have hplace : (s.threadNext.thread ≠ .absent ∧ s.threadNext.thread ≠ .checking ∧
        s.threadNext.thread ≠ .entered) ∧
      (Within s.threadNext →
        s.threadNext.status = .stopping ∧ s.threadNext.loopStatus = .stopping) ∧
      (¬ Within s.threadNext → s.threadNext.loopStatus = .stopped) ∧
      (s.threadNext.Alive → KStatus.starting.rank ≤ s.threadNext.status.rank ∧
        s.threadNext.status.rank < KStatus.stopped.rank) := by
    obtain ⟨habsent, hchecking, hentered⟩ := h.thread
    have hloop := h.hasLoop
    have hfirst := h.first
    have hstopped := h.stopped
    cases ht : s.thread <;> simp_all [Within, threadNext, Alive, KStatus.rank]
  obtain ⟨hthread, hfirst, hstopped, hstatus⟩ := hplace
  refine ⟨hgone.trans h.hasLoop, hasked.trans h.requested, hframe ▸ h.owner, hthread, hfirst,
    hstopped, fun _ => hjoin.trans hjoinable, hstatus, ?_, ?_⟩
  · rw [hframe]
    exact fun howner => absurd howner hbusy
  · rw [hframe]
    exact fun howner => absurd (.inr (.inl howner)) hbusy

end Thread

section Owner

theorem unborn_owner (h : Unborn s) (hfailure : s.failure = none) (hgo : s.MayGoOn)
    (isOwner : Bool) : (s.ownerNext isOwner).failure = none ∧ Known (s.ownerNext isOwner) := by
  obtain ⟨hthread, hloop, hjoinable, hrequested, hloopStatus, howner⟩ := h
  rcases howner with ⟨hstatus, howner | howner | howner | howner⟩ | ⟨hstatus, howner⟩
  · simp [MayGoOn, howner] at hgo
  · rw [ownerNext_starting howner]
    exact ⟨hfailure, .inl ⟨hthread, hloop, hjoinable, hrequested, hloopStatus, .inr ⟨rfl, rfl⟩⟩⟩
  · rw [ownerNext_joining howner]
    exact ⟨hfailure, .inl ⟨hthread, hloop, rfl, hrequested, hloopStatus,
      .inl ⟨hstatus, .inr (.inr (.inr rfl))⟩⟩⟩
  · simp [MayGoOn, howner] at hgo
  · rw [ownerNext_making howner hjoinable]
    exact ⟨hfailure, .inr (.inl ⟨hloop, rfl, hrequested, .inl ⟨rfl, hstatus, hloopStatus⟩⟩)⟩

/-- When the owner has cleared `loop_`, the thread may still be within the loop. -/
theorem over_clearing (hjoinable : s.joinable = true) (h : Leaving s) {owner : OwnerStage}
    (howner : owner = .idle ∨ ∃ ending, owner = .joining ending) :
    Over { s with hasLoop := false, owner := owner } := by
  have hbehind : Behind owner := by
    rcases howner with rfl | ⟨ending, rfl⟩ <;> exact trivial
  have hfree : ¬ (owner = .starting ∨ owner = .making ∨ owner = .gone) := by
    rcases howner with rfl | ⟨ending, rfl⟩ <;> simp
  have hmaking : owner ≠ .making := fun heq => hfree (.inr (.inl heq))
  obtain ⟨hrequested, ⟨ht | ht | ht, hs, hl⟩ | ⟨ht | ht, hs, hl⟩ | ⟨ht, hs, hl⟩⟩ := h <;>
    exact ⟨rfl, hrequested, hbehind, by simp [ht], by simp [Within, ht, hs, hl],
      by simp [Within, ht, hl], fun _ => hjoinable, by simp [Alive, ht, hs, KStatus.rank],
      fun heq => absurd heq hfree, fun heq => absurd heq hmaking⟩

theorem living_owner (h : Living s) (hfailure : s.failure = none) (hgo : s.MayGoOn)
    (isOwner : Bool) : (s.ownerNext isOwner).failure = none ∧ Known (s.ownerNext isOwner) := by
  obtain ⟨hloop, hjoinable, hplaces⟩ := h
  cases howner : s.owner with
  | idle | gone => simp [MayGoOn, howner] at hgo
  | starting | making | joining ending =>
    rw [howner] at hplaces
    exact hplaces.elim
  | waiting =>
    rw [howner] at hplaces
    by_cases hlow : s.loopStatus.rank < KStatus.running.rank
    · rw [ownerNext_delay howner hlow]
      exact ⟨hfailure, .inr (.inl ⟨hloop, hjoinable, howner ▸ hplaces⟩)⟩
    · have hrunning : Running s .started .running := by
        obtain ⟨hrequested, ⟨-, -, hl⟩ | ⟨-, -, hl⟩ | ⟨ht, hs, hl⟩⟩ := hplaces
        · simp [hl, KStatus.rank] at hlow
        · simp [hl, KStatus.rank] at hlow
        · exact ⟨hrequested, ht, hs, hl⟩
      rw [ownerNext_waiting howner (Nat.not_lt.mp hlow)]
      exact ⟨hfailure, .inr (.inl ⟨hloop, hjoinable, hrunning⟩)⟩
  | marking ending =>
    rw [howner] at hplaces
    obtain ⟨hrequested, ht, -, hl⟩ := hplaces
    rw [ownerNext_marking howner]
    exact ⟨hfailure, .inr (.inl ⟨hloop, hjoinable, hrequested, ht, rfl, hl⟩)⟩
  | asking ending =>
    rw [howner] at hplaces
    rw [ownerNext_asking howner]
    exact ⟨hfailure, .inr (.inl ⟨hloop, hjoinable, hplaces⟩)⟩
  | halting ending =>
    rw [howner] at hplaces
    rw [ownerNext_halting howner hloop]
    exact ⟨hfailure, .inr (.inl ⟨hloop, hjoinable, hplaces⟩)⟩
  | comparing ending =>
    rw [howner] at hplaces
    have hl : s.loopStatus = .running := hplaces.2.2.2
    rw [ownerNext_comparing howner (by simp [hl])]
    exact ⟨hfailure, .inr (.inl ⟨hloop, hjoinable, hplaces⟩)⟩
  | loopMarking ending =>
    rw [howner] at hplaces
    obtain ⟨hrequested, ht, hs, -⟩ := hplaces
    rw [ownerNext_loopMarking howner]
    exact ⟨hfailure, .inr (.inl ⟨hloop, hjoinable, hrequested, ht, hs, rfl⟩)⟩
  | loopStopping ending =>
    rw [howner] at hplaces
    obtain ⟨-, ht, hs, hl⟩ := hplaces
    have hthread : s.thread = .calling ∨ s.thread = .inside ∨ s.thread = .left :=
      ht.imp_right Or.inl
    rw [ownerNext_loopStopping howner]
    exact ⟨hfailure, .inr (.inl ⟨hloop, hjoinable, rfl, .inl ⟨hthread, hs, hl⟩⟩)⟩
  | clearing ending =>
    rw [howner] at hplaces
    rw [ownerNext_clearing howner]
    rcases afterStop_owner { s with hasLoop := false } ending with heq | ⟨joined, heq⟩
    · rw [heq]
      exact ⟨hfailure, .inr (.inr (over_clearing hjoinable hplaces (.inl rfl)))⟩
    · rw [heq]
      exact ⟨hfailure, .inr (.inr (over_clearing hjoinable hplaces (.inr ⟨joined, rfl⟩)))⟩

/-- Only the owner's place changes, and to one where nothing is under way. -/
theorem over_moves (h : Over s) {owner : OwnerStage} (hbehind : Behind owner)
    (hfree : ¬ (owner = .starting ∨ owner = .making ∨ owner = .gone)) :
    Over { s with owner := owner } :=
  ⟨h.hasLoop, h.requested, hbehind, h.thread, h.first, h.stopped, h.joinable, h.status,
    fun howner => absurd howner hfree, fun howner => absurd (.inr (.inl howner)) hfree⟩

theorem over_afterStop (h : Over s) (ending : Ending) : Over (s.afterStop ending) := by
  rcases afterStop_owner s ending with heq | ⟨joined, heq⟩
  · rw [heq]
    exact over_moves h trivial (by simp)
  · rw [heq]
    exact over_moves h trivial (by simp)

/-- The process is ended by an owner who makes a thread, when none runs. -/
def Terminates (s t : EventLoopThread) : Prop :=
  s.hasLoop = false ∧ s.owner = .making ∧ t.failure = some .terminate ∧ ¬ t.Alive

/-- A thread of a later start is made, unless the one before was never joined. -/
theorem over_making (h : Over s) (howner : s.owner = .making) (isOwner : Bool) :
    Over (s.ownerNext isOwner) ∧ (s.ownerNext isOwner).failure = s.failure ∨
      Terminates s (s.ownerNext isOwner) := by
  have ht := h.alone (.inr (.inl howner))
  have hl := h.stopped (by simp [Within, ht])
  have hs := h.making howner
  by_cases hjoinable : s.joinable = true
  · have hnext : s.ownerNext isOwner = { s with failure := some .terminate } := by
      simp [ownerNext, howner, hjoinable]
    rw [hnext]
    exact .inr ⟨h.hasLoop, howner, rfl, fun halive => halive.2 ht⟩
  · rw [ownerNext_making howner (eq_false_of_ne_true hjoinable)]
    exact .inl ⟨⟨h.hasLoop, h.requested, trivial, by simp, by simp [Within], fun _ => hl,
      fun _ => rfl, by simp [hs, KStatus.rank], by simp, by simp⟩, rfl⟩

/-- Whoever joins finds the thread finished. -/
theorem over_joining (h : Over s) {ending : Ending} (howner : s.owner = .joining ending)
    (hgo : s.MayGoOn) (isOwner : Bool) :
    Over (s.ownerNext isOwner) ∧ (s.ownerNext isOwner).failure = s.failure ∧
      s.thread = .finished := by
  have hjoined : s.Joined := by simpa [MayGoOn, howner] using hgo
  have ht : s.thread = .finished := by
    by_contra hne
    exact hne (hjoined (h.joinable ⟨h.thread.1, hne⟩))
  have hl := h.stopped (by simp [Within, ht])
  rw [ownerNext_joining howner]
  refine ⟨⟨h.hasLoop, h.requested, ?_, h.thread, h.first, h.stopped, ?_, h.status, fun _ => ht, ?_⟩,
    rfl, ht⟩
  · split <;> exact trivial
  · exact fun halive => absurd ht halive.2
  · split <;> simp

theorem over_owner (h : Over s) (hfailure : s.failure = none) (hgo : s.MayGoOn)
    (isOwner : Bool) :
    (s.ownerNext isOwner).failure = none ∧ Over (s.ownerNext isOwner) ∨
      Terminates s (s.ownerNext isOwner) := by
  have hbehind := h.owner
  cases howner : s.owner with
  | idle | gone => simp [MayGoOn, howner] at hgo
  | comparing ending | loopMarking ending | loopStopping ending | clearing ending =>
    rw [howner] at hbehind
    exact hbehind.elim
  | starting =>
    have ht := h.alone (.inl howner)
    have hl := h.stopped (by simp [Within, ht])
    rw [ownerNext_starting howner]
    exact .inl ⟨hfailure, h.hasLoop, h.requested, trivial, h.thread, by simp [Within, ht],
      h.stopped, h.joinable, by simp [KStatus.rank], fun _ => ht, fun _ => rfl⟩
  | making =>
    rcases over_making h howner isOwner with ⟨hover, hsame⟩ | hterminate
    · exact .inl ⟨hsame.trans hfailure, hover⟩
    · exact .inr hterminate
  | waiting =>
    have hhigh : KStatus.running.rank ≤ s.loopStatus.rank := by
      by_cases hwithin : Within s
      · simp [(h.first hwithin).2, KStatus.rank]
      · simp [h.stopped hwithin, KStatus.rank]
    rw [ownerNext_waiting howner hhigh]
    exact .inl ⟨hfailure, over_moves h trivial (by simp)⟩
  | marking ending =>
    rw [ownerNext_marking howner]
    exact .inl ⟨hfailure, h.hasLoop, h.requested, trivial, h.thread,
      fun hwithin => ⟨rfl, (h.first hwithin).2⟩, h.stopped, h.joinable, by simp [KStatus.rank],
      by simp, by simp⟩
  | asking ending =>
    rw [ownerNext_asking howner]
    exact .inl ⟨hfailure, over_moves h trivial (by simp)⟩
  | halting ending =>
    rw [ownerNext_halting_gone howner h.hasLoop]
    exact .inl ⟨(afterStop_frame s ending).2.1.trans hfailure, over_afterStop h ending⟩
  | joining ending =>
    obtain ⟨hover, hsame, -⟩ := over_joining h howner hgo isOwner
    exact .inl ⟨hsame.trans hfailure, hover⟩

end Owner

section Step

theorem unborn_start (h : Unborn s) (hidle : s.owner = .idle) :
    s.start.failure = s.failure ∧ Unborn s.start := by
  obtain ⟨hthread, hloop, hjoinable, hrequested, hloopStatus, howner⟩ := h
  have hstatus : s.status = .initialized := by simpa [hidle] using howner
  rw [start_goesOn (by simp [hstatus, KStatus.rank])]
  exact ⟨rfl, hthread, hloop, hjoinable, hrequested, hloopStatus,
    .inl ⟨hstatus, .inr (.inl rfl)⟩⟩

theorem unborn_stop (h : Unborn s) (hidle : s.owner = .idle) (ending : Ending) :
    (s.stop ending).failure = s.failure ∧ Unborn (s.stop ending) := by
  have hstatus : s.status = .initialized := by simpa [hidle] using h.owner
  have hlow : s.status.rank < KStatus.starting.rank := by simp [hstatus, KStatus.rank]
  rcases stop_nothing (.inl hlow) ending with heq | heq
  · rw [heq]
    exact ⟨rfl, h⟩
  · rw [heq]
    exact ⟨rfl, h.thread, h.hasLoop, h.joinable, h.requested, h.loopStatus,
      .inl ⟨hstatus, .inr (.inr (.inl rfl))⟩⟩

/-- A loop that runs is not started again, and stopped when asked to. -/
theorem living_calls (h : Living s) (hidle : s.owner = .idle) (ending : Ending) :
    s.start = s ∧ s.stop ending = { s with owner := .marking ending } ∧
      Living { s with owner := .marking ending } := by
  obtain ⟨hloop, hjoinable, hplaces⟩ := h
  rw [hidle] at hplaces
  have hs : s.status = .started := hplaces.2.2.1
  exact ⟨start_busy (by simp [hs, KStatus.rank]) (by simp [hs, KStatus.rank]),
    stop_goesOn (by simp [hs, KStatus.rank]) (by simp [hs, KStatus.rank]) ending,
    hloop, hjoinable, hplaces⟩

theorem living_thread (h : Living s) (henabled : s.Enabled .thread) : Living s.threadNext := by
  obtain ⟨hloop, hjoinable, hplaces⟩ := h
  obtain ⟨hframe, hsame, hjoin, -⟩ := threadNext_frame s
  refine ⟨hsame.trans hloop, hjoin.trans hjoinable, ?_⟩
  rw [hframe]
  cases howner : s.owner with
  | starting | making | joining ending | gone =>
    rw [howner] at hplaces
    exact hplaces.elim
  | waiting =>
    rw [howner] at hplaces
    exact rising_thread hloop hplaces henabled
  | clearing ending =>
    rw [howner] at hplaces
    exact leaving_thread hplaces henabled
  | _ =>
    rw [howner] at hplaces
    exact running_thread hloop hplaces henabled

/-- A stop can be overlooked by the first thread only, and leaves the loop to be
cleared like any other. -/
theorem known_overlook (h : Known s) (henabled : s.Enabled .overlook) :
    Known (s.next .overlook) := by
  obtain ⟨-, ht, hloop, hrequested⟩ := henabled
  rcases h with h | h | h
  · have habsent := h.thread
    rw [ht] at habsent
    cases habsent
  · refine .inr (.inl ⟨hloop, h.joinable, ?_⟩)
    have hplaces := h.places
    change Places (s.next .overlook) s.owner
    cases howner : s.owner with
    | clearing ending =>
      rw [howner] at hplaces
      obtain ⟨-, hplace⟩ := hplaces
      simp only [ht, reduceCtorEq, or_false, true_and, false_and, or_self] at hplace
      exact ⟨hrequested, .inl ⟨.inr (.inl rfl), hplace⟩⟩
    | starting | making | joining ending | gone =>
      rw [howner] at hplaces
      exact hplaces.elim
    | _ =>
      rw [howner] at hplaces
      exact absurd (hrequested.symm.trans hplaces.1) (by decide)
  · have hgone := h.hasLoop
    rw [hloop] at hgone
    cases hgone

/-- The thread marks the loop as stopped before it says so. -/
theorem living_returned (h : Living s) (ht : s.thread = .returned) :
    s.loopStatus = .stopped := by
  have hplaces := h.places
  cases howner : s.owner with
  | starting | making | joining ending | gone =>
    rw [howner] at hplaces
    exact hplaces.elim
  | waiting =>
    rw [howner] at hplaces
    simp [Places, Rising, ht] at hplaces
  | clearing ending =>
    rw [howner] at hplaces
    simp only [Places, Leaving, ht] at hplaces
    have hplace : s.status = .stopping ∧ s.loopStatus = .stopped := by simpa using hplaces.2
    exact hplace.2
  | _ =>
    rw [howner] at hplaces
    simp [Places, Running, ht] at hplaces

/-- A thread of a loop that is gone has to finish before the next start. -/
theorem over_start (h : Over s) :
    s.start.failure = s.failure ∧ Over s.start := by
  by_cases halive : s.Alive
  · obtain ⟨hlow, hhigh⟩ := h.status halive
    rw [start_busy hlow hhigh]
    exact ⟨rfl, h⟩
  · have ht : s.thread = .finished := by
      by_contra hne
      exact halive ⟨h.thread.1, hne⟩
    unfold start
    split
    · exact ⟨rfl, h⟩
    · exact ⟨rfl, h.hasLoop, h.requested, trivial, h.thread, h.first, h.stopped, h.joinable,
        h.status, fun _ => ht, by simp⟩

theorem over_stop (h : Over s) (ending : Ending) :
    (s.stop ending).failure = s.failure ∧ Over (s.stop ending) := by
  by_cases hnothing : s.status.rank < KStatus.starting.rank ∨
      KStatus.stopping.rank ≤ s.status.rank
  · rcases stop_nothing hnothing ending with heq | heq
    · rw [heq]
      exact ⟨rfl, h⟩
    · rw [heq]
      exact ⟨rfl, over_moves h trivial (by simp)⟩
  · rw [stop_goesOn (by omega) (by omega)]
    exact ⟨rfl, over_moves h trivial (by simp)⟩

end Step

section Run

/-- The starts of a loop that is gone. -/
def restarts (s : EventLoopThread) : EventLoopThread.Action → List Unit
  | .start => if s.hasLoop then [] else [()]
  | _ => []

/-- A loop that is gone is gone for good, and only the owner makes failures of it. -/
theorem over_next (h : Over s) {a : EventLoopThread.Action} (henabled : s.Enabled a) :
    (s.next a).failure = none ∧ Over (s.next a) ∨ Terminates s (s.next a) := by
  cases a with
  | start =>
    obtain ⟨hsame, hover⟩ := over_start h
    exact .inl ⟨hsame.trans henabled.1, hover⟩
  | stop ending =>
    obtain ⟨hsame, hover⟩ := over_stop h ending
    exact .inl ⟨hsame.trans henabled.1, hover⟩
  | owner isOwner => exact over_owner h henabled.1 henabled.2 isOwner
  | thread =>
    have hreturned : s.thread = .returned → s.loopStatus = .stopped :=
      fun ht => h.stopped (by simp [Within, ht])
    exact .inl ⟨(threadNext_failure hreturned).trans henabled.1, over_thread h henabled⟩
  | overlook =>
    have hloop := henabled.2.2.1
    rw [h.hasLoop] at hloop
    cases hloop
  | callback => exact .inl ⟨henabled.1, h⟩

theorem known_next (h : Known s) {a : EventLoopThread.Action} (henabled : s.Enabled a) :
    (s.next a).failure = none ∧ Known (s.next a) ∨ Terminates s (s.next a) := by
  rcases h with h | h | h
  · left
    cases a with
    | start =>
      obtain ⟨hsame, hunborn⟩ := unborn_start h henabled.2
      exact ⟨hsame.trans henabled.1, .inl hunborn⟩
    | stop ending =>
      obtain ⟨hsame, hunborn⟩ := unborn_stop h henabled.2 ending
      exact ⟨hsame.trans henabled.1, .inl hunborn⟩
    | owner isOwner => exact unborn_owner h henabled.1 henabled.2 isOwner
    | thread => exact absurd h.thread henabled.2.1.1
    | overlook => exact ⟨henabled.1, known_overlook (.inl h) henabled⟩
    | callback => exact ⟨henabled.1, .inl h⟩
  · left
    cases a with
    | start =>
      rw [next, (living_calls h henabled.2 .returns).1]
      exact ⟨henabled.1, .inr (.inl h)⟩
    | stop ending =>
      obtain ⟨-, heq, hliving⟩ := living_calls h henabled.2 ending
      rw [next, heq]
      exact ⟨henabled.1, .inr (.inl hliving)⟩
    | owner isOwner => exact living_owner h henabled.1 henabled.2 isOwner
    | thread =>
      exact ⟨(threadNext_failure (living_returned h)).trans henabled.1,
        .inr (.inl (living_thread h henabled))⟩
    | overlook => exact ⟨henabled.1, known_overlook (.inr (.inl h)) henabled⟩
    | callback => exact ⟨henabled.1, .inr (.inl h)⟩
  · rcases over_next h henabled with ⟨hfailure, hover⟩ | hterminate
    · exact .inl ⟨hfailure, .inr (.inr hover)⟩
    · exact .inr hterminate

/-- The owner is on its way to make a thread. -/
def Starts (owner : OwnerStage) : Prop := owner = .starting ∨ owner = .making

theorem afterStop_starts (s : EventLoopThread) (ending : Ending) :
    ¬ Starts (s.afterStop ending).owner := by
  rcases afterStop_owner s ending with heq | ⟨joined, heq⟩ <;> simp [Starts, heq]

/-- Only a start leads there. -/
theorem ownerNext_starts (h : ¬ Starts s.owner) (isOwner : Bool) :
    ¬ Starts (s.ownerNext isOwner).owner := by
  unfold ownerNext
  cases howner : s.owner with
  | starting => exact absurd (.inl howner) h
  | making => exact absurd (.inr howner) h
  | waiting =>
    dsimp only
    split
    · exact h
    · simp [Starts]
  | halting ending | comparing ending =>
    dsimp only
    split <;> first | exact afterStop_starts _ _ | simp [Starts]
  | clearing ending => exact afterStop_starts _ _
  | joining ending =>
    dsimp only
    split <;> simp [Starts]
  | idle | gone => exact h
  | marking ending | asking ending | loopMarking ending | loopStopping ending => simp [Starts]

theorem ownerNext_hasLoop (h : Starts s.owner) (isOwner : Bool) :
    (s.ownerNext isOwner).hasLoop = s.hasLoop := by
  rcases h with howner | howner
  · simp [ownerNext, howner]
  · simp only [ownerNext, howner]
    split <;> rfl

/-- An owner on its way to make a thread has begun with the loop as it is now. -/
theorem starts_of_next {a : EventLoopThread.Action} (henabled : s.Enabled a) (hstart : a ≠ .start)
    (hstarts : Starts (s.next a).owner) : Starts s.owner ∧ (s.next a).hasLoop = s.hasLoop := by
  cases a with
  | start => exact absurd rfl hstart
  | stop ending =>
    have hidle := henabled.2
    simp only [next, stop] at hstarts
    split at hstarts
    · split at hstarts
      · exact absurd hstarts (afterStop_starts _ _)
      · simp [Starts, hidle] at hstarts
    · simp [Starts] at hstarts
  | owner isOwner =>
    have howner : Starts s.owner := by
      by_contra hno
      exact ownerNext_starts hno isOwner hstarts
    exact ⟨howner, ownerNext_hasLoop howner isOwner⟩
  | thread =>
    obtain ⟨hframe, hloop, -⟩ := threadNext_frame s
    rw [next, hframe] at hstarts
    exact ⟨hstarts, hloop⟩
  | overlook | callback => exact ⟨hstarts, rfl⟩

/-- The invariant of a run, with the starts so far of a loop that was gone. -/
def Sound (begun : List Unit) (s : EventLoopThread) : Prop :=
  s.failure = none ∧ Known s ∧ (s.hasLoop = false → Starts s.owner → begun ≠ []) ∨
    s.failure = some .terminate ∧ ¬ s.Alive ∧ begun ≠ []

theorem failure_of_enabled {a : EventLoopThread.Action} (henabled : s.Enabled a) :
    s.failure = none := by
  cases a <;> exact henabled.1

theorem sound_next {begun : List Unit} {a : EventLoopThread.Action} (henabled : s.Enabled a)
    (h : Sound begun s) : Sound (begun ++ restarts s a) (s.next a) := by
  have hfailure := failure_of_enabled henabled
  rcases h with ⟨-, hknown, hbegun⟩ | ⟨hterminate, -⟩
  · rcases known_next hknown henabled with ⟨hnone, hnext⟩ | ⟨hgone, howner, hterminate, hdead⟩
    · refine .inl ⟨hnone, hnext, fun hgone hstarts => ?_⟩
      by_cases hstart : a = .start
      · subst hstart
        have hloop : s.hasLoop = false := (start_frame s).2.symm.trans hgone
        simp [restarts, hloop]
      · obtain ⟨howner, hsame⟩ := starts_of_next henabled hstart hstarts
        exact List.append_ne_nil_of_left_ne_nil (hbegun (hsame.symm.trans hgone) howner) _
    · exact .inr ⟨hterminate, hdead,
        List.append_ne_nil_of_left_ne_nil (hbegun hgone (.inr howner)) _⟩
  · rw [hfailure] at hterminate
    cases hterminate

theorem sound_fresh : Sound [] fresh :=
  .inl ⟨rfl, .inl ⟨rfl, rfl, rfl, rfl, rfl, .inl ⟨rfl, .inl rfl⟩⟩, fun hgone => by cases hgone⟩

theorem sound_run {t : EventLoopThread} {actions : List EventLoopThread.Action}
    (hrun : Run system (fun _ _ => True) fresh actions t) :
    Sound (trace system restarts fresh actions) t :=
  hrun.accumulate Sound (fun _ _ _ henabled _ h => sound_next henabled h) sound_fresh

theorem Sound.known {begun : List Unit} (h : Sound begun s) (hfailure : s.failure = none) :
    Known s := by
  rcases h with ⟨-, hknown, -⟩ | ⟨hterminate, -⟩
  · exact hknown
  · rw [hfailure] at hterminate
    cases hterminate

/-- Where a thread is made or the object is gone, none runs. -/
theorem not_alive_of_known (h : Known s) (howner : s.owner = .making ∨ s.owner = .gone) :
    ¬ s.Alive := by
  rcases h with h | h | h
  · exact fun halive => halive.1 h.thread
  · have hplaces := h.places
    rcases howner with howner | howner
    all_goals
      rw [howner] at hplaces
      exact hplaces.elim
  · have ht := h.alone (.inr howner)
    exact fun halive => halive.2 ht

end Run

/-- **One thread, one loop.** In every order of starts, stops and the destructor, and
of the steps of the two threads: the assertion of the thread holds, a thread is made
only when none runs, and none runs when the object is gone. The process is ended by
nothing but a start of a loop that was stopped. -/
theorem loop_thread_safe {t : EventLoopThread} {actions : List EventLoopThread.Action}
    (hrun : Run system (fun _ _ => True) fresh actions t) :
    t.failure ≠ some .assertion ∧ (t.owner = .making ∨ t.owner = .gone → ¬ t.Alive) ∧
      (t.failure = some .terminate →
        trace system restarts fresh actions ≠ []) := by
  rcases sound_run hrun with ⟨hnone, hknown, -⟩ | ⟨hterminate, hdead, hbegun⟩
  · exact ⟨by simp [hnone], not_alive_of_known hknown, by simp [hnone]⟩
  · exact ⟨by simp [hterminate], fun _ => hdead, fun _ => hbegun⟩

def ownerSteps (n : Nat) : List EventLoopThread.Action := List.replicate n (.owner false)

def threadSteps (n : Nat) : List EventLoopThread.Action := List.replicate n .thread

/-- A loop is started, stopped and started again, twice. -/
def restarted : List EventLoopThread.Action :=
  [[.start], ownerSteps 2, threadSteps 5, ownerSteps 1, [.callback, .stop .joins], ownerSteps 6,
    threadSteps 4, ownerSteps 2, [.start], ownerSteps 2, threadSteps 4, ownerSteps 1, [.start],
    ownerSteps 2].flatten

theorem loop_thread_safe_restarted :
    ∃ t, Run system (fun _ _ => True) fresh restarted t ∧
      t.failure = some .terminate ∧
      trace system restarts fresh restarted ≠ [] := by
  let ended : EventLoopThread :=
    ⟨.making, .finished, .starting, true, .stopped, false, true, false, some .terminate⟩
  have hrun : Run system (fun _ _ => True) fresh restarted ended :=
    .of_check (by decide +kernel)
  exact ⟨ended, hrun, rfl, (loop_thread_safe hrun).2.2 rfl⟩

end AdbClient.Guarantees.LoopLifetime
