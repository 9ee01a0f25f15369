import AdbClient.Source.EventLoop

/-!
# EventLoop.h, EventLoopThread.h: the life of the loop's thread

`TcpClient` starts its loop with the first call, may be told to stop it, and stops
it again when it is destroyed. Its owner calls `start(true, pre)`, `stop` and at last
the destructor, one after the other and in any order; each read or write of a shared member
is a step of the owner or of the loop's thread, but the two reads of one condition
are one. Of the event library it is assumed that `hloop_run` comes back after a
`hloop_stop` that finds it running, and not before one, unless there is no loop.
Whether it heeds a `hloop_stop` called before it is left open, and so is which thread
the library takes for the loop's. What is queued on the loop is in `EventLoop.lean`.
-/
namespace AdbClient.Source
open Support.Transition

/-- What follows `loop_->stop()`: `stop(false)` returns, `stop(true)` joins, and so
does `~EventLoopThread`, after which there is no object. -/
inductive Ending where
  | returns | joins | destroys
  deriving DecidableEq, Repr

/-- Where the owner stands; it is `gone` with the object. -/
inductive OwnerStage where
  | idle
  | starting | making | waiting
  | marking (ending : Ending)
  | asking (ending : Ending)
  | halting (ending : Ending)
  | comparing (ending : Ending)
  | loopMarking (ending : Ending)
  | loopStopping (ending : Ending)
  | clearing (ending : Ending)
  | joining (ending : Ending)
  | gone
  deriving DecidableEq, Repr

/-- Where the thread stands in `loop_thread` and in `run`; it is `inside` while
`hloop_run` calls back. -/
inductive ThreadStage where
  | absent | spawned | started | checking | entered | calling | inside | left | returned
  | ending | finished
  deriving DecidableEq, Repr

/-- `assert(loop_->isStopped())`, and `std::terminate` by the destructor of a
`std::thread` that was never joined. -/
inductive Failure where
  | assertion | terminate
  deriving DecidableEq, Repr

/-- `hasLoop` says that `loop_` of the `EventLoop` is not null, `joinable` that
`thread_` holds a thread to join, `requested` that `hloop_stop` was called, and `lost`
that `hloop_run` began afterwards and knows nothing of it. -/
structure EventLoopThread where
  owner : OwnerStage
  thread : ThreadStage
  status : KStatus
  joinable : Bool
  loopStatus : KStatus
  hasLoop : Bool
  requested : Bool
  lost : Bool
  failure : Option Failure
  deriving DecidableEq, Repr

namespace EventLoopThread

/-- `owner` and `thread` go on with what each is doing; `isOwner` is what the owner
gets for `hv_gettid() == loop_tid`. A `hloop_run` that begins after `hloop_stop` may
`overlook` it. -/
inductive Action where
  | start
  | stop (ending : Ending)
  | owner (isOwner : Bool)
  | thread
  | overlook
  | callback
  deriving DecidableEq, Repr

/-- The thread has been made and has not finished. -/
def Alive (s : EventLoopThread) : Prop := s.thread ≠ .absent ∧ s.thread ≠ .finished

instance (s : EventLoopThread) : Decidable s.Alive := inferInstanceAs (Decidable (_ ∧ _))

/-- `thread_->join()` waits for a thread that has not finished. -/
def Joined (s : EventLoopThread) : Prop := s.joinable → s.thread = .finished

instance (s : EventLoopThread) : Decidable s.Joined := inferInstanceAs (Decidable (_ → _))

/-- The owner is in the middle of a call and does not wait for the thread there. -/
def MayGoOn (s : EventLoopThread) : Prop :=
  match s.owner with
  | .idle | .gone => False
  | .joining _ => s.Joined
  | _ => True

instance (s : EventLoopThread) : Decidable s.MayGoOn :=
  match h : s.owner with
  | .idle | .gone => isFalse (by simp [MayGoOn, h])
  | .joining _ => decidable_of_iff s.Joined (by simp [MayGoOn, h])
  | .starting | .making | .waiting | .marking _ | .asking _ | .halting _ | .comparing _
  | .loopMarking _ | .loopStopping _ | .clearing _ => isTrue (by simp [MayGoOn, h])

/-- A failure ends the process. -/
def Enabled (s : EventLoopThread) : Action → Prop
  | .start | .stop _ => s.failure = none ∧ s.owner = .idle
  | .owner _ => s.failure = none ∧ s.MayGoOn
  | .thread =>
      s.failure = none ∧ s.Alive ∧ (s.thread = .inside → s.requested = true ∧ s.lost = false)
  | .overlook =>
      s.failure = none ∧ s.thread = .calling ∧ s.hasLoop = true ∧ s.requested = true
  | .callback => s.failure = none ∧ s.thread = .inside

instance (s : EventLoopThread) : (a : Action) → Decidable (s.Enabled a)
  | .start | .stop _ => inferInstanceAs (Decidable (_ = none ∧ _ = OwnerStage.idle))
  | .owner _ => inferInstanceAs (Decidable (_ = none ∧ _))
  | .thread => inferInstanceAs (Decidable (_ = none ∧ _ ∧ (_ → _ ∧ _)))
  | .overlook => inferInstanceAs (Decidable (_ = none ∧ _ = ThreadStage.calling ∧ _ ∧ _))
  | .callback => inferInstanceAs (Decidable (_ = none ∧ _ = ThreadStage.inside))

/-- `EventLoopThread::start` goes on unless the thread is starting or runs. -/
def start (s : EventLoopThread) : EventLoopThread :=
  if KStatus.starting.rank ≤ s.status.rank ∧ s.status.rank < KStatus.stopped.rank then s
  else { s with owner := .starting }

/-- What is left to do when the loop has been stopped. -/
def afterStop (s : EventLoopThread) : Ending → EventLoopThread
  | .returns => { s with owner := .idle }
  | .joins => { s with owner := .joining .joins }
  | .destroys => { s with owner := .joining .destroys }

/-- `EventLoopThread::stop` has nothing to stop before a start and after a stop.
`~EventLoopThread` joins in any case. -/
def stop (s : EventLoopThread) (ending : Ending) : EventLoopThread :=
  if s.status.rank < KStatus.starting.rank ∨ KStatus.stopping.rank ≤ s.status.rank then
    if ending = .destroys then s.afterStop .destroys else s
  else { s with owner := .marking ending }

/-- `EventLoop::tid` without a loop is the thread that asks. Who gets its own does
not join in `stop`. -/
def afterTid (s : EventLoopThread) (isOwner : Bool) (ending : Ending) : Ending :=
  if ending = .joins ∧ (isOwner ∨ ¬ s.hasLoop) then .returns else ending

def ownerNext (s : EventLoopThread) (isOwner : Bool) : EventLoopThread :=
  match s.owner with
  | .idle | .gone => s
  | .starting => { s with status := .starting, owner := .making }
  | .making =>
      if s.joinable then { s with failure := some .terminate }
      else { s with thread := .spawned, joinable := true, owner := .waiting }
  | .waiting =>
      if s.loopStatus.rank < KStatus.running.rank then s else { s with owner := .idle }
  | .marking ending => { s with status := .stopping, owner := .asking ending }
  | .asking ending => { s with owner := .halting (s.afterTid isOwner ending) }
  | .halting ending =>
      if s.hasLoop then { s with owner := .comparing ending } else s.afterStop ending
  | .comparing ending =>
      if s.loopStatus.rank < KStatus.running.rank then
        { s with hasLoop := false }.afterStop ending
      else { s with owner := .loopMarking ending }
  | .loopMarking ending => { s with loopStatus := .stopping, owner := .loopStopping ending }
  | .loopStopping ending => { s with requested := true, owner := .clearing ending }
  | .clearing ending => { s with hasLoop := false }.afterStop ending
  | .joining ending =>
      { s with joinable := false, owner := if ending = .destroys then .gone else .idle }

def threadNext (s : EventLoopThread) : EventLoopThread :=
  match s.thread with
  | .absent | .finished => s
  | .spawned => { s with status := .started, thread := .started }
  | .started => { s with thread := if s.hasLoop then .checking else .returned }
  | .checking => { s with thread := if s.loopStatus = .running then .returned else .entered }
  | .entered => { s with loopStatus := .running, thread := .calling }
  | .calling => { s with thread := if s.hasLoop then .inside else .left }
  | .inside => { s with thread := .left }
  | .left => { s with loopStatus := .stopped, thread := .returned }
  | .returned =>
      if s.loopStatus = .stopped then { s with thread := .ending }
      else { s with failure := some .assertion }
  | .ending => { s with status := .stopped, thread := .finished }

def next (s : EventLoopThread) : Action → EventLoopThread
  | .start => s.start
  | .stop ending => s.stop ending
  | .owner isOwner => s.ownerNext isOwner
  | .thread => s.threadNext
  | .overlook => { s with thread := .inside, lost := true }
  | .callback => s

def system : System EventLoopThread Action := ⟨Enabled, next⟩

instance (s : EventLoopThread) (a : Action) : Decidable (system.Enabled s a) :=
  inferInstanceAs (Decidable (s.Enabled a))

theorem afterStop_frame (s : EventLoopThread) (ending : Ending) :
    (s.afterStop ending).thread = s.thread ∧ (s.afterStop ending).failure = s.failure ∧
      (s.afterStop ending).hasLoop = s.hasLoop := by
  cases ending <;> exact ⟨rfl, rfl, rfl⟩

/-- A start that begins leaves the thread and the loop alone. -/
theorem start_frame (s : EventLoopThread) :
    s.start.thread = s.thread ∧ s.start.hasLoop = s.hasLoop := by
  unfold start
  split <;> exact ⟨rfl, rfl⟩

/-- So does a stop. -/
theorem stop_frame (s : EventLoopThread) (ending : Ending) :
    (s.stop ending).thread = s.thread ∧ (s.stop ending).hasLoop = s.hasLoop := by
  unfold stop
  split
  · split <;> exact ⟨rfl, rfl⟩
  · exact ⟨rfl, rfl⟩

section Owner
variable {s : EventLoopThread} {isOwner : Bool} {ending : Ending}

theorem ownerNext_starting (h : s.owner = .starting) :
    s.ownerNext isOwner = { s with status := .starting, owner := .making } := by
  simp [ownerNext, h]

/-- A thread is made where there is none to join. -/
theorem ownerNext_making (h : s.owner = .making) (hjoinable : s.joinable = false) :
    s.ownerNext isOwner =
      { s with thread := .spawned, joinable := true, owner := .waiting } := by
  simp [ownerNext, h, hjoinable]

theorem ownerNext_waiting (h : s.owner = .waiting)
    (hrank : KStatus.running.rank ≤ s.loopStatus.rank) :
    s.ownerNext isOwner = { s with owner := .idle } := by
  simp [ownerNext, h, Nat.not_lt.mpr hrank]

/-- The start waits for the loop to run. -/
theorem ownerNext_delay (h : s.owner = .waiting)
    (hrank : s.loopStatus.rank < KStatus.running.rank) : s.ownerNext isOwner = s := by
  simp [ownerNext, h, hrank]

theorem ownerNext_marking (h : s.owner = .marking ending) :
    s.ownerNext isOwner = { s with status := .stopping, owner := .asking ending } := by
  simp [ownerNext, h]

theorem ownerNext_asking (h : s.owner = .asking ending) :
    s.ownerNext isOwner = { s with owner := .halting (s.afterTid isOwner ending) } := by
  simp [ownerNext, h]

theorem ownerNext_halting (h : s.owner = .halting ending) (hloop : s.hasLoop = true) :
    s.ownerNext isOwner = { s with owner := .comparing ending } := by
  simp [ownerNext, h, hloop]

theorem ownerNext_halting_gone (h : s.owner = .halting ending) (hloop : s.hasLoop = false) :
    s.ownerNext isOwner = s.afterStop ending := by
  simp [ownerNext, h, hloop]

theorem ownerNext_comparing (h : s.owner = .comparing ending)
    (hrank : KStatus.running.rank ≤ s.loopStatus.rank) :
    s.ownerNext isOwner = { s with owner := .loopMarking ending } := by
  simp [ownerNext, h, Nat.not_lt.mpr hrank]

theorem ownerNext_loopMarking (h : s.owner = .loopMarking ending) :
    s.ownerNext isOwner =
      { s with loopStatus := .stopping, owner := .loopStopping ending } := by
  simp [ownerNext, h]

theorem ownerNext_loopStopping (h : s.owner = .loopStopping ending) :
    s.ownerNext isOwner = { s with requested := true, owner := .clearing ending } := by
  simp [ownerNext, h]

theorem ownerNext_clearing (h : s.owner = .clearing ending) :
    s.ownerNext isOwner = { s with hasLoop := false }.afterStop ending := by
  simp [ownerNext, h]

theorem ownerNext_joining (h : s.owner = .joining ending) :
    s.ownerNext isOwner =
      { s with joinable := false, owner := if ending = .destroys then .gone else .idle } := by
  simp [ownerNext, h]

end Owner

/-- As the constructors leave it. -/
def fresh : EventLoopThread where
  owner := .idle
  thread := .absent
  status := .initialized
  joinable := false
  loopStatus := .initialized
  hasLoop := true
  requested := false
  lost := false
  failure := none

end EventLoopThread
end AdbClient.Source
