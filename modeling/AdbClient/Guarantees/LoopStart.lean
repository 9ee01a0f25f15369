import AdbClient.Guarantees.CallReturns
import AdbClient.Source.EventLoop

/-!
# The loop that the first call starts

The first `m_tcp_client.start()` makes the thread of the loop and waits for it,
the later ones queue a functor. Seen from the object there is no difference: every
run of the two threads, the start of the loop included, is matched by a run of
`CommandLoop`, where each start is a count. On the way no functor is taken off an
empty queue, although a functor is pushed before its event is posted, and the
thread is made once.
-/
namespace AdbClient.Guarantees.LoopStart
open Source Support.Transition WakeUp CallReturns LoopedObject

/-- Both statuses, as the thread of the loop sets them. -/
def statuses : LoopThread → KStatus × KStatus
  | .absent => (.initialized, .initialized)
  | .spawned => (.starting, .initialized)
  | .started | .posting | .ready => (.started, .initialized)
  | .running | .left => (.started, .running)

/-- Where the two threads can be at the same time: the calling thread waits for the
other until that runs the loop. -/
def Together : Starting → LoopThread → Prop
  | .entered, thread => thread = .absent ∨ thread = .running
  | .queueing, thread | .posting, thread => thread = .running
  | .spawning, thread => thread = .absent
  | .waiting, thread => thread ≠ .absent ∧ thread ≠ .left

/-- The calling thread has not come back from a start yet. -/
def BeforeReturn (phase : Phase) : Prop :=
  phase = .idle ∨ phase = .armed ∨ phase = .cleared ∨ phase = .started

/-- The functors whose events have still to be posted. -/
def unposted (s : LoopedObject) : Nat :=
  (if s.starting = .posting then 1 else 0) + (if s.thread = .posting then 1 else 0)

/-- The invariant: every functor on the queue has its event posted or about to be,
and the two threads stand where the statuses say. -/
structure Wired (s : LoopedObject) : Prop where
  accounts : s.loop.posted + unposted s = s.loop.customEvents.length
  status : (s.threadStatus, s.loop.status) = statuses s.thread
  places : Together s.starting s.thread
  inside : s.starting ≠ .entered → s.object.phase = .started
  taking : s.taken ≠ none → s.thread = .running ∧ s.object.duty = .free
  quiet : s.thread ≠ .running → s.object.duty = .free
  first : s.thread = .absent → BeforeReturn s.object.phase

/-- The start that is under way has its functor on the queue. -/
def Pushed (s : LoopedObject) : Prop :=
  s.starting = .posting ∨ s.starting = .waiting ∧ s.thread ≠ .spawned ∧ s.thread ≠ .started

instance (s : LoopedObject) : Decidable (Pushed s) := inferInstanceAs (Decidable (_ ∨ _ ∧ _))

def pending (s : LoopedObject) : Nat := s.loop.customEvents.length + s.taken.toList.length

/-- The object as `CommandLoop` has it. -/
def toObject (s : LoopedObject) : CommandObject :=
  { s.object with
    queued := pending s
    phase := if Pushed s then .testing else s.object.phase }

/-- The steps that `CommandLoop` has. -/
def shows (_ : LoopedObject) : LoopedObject.Action → List Source.Action
  | .step a => [a]
  | .push | .pushPre => [.start]
  | .runTaken created => [.runQueued created]
  | _ => []

section Branches
variable {s : LoopedObject}

theorem loop_status (h : Wired s) : s.loop.status = (statuses s.thread).2 :=
  congrArg Prod.snd h.status

theorem thread_status (h : Wired s) : s.threadStatus = (statuses s.thread).1 :=
  congrArg Prod.fst h.status

theorem places_eq (h : Wired s) {starting : Starting} (hs : s.starting = starting) :
    Together starting s.thread := hs ▸ h.places

/-- A thread on its way to the loop is waited for. -/
theorem waiting_of_onTheWay (h : Wired s) (habsent : s.thread ≠ .absent)
    (hrunning : s.thread ≠ .running) : s.starting = .waiting := by
  have hplaces := h.places
  cases hs : s.starting with
  | waiting => rfl
  | entered =>
    rw [hs] at hplaces
    exact absurd hplaces (not_or.mpr ⟨habsent, hrunning⟩)
  | spawning => exact absurd (places_eq h hs) habsent
  | queueing | posting => exact absurd (places_eq h hs) hrunning

/-- `isRunning()` tells a first start from a later one. -/
theorem next_isRunning (h : Wired s) (hentered : s.starting = .entered) :
    s.thread = .absent ∧ s.next .isRunning = { s with starting := .spawning } ∨
      s.thread = .running ∧ s.next .isRunning = { s with starting := .queueing } := by
  have hstatus := loop_status h
  rcases places_eq h hentered with hthread | hthread
  · left
    rw [hthread] at hstatus
    exact ⟨hthread, by simp [next, hstatus, statuses]⟩
  · right
    rw [hthread] at hstatus
    exact ⟨hthread, by simp [next, hstatus, statuses]⟩

/-- The thread is made. -/
theorem next_spawn (h : Wired s) (hspawning : s.starting = .spawning) :
    s.next .spawn =
      { s with threadStatus := .starting, thread := .spawned, starting := .waiting } := by
  have hthread : s.thread = .absent := places_eq h hspawning
  have hstatus := thread_status h
  rw [hthread] at hstatus
  simp [next, spawn, hstatus, statuses, KStatus.rank]

/-- The loop runs for the first time. -/
theorem next_run (h : Wired s) (hready : s.thread = .ready) :
    s.next .run = { s with loop := { s.loop with status := .running }, thread := .running } := by
  have hstatus := loop_status h
  rw [hready] at hstatus
  simp [next, run, hstatus, statuses]

/-- The calling thread waits until the loop runs. -/
theorem running_of_proceed (h : Wired s) (henabled : s.Enabled .proceed) :
    s.thread = .running := by
  obtain ⟨hwaiting, hrank⟩ := henabled
  have hplaces := places_eq h hwaiting
  rw [loop_status h] at hrank
  cases hthread : s.thread with
  | running => rfl
  | absent => exact absurd hthread hplaces.1
  | left => exact absurd hthread hplaces.2
  | spawned | started | posting | ready =>
    rw [hthread] at hrank
    exact absurd hrank (by decide)

/-- An event is never posted before its functor is pushed, so none is handed to
`onCustomEvent` on an empty queue. -/
theorem next_pop (h : Wired s) (henabled : s.Enabled .pop) :
    ∃ f rest, s.loop.customEvents = f :: rest ∧
      s.next .pop =
        { s with
          loop := { s.loop with customEvents := rest, posted := s.loop.posted - 1 }
          taken := some f } := by
  obtain ⟨-, -, hposted⟩ := henabled
  have haccounts := h.accounts
  cases hqueue : s.loop.customEvents with
  | nil =>
    rw [hqueue, List.length_nil] at haccounts
    omega
  | cons f rest => exact ⟨f, rest, rfl, by simp only [next, EventLoop.pop, hqueue]⟩

end Branches

section Invariant
variable {s : LoopedObject}

theorem wired_fresh (h : s.Fresh) : Wired s := by
  obtain ⟨hobject, hstarting, hthread, hstatus, hloop, htaken⟩ := h
  have hphase : s.object.phase = .idle := hobject.2.2.1
  have hduty : s.object.duty = .free := hobject.2.2.2.2.2.1
  refine ⟨?_, ?_, ?_, fun hne => absurd hstarting hne, fun hne => absurd htaken hne,
    fun _ => hduty, fun _ => .inl hphase⟩
  · simp [unposted, hstarting, hthread, hloop]
  · simp [statuses, hthread, hstatus, hloop]
  · rw [hstarting, hthread]
    exact .inl rfl

/-- A step outside the start leaves the start under way. -/
theorem phase_next {o : CommandObject} {a : Source.Action} (houtside : Outside a)
    (henabled : o.Enabled a) (hphase : o.phase = .started) : (o.next a).phase = .started := by
  cases a with
  | start | runQueued created => exact houtside.elim
  | setCommand c | clearFinished | startConnect created | test | wakeSpuriously | leave =>
    have hother : o.phase = _ := henabled
    rw [hphase] at hother
    cases hother
  | connect => exact (onConnection_frame _).2.1.trans hphase
  | message bytes =>
    rw [CommandObject.next_message, onMessage_frame]
    exact hphase
  | close => exact hphase
  | closeCallback => exact (onConnection_frame o).2.1.trans hphase
  | notifyAll => simp [CommandObject.next, hphase]

/-- The calling thread by itself does nothing to the loop's duty, and only comes back
from a start by a step of the start. -/
theorem calling_next {o : CommandObject} {a : Source.Action} (houtside : Outside a)
    (henabled : o.Enabled a) (hcalling : ¬ CommandObject.OnLoop a) :
    (o.next a).duty = o.duty ∧ (BeforeReturn o.phase → BeforeReturn (o.next a).phase) := by
  cases a with
  | start | runQueued created => exact houtside.elim
  | connect | message bytes | close | closeCallback | notifyAll => exact absurd trivial hcalling
  | setCommand c => exact ⟨rfl, fun _ => .inr (.inl rfl)⟩
  | clearFinished => exact ⟨rfl, fun _ => .inr (.inr (.inl rfl))⟩
  | startConnect created => exact ⟨rfl, fun _ => .inr (.inr (.inr rfl))⟩
  | leave => exact ⟨rfl, fun _ => .inl rfl⟩
  | test | wakeSpuriously =>
    have hphase : o.phase = _ := henabled
    refine ⟨rfl, ?_⟩
    intro hbefore
    rw [hphase] at hbefore
    simp [BeforeReturn] at hbefore

theorem wired_step {a : Source.Action} (henabled : s.Enabled (.step a)) (h : Wired s) :
    Wired (s.next (.step a)) := by
  obtain ⟨houtside, hloop, hobject⟩ := henabled
  have hcalling : s.thread ≠ .running → ¬ CommandObject.OnLoop a :=
    fun hne honloop => hne (hloop honloop).1
  refine ⟨h.accounts, h.status, h.places, ?_, ?_, ?_, ?_⟩
  · intro hne
    exact phase_next houtside hobject (h.inside hne)
  · intro hne
    obtain ⟨hthread, hduty⟩ := h.taking hne
    have hidle : ¬ CommandObject.OnLoop a := fun honloop => hne (hloop honloop).2
    exact ⟨hthread, (calling_next houtside hobject hidle).1.trans hduty⟩
  · intro hne
    exact (calling_next houtside hobject (hcalling hne)).1.trans (h.quiet hne)
  · intro habsent
    have hthread : s.thread = .absent := habsent
    have hne : s.thread ≠ .running := by
      rw [hthread]
      decide
    exact (calling_next houtside hobject (hcalling hne)).2 (h.first hthread)

/-- The thread of the loop goes one place further on its way. -/
theorem wired_onTheWay (h : Wired s) (thread : LoopThread) (status : KStatus) (loop : EventLoop)
    (hway : s.thread ≠ .absent ∧ s.thread ≠ .running)
    (hto : thread ≠ .absent ∧ thread ≠ .left)
    (hstatus : (status, loop.status) = statuses thread)
    (haccounts : loop.posted + (if thread = .posting then 1 else 0) = loop.customEvents.length) :
    Wired { s with threadStatus := status, thread := thread, loop := loop } := by
  have hwaiting := waiting_of_onTheWay h hway.1 hway.2
  refine ⟨?_, hstatus, ?_, h.inside, fun hne => absurd (h.taking hne).1 hway.2,
    fun _ => h.quiet hway.2, fun habsent => absurd habsent hto.1⟩
  · simpa [unposted, hwaiting] using haccounts
  · rw [show Together s.starting = Together .waiting by rw [hwaiting]]
    exact hto

/-- `m_tcp_client.start()` comes back on a loop that runs. -/
theorem wired_returnFromStart (h : Wired s) (loop : EventLoop) (hthread : s.thread = .running)
    (hstatus : loop.status = s.loop.status)
    (haccounts : loop.posted = loop.customEvents.length) :
    Wired { s with loop := loop }.returnFromStart := by
  refine ⟨?_, ?_, .inr hthread, fun hne => absurd rfl hne, h.taking,
    fun hne => absurd hthread hne, ?_⟩
  · simpa [unposted, returnFromStart, hthread] using haccounts
  · have hstatuses := h.status
    rw [← hstatus] at hstatuses
    exact hstatuses
  · intro habsent
    rw [show s.thread = .absent from habsent] at hthread
    cases hthread

theorem wired_next {a : LoopedObject.Action} (henabled : s.Enabled a) (h : Wired s) :
    Wired (s.next a) := by
  cases a with
  | step a => exact wired_step henabled h
  | delay => exact h
  | isRunning =>
    obtain ⟨hphase, hentered⟩ := henabled
    have haccounts := h.accounts
    rcases next_isRunning h hentered with ⟨hthread, heq⟩ | ⟨hthread, heq⟩
    · rw [heq]
      refine ⟨?_, h.status, hthread, fun _ => hphase, h.taking, h.quiet, h.first⟩
      simpa [unposted, hentered] using haccounts
    · rw [heq]
      refine ⟨?_, h.status, hthread, fun _ => hphase, h.taking, h.quiet, h.first⟩
      simpa [unposted, hentered] using haccounts
  | push =>
    have hqueueing : s.starting = .queueing := henabled
    have hthread : s.thread = .running := places_eq h hqueueing
    have haccounts := h.accounts
    refine ⟨?_, h.status, hthread, fun _ => h.inside (by simp [hqueueing]), h.taking,
      h.quiet, h.first⟩
    simp only [unposted, hqueueing, hthread, next, EventLoop.push, List.length_append,
      List.length_singleton] at haccounts ⊢
    simp only [reduceCtorEq, if_false, if_true] at haccounts ⊢
    omega
  | post =>
    have hposting : s.starting = .posting := henabled
    have hthread : s.thread = .running := places_eq h hposting
    have haccounts := h.accounts
    apply wired_returnFromStart h s.loop.post hthread rfl
    simpa [unposted, hposting, hthread, EventLoop.post] using haccounts
  | spawn =>
    have hspawning : s.starting = .spawning := henabled
    have hthread : s.thread = .absent := places_eq h hspawning
    have haccounts := h.accounts
    have hstatus := loop_status h
    rw [hthread] at hstatus
    rw [next_spawn h hspawning]
    refine ⟨?_, ?_, ⟨by simp, by simp⟩, fun _ => h.inside (by simp [hspawning]), fun hne => ?_,
      fun _ => h.quiet (by simp [hthread]), fun habsent => ?_⟩
    · simpa [unposted, hspawning, hthread] using haccounts
    · simp [statuses, hstatus]
    · exact absurd (h.taking hne).1 (by simp [hthread])
    · cases habsent
  | proceed =>
    have hwaiting : s.starting = .waiting := henabled.1
    have hthread := running_of_proceed h henabled
    have haccounts := h.accounts
    apply wired_returnFromStart h s.loop hthread rfl
    simpa [unposted, hwaiting, hthread] using haccounts
  | setStarted =>
    have hthread : s.thread = .spawned := henabled
    have haccounts := h.accounts
    have hstatus := loop_status h
    have hwaiting := waiting_of_onTheWay h (by simp [hthread]) (by simp [hthread])
    rw [hthread] at hstatus
    apply wired_onTheWay h .started .started s.loop (by simp [hthread]) (by simp)
    · simp [statuses, hstatus]
    · simpa [unposted, hthread, hwaiting] using haccounts
  | pushPre =>
    have hthread : s.thread = .started := henabled
    have haccounts := h.accounts
    have hstatus := h.status
    have hwaiting := waiting_of_onTheWay h (by simp [hthread]) (by simp [hthread])
    rw [hthread] at hstatus
    apply wired_onTheWay h .posting s.threadStatus (s.loop.push .pre) (by simp [hthread]) (by simp)
      hstatus
    simpa [unposted, hthread, hwaiting, EventLoop.push] using haccounts
  | postPre =>
    have hthread : s.thread = .posting := henabled
    have haccounts := h.accounts
    have hstatus := h.status
    have hwaiting := waiting_of_onTheWay h (by simp [hthread]) (by simp [hthread])
    rw [hthread] at hstatus
    apply wired_onTheWay h .ready s.threadStatus s.loop.post (by simp [hthread]) (by simp) hstatus
    simpa [unposted, hthread, hwaiting, EventLoop.post] using haccounts
  | run =>
    have hthread : s.thread = .ready := henabled
    have haccounts := h.accounts
    have hstatus := thread_status h
    have hwaiting := waiting_of_onTheWay h (by simp [hthread]) (by simp [hthread])
    rw [hthread] at hstatus
    rw [next_run h hthread]
    apply wired_onTheWay h .running s.threadStatus { s.loop with status := .running }
      (by simp [hthread]) (by simp)
    · simp [statuses, hstatus]
    · simpa [unposted, hthread, hwaiting] using haccounts
  | pop =>
    obtain ⟨f, rest, hqueue, heq⟩ := next_pop h henabled
    obtain ⟨⟨hthread, -⟩, hduty, hposted⟩ := henabled
    have haccounts := h.accounts
    rw [heq]
    refine ⟨?_, h.status, h.places, h.inside, fun _ => ⟨hthread, hduty⟩, h.quiet, h.first⟩
    rw [hqueue, List.length_cons] at haccounts
    simp only [unposted] at haccounts ⊢
    omega
  | runTaken created =>
    exact ⟨h.accounts, h.status, h.places, h.inside, fun hne => absurd rfl hne, h.quiet, h.first⟩

end Invariant

section Refinement
variable {s : LoopedObject} {o : CommandObject} {a : Source.Action}

/-- Outside the start nothing looks at the queue. -/
theorem next_with_queued (houtside : Outside a) (queued : Nat) :
    { o with queued := queued }.next a = { o.next a with queued := queued } := by
  rcases o with ⟨calls, current, phase, flag, channel, old, duty, history⟩
  cases a with
  | start | runQueued created => exact houtside.elim
  | connect | message bytes | closeCallback => cases current <;> rfl
  | setCommand c | clearFinished | startConnect created | test | wakeSpuriously | leave | close
  | notifyAll => rfl

/-- The loop does not look at how far the start is. -/
theorem next_with_phase (houtside : Outside a) (honloop : CommandObject.OnLoop a)
    (hphase : o.phase = .started) :
    { o with phase := .testing }.next a = { o.next a with phase := .testing } := by
  rcases o with ⟨calls, current, phase, flag, channel, old, duty, history⟩
  obtain rfl : phase = .started := hphase
  cases a with
  | runQueued created => exact houtside.elim
  | connect | message bytes | closeCallback => cases current <;> rfl
  | close | notifyAll => rfl
  | setCommand c | clearFinished | startConnect created | start | test | wakeSpuriously | leave =>
    exact honloop.elim

/-- While the start is under way only the loop takes steps outside it. -/
theorem onLoop_of_started (houtside : Outside a) (henabled : o.Enabled a)
    (hphase : o.phase = .started) : CommandObject.OnLoop a := by
  cases a with
  | start => exact houtside.elim
  | runQueued created | connect | message bytes | close | closeCallback | notifyAll => trivial
  | setCommand c | clearFinished | startConnect created | test | wakeSpuriously | leave =>
    have hother : o.phase = _ := henabled
    rw [hphase] at hother
    cases hother

theorem enabled_with (houtside : Outside a) (honloop : CommandObject.OnLoop a) (queued : Nat)
    (phase : Phase) : { o with queued := queued, phase := phase }.Enabled a ↔ o.Enabled a := by
  cases a with
  | runQueued created => exact houtside.elim
  | connect | message bytes | close | closeCallback | notifyAll => exact Iff.rfl
  | setCommand c | clearFinished | startConnect created | start | test | wakeSpuriously | leave =>
    exact honloop.elim

theorem pushed_started (h : Wired s) (hpushed : Pushed s) : s.object.phase = .started := by
  apply h.inside
  rcases hpushed with hposting | ⟨hwaiting, -⟩
  · simp [hposting]
  · simp [hwaiting]

theorem toObject_pushed (hpushed : Pushed s) :
    toObject s = { s.object with queued := pending s, phase := .testing } := by
  simp only [toObject, if_pos hpushed]

theorem toObject_not_pushed (hpushed : ¬ Pushed s) :
    toObject s = { s.object with queued := pending s } := by
  simp only [toObject, if_neg hpushed]

theorem refines_step (h : Wired s) (henabled : s.Enabled (.step a)) :
    (toObject s).Enabled a ∧ toObject (s.next (.step a)) = (toObject s).next a := by
  obtain ⟨houtside, -, hobject⟩ := henabled
  by_cases hpushed : Pushed s
  · have hphase := pushed_started h hpushed
    have honloop := onLoop_of_started houtside hobject hphase
    rw [toObject_pushed hpushed, toObject_pushed (s := s.next (.step a)) hpushed]
    refine ⟨(enabled_with houtside honloop _ _).mpr hobject, ?_⟩
    have hqueued := next_with_queued (o := { s.object with phase := .testing }) houtside (pending s)
    rw [next_with_phase houtside honloop hphase] at hqueued
    exact hqueued.symm
  · rw [toObject_not_pushed hpushed, toObject_not_pushed (s := s.next (.step a)) hpushed]
    refine ⟨?_, (next_with_queued houtside (pending s)).symm⟩
    cases a <;> first | exact hobject | exact houtside.elim

/-- A step that shows nothing changes nothing that can be seen. -/
theorem toObject_silent {a : LoopedObject.Action} (henabled : s.Enabled a) (h : Wired s)
    (hsilent : shows s a = []) : toObject (s.next a) = toObject s := by
  cases a with
  | step a => cases hsilent
  | push | pushPre => cases hsilent
  | runTaken created => cases hsilent
  | delay => rfl
  | isRunning =>
    have hentered : s.starting = .entered := henabled.2
    rcases next_isRunning h hentered with ⟨hthread, heq⟩ | ⟨hthread, heq⟩
    · rw [heq]
      simp [toObject, pending, Pushed, hentered]
    · rw [heq]
      simp [toObject, pending, Pushed, hentered]
  | post =>
    have hposting : s.starting = .posting := henabled
    simp [toObject, pending, Pushed, hposting, next, returnFromStart, EventLoop.post]
  | spawn =>
    have hspawning : s.starting = .spawning := henabled
    rw [next_spawn h hspawning]
    simp [toObject, pending, Pushed, hspawning]
  | proceed =>
    have hwaiting : s.starting = .waiting := henabled.1
    have hthread := running_of_proceed h henabled
    simp [toObject, pending, Pushed, hwaiting, hthread, next, returnFromStart]
  | setStarted =>
    have hthread : s.thread = .spawned := henabled
    simp [toObject, pending, Pushed, hthread, next]
  | postPre =>
    have hthread : s.thread = .posting := henabled
    simp [toObject, pending, Pushed, hthread, next, EventLoop.post]
  | run =>
    have hthread : s.thread = .ready := henabled
    rw [next_run h hthread]
    simp [toObject, pending, Pushed, hthread]
  | pop =>
    obtain ⟨f, rest, hqueue, heq⟩ := next_pop h henabled
    have htaken : s.taken = none := henabled.1.2
    have hpending : pending (s.next .pop) = pending s := by
      rw [heq]
      simp [pending, hqueue, htaken]
    rw [toObject, hpending, heq]
    rfl

/-- Whichever thread pushes it, the functor is a start for the object. -/
theorem refines_push {t : LoopedObject} {f : Source.Functor} (hstarted : s.object.phase = .started)
    (hbefore : ¬ Pushed s) (hafter : Pushed t) (hobject : t.object = s.object)
    (hloop : t.loop = s.loop.push f) (htaken : t.taken = s.taken) :
    (toObject s).Enabled .start ∧ toObject t = (toObject s).next .start := by
  have hpending : pending t = pending s + 1 := by
    simp only [pending, hloop, htaken, EventLoop.push, List.length_append, List.length_singleton]
    omega
  rw [toObject_not_pushed hbefore, toObject_pushed hafter, hpending, hobject]
  exact ⟨hstarted, rfl⟩

/-- A functor that is run is one start less. -/
theorem refines_runTaken (h : Wired s) {created : Bool} (henabled : s.Enabled (.runTaken created)) :
    (toObject s).Enabled (.runQueued created) ∧
      toObject (s.next (.runTaken created)) = (toObject s).next (.runQueued created) := by
  have hduty : s.object.duty = .free := (h.taking henabled).2
  obtain ⟨f, htaken⟩ := Option.ne_none_iff_exists'.mp henabled
  have hpending : pending s = pending (s.next (.runTaken created)) + 1 := by
    simp [pending, next, htaken]
  refine ⟨⟨hduty, ?_⟩, ?_⟩
  · change 0 < pending s
    omega
  · simp only [toObject, CommandObject.next, hpending, Nat.add_sub_cancel]
    rfl

/-- A step that shows one of the object's is that step for the object. -/
theorem toObject_shown {a : LoopedObject.Action} (henabled : s.Enabled a) (h : Wired s)
    {b : Source.Action} (hshown : shows s a = [b]) :
    (toObject s).Enabled b ∧ toObject (s.next a) = (toObject s).next b := by
  cases a with
  | step a =>
    cases hshown
    exact refines_step h henabled
  | push =>
    cases hshown
    have hqueueing : s.starting = .queueing := henabled
    exact refines_push (s := s) (t := s.next .push) (f := .startConnect)
      (h.inside (by simp [hqueueing])) (by simp [Pushed, hqueueing]) (.inl rfl) rfl rfl rfl
  | pushPre =>
    cases hshown
    have hthread : s.thread = .started := henabled
    have hwaiting := waiting_of_onTheWay h (by simp [hthread]) (by simp [hthread])
    exact refines_push (s := s) (t := s.next .pushPre) (f := .pre)
      (h.inside (by simp [hwaiting])) (by simp [Pushed, hwaiting, hthread])
      (.inr ⟨hwaiting, by simp [next], by simp [next]⟩) rfl rfl rfl
  | runTaken created =>
    cases hshown
    exact refines_runTaken h henabled
  | isRunning | post | spawn | delay | proceed | setStarted | postPre | run | pop => cases hshown

theorem shows_cases (s : LoopedObject) (a : LoopedObject.Action) :
    shows s a = [] ∨ ∃ b, shows s a = [b] := by
  cases a <;> first | exact .inl rfl | exact .inr ⟨_, rfl⟩

/-- Every step is at most one step of the object. -/
theorem refines_next (guard : CommandObject → Source.Action → Prop) {a : LoopedObject.Action}
    (h : Wired s) (henabled : s.Enabled a) (hguard : ∀ b ∈ shows s a, guard (toObject s) b) :
    Run CommandObject.system guard (toObject s) (shows s a) (toObject (s.next a)) := by
  rcases shows_cases s a with hsilent | ⟨b, hshown⟩
  · rw [hsilent, toObject_silent henabled h hsilent]
    exact .nil _
  · obtain ⟨hstep, heq⟩ := toObject_shown henabled h hshown
    rw [hshown] at hguard ⊢
    rw [heq]
    exact Run.single hstep (hguard b (List.mem_singleton_self b))

end Refinement
section Runs
variable {s t : LoopedObject} {actions : List LoopedObject.Action}

/-- The guard on the object's steps, for the steps here that show one. -/
def Seen (guard : CommandObject → Source.Action → Prop) (s : LoopedObject)
    (a : LoopedObject.Action) : Prop :=
  ∀ b ∈ shows s a, guard (toObject s) b

instance (guard : CommandObject → Source.Action → Prop) [∀ o a, Decidable (guard o a)]
    (s : LoopedObject) (a : LoopedObject.Action) : Decidable (Seen guard s a) :=
  inferInstanceAs (Decidable (∀ b ∈ shows s a, guard (toObject s) b))

def isSpawn : LoopedObject.Action → Bool
  | .spawn => true
  | _ => false

/-- The threads there are still to make. -/
def toMake : LoopThread → Nat
  | .absent => 1
  | _ => 0

theorem toObject_fresh (h : s.Fresh) : (toObject s).Fresh := by
  obtain ⟨⟨hcalls, hcurrent, hphase, hchannel, -, hduty, hhistory⟩, hstarting, -, -, hloop,
    htaken⟩ := h
  have hpushed : ¬ Pushed s := by simp [Pushed, hstarting]
  rw [toObject_not_pushed hpushed]
  exact ⟨hcalls, hcurrent, hphase, hchannel, by simp [pending, hloop, htaken], hduty, hhistory⟩

theorem run_refines {guard : CommandObject → Source.Action → Prop} (h : Wired s)
    (hrun : Run LoopedObject.system (Seen guard) s actions t) :
    Wired t ∧ Run CommandObject.system guard (toObject s)
      (trace LoopedObject.system shows s actions) (toObject t) := by
  obtain ⟨o, hobject, hwired, ho⟩ :=
    hrun.simulate (fun x o => Wired x ∧ o = toObject x) (T := CommandObject.system)
      (by
        intro x a o hR henabled hguard
        obtain ⟨hx, ho⟩ := hR
        subst ho
        exact ⟨_, refines_next guard hx henabled hguard, wired_next henabled hx, rfl⟩)
      ⟨h, rfl⟩
  exact ⟨hwired, ho ▸ hobject⟩

/-- The thread is made where there was none. -/
theorem toMake_next {a : LoopedObject.Action} (henabled : s.Enabled a) (h : Wired s) :
    toMake (s.next a).thread + (isSpawn a).toNat ≤ toMake s.thread + 0 * (isSpawn a).toNat := by
  cases a with
  | spawn =>
    have hspawning : s.starting = .spawning := henabled
    have hthread : s.thread = .absent := places_eq h hspawning
    rw [next_spawn h hspawning]
    simp [isSpawn, hthread, toMake]
  | run =>
    rw [next_run h henabled]
    simp [isSpawn, toMake]
  | pop =>
    obtain ⟨f, rest, -, heq⟩ := next_pop h henabled
    rw [heq]
    simp [isSpawn]
  | step a | isRunning | push | post | delay | proceed | setStarted | pushPre | postPre
  | runTaken created => simp [next, returnFromStart, isSpawn, toMake]

/-- **The start of the loop is no special case.** Every run of the two threads from
a new object, up to any point, is for the object a run of `CommandLoop`, each start
a count whether it is queued by the calling thread or by the thread that starts the
loop. Where an event is handed to `onCustomEvent` there is a functor for it, the
thread is made at most once, and its `run` never finds the loop running. -/
theorem loop_start_refines {guard : CommandObject → Source.Action → Prop} (hfresh : s.Fresh)
    (hrun : Run LoopedObject.system (Seen guard) s actions t) :
    (toObject s).Fresh ∧
      Run CommandObject.system guard (toObject s) (trace LoopedObject.system shows s actions)
        (toObject t) ∧
      (t.Enabled .pop → t.loop.customEvents ≠ []) ∧ actions.countP isSpawn ≤ 1 ∧
      t.thread ≠ .left := by
  have hwired := wired_fresh hfresh
  obtain ⟨ht, hobject⟩ := run_refines hwired hrun
  refine ⟨toObject_fresh hfresh, hobject, ?_, ?_, ?_⟩
  · intro henabled
    obtain ⟨f, rest, hqueue, -⟩ := next_pop ht henabled
    rw [hqueue]
    exact List.cons_ne_nil f rest
  · have hstrong := hrun.strengthen Wired (fun _ _ henabled _ h => wired_next henabled h) hwired
    have hspawns := hstrong.potential (fun x => toMake x.thread) isSpawn isSpawn 0
      (fun x a henabled hguard => toMake_next henabled hguard.2)
    have hthread : toMake s.thread ≤ 1 := by
      cases s.thread <;> decide
    omega
  · intro hleft
    have hplaces := ht.places
    rw [hleft] at hplaces
    cases hs : t.starting <;> rw [hs] at hplaces <;> simp [Together] at hplaces

end Runs

/-- The first call of an object, up to the functor of the thread, which finds the
connection of the calling thread under way. -/
def firstStart : List LoopedObject.Action :=
  [.step (.setCommand ⟨.hostSerial (.getState (ascii "d17cdac6")), trivial⟩),
    .step .clearFinished, .step (.startConnect true), .isRunning, .spawn, .delay, .setStarted,
    .pushPre, .postPre, .run, .proceed, .step .test, .pop, .runTaken true]

theorem loop_start_refines_getState :
    ∃ t, Run LoopedObject.system (Seen CreatesSockets) fresh firstStart t ∧
      t.object.phase = .blocked ∧
      Run CommandObject.system CreatesSockets (toObject fresh)
        (untilBlocked ++ [.runQueued true]) (toObject t) := by
  have hrun : Run LoopedObject.system (Seen CreatesSockets) fresh firstStart _ := .of_check rfl
  exact ⟨_, hrun, rfl, (loop_start_refines fresh_fresh hrun).2.1⟩

end AdbClient.Guarantees.LoopStart
