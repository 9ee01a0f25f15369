import AdbClient.Source.CommandLoop

/-!
# EventLoop.h, EventLoopThread.h, TcpClient.h: the loop behind a command object

`CommandLoop` counts the starts that wait on a loop that runs. Here is what they
wait on: a queue of functors under a mutex, the events posted to the event library
for them, and the thread of the loop, which the first start makes. Pushing a
functor and posting its event are two steps, and so are taking one off the queue
and running it. Of the event library it is assumed that it calls `onCustomEvent`
once for each event posted. Nobody stops the loop while a call is under way, and
the thread that calls the operations is not the loop's own.
-/
namespace AdbClient.Source
open Support.Transition

/-- `Status::KStatus`, in the order of the source. -/
inductive KStatus where
  | null | initializing | initialized | starting | started | running | pause | stopping
  | stopped | destroyed
  deriving DecidableEq, Repr

def KStatus.rank : KStatus → Nat
  | null => 0
  | initializing => 1
  | initialized => 2
  | starting => 3
  | started => 4
  | running => 5
  | pause => 6
  | stopping => 7
  | stopped => 8
  | destroyed => 9

/-- What is queued on the loop: `startConnect` itself, by a loop that runs, or the
`pre` of the thread that starts it, which calls `startConnect` and returns 0. -/
inductive Functor where
  | startConnect | pre
  deriving DecidableEq, Repr

/-- `posted` counts the events the library has still to hand to `onCustomEvent`. -/
structure EventLoop where
  status : KStatus
  customEvents : List Functor
  posted : Nat
  deriving DecidableEq, Repr

namespace EventLoop

/-- `mutex_.lock(); customEvents.push(ev); mutex_.unlock();` -/
def push (l : EventLoop) (f : Functor) : EventLoop :=
  { l with customEvents := l.customEvents ++ [f] }

/-- `hloop_post_event(loop_, &ev->event);` -/
def post (l : EventLoop) : EventLoop := { l with posted := l.posted + 1 }

/-- `front` and `pop` of `onCustomEvent`; without a functor they are undefined. -/
def pop (l : EventLoop) : Option (Functor × EventLoop) :=
  match l.customEvents with
  | [] => none
  | f :: rest => some (f, { l with customEvents := rest, posted := l.posted - 1 })

end EventLoop

/-- Where the calling thread stands in `m_tcp_client.start()`. -/
inductive Starting where
  | entered | queueing | posting | spawning | waiting
  deriving DecidableEq, Repr

/-- Where the thread of the loop stands in `loop_thread`; `left` is behind a `run`
that came back at once, where the source asserts that the loop has stopped. -/
inductive LoopThread where
  | absent | spawned | started | posting | ready | running | left
  deriving DecidableEq, Repr

/-- The command object with its loop. The queue is the loop's own here, `queued` of
the object is not used. -/
structure LoopedObject where
  object : CommandObject
  starting : Starting
  thread : LoopThread
  threadStatus : KStatus
  loop : EventLoop
  taken : Option Functor

namespace LoopedObject

/-- `step` stands for the steps outside `m_tcp_client.start()` and the queue: the
other steps of the calling thread, and the channel's events on the loop. -/
inductive Action where
  | step (a : Source.Action)
  | isRunning | push | post | spawn | delay | proceed
  | setStarted | pushPre | postPre | run
  | pop
  | runTaken (created : Bool)

/-- The steps of the object that have no counterpart of their own here. -/
def Outside : Source.Action → Prop
  | .start | .runQueued _ => False
  | _ => True

instance : (a : Source.Action) → Decidable (Outside a)
  | .start | .runQueued _ => isFalse id
  | .setCommand _ | .clearFinished | .startConnect _ | .test | .wakeSpuriously | .leave
  | .connect | .message _ | .close | .closeCallback | .notifyAll => isTrue trivial

instance : (a : Source.Action) → Decidable (CommandObject.OnLoop a)
  | .runQueued _ | .connect | .message _ | .close | .closeCallback | .notifyAll => isTrue trivial
  | .setCommand _ | .clearFinished | .startConnect _ | .start | .test | .wakeSpuriously
  | .leave => isFalse id

/-- `hloop_run` hands out the next event when the callback of the last is done. -/
def Dispatching (s : LoopedObject) : Prop := s.thread = .running ∧ s.taken = none

instance (s : LoopedObject) : Decidable s.Dispatching := inferInstanceAs (Decidable (_ ∧ _))

def Enabled (s : LoopedObject) : Action → Prop
  | .step a => Outside a ∧ (CommandObject.OnLoop a → s.Dispatching) ∧ s.object.Enabled a
  | .isRunning => s.object.phase = .started ∧ s.starting = .entered
  | .push => s.starting = .queueing
  | .post => s.starting = .posting
  | .spawn => s.starting = .spawning
  | .delay => s.starting = .waiting ∧ s.loop.status.rank < KStatus.running.rank
  | .proceed => s.starting = .waiting ∧ KStatus.running.rank ≤ s.loop.status.rank
  | .setStarted => s.thread = .spawned
  | .pushPre => s.thread = .started
  | .postPre => s.thread = .posting
  | .run => s.thread = .ready
  | .pop => s.Dispatching ∧ s.object.duty = .free ∧ 0 < s.loop.posted
  | .runTaken _ => s.taken ≠ none

instance (s : LoopedObject) : (a : Action) → Decidable (s.Enabled a)
  | .step _ => inferInstanceAs (Decidable (_ ∧ (_ → _) ∧ _))
  | .isRunning => inferInstanceAs (Decidable (_ = Phase.started ∧ _ = Starting.entered))
  | .push => inferInstanceAs (Decidable (_ = Starting.queueing))
  | .post => inferInstanceAs (Decidable (_ = Starting.posting))
  | .spawn => inferInstanceAs (Decidable (_ = Starting.spawning))
  | .delay => inferInstanceAs (Decidable (_ = Starting.waiting ∧ _ < _))
  | .proceed => inferInstanceAs (Decidable (_ = Starting.waiting ∧ _ ≤ _))
  | .setStarted => inferInstanceAs (Decidable (_ = LoopThread.spawned))
  | .pushPre => inferInstanceAs (Decidable (_ = LoopThread.started))
  | .postPre => inferInstanceAs (Decidable (_ = LoopThread.posting))
  | .run => inferInstanceAs (Decidable (_ = LoopThread.ready))
  | .pop => inferInstanceAs (Decidable (_ ∧ _ = Duty.free ∧ 0 < _))
  | .runTaken _ => inferInstanceAs (Decidable (_ ≠ (none : Option Functor)))

/-- `m_tcp_client.start()` returns and the call goes on to `waits()`. -/
def returnFromStart (s : LoopedObject) : LoopedObject :=
  { s with object := { s.object with phase := .testing }, starting := .entered }

/-- `EventLoopThread::start`: a thread that is starting or runs is left alone. -/
def spawn (s : LoopedObject) : LoopedObject :=
  if KStatus.starting.rank ≤ s.threadStatus.rank ∧ s.threadStatus.rank < KStatus.stopped.rank then
    s.returnFromStart
  else { s with threadStatus := .starting, thread := .spawned, starting := .waiting }

/-- `EventLoop::run`: a loop that runs already is left alone. -/
def run (s : LoopedObject) : LoopedObject :=
  if s.loop.status = .running then { s with thread := .left }
  else { s with loop := { s.loop with status := .running }, thread := .running }

def next (s : LoopedObject) : Action → LoopedObject
  | .step a => { s with object := s.object.next a }
  | .isRunning => { s with starting := if s.loop.status = .running then .queueing else .spawning }
  | .push => { s with loop := s.loop.push .startConnect, starting := .posting }
  | .post => { s with loop := s.loop.post }.returnFromStart
  | .spawn => s.spawn
  | .delay => s
  | .proceed => s.returnFromStart
  | .setStarted => { s with threadStatus := .started, thread := .started }
  | .pushPre => { s with loop := s.loop.push .pre, thread := .posting }
  | .postPre => { s with loop := s.loop.post, thread := .ready }
  | .run => s.run
  | .pop =>
      match s.loop.pop with
      | none => s
      | some (f, loop) => { s with loop := loop, taken := some f }
  | .runTaken created => { s with object := s.object.connectTo created, taken := none }

def system : System LoopedObject Action := ⟨Enabled, next⟩

instance (s : LoopedObject) (a : Action) : Decidable (system.Enabled s a) :=
  inferInstanceAs (Decidable (s.Enabled a))

/-- No call has begun and the loop has never run. -/
def Fresh (s : LoopedObject) : Prop :=
  s.object.Fresh ∧ s.starting = .entered ∧ s.thread = .absent ∧ s.threadStatus = .initialized ∧
    s.loop = ⟨.initialized, [], 0⟩ ∧ s.taken = none

/-- A command object as its constructors leave it. -/
def fresh : LoopedObject where
  object := .fresh
  starting := .entered
  thread := .absent
  threadStatus := .initialized
  loop := ⟨.initialized, [], 0⟩
  taken := none

theorem fresh_fresh : fresh.Fresh := ⟨CommandObject.fresh_fresh, rfl, rfl, rfl, rfl, rfl⟩

end LoopedObject
end AdbClient.Source
