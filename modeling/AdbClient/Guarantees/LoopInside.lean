import AdbClient.Guarantees.LoopStart
import AdbClient.Guarantees.LoopStop

/-!
# Calls of an object inside the life of its loop

`EventLoop.lean` has a loop that nobody stops, with its queue; `EventLoopThread.lean`
has the loop's thread without a queue, between starts and stops. The first is part of
the second: every run of an object and its loop is a life of the loop's thread, in
which each event the object is handed is a callback from inside `hloop_run`.
-/
namespace AdbClient.Guarantees.LoopInside
open Source Support.Transition LoopStart

/-- The places of the loop's thread, when it goes from `run` to the loop at once. -/
def stage : LoopThread → ThreadStage
  | .absent => .absent
  | .spawned => .spawned
  | .started | .posting | .ready => .started
  | .running => .inside
  | .left => .returned

/-- The calling thread in `start` is the owner in `start`. -/
def ownerStage : Starting → OwnerStage
  | .waiting => .waiting
  | .entered | .queueing | .posting | .spawning => .idle

def held : LoopThread → Bool
  | .absent => false
  | _ => true

/-- The life of the thread as far as it has got. -/
def toLife (s : LoopedObject) : EventLoopThread where
  owner := ownerStage s.starting
  thread := stage s.thread
  status := s.threadStatus
  joinable := held s.thread
  loopStatus := s.loop.status
  hasLoop := true
  requested := false
  lost := false
  failure := none

/-- What a step of the object and its loop is in that life. -/
def lives (_ : LoopedObject) : LoopedObject.Action → List EventLoopThread.Action
  | .step a => if CommandObject.OnLoop a then [.callback] else []
  | .spawn => [.start, .owner false, .owner false]
  | .delay | .proceed => [.owner false]
  | .setStarted => [.thread]
  | .run => [.thread, .thread, .thread, .thread]
  | .pop | .runTaken _ => [.callback]
  | .isRunning | .push | .post | .pushPre | .postPre => []

variable {s t : LoopedObject}

/-- A callback changes nothing in the life of the loop. -/
theorem lives_callback (hthread : s.thread = .running) (hsame : toLife t = toLife s) :
    Run EventLoopThread.system (fun _ _ => True) (toLife s) [.callback] (toLife t) := by
  have henabled : EventLoopThread.system.Enabled (toLife s) .callback := by
    refine ⟨rfl, ?_⟩
    simp [toLife, hthread, stage]
  rw [hsame]
  exact .single henabled trivial

/-- The life at given places of the two threads. -/
def lifeAt (starting : Starting) (thread : LoopThread) : EventLoopThread :=
  ⟨ownerStage starting, stage thread, (statuses thread).1, held thread, (statuses thread).2, true,
    false, false, none⟩

theorem toLife_eq (h : Wired s) : toLife s = lifeAt s.starting s.thread := by
  rw [toLife, thread_status h, loop_status h, lifeAt]

/-- Where neither goes further in that life. -/
theorem lives_silent {a : LoopedObject.Action} (hsame : toLife (s.next a) = toLife s)
    (hlives : lives s a = []) :
    Run EventLoopThread.system (fun _ _ => True) (toLife s) (lives s a) (toLife (s.next a)) := by
  rw [hsame, hlives]
  exact .nil _

theorem lives_next {a : LoopedObject.Action} (henabled : s.Enabled a) (h : Wired s) :
    Run EventLoopThread.system (fun _ _ => True) (toLife s) (lives s a) (toLife (s.next a)) := by
  have hs := toLife_eq h
  have hnext := toLife_eq (wired_next henabled h)
  cases a with
  | step a =>
    by_cases honloop : CommandObject.OnLoop a
    · rw [lives, if_pos honloop]
      exact lives_callback (henabled.2.1 honloop).1 rfl
    · exact lives_silent rfl (if_neg honloop)
  | isRunning =>
    refine lives_silent ?_ rfl
    rcases next_isRunning h henabled.2 with ⟨-, heq⟩ | ⟨-, heq⟩
    · simp [heq, toLife, henabled.2, ownerStage]
    · simp [heq, toLife, henabled.2, ownerStage]
  | push =>
    have hqueueing : s.starting = .queueing := henabled
    refine lives_silent ?_ rfl
    simp [toLife, LoopedObject.next, EventLoop.push, hqueueing, ownerStage]
  | post =>
    have hposting : s.starting = .posting := henabled
    refine lives_silent ?_ rfl
    simp [toLife, LoopedObject.next, LoopedObject.returnFromStart, EventLoop.post, hposting,
      ownerStage]
  | spawn =>
    have hspawning : s.starting = .spawning := henabled
    have hthread : s.thread = .absent := places_eq h hspawning
    rw [next_spawn h hspawning] at hnext ⊢
    rw [hnext, hs, hspawning, hthread]
    exact .of_check rfl
  | delay =>
    have hwaits : (toLife s).ownerNext false = toLife s := by
      simp [EventLoopThread.ownerNext, toLife, henabled.1, ownerStage, henabled.2]
    have henabled' : EventLoopThread.system.Enabled (toLife s) (.owner false) := by
      refine ⟨rfl, ?_⟩
      simp [EventLoopThread.MayGoOn, toLife, henabled.1, ownerStage]
    have hrun : Run EventLoopThread.system (fun _ _ => True) (toLife s) [.owner false]
        ((toLife s).ownerNext false) := .single henabled' trivial
    rwa [hwaits] at hrun
  | proceed =>
    have hthread := running_of_proceed h henabled
    have hnext' : toLife (s.next .proceed) = lifeAt .entered s.thread := hnext
    rw [hnext', hs, henabled.1, hthread]
    exact .of_check rfl
  | setStarted =>
    have hspawned : s.thread = .spawned := henabled
    have hwaiting := waiting_of_onTheWay h (by simp [hspawned]) (by simp [hspawned])
    have hnext' : toLife (s.next .setStarted) = lifeAt s.starting .started := hnext
    rw [hnext', hs, hwaiting, hspawned]
    exact .of_check rfl
  | pushPre =>
    have hstarted : s.thread = .started := henabled
    refine lives_silent ?_ rfl
    simp [toLife, LoopedObject.next, EventLoop.push, hstarted, stage, held]
  | postPre =>
    have hposting : s.thread = .posting := henabled
    refine lives_silent ?_ rfl
    simp [toLife, LoopedObject.next, EventLoop.post, hposting, stage, held]
  | run =>
    have hready : s.thread = .ready := henabled
    have hwaiting := waiting_of_onTheWay h (by simp [hready]) (by simp [hready])
    rw [next_run h hready] at hnext ⊢
    rw [hnext, hs, hwaiting, hready]
    exact .of_check rfl
  | pop =>
    obtain ⟨f, rest, -, heq⟩ := next_pop h henabled
    exact lives_callback henabled.1.1 (by simp [heq, toLife])
  | runTaken created => exact lives_callback (h.taking henabled).1 rfl

/-- **Calls of an object are made while its loop is alive.** Every run of an object
and its loop from a new object, up to any point, is for the thread of the loop a run
of starts and callbacks from its first state on: the object gets every event from
inside `hloop_run`, and its starts are starts of that thread. -/
theorem object_lives_in_loop {guard : LoopedObject → LoopedObject.Action → Prop}
    {actions : List LoopedObject.Action} (hfresh : s.Fresh)
    (hrun : Run LoopedObject.system guard s actions t) :
    Run EventLoopThread.system (fun _ _ => True) EventLoopThread.fresh
      (trace LoopedObject.system lives s actions) (toLife t) := by
  have hwired := wired_fresh hfresh
  have hstart : toLife s = EventLoopThread.fresh := by
    obtain ⟨-, hstarting, hthread, -⟩ := hfresh
    rw [toLife_eq hwired, hstarting, hthread]
    rfl
  have hstep : ∀ x a v, (Wired x ∧ v = toLife x) → LoopedObject.system.Enabled x a → guard x a →
      ∃ v', Run EventLoopThread.system (fun _ _ => True) v (lives x a) v' ∧
        Wired (LoopedObject.system.next x a) ∧ v' = toLife (LoopedObject.system.next x a) := by
    intro x a v hx henabled _
    obtain ⟨hx, rfl⟩ := hx
    exact ⟨_, lives_next henabled hx, wired_next henabled hx, rfl⟩
  obtain ⟨v, hlife, -, rfl⟩ := hrun.simulate (fun x v => Wired x ∧ v = toLife x) hstep ⟨hwired, rfl⟩
  rwa [hstart] at hlife

theorem object_lives_in_loop_getState :
    ∃ t, Run LoopedObject.system (Seen WakeUp.CreatesSockets) LoopedObject.fresh firstStart t ∧
      t.object.phase = .blocked ∧
      Run EventLoopThread.system (fun _ _ => True) EventLoopThread.fresh
        (trace LoopedObject.system lives LoopedObject.fresh firstStart) (toLife t) := by
  have hrun :
      Run LoopedObject.system (Seen WakeUp.CreatesSockets) LoopedObject.fresh firstStart _ :=
    .of_check rfl
  exact ⟨_, hrun, rfl, object_lives_in_loop LoopedObject.fresh_fresh hrun⟩

end AdbClient.Guarantees.LoopInside
