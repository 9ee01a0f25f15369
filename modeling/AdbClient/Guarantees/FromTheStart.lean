import AdbClient.Guarantees.Agreement
import AdbClient.Guarantees.LoopStart
import AdbClient.Source.LoopedExecution

/-!
# From the constructor on

The loop of a command object starts with its first call, and the start is queued
like the later ones. What holds of interleavings on a loop that runs holds from the
first step of a new object: the calls that return are sequential calls, and each
caller is told the answer to its own request.
-/
namespace AdbClient.Guarantees.FromTheStart
open Source Abstract Support.Transition Interleaving LoopStart ConnectionWire Agreement
open LoopedExecution

/-- The object on a loop that runs, as `Execution` has it. -/
def toExecution (x : LoopedExecution) : Execution := ⟨toObject x.looped, x.entry, x.session⟩

/-- The steps that `Execution` has. -/
def movesOf (x : LoopedExecution) (m : LoopedMove) : List Move :=
  (shows x.looped m.action).map (⟨·, m.output, m.version⟩)

/-- No call opens a second connection and no message overruns the buffer. -/
def SeenOnce (N : Nat) (x : LoopedExecution) (m : LoopedMove) : Prop :=
  ∀ b ∈ movesOf x m, OneConnection N (toExecution x) b

instance (N : Nat) (x : LoopedExecution) (m : LoopedMove) : Decidable (SeenOnce N x m) :=
  inferInstanceAs (Decidable (∀ b ∈ movesOf x m, _))

/-- What the calling thread sees: a call when it returns. -/
def returned (x : LoopedExecution) (m : LoopedMove) : List Completed :=
  match m.action, x.looped.object.current with
  | .step .leave, some c => [⟨c, x.entry.output, x.entry.version, x.session⟩]
  | _, _ => []

section Step
variable {N : Nat} {x : LoopedExecution} {m : LoopedMove} {o : Members}

/-- The callbacks look at the call and the channel, which the loop leaves alone. -/
theorem handle_toExecution (x : LoopedExecution) (a : Source.Action) :
    (toExecution x).handle a = x.execution.handle a := by
  cases a <;> rfl

/-- Entering a call and running a callback do not look at the rest of the object. -/
theorem next_toExecution (x : LoopedExecution) (b : Move) :
    (toExecution x).next b =
      { x.execution.next b with object := (toObject x.looped).next b.action } := by
  obtain ⟨action, output, version⟩ := b
  cases action <;> rfl

/-- A step of the object is one with its callback. -/
theorem executes_step {a : Source.Action} {output : Bytes} {version : Int} (h : Wired x.looped)
    (henabled : x.Enabled ⟨.step a, output, version⟩) :
    (toExecution x).Enabled ⟨a, output, version⟩ ∧
      toExecution (x.next ⟨.step a, output, version⟩) =
        (toExecution x).next ⟨a, output, version⟩ := by
  obtain ⟨hobject, hnext⟩ := refines_step h henabled.1
  refine ⟨⟨hobject, ?_⟩, ?_⟩
  · rw [handle_toExecution]
    exact henabled.2
  · rw [next_toExecution]
    simp only [toExecution, LoopedExecution.next, hnext]

/-- The start of the loop and its queue run no callback. -/
theorem executes_start {a : LoopedObject.Action} {b : Source.Action} {output : Bytes}
    {version : Int} (h : Wired x.looped) (hother : ∀ c, a ≠ .step c)
    (hshown : shows x.looped a = [b]) (henabled : x.Enabled ⟨a, output, version⟩) :
    (toExecution x).Enabled ⟨b, output, version⟩ ∧
      toExecution (x.next ⟨a, output, version⟩) =
        (toExecution x).next ⟨b, output, version⟩ := by
  obtain ⟨hobject, hnext⟩ := toObject_shown henabled.1 h hshown
  cases a with
  | step c => exact absurd rfl (hother c)
  | push | pushPre | runTaken created =>
    cases hshown
    refine ⟨⟨hobject, rfl⟩, ?_⟩
    rw [next_toExecution]
    simp only [toExecution, LoopedExecution.next, hnext]
    rfl
  | isRunning | post | spawn | delay | proceed | setStarted | postPre | run | pop => cases hshown

/-- A step is silent, or one of the object's with the callback it runs. -/
theorem executes_next (h : Wired x.looped) (henabled : x.Enabled m) :
    movesOf x m = [] ∧ toExecution (x.next m) = toExecution x ∨
      ∃ b, movesOf x m = [b] ∧ (toExecution x).Enabled b ∧
        toExecution (x.next m) = (toExecution x).next b := by
  obtain ⟨a, output, version⟩ := m
  cases a with
  | step a => exact .inr ⟨_, rfl, executes_step h henabled⟩
  | push | pushPre | runTaken created =>
    exact .inr ⟨_, rfl, executes_start h (fun c hc => by cases hc) rfl henabled⟩
  | isRunning | post | spawn | delay | proceed | setStarted | postPre | run | pop =>
    refine .inl ⟨rfl, ?_⟩
    have hsame := toObject_silent henabled.1 h rfl
    simp only [toExecution, LoopedExecution.next, hsame]

theorem returned_eq (x : LoopedExecution) (m : LoopedMove) :
    returned x m = (movesOf x m).flatMap (returns (toExecution x)) := by
  obtain ⟨a, output, version⟩ := m
  cases a with
  | step a =>
    cases a with
    | leave => cases h : x.looped.object.current <;> simp [returned, movesOf, shows, returns, h,
        toExecution, toObject]
    | _ => rfl
  | push | pushPre | runTaken created => simp [returned, movesOf, shows, returns]
  | isRunning | post | spawn | delay | proceed | setStarted | postPre | run | pop => rfl

theorem wired_executed (h : Wired x.looped) (henabled : x.Enabled m) :
    Wired (x.next m).looped := by
  obtain ⟨a, output, version⟩ := m
  cases a <;> exact wired_next henabled.1 h

/-- One step of either thread, the start of the loop included. -/
theorem represents_started (hN : 8 < N) (hwired : Wired x.looped)
    (h : Represents N (toExecution x) o) (henabled : x.Enabled m) (hguard : SeenOnce N x m) :
    ∃ o', Run (sequential N) (fun _ _ => True) o (returned x m) o' ∧
      Represents N (toExecution (x.next m)) o' := by
  rw [returned_eq]
  rcases executes_next hwired henabled with ⟨hsilent, hsame⟩ | ⟨b, hmove, hstep, hnext⟩
  · rw [hsilent, hsame]
    exact ⟨o, .nil o, h⟩
  · have hb : OneConnection N (toExecution x) b := hguard b (by simp [hmove])
    rw [hmove, hnext, List.flatMap_singleton]
    exact represents_next hN h hstep hb

end Step
section Runs
variable {N : Nat} {x y : LoopedExecution} {moves : List LoopedMove} {o : Members}

/-- **Interleavings from the constructor on are sequential calls.** For every run of
the two threads from a new object, the start of the loop by the first call and the
queue of the later ones included, in which no call opens a second connection: the
calls that return are in their order a run of the sequential object, which ends with
the members between two calls; and when they are host operations whose servers
answer the request they read in one message, each is told the answer to its own. -/
theorem answers_from_the_start (hN : 8 < N) (hfresh : x.Fresh N o)
    (hrun : Run LoopedExecution.system (SeenOnce N) x moves y) :
    ∃ o', Run (sequential N) (fun _ _ => True) o
        (trace LoopedExecution.system returned x moves) o' ∧
      (y.looped.object.phase = .idle → y.session.state.members = o') ∧
      ∀ answer : Nat → Bytes → Answer, (∀ n r, (answer n r).Plain) →
        (∀ k i, (trace LoopedExecution.system returned x moves)[k]? = some i →
          Served (answer k) i) →
        Run (requestReply answer) (fun _ _ => True) (0, o.error)
          (trace LoopedExecution.system returned x moves)
          ((trace LoopedExecution.system returned x moves).length, o'.error) := by
  obtain ⟨hlooped, hmemory, hmembers⟩ := hfresh
  have hexecution : (toExecution x).Fresh N o := ⟨toObject_fresh hlooped, hmemory, hmembers⟩
  obtain ⟨o', hsequential, hwired, hrepresents⟩ :=
    hrun.simulate (fun x o => Wired x.looped ∧ Represents N (toExecution x) o)
      (fun x m o hR henabled hguard => by
        obtain ⟨o', hcalls, hafter⟩ := represents_started hN hR.1 hR.2 henabled hguard
        exact ⟨o', hcalls, wired_executed hR.1 henabled, hafter⟩)
      ⟨wired_fresh hlooped, represents_fresh hexecution⟩
  refine ⟨o', hsequential, ?_, ?_⟩
  · intro hidle
    apply hrepresents.between
    have hpushed : ¬ Pushed y.looped := fun hpushed => by
      rw [pushed_started hwired hpushed] at hidle
      cases hidle
    simp only [toExecution, toObject_not_pushed hpushed, hidle]
  · intro answer hplain hserved
    have hasks := asks_of_sequential hN hplain hsequential 0 (by simpa using hserved)
    rwa [Nat.zero_add] at hasks

end Runs

def getState : WaitingCall := ⟨.hostSerial (.getState (ascii "d17cdac6")), trivial⟩

def answered (reply : Bytes) : List LoopedObject.Action :=
  [.connect, .message reply, .close, .closeCallback, .notifyAll, .test, .leave].map .step

def laterStart : List LoopedObject.Action :=
  [.step (.setCommand getState), .step .clearFinished, .step (.startConnect true), .isRunning,
    .push, .post, .pop, .runTaken true, .step .test]

/-- The first call starts the loop, the second one finds it running. -/
def newObject : List LoopedMove :=
  [firstStart, answered (ascii "OKAY0006device"), laterStart,
    answered (ascii "FAIL0006closed")].flatten.map (⟨·, [], 0⟩)

theorem answers_from_the_start_unplugged :
    ∃ y, Run LoopedExecution.system (SeenOnce 16) (LoopedExecution.fresh 16) newObject y ∧
      Run (requestReply unplugged) (fun _ _ => True) (0, [])
        (trace LoopedExecution.system returned (LoopedExecution.fresh 16) newObject)
        (2, errorMessage y.session.state) := by
  have hrun :
      Run LoopedExecution.system (SeenOnce 16) (LoopedExecution.fresh 16) newObject _ :=
    .of_check rfl
  have hwire : ∀ p ∈ (trace LoopedExecution.system returned (LoopedExecution.fresh 16)
      newObject).zipIdx, p.1.call.call.OnHost ∧ p.1.request.length ≤ 65535 ∧
        p.1.session.wire = frame p.1.request ∧
        received p.1.session = [(unplugged p.2 p.1.request).bytes] := by
    decide +kernel
  obtain ⟨o', -, hbetween, htold⟩ :=
    answers_from_the_start (by decide) (LoopedExecution.fresh_fresh 16) hrun
  have hasks := htold unplugged unplugged_plain (by
    intro k i hi
    obtain ⟨hc, hshort, hown, hreceived⟩ := hwire (i, k) (List.mem_zipIdx_iff_getElem?.mpr hi)
    exact served_of_wire hc hshort hown hreceived)
  obtain rfl := hbetween rfl
  exact ⟨_, hrun, hasks⟩

end AdbClient.Guarantees.FromTheStart
