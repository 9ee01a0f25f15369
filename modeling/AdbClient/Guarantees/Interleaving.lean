import AdbClient.Abstract.SequentialObject
import AdbClient.Guarantees.CallConnection

/-!
# Two threads, one call after the other

The calling thread and the loop thread share the members, the locals of the call
under way and the read buffer, with nothing but the flag between them. With one
connection for each call the caller cannot tell: what the calls return, in the
order they return, is what the same calls give when each is run by itself, from
beginning to end, on the members the one before left.
-/
namespace AdbClient.Guarantees.Interleaving
open Source Abstract CallConnection Support.Transition

/-- No call opens a second connection, none is opened between calls, and every
message leaves room in the read buffer. -/
def OneConnection (N : Nat) (x : Execution) (m : Move) : Prop :=
  OpensOnce x.object m.action ∧
    match m.action with
    | .message bytes => bytes.length < N
    | _ => True

instance (N : Nat) (x : Execution) (m : Move) : Decidable (OneConnection N x m) := by
  unfold OneConnection
  cases m.action <;> exact inferInstanceAs (Decidable (_ ∧ _))

/-- A message leaves room in the read buffer. -/
def LeavesRoom (N : Nat) : Action → Prop
  | .message bytes => bytes.length < N
  | _ => True

instance (N : Nat) : (a : Action) → Decidable (LeavesRoom N a)
  | .message _ => inferInstanceAs (Decidable (_ < _))
  | .setCommand _ | .clearFinished | .startConnect _ | .start | .test | .wakeSpuriously | .leave
  | .runQueued _ | .connect | .close | .closeCallback | .notifyAll => isTrue trivial

/-- What the calling thread sees: a call when it returns. -/
def returns (x : Execution) (m : Move) : List Completed :=
  match m.action, x.object.current with
  | .leave, some c => [⟨c, x.entry.output, x.entry.version, x.session⟩]
  | _, _ => []

/-- The call has no established connection yet. -/
def Unconnected (s : CommandObject) : Prop :=
  .opened s.calls ∉ s.history ∨ s.channel = some .connecting

/-- The connection of the call is over and its close callback has run. -/
def Ended (s : CommandObject) : Prop := .opened s.calls ∈ s.history ∧ ¬ Busy s

/-- The call `c` is under way: it has found the members `o`, and its session is as
far as its connection. -/
structure InCall (N : Nat) (x : Execution) (o : Members) (c : WaitingCall) : Prop where
  current : x.object.current = some c
  found : x.entry = o.enter (⟨c, x.entry.output, x.entry.version, []⟩ : Invocation WaitingCall)
  unconnected : Unconnected x.object → x.session = c.call.operation.start N x.entry
  connected : x.object.channel = some .connected →
    ∃ msgs, Fit N msgs ∧ c.call.operation.underway N x.entry msgs = .ok x.session
  closing : x.object.duty = .closing → x.session = c.call.operation.start N x.entry ∨
    ∃ msgs, Fit N msgs ∧ c.call.operation.underway N x.entry msgs = .ok x.session
  ended : Ended x.object →
    ∃ a : Attempt, a.Fits N ∧ attempt c.call.operation N x.entry a = .ok x.session

/-- The invariant: the object stands for the members the caller knows of. Between
two calls it holds them, and a call under way has found them. -/
structure Represents (N : Nat) (x : Execution) (o : Members) : Prop where
  kept : Kept x.object
  memory : x.session.memory = zeroed N
  between : x.object.phase = .idle → x.session.state.members = o
  during : x.object.phase ≠ .idle → ∃ c, InCall N x o c

section Step
variable {N : Nat} {x : Execution} {o : Members} {m : Move} {s : CommandObject}

theorem represents_fresh (h : x.Fresh N o) : Represents N x o := by
  obtain ⟨hobject, hmemory, hmembers⟩ := h
  have hidle : x.object.phase = .idle := hobject.2.2.1
  exact ⟨kept_fresh hobject, hmemory, fun _ => hmembers, fun hne => absurd hidle hne⟩

/-- A connection is only there while a call is under way that has opened it. -/
theorem busy_begun (h : Kept s) (hbusy : Busy s) :
    s.phase ≠ .idle ∧ .opened s.calls ∈ s.history :=
  ⟨(held_ne (h.busy hbusy).1).1, (h.busy hbusy).2⟩

theorem not_unconnected (h : Kept s) (hbusy : Busy s) (hchannel : s.channel ≠ some .connecting) :
    ¬ Unconnected s := by
  intro hu
  rcases hu with ho | hc
  · exact ho (busy_begun h hbusy).2
  · exact hchannel hc

/-- A step that leaves the call, its connection and the session alone. -/
theorem represents_silent (h : Represents N x o) (hkept : Kept s)
    (hcalls : s.calls = x.object.calls) (hcurrent : s.current = x.object.current)
    (hchannel : s.channel = x.object.channel) (hhistory : s.history = x.object.history)
    (hclosing : s.duty = .closing ↔ x.object.duty = .closing)
    (hphase : s.phase = .idle ↔ x.object.phase = .idle) :
    Represents N { x with object := s } o := by
  have hunconnected : Unconnected s → Unconnected x.object := by
    unfold Unconnected
    rw [hcalls, hchannel, hhistory]
    exact id
  have hended : Ended s → Ended x.object := by
    unfold Ended Busy
    rw [hcalls, hchannel, hhistory, hclosing]
    exact id
  refine ⟨hkept, h.memory, fun hp => h.between (hphase.mp hp), ?_⟩
  intro hne
  obtain ⟨c, hc⟩ := h.during (fun hp => hne (hphase.mpr hp))
  exact ⟨c, hcurrent.trans hc.current, hc.found, fun hu => hc.unconnected (hunconnected hu),
    fun hl => hc.connected (hchannel ▸ hl), fun hd => hc.closing (hclosing.mp hd),
    fun he => hc.ended (hended he)⟩

/-- A call begins: no connection is left over from the one before. -/
theorem represents_setCommand (h : Represents N x o) {c : WaitingCall}
    (haction : m.action = .setCommand c) (hidle : x.object.phase = .idle)
    (hkept : Kept (x.object.next (.setCommand c))) : Represents N (x.next m) o := by
  have hfree : ¬ Busy x.object := fun hb => (busy_begun h.kept hb).1 hidle
  have hnew : .opened (x.object.calls + 1) ∉ x.object.history := by
    intro hmem
    exact Nat.not_succ_le_self _ (h.kept.recorded _ hmem)
  have hnext : x.next m =
      { object := x.object.next (.setCommand c)
        entry := x.enter c m.output m.version
        session := { c.call.operation.start 0 (x.enter c m.output m.version) with
          memory := x.session.memory } } := by
    unfold Execution.next
    rw [haction]
  rw [hnext]
  refine ⟨hkept, h.memory, fun hp => absurd hp (by simp [CommandObject.next]), ?_⟩
  intro _
  refine ⟨c, rfl, ?_, ?_, ?_, ?_, ?_⟩
  · rw [← h.between hidle]
    rfl
  · intro _
    simp only [Operation.start, h.memory]
  · intro hl
    exact absurd (.inl (.inr hl)) hfree
  · intro hd
    exact absurd (.inr hd) hfree
  · intro he
    exact absurd he.1 hnew

/-- A start on either thread opens the call's connection or does nothing. -/
theorem represents_connectTo (h : Represents N x o) {created : Bool}
    (hguard : Opens created x.object.channel →
      x.object.phase ≠ .idle ∧ .opened x.object.calls ∉ x.object.history) :
    Represents N { x with object := x.object.connectTo created } o := by
  have hkept := kept_connectTo h.kept created hguard
  by_cases hopens : Opens created x.object.channel
  · obtain ⟨hne, hunopened⟩ := hguard hopens
    have hchannel : (x.object.connectTo created).channel = some .connecting := by
      rw [CommandObject.connectTo_opens hopens]
    have hbusy : Busy (x.object.connectTo created) := .inl (.inl hchannel)
    refine ⟨hkept, h.memory, fun hp => absurd hp hne, ?_⟩
    intro _
    obtain ⟨c, hc⟩ := h.during hne
    refine ⟨c, hc.current, hc.found, fun _ => hc.unconnected (.inl hunopened), ?_, ?_, ?_⟩
    · intro hl
      rw [hchannel] at hl
      cases hl
    · intro hd
      exact absurd (.inl hchannel) (hkept.exclusive hd)
    · intro he
      exact absurd hbusy he.2
  · rw [CommandObject.connectTo_not_opens hopens]
    exact h

/-- The connected event. -/
theorem represents_connect (h : Represents N x o) (haction : m.action = .connect)
    (hchannel : x.object.channel = some .connecting)
    (hkept : Kept (x.object.next .connect)) : Represents N (x.next m) o := by
  have hbegun := busy_begun h.kept (.inl (.inl hchannel))
  obtain ⟨c, hc⟩ := h.during hbegun.1
  have hsession := hc.unconnected (.inr hchannel)
  have hopened : c.call.operation.step x.session .connected =
      .ok (openedSession c.call N x.entry) := by
    rw [hsession]
    exact step_connected c.call N x.entry
  have hobject := CommandObject.onConnection_connected
    (s := { x.object with channel := some .connected }) hc.current rfl
  rw [Execution.next_handled (by rw [haction]; rfl) hc.current hopened, haction,
    CommandObject.next_connect, hobject]
  rw [CommandObject.next_connect, hobject] at hkept
  refine ⟨hkept, rfl, fun hp => absurd hp hbegun.1, ?_⟩
  intro _
  refine ⟨c, hc.current, hc.found, ?_, ?_, ?_, ?_⟩
  · intro hu
    exact absurd hu (not_unconnected hkept (.inl (.inr rfl)) (by simp))
  · intro _
    exact ⟨[], by simp [Fit], underway_nil (step_connected c.call N x.entry)⟩
  · intro hd
    cases hd
  · intro he
    exact absurd (.inl (.inr rfl)) he.2

/-- A message reaches the callback of the call under way. -/
theorem represents_message (hN : 8 < N) (h : Represents N x o) {bytes : Bytes}
    (haction : m.action = .message bytes) (hchannel : x.object.channel = some .connected)
    (hfit : bytes.length < N) (hok : (x.handle (.message bytes)).isOk)
    (hkept : Kept (x.object.next (.message bytes))) : Represents N (x.next m) o := by
  have hbegun := busy_begun h.kept (.inl (.inr hchannel))
  obtain ⟨c, hc⟩ := h.during hbegun.1
  obtain ⟨msgs, hmsgs, hunderway⟩ := hc.connected hchannel
  have hstep := step_message hN hfit c.call x.session h.memory
  cases hnext : (meaning c.call).next x.session.state bytes with
  | error fault =>
    rw [hnext] at hstep
    have hhandle : x.handle (.message bytes) = .error fault := by
      simp only [Execution.handle, Execution.event, hc.current, hstep]
      rfl
    rw [hhandle] at hok
    cases hok
  | ok s' =>
    rw [hnext] at hstep
    rw [Execution.next_handled (by rw [haction]; rfl) hc.current hstep, haction,
      CommandObject.next_message, CommandObject.onMessage_eq]
    rw [CommandObject.next_message, CommandObject.onMessage_eq] at hkept
    have hbusy : Busy _ := .inl (.inr hchannel)
    refine ⟨hkept, rfl, fun hp => absurd hp hbegun.1, ?_⟩
    intro _
    refine ⟨c, hc.current, hc.found, ?_, ?_, ?_, ?_⟩
    · intro hu
      exact absurd hu (not_unconnected hkept hbusy (by simp [hchannel]))
    · intro _
      refine ⟨msgs ++ [bytes], ?_, underway_concat hunderway hstep⟩
      intro m' hm'
      rcases List.mem_append.mp hm' with hm' | hm'
      · exact hmsgs m' hm'
      · rw [List.mem_singleton.mp hm']
        exact hfit
    · intro hd
      exact absurd (.inr hchannel) (h.kept.exclusive hd)
    · intro he
      exact absurd hbusy he.2

/-- The channel is marked closed; its callback has still to run. -/
theorem represents_close (h : Represents N x o) (hlive : Live x.object.channel)
    (hkept : Kept (x.object.next .close)) :
    Represents N { x with object := x.object.next .close } o := by
  have hbegun := busy_begun h.kept (.inl hlive)
  obtain ⟨c, hc⟩ := h.during hbegun.1
  refine ⟨hkept, h.memory, fun hp => absurd hp hbegun.1, ?_⟩
  intro _
  refine ⟨c, hc.current, hc.found, ?_, ?_, ?_, ?_⟩
  · intro hu
    exact absurd hu (not_unconnected hkept (.inr rfl) (by simp [CommandObject.next]))
  · intro hl
    cases hl
  · intro _
    rcases hlive with hl | hl
    · exact .inl (hc.unconnected (.inr hl))
    · exact .inr (hc.connected hl)
  · intro he
    exact absurd (.inr rfl) he.2

/-- The close callback ends the session of the call. -/
theorem represents_closeCallback (h : Represents N x o) (haction : m.action = .closeCallback)
    (hclosing : x.object.duty = .closing) (hkept : Kept (x.object.next .closeCallback)) :
    Represents N (x.next m) o := by
  have hbegun := busy_begun h.kept (.inr hclosing)
  have hlive := h.kept.exclusive hclosing
  have hdisconnected := isConnected_of_not_live hlive
  obtain ⟨c, hc⟩ := h.during hbegun.1
  have hevent : x.event m.action = some .closed := by
    rw [haction]
    simp [Execution.event, Execution.connectionEvent, hdisconnected]
  obtain ⟨y, hstep, hmemory⟩ : ∃ y, c.call.operation.step x.session .closed = .ok y ∧
      y.memory = x.session.memory := ⟨_, rfl, rfl⟩
  rw [Execution.next_handled hevent hc.current hstep, haction, CommandObject.next_closeCallback,
    CommandObject.onConnection_disconnected hc.current hdisconnected]
  rw [CommandObject.next_closeCallback,
    CommandObject.onConnection_disconnected hc.current hdisconnected] at hkept
  refine ⟨hkept, hmemory.trans h.memory, fun hp => absurd hp hbegun.1, ?_⟩
  intro _
  refine ⟨c, hc.current, hc.found, ?_, ?_, ?_, ?_⟩
  · intro hu
    rcases hu with ho | hl
    · exact absurd hbegun.2 ho
    · exact absurd (.inl hl) hlive
  · intro hl
    exact absurd (.inr hl) hlive
  · intro hd
    cases hd
  · intro _
    rcases hc.closing hclosing with hstart | ⟨msgs, hmsgs, hunderway⟩
    · refine ⟨.refused, trivial, ?_⟩
      rw [← hstep, hstart]
      rfl
    · exact ⟨.served msgs, hmsgs, call_of_underway hunderway hstep⟩

/-- A call that comes back has had its connection, from beginning to end. -/
theorem ended_of_passed (h : Represents N x o) (hpassed : x.object.phase = .passed) :
    Ended x.object := by
  have hheld : ¬ Held x.object := fun hh => (held_ne hh).2 hpassed
  constructor
  · by_contra hunopened
    rcases h.kept.unopened hunopened with hidle | hh
    · rw [hpassed] at hidle
      cases hidle
    · exact hheld hh
  · exact fun hb => hheld (h.kept.busy hb).1

/-- The return of a call is one step of the sequential object. -/
theorem represents_leave (h : Represents N x o) (haction : m.action = .leave)
    (hpassed : x.object.phase = .passed) (hkept : Kept (x.object.next .leave)) :
    ∃ o', Run (sequential N) (fun _ _ => True) o (returns x m) o' ∧
      Represents N { x with object := x.object.next .leave } o' := by
  obtain ⟨c, hc⟩ := h.during (by rw [hpassed]; decide)
  obtain ⟨a, ha, hattempt⟩ := hc.ended (ended_of_passed h hpassed)
  have hreturns : returns x m = [⟨c, x.entry.output, x.entry.version, x.session⟩] := by
    simp only [returns, haction, hc.current]
  refine ⟨x.session.state.members, ?_, hkept, h.memory, fun _ => rfl, ?_⟩
  · rw [hreturns]
    refine Run.single ⟨a, ha, ?_⟩ trivial
    rw [Completed.entry, ← hc.found]
    exact hattempt
  · exact fun hne => absurd rfl hne

/-- One step of either thread: nothing the caller sees, or the return of a call. -/
theorem represents_next (hN : 8 < N) (h : Represents N x o) (henabled : x.Enabled m)
    (hguard : OneConnection N x m) :
    ∃ o', Run (sequential N) (fun _ _ => True) o (returns x m) o' ∧
      Represents N (x.next m) o' := by
  obtain ⟨action, output, version⟩ := m
  obtain ⟨henabled, hok⟩ := henabled
  obtain ⟨hopens, hfit⟩ := hguard
  have hkept := kept_next henabled hopens h.kept
  cases action with
  | setCommand c =>
    exact ⟨o, .nil o, represents_setCommand h rfl henabled hkept⟩
  | connect => exact ⟨o, .nil o, represents_connect h rfl henabled.2 hkept⟩
  | message bytes =>
    exact ⟨o, .nil o, represents_message hN h rfl henabled.2 hfit hok hkept⟩
  | closeCallback => exact ⟨o, .nil o, represents_closeCallback h rfl henabled hkept⟩
  | leave =>
    rw [Execution.next_silent rfl (by simp)]
    exact represents_leave h rfl henabled hkept
  | close =>
    rw [Execution.next_silent rfl (by simp)]
    exact ⟨o, .nil o, represents_close h henabled.2 hkept⟩
  | startConnect created =>
    have hcleared : x.object.phase = .cleared := henabled
    rw [Execution.next_silent rfl (by simp)]
    have hconnected := represents_connectTo h hopens
    have hphase : (x.object.connectTo created).phase = .cleared := hcleared
    exact ⟨o, .nil o, represents_silent (x := { x with object := x.object.connectTo created })
      hconnected hkept rfl rfl rfl rfl Iff.rfl (by simp [CommandObject.next, hphase])⟩
  | runQueued created =>
    rw [Execution.next_silent rfl (by simp)]
    have hconnected := represents_connectTo h hopens
    exact ⟨o, .nil o, represents_silent (x := { x with object := x.object.connectTo created })
      hconnected hkept rfl rfl rfl rfl Iff.rfl Iff.rfl⟩
  | clearFinished =>
    have harmed : x.object.phase = .armed := henabled
    rw [Execution.next_silent rfl (by simp)]
    exact ⟨o, .nil o, represents_silent h hkept rfl rfl rfl rfl Iff.rfl
      (by simp [CommandObject.next, harmed])⟩
  | start =>
    have hstarted : x.object.phase = .started := henabled
    rw [Execution.next_silent rfl (by simp)]
    exact ⟨o, .nil o, represents_silent h hkept rfl rfl rfl rfl Iff.rfl
      (by simp [CommandObject.next, hstarted])⟩
  | test =>
    have htesting : x.object.phase = .testing := henabled
    rw [Execution.next_silent rfl (by simp)]
    refine ⟨o, .nil o, represents_silent h hkept rfl rfl rfl rfl Iff.rfl ?_⟩
    simp only [CommandObject.next, htesting]
    split <;> decide
  | wakeSpuriously =>
    have hblocked : x.object.phase = .blocked := henabled
    rw [Execution.next_silent rfl (by simp)]
    exact ⟨o, .nil o, represents_silent h hkept rfl rfl rfl rfl Iff.rfl
      (by simp [CommandObject.next, hblocked])⟩
  | notifyAll =>
    have hnotifying : x.object.duty = .notifying := henabled
    rw [Execution.next_silent rfl (by simp)]
    refine ⟨o, .nil o, represents_silent h hkept rfl rfl rfl rfl ?_ ?_⟩
    · simp [CommandObject.next, hnotifying]
    · simp only [CommandObject.next]
      split
      next hblocked => simp [hblocked]
      next => rfl

end Step

section Runs
variable {N : Nat} {x y : Execution} {o : Members} {moves : List Move}

/-- The run of the sequential object behind a run of the two threads. -/
theorem represents_run (hN : 8 < N) (hfresh : x.Fresh N o)
    (hrun : Run Execution.system (OneConnection N) x moves y) :
    ∃ o', Run (sequential N) (fun _ _ => True) o (trace Execution.system returns x moves) o' ∧
      Represents N y o' :=
  hrun.simulate (Represents N)
    (fun _ _ _ hR henabled hguard => represents_next hN hR henabled hguard)
    (represents_fresh hfresh)

/-- **Interleaved calls are sequential calls.** For every interleaving of the two
threads in which no call opens a second connection and none is opened between
calls: the calls that return, with their arguments, their status, their outputs
and all they wrote, are in this order a run of the sequential object, and between
two calls the members are the ones that run ends with. -/
theorem calls_sequential (hN : 8 < N) (hfresh : x.Fresh N o)
    (hrun : Run Execution.system (OneConnection N) x moves y) :
    ∃ o', Run (sequential N) (fun _ _ => True) o (trace Execution.system returns x moves) o' ∧
      (y.object.phase = .idle → y.session.state.members = o') := by
  obtain ⟨o', hsequential, hrepresents⟩ := represents_run hN hfresh hrun
  exact ⟨o', hsequential, hrepresents.between⟩

end Runs

/-- A call whose queued start runs while the connection is being made. -/
def turn (c : WaitingCall) (output reply : Bytes) : List Move :=
  ⟨.setCommand c, output, 0⟩ ::
    [.clearFinished, .startConnect true, .start, .test, .runQueued true, .connect,
      .message reply, .close, .closeCallback, .notifyAll, .test, .leave].map (⟨·, [], 0⟩)

/-- Two calls on one object, the second one refused. -/
def twoTurns : List Move :=
  turn ⟨.hostSerial (.getState (ascii "d17cdac6")), trivial⟩ [] (ascii "OKAY0006device") ++
    turn ⟨.hostSerial (.getState (ascii "d17cdac6")), trivial⟩ [] (ascii "FAIL0006closed")

theorem calls_sequential_getState :
    ∃ y o', Run Execution.system (OneConnection 16) (Execution.fresh 16) twoTurns y ∧
      Run (sequential 16) (fun _ _ => True) Members.new
        (trace Execution.system returns (Execution.fresh 16) twoTurns) o' ∧
      y.session.state.members = o' ∧ o'.error = ascii "closed" := by
  have hrun : Run Execution.system (OneConnection 16) (Execution.fresh 16) twoTurns _ :=
    .of_check rfl
  obtain ⟨o', hsequential, hmembers⟩ :=
    calls_sequential (by decide) (Execution.fresh_fresh 16) hrun
  exact ⟨_, o', hrun, hsequential, hmembers rfl, by rw [← hmembers rfl]; rfl⟩

end AdbClient.Guarantees.Interleaving
