import AdbClient.Source.Operations
import AdbClient.Source.TcpClient

/-!
# adb_command.cpp: a command object between its two threads

The calling thread runs waiting operations one after the other: it sets
`m_command` and the callbacks, clears `m_command_finished`, starts the connection
itself, queues a second start on the loop, and blocks in `waits()`. The loop
thread takes the queued starts and the events of the connection in any order.

A close event is three steps of the loop: the channel is marked closed, the
connection callback runs on whichever channel is current by then, and, after
`weak_up()` has set the flag under the mutex, the waiters are notified. The test
of the flag and the blocking in `waits()` are one step, as the mutex makes them.
-/
namespace AdbClient.Source
open Support.Transition

/-- A call of an operation that ends in `waits()`. -/
structure WaitingCall where
  call : Call
  waits : call.Waits

/-- Where the calling thread stands. -/
inductive Phase where
  | idle | armed | cleared | started | testing | blocked | passed
  deriving DecidableEq, Repr

/-- What the loop thread is in the middle of. -/
inductive Duty where
  | free | closing | notifying
  deriving DecidableEq, Repr

/-- What is recorded of a run; calls are numbered from 1 in order. -/
inductive Mark where
  | opened (call : Nat)
  | wrote (call : Nat) (bytes : Bytes)
  | dispatched (call : Nat) (message : Bytes)
  | returned (call : Nat)
  deriving DecidableEq, Repr

/-- The command object, its client and its threads. `current` is the call whose
`m_command` and callbacks are set, with the number `calls`. -/
structure CommandObject where
  calls : Nat
  current : Option WaitingCall
  phase : Phase
  commandFinished : Bool
  channel : Option ChannelStatus
  queued : Nat
  duty : Duty
  history : List Mark

inductive Action where
  | setCommand (c : WaitingCall)
  | clearFinished
  | startConnect (created : Bool)
  | start
  | test
  | wakeSpuriously
  | leave
  | runQueued (created : Bool)
  | connect
  | message (bytes : Bytes)
  | close
  | closeCallback
  | notifyAll

namespace CommandObject

/-- `m_tcp_client.startConnect()` on either thread. -/
def connectTo (s : CommandObject) (created : Bool) : CommandObject :=
  { s with
    channel := Source.startConnect created s.channel
    history := s.history ++ if Opens created s.channel then [.opened s.calls] else [] }

/-- `if (onConnection) onConnection(channel);` -/
def onConnection (s : CommandObject) : CommandObject :=
  match s.current with
  | none => { s with duty := .free }
  | some c =>
      let (written, weakUp) := c.call.operation.onConnection (isConnected s.channel)
      { s with
        history := s.history ++ written.map (.wrote s.calls)
        commandFinished := s.commandFinished || weakUp
        duty := if weakUp then .notifying else .free }

/-- `if (onMessage) onMessage(channel, buf);` -/
def onMessage (s : CommandObject) (bytes : Bytes) : CommandObject :=
  match s.current with
  | none => s
  | some _ => { s with history := s.history ++ [.dispatched s.calls bytes] }

def Enabled (s : CommandObject) : Action → Prop
  | .setCommand _ => s.phase = .idle
  | .clearFinished => s.phase = .armed
  | .startConnect _ => s.phase = .cleared
  | .start => s.phase = .started
  | .test => s.phase = .testing
  | .wakeSpuriously => s.phase = .blocked
  | .leave => s.phase = .passed
  | .runQueued _ => s.duty = .free ∧ 0 < s.queued
  | .connect => s.duty = .free ∧ s.channel = some .connecting
  | .message _ => s.duty = .free ∧ s.channel = some .connected
  | .close => s.duty = .free ∧ Live s.channel
  | .closeCallback => s.duty = .closing
  | .notifyAll => s.duty = .notifying

instance (s : CommandObject) : (a : Action) → Decidable (s.Enabled a)
  | .setCommand _ => inferInstanceAs (Decidable (_ = Phase.idle))
  | .clearFinished => inferInstanceAs (Decidable (_ = Phase.armed))
  | .startConnect _ => inferInstanceAs (Decidable (_ = Phase.cleared))
  | .start => inferInstanceAs (Decidable (_ = Phase.started))
  | .test => inferInstanceAs (Decidable (_ = Phase.testing))
  | .wakeSpuriously => inferInstanceAs (Decidable (_ = Phase.blocked))
  | .leave => inferInstanceAs (Decidable (_ = Phase.passed))
  | .runQueued _ => inferInstanceAs (Decidable (_ = Duty.free ∧ 0 < _))
  | .connect => inferInstanceAs (Decidable (_ = Duty.free ∧ _ = some ChannelStatus.connecting))
  | .message _ => inferInstanceAs (Decidable (_ = Duty.free ∧ _ = some ChannelStatus.connected))
  | .close => inferInstanceAs (Decidable (_ = Duty.free ∧ Live _))
  | .closeCallback => inferInstanceAs (Decidable (_ = Duty.closing))
  | .notifyAll => inferInstanceAs (Decidable (_ = Duty.notifying))

def next (s : CommandObject) : Action → CommandObject
  | .setCommand c => { s with calls := s.calls + 1, current := some c, phase := .armed }
  | .clearFinished => { s with commandFinished := false, phase := .cleared }
  | .startConnect created => { s.connectTo created with phase := .started }
  | .start => { s with queued := s.queued + 1, phase := .testing }
  | .test => { s with phase := if s.commandFinished then .passed else .blocked }
  | .wakeSpuriously => { s with phase := .testing }
  | .leave => { s with phase := .idle, history := s.history ++ [.returned s.calls] }
  | .runQueued created => { s.connectTo created with queued := s.queued - 1 }
  | .connect => { s with channel := some .connected }.onConnection
  | .message bytes => s.onMessage bytes
  | .close => { s with channel := some .closed, duty := .closing }
  | .closeCallback => s.onConnection
  | .notifyAll =>
      { s with duty := .free, phase := if s.phase = .blocked then .testing else s.phase }

/-- The steps of the loop thread. -/
def OnLoop : Action → Prop
  | .runQueued _ | .connect | .message _ | .close | .closeCallback | .notifyAll => True
  | _ => False

theorem next_connect (s : CommandObject) :
    s.next .connect = { s with channel := some .connected }.onConnection := rfl

theorem next_message (s : CommandObject) (bytes : Bytes) :
    s.next (.message bytes) = s.onMessage bytes := rfl

theorem next_closeCallback (s : CommandObject) : s.next .closeCallback = s.onConnection := rfl

def system : System CommandObject Action := ⟨Enabled, next⟩

instance (s : CommandObject) (a : Action) : Decidable (system.Enabled s a) :=
  inferInstanceAs (Decidable (s.Enabled a))

section Start
variable {s : CommandObject} {created : Bool}

/-- A start that opens a connection records it. -/
theorem connectTo_opens (h : Opens created s.channel) :
    s.connectTo created =
      { s with channel := some .connecting, history := s.history ++ [.opened s.calls] } := by
  simp only [connectTo, startConnect_eq, if_pos h]

/-- Any other start changes nothing. -/
theorem connectTo_not_opens (h : ¬ Opens created s.channel) : s.connectTo created = s := by
  simp only [connectTo, startConnect_eq, if_neg h, List.append_nil]

end Start
section Callback
variable {s : CommandObject} {c : WaitingCall}

/-- Before the first call there is no callback. -/
theorem onConnection_none (h : s.current = none) : s.onConnection = { s with duty := .free } := by
  simp [onConnection, h]

/-- On an established connection the callback sends `m_command`. -/
theorem onConnection_connected (hc : s.current = some c) (h : isConnected s.channel = true) :
    s.onConnection =
      { s with
        history := s.history ++ [.wrote s.calls (frame c.call.operation.command)]
        duty := .free } := by
  simp [onConnection, hc, h, c.call.operation_onConnection, connectionCallback]

/-- On any other channel it wakes the calling thread. -/
theorem onConnection_disconnected (hc : s.current = some c)
    (h : isConnected s.channel = false) :
    s.onConnection = { s with commandFinished := true, duty := .notifying } := by
  simp [onConnection, hc, h, c.call.operation_onConnection, connectionCallback]

/-- A message is dispatched to the callback of the latest call, if there is one. -/
theorem onMessage_eq (s : CommandObject) (bytes : Bytes) :
    s.onMessage bytes =
      { s with
        history := s.history ++
          if s.current.isSome then [.dispatched s.calls bytes] else [] } := by
  rcases s with ⟨calls, current, phase, flag, channel, queued, duty, history⟩
  cases current <;> simp [onMessage]

end Callback

/-- The loop thread is running, no call has begun and no connection is open. -/
def Fresh (s : CommandObject) : Prop :=
  s.calls = 0 ∧ s.current = none ∧ s.phase = .idle ∧ ¬ Live s.channel ∧ s.queued = 0 ∧
    s.duty = .free ∧ s.history = []

/-- A new command object whose loop runs and whose socket is created. -/
def fresh : CommandObject where
  calls := 0
  current := none
  phase := .idle
  commandFinished := false
  channel := some .opened
  queued := 0
  duty := .free
  history := []

theorem fresh_fresh : fresh.Fresh := ⟨rfl, rfl, rfl, by decide, rfl, rfl, rfl⟩

end CommandObject
end AdbClient.Source
