import AdbClient.Source.CallHistory
import AdbClient.Source.CommandLoop

/-!
# A command object and what its callbacks read and change

`CommandLoop` records which callback the loop thread runs; here it runs. The
callbacks capture the locals and output arguments of the call that set them and
the members of the object, and work on the one read buffer of the loop. A
callback that leaves by an exception or reads out of bounds ends the process, so
a run stops in front of it. What a callback does whose call has returned is
undefined in the source; the model lets it go on with what the call left.

In a `debug` build the callbacks log the message first, and a run also stops in front
of one whose text does not end in the read buffer. The log has no other effect.
-/
namespace AdbClient.Source
open Support.Transition

/-- A step of either thread. The step that begins a call comes with the output
arguments of the caller; no other step reads them. -/
structure Move where
  action : Action
  output : Bytes
  version : Int

/-- `entry` is what the call under way found: the members and its output
arguments. The session is what its callbacks have made of it. -/
structure Execution where
  object : CommandObject
  entry : CallState
  session : Session

namespace Execution

/-- `channel->isConnected()` tells the two uses of the connection callback apart. -/
def connectionEvent (channel : Option ChannelStatus) : Event :=
  if isConnected channel then .connected else .closed

/-- The event a step of the loop hands to a callback. -/
def event (x : Execution) : Action → Option Event
  | .connect => some (connectionEvent (some .connected))
  | .message bytes => some (.message bytes)
  | .closeCallback => some (connectionEvent x.object.channel)
  | _ => none

/-- The callback of the latest call handles it; before the first call there is
none. -/
def handle (x : Execution) (a : Action) : Except Fault Session :=
  match x.event a, x.object.current with
  | some e, some c => c.call.operation.step x.session e
  | _, _ => .ok x.session

/-- The call's locals and output arguments; `status` has no value yet. -/
def enter (x : Execution) (c : WaitingCall) (output : Bytes) (version : Int) : CallState :=
  x.session.state.members.enter (⟨c, output, version, []⟩ : Invocation WaitingCall)

def Enabled (x : Execution) (m : Move) : Prop :=
  x.object.Enabled m.action ∧ (x.handle m.action).isOk

instance (x : Execution) (m : Move) : Decidable (x.Enabled m) :=
  inferInstanceAs (Decidable (_ ∧ _ = true))

def next (x : Execution) (m : Move) : Execution :=
  match m.action with
  | .setCommand c =>
      let entry := x.enter c m.output m.version
      { object := x.object.next (.setCommand c)
        entry := entry
        session := { c.call.operation.start 0 entry with memory := x.session.memory } }
  | a =>
      { x with
        object := x.object.next a
        session := (x.handle a).toOption.getD x.session }

def system : System Execution Move := ⟨Enabled, next⟩

instance (x : Execution) (m : Move) : Decidable (system.Enabled x m) :=
  inferInstanceAs (Decidable (x.Enabled m))

/-- What the callback logs of a message it is handed. -/
def log (build : Build) (x : Execution) (a : Action) : Except Fault Unit :=
  match a, x.object.current with
  | .message bytes, some c => c.call.log build (deliver x.session.memory bytes)
  | _, _ => .ok ()

def handleIn (build : Build) (x : Execution) (a : Action) : Except Fault Session := do
  x.log build a
  x.handle a

def EnabledIn (build : Build) (x : Execution) (m : Move) : Prop :=
  x.object.Enabled m.action ∧ (x.handleIn build m.action).isOk

instance (build : Build) (x : Execution) (m : Move) : Decidable (x.EnabledIn build m) :=
  inferInstanceAs (Decidable (_ ∧ _ = true))

/-- The same object in a `debug` or a `release` build. -/
def systemIn (build : Build) : System Execution Move := ⟨EnabledIn build, next⟩

instance (build : Build) (x : Execution) (m : Move) :
    Decidable ((systemIn build).Enabled x m) :=
  inferInstanceAs (Decidable (x.EnabledIn build m))

/-- The loop runs, no call has begun, the read buffer is zeroed. -/
def Fresh (N : Nat) (o : Members) (x : Execution) : Prop :=
  x.object.Fresh ∧ x.session.memory = zeroed N ∧ x.session.state.members = o

/-- A new command object whose loop runs. -/
def fresh (N : Nat) : Execution where
  object := .fresh
  entry := .fresh
  session := ⟨.fresh, zeroed N, false, []⟩

theorem fresh_fresh (N : Nat) : (fresh N).Fresh N Members.new :=
  ⟨CommandObject.fresh_fresh, rfl, rfl⟩

section Steps
variable {x : Execution} {m : Move} {c : WaitingCall} {y : Session}

/-- A step no callback runs in leaves the session alone. -/
theorem next_silent (hevent : x.event m.action = none) (hcall : ∀ c, m.action ≠ .setCommand c) :
    x.next m = { x with object := x.object.next m.action } := by
  unfold next
  split
  next c hc => exact absurd hc (hcall c)
  next => simp [handle, hevent, Except.toOption]

/-- A callback that comes back leaves the session it made. -/
theorem next_handled {e : Event} (hevent : x.event m.action = some e)
    (hcurrent : x.object.current = some c) (hstep : c.call.operation.step x.session e = .ok y) :
    x.next m = { x with object := x.object.next m.action, session := y } := by
  unfold next
  split
  next c' hc =>
    rw [hc] at hevent
    cases hevent
  next => simp [handle, hevent, hcurrent, hstep, Except.toOption]

end Steps
end Execution
end AdbClient.Source
