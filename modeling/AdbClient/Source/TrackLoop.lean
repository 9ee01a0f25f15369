import AdbClient.Source.HostCommand
import AdbClient.Support.Transition

/-!
# main.cpp: the tracking loop

`track_devices` returns at once and leaves its callback on the connection. The
loop around it is the only consumer of `m_tracked_device`:

    while (true) { waits(); device_status = get_tracked_devices(); resume(); }

The loop thread stores an update and calls `weak_up()` in one step here, and each
of the three calls of the consumer is one step; any order of the steps that the
flag allows is a run.
-/
namespace AdbClient.Source
open Support.Transition

/-- The call the consumer makes next. -/
inductive Consumer where
  | waits | getTrackedDevices | resume
  deriving DecidableEq, Repr

/-- `deviceStatus` is the string of the consumer's last turn; `updates` counts the
callbacks and is read by nobody. -/
structure Tracking where
  object : CallState
  memory : Bytes
  commandFinished : Bool
  consumer : Consumer
  deviceStatus : Option Bytes
  updates : Nat
  deriving DecidableEq, Repr

namespace Tracking

inductive Action where
  | message (bytes : Bytes)
  | waits
  | getTrackedDevices
  | resume
  deriving DecidableEq, Repr

/-- The callback of `track_devices` on the next message. -/
def onMessage (s : Tracking) (m : Bytes) : Except Fault Handled :=
  HostCommand.trackDevices.onMessage s.object (deliver s.memory m)

/-- `waits()` passes only when the flag is set. -/
def Enabled (s : Tracking) : Action → Prop
  | .message m => (s.onMessage m).isOk
  | .waits => s.consumer = .waits ∧ s.commandFinished = true
  | .getTrackedDevices => s.consumer = .getTrackedDevices
  | .resume => s.consumer = .resume

instance (s : Tracking) : (a : Action) → Decidable (s.Enabled a)
  | .message m => inferInstanceAs (Decidable ((s.onMessage m).isOk = true))
  | .waits => inferInstanceAs (Decidable (_ ∧ _))
  | .getTrackedDevices => inferInstanceAs (Decidable (s.consumer = .getTrackedDevices))
  | .resume => inferInstanceAs (Decidable (s.consumer = .resume))

def next (s : Tracking) : Action → Tracking
  | .message m =>
      match s.onMessage m with
      | .error _ => s
      | .ok h =>
          { s with
            object := h.state, memory := h.memory
            commandFinished := s.commandFinished || h.weakUp
            updates := s.updates + 1 }
  | .waits => { s with consumer := .getTrackedDevices }
  | .getTrackedDevices =>
      { s with
        consumer := .resume
        deviceStatus := some (HostCommand.getTrackedDevices s.object) }
  | .resume => { s with consumer := .waits, commandFinished := false }

def system : System Tracking Action := ⟨Enabled, next⟩

instance (s : Tracking) (a : Action) : Decidable (system.Enabled s a) :=
  inferInstanceAs (Decidable (s.Enabled a))

/-- The state in which `track_devices` returns, on an object in any state. -/
def started (N : Nat) (s : CallState) : Tracking where
  object := { s with status := HostCommand.trackDevices.status }
  memory := zeroed N
  commandFinished := false
  consumer := .waits
  deviceStatus := none
  updates := 0

/-- The consumer sleeps in `waits()`. -/
def Blocked (s : Tracking) : Prop := s.consumer = .waits ∧ s.commandFinished = false

instance (s : Tracking) : Decidable s.Blocked := inferInstanceAs (Decidable (_ ∧ _))

end Tracking
end AdbClient.Source
