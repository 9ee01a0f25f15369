import AdbClient.Source.HostCommand
import AdbClient.Source.HostSerialCommand
import AdbClient.Source.LocalCommand

/-!
# The operations of the three command classes together
-/
namespace AdbClient.Source

/-- Whether `NDEBUG` is defined: in a `release` build `ADB_LOGI` is nothing. -/
inductive Build where
  | debug | release
  deriving DecidableEq, Repr

inductive Call where
  | host (c : HostCommand.Call)
  | hostSerial (c : HostSerialCommand.Call)
  | device (c : LocalCommand.Call)
  deriving DecidableEq, Repr

namespace Call

def operation : Call → Operation
  | .host c => c.operation
  | .hostSerial c => c.operation
  | .device c => c.operation.toOperation

def run (c : Call) (N : Nat) (s : CallState) (msgs : List Bytes) : Except Fault Session :=
  c.operation.call N s msgs

/-- The line a message callback logs before it does anything else: the read buffer as
a C string, and only `screencap` the size of the message. -/
def log (build : Build) (c : Call) (buf : Buffer) : Except Fault Unit :=
  match build, c with
  | .release, _ | .debug, .device (.screencap _) => .ok ()
  | .debug, _ => do
      let _ ← buf.cStringAt 0
      return ()

/-- The operations of the two host classes. -/
def OnHost : Call → Prop
  | .device _ => False
  | _ => True

instance : (c : Call) → Decidable c.OnHost
  | .device _ => isFalse id
  | .host _ | .hostSerial _ => isTrue trivial

/-- All operations but `track_devices` end in `waits()`. -/
def Waits : Call → Prop
  | .host .trackDevices => False
  | _ => True

/-- The operations of the two host classes that end in `waits()`. -/
def WaitsOnHost : Call → Prop
  | .device _ => False
  | c => c.Waits

theorem WaitsOnHost.onHost {c : Call} (h : c.WaitsOnHost) : c.OnHost := by
  cases c with
  | device c => exact h.elim
  | host c => trivial
  | hostSerial c => trivial

/-- The callbacks that hand the message and the caller's output string to
`read_protocol_string` and do nothing else. -/
def PassesOutput : Call → Prop
  | .host .getDevices => True
  | .hostSerial (.listForward _) | .hostSerial (.getDevicePath _)
  | .hostSerial (.getSerialNo _) | .hostSerial (.getState _) => True
  | _ => False

/-- Each connection callback is the default one for the operation's own command. -/
theorem operation_onConnection (c : Call) :
    c.operation.onConnection = connectionCallback c.operation.command := by
  cases c with
  | host c => cases c <;> rfl
  | hostSerial c => cases c <;> rfl
  | device c => cases c <;> rfl

end Call

/-- What a caller waits for: every operation but `track_devices`, the ones that
run `shell` included. -/
inductive BlockingCall where
  | direct (c : Call) (waits : c.Waits)
  | throughShell (c : LocalCommand.ShellCall)

namespace BlockingCall

def run : BlockingCall → Nat → CallState → List Bytes → Except Fault Session
  | .direct c _ => c.run
  | .throughShell c => c.call

/-- The operation whose callbacks are on the connection. -/
def underlying : BlockingCall → Call
  | .direct c _ => c
  | .throughShell c => .device c.inner

end BlockingCall
end AdbClient.Source
