import AdbClient.Source.AdbCommand

/-!
# local_command.cpp

Every operation first asks the server for a transport to the device and then,
once the transport is acknowledged, for a service of the device: `cmd`. The
service request is written by the message callback.
-/
namespace AdbClient.Source

/-- An operation together with its local `cmd`. -/
structure LocalOperation extends Operation where
  cmd : Bytes

namespace LocalCommand

def defualtOnConnectionCallback := connectionCallback

def transportRequest (serial : Bytes) : Bytes := ascii "host:transport:" ++ serial

def localOperation (serial cmd : Bytes) (status : Int)
    (onMessage : CallState → Buffer → Except Fault Handled) : LocalOperation where
  command := transportRequest serial
  status := status
  onConnection := defualtOnConnectionCallback (transportRequest serial)
  onMessage := onMessage
  cmd := cmd

/-- `status = respond_transport_command(channel, buf, cmd); memset(...)`. -/
def respondOnly (cmd : Bytes) (s : CallState) (buf : Buffer) : Except Fault Handled := do
  let (status, written) ← respondTransportCommand buf cmd
  return { state := { s with status }, written, memory := buf.memset, weakUp := false }

/-- Each message that is no refusal and does not start with `OKAY` replaces
`m_shell_data`. -/
def shell (serial command : Bytes) : LocalOperation :=
  let cmd := ascii "shell:" ++ command
  localOperation serial cmd 0 fun s buf => do
    let (status, written) ← respondTransportCommand buf cmd
    let shellData ←
      if status ≠ -1 then
        if ← buf.strncmp okay 4 then pure s.shellData else buf.cStringAt 0
      else pure s.shellData
    return {
      state := { s with status, shellData }, written, memory := buf.memset, weakUp := false }

def sync (serial : Bytes) : LocalOperation :=
  let cmd := ascii "sync:"
  localOperation serial cmd (-1) (respondOnly cmd)

/-- The handshake is written out again here, with `strcmp` for `strncmp`. The
second comparison lacks its `== 0`: a message of four bytes other than `OKAY`
is a failure unless it is `FAIL`. -/
def screencap (serial : Bytes) : LocalOperation :=
  let cmd := ascii "shell:/system/bin/screencap -p"
  localOperation serial cmd (-1) fun s buf => do
    let (s, written) ←
      if buf.size = 4 then
        if ← buf.strcmp okay then pure ({ s with status := 0 }, [frame cmd])
        else if !(← buf.strcmp fail) then pure ({ s with status := -1 }, [])
        else pure (s, [])
      else pure ({ s with output := s.output ++ buf.payload }, [])
    return { state := s, written, memory := buf.memset, weakUp := false }

def tcpip (serial : Bytes) (port : UInt32) : LocalOperation :=
  let cmd := ascii "tcpip:" ++ formatUnsigned port.toNat
  localOperation serial cmd (-1) (respondOnly cmd)

def usb (serial : Bytes) : LocalOperation :=
  let cmd := ascii "usb:"
  localOperation serial cmd (-1) (respondOnly cmd)

def root (serial : Bytes) : LocalOperation :=
  let cmd := ascii "root:"
  localOperation serial cmd (-1) (respondOnly cmd)

def reverse (serial localSpec remote : Bytes) (norebind : Bool) : LocalOperation :=
  let cmd :=
    if norebind then ascii "reverse:forward:norebind:" ++ localSpec ++ ascii ";" ++ remote
    else ascii "reverse:forward:" ++ localSpec ++ ascii ";" ++ remote
  localOperation serial cmd (-1) (respondOnly cmd)

/-- What follows the first eight bytes is appended when the text of the message
contains `OKAY` anywhere, what follows the first four otherwise. -/
def listReverse (serial : Bytes) : LocalOperation :=
  let cmd := ascii "reverse:list-forward"
  localOperation serial cmd (-1) fun s buf => do
    let (status, written) ← respondTransportCommand buf cmd
    let output ←
      if status ≠ -1 then
        if ← buf.strstr okay then pure (s.output ++ (← buf.cStringAt 8))
        else pure (s.output ++ (← buf.cStringAt 4))
      else pure s.output
    return {
      state := { s with status, output }, written, memory := buf.memset, weakUp := false }

def killReverse (serial localSpec : Bytes) : LocalOperation :=
  let cmd := ascii "reverse:killforward:" ++ localSpec
  localOperation serial cmd (-1) (respondOnly cmd)

def killReverseAll (serial : Bytes) : LocalOperation :=
  let cmd := ascii "reverse:killforward-all"
  localOperation serial cmd (-1) (respondOnly cmd)

inductive Call where
  | shell (serial command : Bytes)
  | sync (serial : Bytes)
  | screencap (serial : Bytes)
  | tcpip (serial : Bytes) (port : UInt32)
  | usb (serial : Bytes)
  | root (serial : Bytes)
  | reverse (serial localSpec remote : Bytes) (norebind : Bool)
  | listReverse (serial : Bytes)
  | killReverse (serial localSpec : Bytes)
  | killReverseAll (serial : Bytes)
  deriving DecidableEq, Repr

def Call.operation : Call → LocalOperation
  | .shell serial command => LocalCommand.shell serial command
  | .sync serial => LocalCommand.sync serial
  | .screencap serial => LocalCommand.screencap serial
  | .tcpip serial port => LocalCommand.tcpip serial port
  | .usb serial => LocalCommand.usb serial
  | .root serial => LocalCommand.root serial
  | .reverse serial localSpec remote norebind =>
      LocalCommand.reverse serial localSpec remote norebind
  | .listReverse serial => LocalCommand.listReverse serial
  | .killReverse serial localSpec => LocalCommand.killReverse serial localSpec
  | .killReverseAll serial => LocalCommand.killReverseAll serial

def Call.serial : Call → Bytes
  | .shell serial _ | .sync serial | .screencap serial | .tcpip serial _ | .usb serial
  | .root serial | .reverse serial _ _ _ | .listReverse serial | .killReverse serial _
  | .killReverseAll serial => serial

def getShellData (s : CallState) : Bytes := s.shellData

/-- The operations that run `shell`. -/
inductive ShellCall where
  | shell (serial command : Bytes)
  | listPackages (serial : Bytes)
  | logcat (serial : Bytes)
  | getProperties (serial : Bytes)
  deriving DecidableEq, Repr

namespace ShellCall

/-- The call of `shell` that does the work. -/
def inner : ShellCall → LocalCommand.Call
  | .shell serial command => .shell serial command
  | .listPackages serial => .shell serial (ascii "pm list packages")
  | .logcat serial => .shell serial (ascii "logcat")
  | .getProperties serial => .shell serial (ascii "getprop")

/-- The two that have an output argument assign `m_shell_data` to it when `shell`
has returned. -/
def outputAfter : ShellCall → CallState → Bytes
  | .listPackages _, s | .getProperties _, s => s.shellData
  | .shell _ _, s | .logcat _, s => s.output

def call (c : ShellCall) (N : Nat) (s : CallState) (msgs : List Bytes) :
    Except Fault Session := do
  let x ← c.inner.operation.call N s msgs
  return { x with state := { x.state with output := c.outputAfter x.state } }

end ShellCall

end LocalCommand

end AdbClient.Source
