import AdbClient.Source.AdbCommand
import AdbClient.Source.Utils

/-!
# host_command.cpp

Each operation is the record of what it sets up, under its own name; `Call`
lists them with their arguments.
-/
namespace AdbClient.Source.HostCommand

def defualtOnConnectionCallback := connectionCallback

def hostOperation (command : Bytes) (status : Int)
    (onMessage : CallState → Buffer → Except Fault Handled) : Operation where
  command := command
  status := status
  onConnection := defualtOnConnectionCallback command
  onMessage := onMessage

/-- A number that `std::stoi` rejects leaves the callback by an exception. -/
def getVersion : Operation :=
  hostOperation (ascii "host:version") (-1) fun s buf => do
    let (status, data, error) ← readProtocolString buf [] s.error
    let version ← if status ≠ -1 ∧ data ≠ [] then stoi16 data else pure s.version
    return {
      state := { s with status, version, error }, written := []
      memory := buf.memset, weakUp := false }

def getDevices : Operation := hostOperation (ascii "host:devices") 0 readToOutput

def getDevicesWithPath : Operation :=
  hostOperation (ascii "host:devices-l") (-1) fun s buf => do
    let (status, output, error) ← readProtocolString buf s.output s.error
    let output := if status ≠ -1 then uniqueSpaces output else output
    return {
      state := { s with status, output, error }, written := []
      memory := buf.memset, weakUp := false }

def kill : Operation := hostOperation (ascii "host:kill") (-1) readAndDiscard

/-- The one operation that does not wait: its message callback wakes whoever
does. -/
def trackDevices : Operation :=
  hostOperation (ascii "host:track-devices") 0 fun s buf => do
    let (status, trackedDevice, error) ← readProtocolString buf [] s.error
    return {
      state := { s with status, trackedDevice, error }, written := []
      memory := buf.memset, weakUp := true }

/-- The string the tracking callback last stored. -/
def getTrackedDevices (s : CallState) : Bytes := s.trackedDevice

def connect (host port : Bytes) : Operation :=
  hostOperation (ascii "host:connect:" ++ host ++ ascii ":" ++ port) (-1) readAndDiscard

def disconnect (host port : Bytes) : Operation :=
  hostOperation (ascii "host:disconnect:" ++ host ++ ascii ":" ++ port) (-1) readAndDiscard

inductive Call where
  | getVersion | getDevices | getDevicesWithPath | kill | trackDevices
  | connect (host port : Bytes)
  | disconnect (host port : Bytes)
  deriving DecidableEq, Repr

def Call.operation : Call → Operation
  | .getVersion => HostCommand.getVersion
  | .getDevices => HostCommand.getDevices
  | .getDevicesWithPath => HostCommand.getDevicesWithPath
  | .kill => HostCommand.kill
  | .trackDevices => HostCommand.trackDevices
  | .connect host port => HostCommand.connect host port
  | .disconnect host port => HostCommand.disconnect host port

end AdbClient.Source.HostCommand
