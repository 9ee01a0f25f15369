import AdbClient.Source.AdbCommand

/-!
# host_serial_command.cpp

The arguments are pasted into `m_command` as they are.
-/
namespace AdbClient.Source.HostSerialCommand

def defualtOnConnectionCallback := connectionCallback

/-- All seven operations start from `status = -1`. -/
def serialOperation (command : Bytes)
    (onMessage : CallState → Buffer → Except Fault Handled) : Operation where
  command := command
  status := -1
  onConnection := defualtOnConnectionCallback command
  onMessage := onMessage

def hostSerial (serial request : Bytes) : Bytes :=
  ascii "host-serial:" ++ serial ++ request

def forward (serial localSpec remote : Bytes) (norebind : Bool) : Operation :=
  serialOperation
    (hostSerial serial
      (if norebind then ascii ":forward:norebind:" ++ localSpec ++ ascii ";" ++ remote
        else ascii ":forward:" ++ localSpec ++ ascii ";" ++ remote))
    readAndDiscard

def listForward (serial : Bytes) : Operation :=
  serialOperation (hostSerial serial (ascii ":list-forward")) readToOutput

def killForward (serial localSpec : Bytes) : Operation :=
  serialOperation (hostSerial serial (ascii ":killforward:" ++ localSpec)) readAndDiscard

def killForwardAll (serial : Bytes) : Operation :=
  serialOperation (hostSerial serial (ascii ":killforward-all")) readAndDiscard

def getDevicePath (serial : Bytes) : Operation :=
  serialOperation (hostSerial serial (ascii ":get-devpath")) readToOutput

def getSerialNo (serial : Bytes) : Operation :=
  serialOperation (hostSerial serial (ascii ":get-serialno")) readToOutput

def getState (serial : Bytes) : Operation :=
  serialOperation (hostSerial serial (ascii ":get-state")) readToOutput

inductive Call where
  | forward (serial localSpec remote : Bytes) (norebind : Bool)
  | listForward (serial : Bytes)
  | killForward (serial localSpec : Bytes)
  | killForwardAll (serial : Bytes)
  | getDevicePath (serial : Bytes)
  | getSerialNo (serial : Bytes)
  | getState (serial : Bytes)
  deriving DecidableEq, Repr

def Call.operation : Call → Operation
  | .forward serial localSpec remote norebind =>
      HostSerialCommand.forward serial localSpec remote norebind
  | .listForward serial => HostSerialCommand.listForward serial
  | .killForward serial localSpec => HostSerialCommand.killForward serial localSpec
  | .killForwardAll serial => HostSerialCommand.killForwardAll serial
  | .getDevicePath serial => HostSerialCommand.getDevicePath serial
  | .getSerialNo serial => HostSerialCommand.getSerialNo serial
  | .getState serial => HostSerialCommand.getState serial

end AdbClient.Source.HostSerialCommand
