import AdbClient.Source.AdbProtocol

/-!
# adb_command.cpp: one call of an operation on one connection

Every waiting operation sets `m_command` and two callbacks, starts a connection
and blocks in `waits()` until the connection callback has called `weak_up()`.
This module follows one connection as the loop thread sees it: the connected
event, the messages in the order received, the close event. The two threads and
the channel behind the connection are in `TcpClient` and `CommandLoop`.
-/
namespace AdbClient.Source

/-- What a message callback can read and change: the locals and the output
argument its lambda captures by reference, and the members of the command
object. An operation without an output string, or of a class without the member,
never touches the field. -/
structure CallState where
  status : Int
  output : Bytes
  version : Int
  error : Bytes
  trackedDevice : Bytes
  shellData : Bytes
  deriving DecidableEq, Repr

/-- The members of a command object nothing was called on yet, with empty output
arguments. -/
def CallState.fresh : CallState where
  status := 0
  output := []
  version := 0
  error := []
  trackedDevice := []
  shellData := []

def errorMessage (s : CallState) : Bytes := s.error

/-- What one run of a message callback leaves behind: the state, the strings
given to `channel->write` in order, the read buffer, and whether it called
`weak_up()`. -/
structure Handled where
  state : CallState
  written : List Bytes
  memory : Bytes
  weakUp : Bool
  deriving DecidableEq, Repr

/-- What an operation sets up before it starts the connection: `m_command`, the
initial value of the local `status`, and the two callbacks. The connection
callback gets `channel->isConnected()` and returns what it writes and whether it
calls `weak_up()`. -/
structure Operation where
  command : Bytes
  status : Int
  onConnection : Bool → List Bytes × Bool
  onMessage : CallState → Buffer → Except Fault Handled

/-- The body shared by the three `defualt_on_connection_callback`s. -/
def connectionCallback (command : Bytes) (isConnected : Bool) : List Bytes × Bool :=
  if isConnected then ([frame command], false) else ([], true)

/-- `status = read_protocol_string(buf, <output argument>, m_error)`. -/
def readToOutput (s : CallState) (buf : Buffer) : Except Fault Handled := do
  let (status, output, error) ← readProtocolString buf s.output s.error
  return {
    state := { s with status, output, error }, written := []
    memory := buf.memset, weakUp := false }

/-- `std::string data; status = read_protocol_string(buf, data, m_error)`, where
nothing reads `data` afterwards. -/
def readAndDiscard (s : CallState) (buf : Buffer) : Except Fault Handled := do
  let (status, _, error) ← readProtocolString buf [] s.error
  return {
    state := { s with status, error }, written := [], memory := buf.memset, weakUp := false }

inductive Event where
  | connected
  | message (bytes : Bytes)
  | closed
  deriving DecidableEq, Repr

/-- One connection under way. The log pairs every event handled so far with what
was written while it was handled. -/
structure Session where
  state : CallState
  memory : Bytes
  finished : Bool
  log : List (Event × List Bytes)
  deriving DecidableEq, Repr

namespace Session

/-- The byte strings written so far, in order. -/
def written (x : Session) : List Bytes := x.log.flatMap Prod.snd

/-- The bytes on the wire. -/
def wire (x : Session) : Bytes := x.written.flatten

/-- `waits(); ...; return status;` -/
def returned (x : Session) : Option Int := if x.finished then some x.state.status else none

end Session

namespace Operation

/-- The command object in state `s` when the loop starts on this connection. -/
def start (op : Operation) (N : Nat) (s : CallState) : Session where
  state := { s with status := op.status }
  memory := zeroed N
  finished := false
  log := []

def step (op : Operation) (x : Session) : Event → Except Fault Session
  | .connected =>
      let (written, weakUp) := op.onConnection true
      .ok { x with finished := x.finished || weakUp, log := x.log ++ [(.connected, written)] }
  | .message m => do
      let h ← op.onMessage x.state (deliver x.memory m)
      return {
        state := h.state, memory := h.memory
        finished := x.finished || h.weakUp
        log := x.log ++ [(.message m, h.written)] }
  | .closed =>
      let (written, weakUp) := op.onConnection false
      .ok { x with finished := x.finished || weakUp, log := x.log ++ [(.closed, written)] }

def receive (op : Operation) (x : Session) (msgs : List Bytes) : Except Fault Session :=
  (msgs.map Event.message).foldlM op.step x

/-- A call whose connection is still open: connected, the messages so far. -/
def underway (op : Operation) (N : Nat) (s : CallState) (msgs : List Bytes) :
    Except Fault Session := do
  let opened ← op.step (op.start N s) .connected
  op.receive opened msgs

/-- A whole call: connected, the messages, closed. -/
def call (op : Operation) (N : Nat) (s : CallState) (msgs : List Bytes) :
    Except Fault Session := do
  let opened ← op.step (op.start N s) .connected
  let received ← op.receive opened msgs
  op.step received .closed

end Operation
end AdbClient.Source
