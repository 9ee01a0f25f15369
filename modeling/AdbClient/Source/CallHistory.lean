import AdbClient.Source.Operations

/-!
# A command object across its calls

A call leaves its members to the next one: `m_error`, `m_tracked_device` and
`m_shell_data`. Its locals start afresh and its output arguments are the
caller's. A history is the list of the calls made on one object, each with the
messages its connection received; `run` is how a class carries out one of its
calls.
-/
namespace AdbClient.Source

structure Members where
  error : Bytes
  trackedDevice : Bytes
  shellData : Bytes
  deriving DecidableEq, Repr

def CallState.members (s : CallState) : Members := ⟨s.error, s.trackedDevice, s.shellData⟩

/-- One call: the operation, the output arguments as the caller hands them in, and
the messages received. -/
structure Invocation (κ : Type) where
  call : κ
  output : Bytes
  version : Int
  messages : List Bytes
  deriving DecidableEq, Repr

namespace Members
variable {κ : Type}

/-- The members of a new object. -/
def new : Members := CallState.fresh.members

def enter (o : Members) (i : Invocation κ) : CallState where
  status := 0
  output := i.output
  version := i.version
  error := o.error
  trackedDevice := o.trackedDevice
  shellData := o.shellData

variable (run : κ → Nat → CallState → List Bytes → Except Fault Session) (N : Nat)

def invoke (o : Members) (i : Invocation κ) : Except Fault Session :=
  run i.call N (o.enter i) i.messages

/-- The object after a history of calls that all came back. -/
def after (o : Members) (history : List (Invocation κ)) : Except Fault Members :=
  history.foldlM (fun o i => (o.invoke run N i).map (·.state.members)) o

def invokeAfter (o : Members) (history : List (Invocation κ)) (i : Invocation κ) :
    Except Fault Session := do
  let o' ← o.after run N history
  o'.invoke run N i

end Members
end AdbClient.Source
