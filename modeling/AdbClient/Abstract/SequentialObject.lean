import AdbClient.Abstract.Conversation
import AdbClient.Source.Execution
import AdbClient.Support.Simulation

/-!
# A command object as its caller may think of it

One call after the other, each with a connection of its own that is refused or
serves it messages, and nothing else in between. A call finds the members the one
before left, and what its connection did is a session of the source's callbacks,
run from beginning to end.
-/
namespace AdbClient.Abstract
open Source Support.Transition

/-- How a connection came out. -/
inductive Attempt where
  | refused
  | served (messages : List Bytes)

def Attempt.Fits (N : Nat) : Attempt → Prop
  | .refused => True
  | .served msgs => Fit N msgs

/-- A refused connection only sees the close event. -/
def attempt (op : Operation) (N : Nat) (s : CallState) : Attempt → Except Fault Session
  | .refused => op.step (op.start N s) .closed
  | .served msgs => op.call N s msgs

/-- A call that has returned: its arguments and all its connection did. -/
structure Completed where
  call : WaitingCall
  output : Bytes
  version : Int
  session : Session

/-- What the call found. -/
def Completed.entry (i : Completed) (o : Members) : CallState :=
  o.enter (⟨i.call, i.output, i.version, []⟩ : Invocation WaitingCall)

/-- The object between two calls is its members, and a call is one step. -/
def sequential (N : Nat) : System Members Completed where
  Enabled o i := ∃ a : Attempt, a.Fits N ∧
    attempt i.call.call.operation N (i.entry o) a = .ok i.session
  next _ i := i.session.state.members

section Sessions
variable {N : Nat} {op : Operation} {s : CallState} {x y : Session} {msgs : List Bytes}

theorem underway_nil {opened : Session} (h : op.step (op.start N s) .connected = .ok opened) :
    op.underway N s [] = .ok opened := by
  rw [Operation.underway, h]
  rfl

/-- One more message on an open connection. -/
theorem underway_concat {m : Bytes} (h : op.underway N s msgs = .ok x)
    (hstep : op.step x (.message m) = .ok y) : op.underway N s (msgs ++ [m]) = .ok y := by
  obtain ⟨opened, hopened, hreceive⟩ := Support.Stream.bind_eq_ok h
  rw [Operation.receive] at hreceive
  rw [Operation.underway, hopened, Support.Stream.ok_bind, Operation.receive, List.map_append,
    List.foldlM_append, hreceive, Support.Stream.ok_bind, List.map_singleton, List.foldlM_cons,
    hstep]
  rfl

/-- The close event makes a whole call of it. -/
theorem call_of_underway (h : op.underway N s msgs = .ok x) (hstep : op.step x .closed = .ok y) :
    op.call N s msgs = .ok y := by
  obtain ⟨opened, hopened, hreceive⟩ := Support.Stream.bind_eq_ok h
  rw [Operation.call, hopened, Support.Stream.ok_bind, hreceive, Support.Stream.ok_bind, hstep]

end Sessions
end AdbClient.Abstract
