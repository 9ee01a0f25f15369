import AdbClient.Source.EventLoop
import AdbClient.Source.Execution

/-!
# A command object from its constructor on, with its callbacks

`Execution` lets the callbacks run on a loop that runs, `LoopedObject` has the loop
start with the first call. Here both are one: the callbacks are run by the channel's
events, the start of the loop and its queue run none.
-/
namespace AdbClient.Source
open Support.Transition

/-- A step of either thread, with the output arguments of the caller. -/
structure LoopedMove where
  action : LoopedObject.Action
  output : Bytes
  version : Int

structure LoopedExecution where
  looped : LoopedObject
  entry : CallState
  session : Session

namespace LoopedExecution

/-- The object and what its callbacks read and change. -/
def execution (x : LoopedExecution) : Execution := ⟨x.looped.object, x.entry, x.session⟩

/-- No callback of the step leaves by a fault. -/
def handles (x : LoopedExecution) : LoopedObject.Action → Bool
  | .step a => (x.execution.handle a).isOk
  | _ => true

def Enabled (x : LoopedExecution) (m : LoopedMove) : Prop :=
  x.looped.Enabled m.action ∧ x.handles m.action

instance (x : LoopedExecution) (m : LoopedMove) : Decidable (x.Enabled m) :=
  inferInstanceAs (Decidable (_ ∧ _ = true))

def next (x : LoopedExecution) (m : LoopedMove) : LoopedExecution :=
  match m.action with
  | .step a =>
      let after := x.execution.next ⟨a, m.output, m.version⟩
      { looped := x.looped.next (.step a), entry := after.entry, session := after.session }
  | a => { x with looped := x.looped.next a }

def system : System LoopedExecution LoopedMove := ⟨Enabled, next⟩

instance (x : LoopedExecution) (m : LoopedMove) : Decidable (system.Enabled x m) :=
  inferInstanceAs (Decidable (x.Enabled m))

/-- No call has begun, the loop has never run, the read buffer is zeroed. -/
def Fresh (N : Nat) (o : Members) (x : LoopedExecution) : Prop :=
  x.looped.Fresh ∧ x.session.memory = zeroed N ∧ x.session.state.members = o

/-- A command object as its constructors leave it. -/
def fresh (N : Nat) : LoopedExecution where
  looped := .fresh
  entry := .fresh
  session := ⟨.fresh, zeroed N, false, []⟩

theorem fresh_fresh (N : Nat) : (fresh N).Fresh N Members.new :=
  ⟨LoopedObject.fresh_fresh, rfl, rfl⟩

end LoopedExecution
end AdbClient.Source
