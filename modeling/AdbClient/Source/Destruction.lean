import AdbClient.Source.EventLoopThread

/-!
# A command object taken apart

`m_tcp_client` is declared before the other members of `AdbCommand`, so it is the
last to go: the callbacks on the loop's thread use the flag, the mutex and the strings
that are destroyed in front of it. `~TcpClientTmpl` then calls `stop(true)`, destroys
the channel and the callbacks with `TcpClientEventLoopTmpl`, and `~EventLoopThread`
joins. The owner may have called `start` and `stop` before, in any order.
-/
namespace AdbClient.Source
open Support.Transition

/-- What is left of the object: all of it, the client, the client with its loop
stopped, the loop's thread. -/
inductive Remains where
  | whole | client | stopped | loop
  deriving DecidableEq, Repr

structure OwnedObject where
  life : EventLoopThread
  remains : Remains
  deriving DecidableEq, Repr

namespace OwnedObject

inductive Action where
  | life (a : EventLoopThread.Action)
  | destroyMembers
  | destroyCallbacks
  deriving DecidableEq, Repr

/-- The owner calls what he likes as long as the object is whole, afterwards the
destructors call one `stop` each. -/
def MayCall (remains : Remains) : EventLoopThread.Action → Prop
  | .start | .stop .returns => remains = .whole
  | .stop .joins => remains = .whole ∨ remains = .client
  | .stop .destroys => remains = .loop
  | .owner _ | .thread | .overlook | .callback => True

instance (remains : Remains) : (a : EventLoopThread.Action) → Decidable (MayCall remains a)
  | .start | .stop .returns => inferInstanceAs (Decidable (remains = .whole))
  | .stop .joins => inferInstanceAs (Decidable (_ ∨ _))
  | .stop .destroys => inferInstanceAs (Decidable (remains = .loop))
  | .owner _ | .thread | .overlook | .callback => isTrue trivial

/-- The owner is between two calls. -/
def Between (s : EventLoopThread) : Prop := s.failure = none ∧ s.owner = .idle

instance (s : EventLoopThread) : Decidable (Between s) := inferInstanceAs (Decidable (_ ∧ _))

def Enabled (s : OwnedObject) : Action → Prop
  | .life a => MayCall s.remains a ∧ s.life.Enabled a
  | .destroyMembers => s.remains = .whole ∧ Between s.life
  | .destroyCallbacks => s.remains = .stopped ∧ Between s.life

instance (s : OwnedObject) : (a : Action) → Decidable (s.Enabled a)
  | .life _ | .destroyMembers | .destroyCallbacks => inferInstanceAs (Decidable (_ ∧ _))

def next (s : OwnedObject) : Action → OwnedObject
  | .life a =>
      { life := s.life.next a
        remains := if s.remains = .client ∧ a = .stop .joins then .stopped else s.remains }
  | .destroyMembers => { s with remains := .client }
  | .destroyCallbacks => { s with remains := .loop }

def system : System OwnedObject Action := ⟨Enabled, next⟩

instance (s : OwnedObject) (a : Action) : Decidable (system.Enabled s a) :=
  inferInstanceAs (Decidable (s.Enabled a))

/-- As the constructors leave it. -/
def fresh : OwnedObject := ⟨.fresh, .whole⟩

end OwnedObject
end AdbClient.Source
