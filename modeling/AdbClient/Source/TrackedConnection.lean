import AdbClient.Source.TcpClient
import AdbClient.Source.TrackLoop

/-!
# main.cpp: the tracking loop and its connections

`track_devices` starts the connection on its own thread, queues a second start on
the loop and returns. The server closes the connection sooner or later, and the
connection callback then does what it does for every operation, `weak_up()`: the
loop in `main` has no way to tell that from an update. A queued start that runs
after the close opens a second connection, with the same callbacks.

As in `CommandLoop`, a close event marks the channel closed first and runs the
connection callback, on whichever channel is current by then, afterwards; the loop
thread does nothing else in between.
-/
namespace AdbClient.Source
open Support.Transition

/-- What `track_devices` has still to do. -/
inductive TrackingStart where
  | startConnect | start | returned
  deriving DecidableEq, Repr

/-- `queued` counts the starts queued on the loop, those of earlier calls included;
`closing` is the loop thread between the two halves of a close event. -/
structure TrackedConnection where
  tracking : Tracking
  starting : TrackingStart
  channel : Option ChannelStatus
  queued : Nat
  closing : Bool
  deriving DecidableEq, Repr

namespace TrackedConnection

/-- The steps of the tracking loop, the two starts and the events of a connection. -/
inductive Action where
  | tracked (a : Tracking.Action)
  | startConnect (created : Bool)
  | start
  | runQueued (created : Bool)
  | connect
  | close
  | closeCallback
  deriving DecidableEq, Repr

/-- The connection callback of `track_devices`. -/
def onConnection (s : TrackedConnection) : TrackedConnection :=
  let (_, weakUp) := HostCommand.trackDevices.onConnection (isConnected s.channel)
  { s with
    tracking := { s.tracking with commandFinished := s.tracking.commandFinished || weakUp } }

def Enabled (s : TrackedConnection) : Action → Prop
  | .tracked (.message m) =>
      s.closing = false ∧ s.channel = some .connected ∧ s.tracking.Enabled (.message m)
  | .tracked a => s.starting = .returned ∧ s.tracking.Enabled a
  | .startConnect _ => s.starting = .startConnect
  | .start => s.starting = .start
  | .runQueued _ => s.closing = false ∧ 0 < s.queued
  | .connect => s.closing = false ∧ s.channel = some .connecting
  | .close => s.closing = false ∧ Live s.channel
  | .closeCallback => s.closing = true

instance (s : TrackedConnection) : (a : Action) → Decidable (s.Enabled a)
  | .tracked (.message m) =>
      inferInstanceAs (Decidable (_ ∧ _ ∧ s.tracking.Enabled (.message m)))
  | .tracked .waits => inferInstanceAs (Decidable (_ ∧ s.tracking.Enabled .waits))
  | .tracked .getTrackedDevices =>
      inferInstanceAs (Decidable (_ ∧ s.tracking.Enabled .getTrackedDevices))
  | .tracked .resume => inferInstanceAs (Decidable (_ ∧ s.tracking.Enabled .resume))
  | .startConnect _ => inferInstanceAs (Decidable (s.starting = .startConnect))
  | .start => inferInstanceAs (Decidable (s.starting = .start))
  | .runQueued _ => inferInstanceAs (Decidable (s.closing = false ∧ 0 < s.queued))
  | .connect => inferInstanceAs (Decidable (s.closing = false ∧ s.channel = some .connecting))
  | .close => inferInstanceAs (Decidable (s.closing = false ∧ Live s.channel))
  | .closeCallback => inferInstanceAs (Decidable (s.closing = true))

def next (s : TrackedConnection) : Action → TrackedConnection
  | .tracked a => { s with tracking := s.tracking.next a }
  | .startConnect created =>
      { s with channel := Source.startConnect created s.channel, starting := .start }
  | .start => { s with queued := s.queued + 1, starting := .returned }
  | .runQueued created =>
      { s with channel := Source.startConnect created s.channel, queued := s.queued - 1 }
  | .connect => { s with channel := some .connected }.onConnection
  | .close => { s with channel := some .closed, closing := true }
  | .closeCallback => { s with closing := false }.onConnection

def system : System TrackedConnection Action := ⟨Enabled, next⟩

instance (s : TrackedConnection) (a : Action) : Decidable (system.Enabled s a) :=
  inferInstanceAs (Decidable (s.Enabled a))

/-- `track_devices` has set its callbacks and cleared the flag, on an object in any
state and with whatever earlier calls have left of channel and queue. -/
def begun (N : Nat) (s : CallState) (channel : Option ChannelStatus) (queued : Nat) :
    TrackedConnection :=
  ⟨Tracking.started N s, .startConnect, channel, queued, false⟩

/-- Nothing connects any more: no connection is open or under way, no start is queued
and `track_devices` has none left to make. -/
structure Ended (s : TrackedConnection) : Prop where
  returned : s.starting = .returned
  unconnected : ¬ Live s.channel
  unqueued : s.queued = 0
  settled : s.closing = false

/-- An established connection is no reason to wake. -/
theorem next_connect (s : TrackedConnection) :
    s.next .connect = { s with channel := some .connected } := by
  simp [next, onConnection, HostCommand.trackDevices, HostCommand.hostOperation,
    HostCommand.defualtOnConnectionCallback, connectionCallback, isConnected]

/-- The callback behind a close leaves the string and the consumer alone. -/
theorem next_closeCallback (s : TrackedConnection) :
    ∃ flag, s.next .closeCallback =
      { s with tracking := { s.tracking with commandFinished := flag }, closing := false } :=
  ⟨_, rfl⟩

end TrackedConnection
end AdbClient.Source
