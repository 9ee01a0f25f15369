import AdbClient.Support.Transition

/-!
# TcpClient.h and Channel.h: the channel and startConnect

Of a channel only the status counts here. `isOpened` also asks the event library
whether its own handle is open; the status rules are all that is assumed of it.
TLS, reconnecting and the timeouts are off in every command object.
-/
namespace AdbClient.Source

/-- `Channel::Status`, in the order of the source. -/
inductive ChannelStatus where
  | opened | connecting | connected | disconnected | closed
  deriving DecidableEq, Repr

namespace ChannelStatus

def rank : ChannelStatus → Nat
  | opened => 0
  | connecting => 1
  | connected => 2
  | disconnected => 3
  | closed => 4

/-- `if (status >= DISCONNECTED) return false;` -/
def isOpened (status : ChannelStatus) : Bool := decide (status.rank < disconnected.rank)

end ChannelStatus

/-- `channel == NULL || channel->isClosed()`. -/
def closedOrNull : Option ChannelStatus → Bool
  | none => true
  | some status => !status.isOpened

def isConnected : Option ChannelStatus → Bool
  | some .connected => true
  | _ => false

/-- A new socket makes a new channel; without one the old channel stays. -/
def createsocket (created : Bool) (channel : Option ChannelStatus) : Option ChannelStatus :=
  if created then some .opened else channel

/-- The channel `startConnect` leaves, when `createsocket` would succeed or not. -/
def startConnect (created : Bool) (channel : Option ChannelStatus) : Option ChannelStatus :=
  if closedOrNull channel && !created then channel
  else
    let channel := if closedOrNull channel then createsocket created channel else channel
    match channel with
    | none => channel
    | some status =>
        if ChannelStatus.connecting.rank ≤ status.rank then channel else some .connecting

/-- A connection is under way or established. -/
def Live (channel : Option ChannelStatus) : Prop :=
  channel = some .connecting ∨ channel = some .connected

instance (channel : Option ChannelStatus) : Decidable (Live channel) :=
  inferInstanceAs (Decidable (_ ∨ _))

/-- `startConnect` starts a connection. -/
def Opens (created : Bool) (channel : Option ChannelStatus) : Prop :=
  channel = some .opened ∨ (closedOrNull channel ∧ created)

instance (created : Bool) (channel : Option ChannelStatus) : Decidable (Opens created channel) :=
  inferInstanceAs (Decidable (_ ∨ _))

/-- Either a connection is started or nothing happens. -/
theorem startConnect_eq (created : Bool) (channel : Option ChannelStatus) :
    startConnect created channel =
      if Opens created channel then some .connecting else channel := by
  cases channel with
  | none => cases created <;> rfl
  | some status => cases status <;> cases created <;> rfl

/-- With a socket at hand, there is a connection afterwards. -/
theorem live_startConnect (channel : Option ChannelStatus) : Live (startConnect true channel) := by
  cases channel with
  | none => exact .inl rfl
  | some status => cases status <;> first | exact .inl rfl | exact .inr rfl

theorem isConnected_of_not_live {channel : Option ChannelStatus} (h : ¬ Live channel) :
    isConnected channel = false := by
  cases channel with
  | none => rfl
  | some status =>
    cases status with
    | connected => exact absurd (.inr rfl) h
    | _ => rfl

end AdbClient.Source
