import AdbClient.Source.TrackedConnection
import AdbClient.Support.Simulation

/-!
# What the tracking loop reads

The loop in `main` reads when something has woken it: an update that was stored, or
the end of a connection, which leaves the string stored last to be read once more.
A wake may be skipped, but between two reads there is always one. `track_devices`
starts twice, so a connection that ends early is followed by another one; when there
is none left to come the loop sleeps for good.
-/
namespace AdbClient.Guarantees.TrackedReads
open Source Support.Transition TrackedConnection

/-- What a step does to the string: the loop thread stores it, the end of a connection
wakes the loop with it as it is, the consumer reads it. -/
inductive Shown where
  | stored (text : Bytes)
  | ended (text : Bytes)
  | read (text : Bytes)
  deriving DecidableEq, Repr

/-- The string the tracking callback has stored last. -/
def trackedText (s : TrackedConnection) : Bytes := HostCommand.getTrackedDevices s.tracking.object

def shows (s : TrackedConnection) (a : TrackedConnection.Action) : List Shown :=
  match a with
  | .tracked (.message _) => [.stored (trackedText (s.next a))]
  | .tracked .getTrackedDevices => [.read (trackedText s)]
  | .closeCallback => [.ended (trackedText s)]
  | .tracked .waits | .tracked .resume | .startConnect _ | .start | .runQueued _ | .connect
  | .close => []

def stored (shown : List Shown) : List Bytes :=
  shown.filterMap fun
    | .stored text => some text
    | .ended _ | .read _ => none

/-- What the loop is woken for. -/
def offered (shown : List Shown) : List Bytes :=
  shown.filterMap fun
    | .stored text | .ended text => some text
    | .read _ => none

def reads (shown : List Shown) : List Bytes :=
  shown.filterMap fun
    | .stored _ | .ended _ => none
    | .read text => some text

/-- How often a connection has ended. -/
def ends (shown : List Shown) : Nat :=
  shown.countP fun
    | .ended _ => true
    | .stored _ | .read _ => false

/-- The consumer is going to read without waiting. -/
def AboutToRead (s : TrackedConnection) : Prop :=
  s.tracking.consumer = .getTrackedDevices ∨
    (s.tracking.consumer = .waits ∧ s.tracking.commandFinished = true)

/-- Of what is offered the last is the string now, and it has not been read. -/
def Unread (shown : List Shown) (s : TrackedConnection) : Prop :=
  ∃ before, offered shown = before ++ [trackedText s] ∧ (reads shown).Sublist before

/-- The invariant: the consumer only reads what it has not read. -/
structure InOrder (shown : List Shown) (s : TrackedConnection) : Prop where
  once : (reads shown).Sublist (offered shown)
  unread : AboutToRead s → Unread shown s

section Step
variable {s t : TrackedConnection} {shown : List Shown}

theorem inOrder_begun (N : Nat) (s : CallState) (channel : Option ChannelStatus) (queued : Nat) :
    InOrder [] (begun N s channel queued) := by
  refine ⟨List.Sublist.refl _, ?_⟩
  intro hread
  rcases hread with hconsumer | ⟨-, hflag⟩
  · cases hconsumer
  · cases hflag

/-- A step that offers the string it leaves. -/
theorem inOrder_offer {new : List Shown} (h : InOrder shown s)
    (hoffered : offered new = [trackedText t]) (hreads : reads new = []) :
    InOrder (shown ++ new) t := by
  have hall : offered (shown ++ new) = offered shown ++ [trackedText t] := by
    rw [← hoffered]
    exact List.filterMap_append
  have hsame : reads (shown ++ new) = reads shown := by
    rw [reads, List.filterMap_append]
    exact (congrArg (reads shown ++ ·) hreads).trans (List.append_nil _)
  constructor
  · rw [hall, hsame]
    exact h.once.trans (List.sublist_append_left _ _)
  · intro _
    exact ⟨offered shown, hall, by rw [hsame]; exact h.once⟩

/-- A step that neither offers nor reads, and does not bring the consumer to read. -/
theorem inOrder_silent (h : InOrder shown s) (htext : trackedText t = trackedText s)
    (hread : AboutToRead t → AboutToRead s) : InOrder shown t := by
  refine ⟨h.once, ?_⟩
  intro hagain
  obtain ⟨before, hbefore, hsub⟩ := h.unread (hread hagain)
  exact ⟨before, by rw [htext]; exact hbefore, hsub⟩

theorem not_aboutToRead_of_resume (h : s.tracking.consumer = .resume) : ¬ AboutToRead s := by
  simp [AboutToRead, h]

theorem inOrder_getTrackedDevices (henabled : s.Enabled (.tracked .getTrackedDevices))
    (h : InOrder shown s) :
    InOrder (shown ++ shows s (.tracked .getTrackedDevices))
      (s.next (.tracked .getTrackedDevices)) := by
  have hread : AboutToRead s := .inl henabled.2
  have hoffered : offered (shown ++ shows s (.tracked .getTrackedDevices)) = offered shown := by
    simp [offered, shows]
  have hreads : reads (shown ++ shows s (.tracked .getTrackedDevices)) =
      reads shown ++ [trackedText s] := by
    simp [reads, shows]
  have hdone : ¬ AboutToRead (s.next (.tracked .getTrackedDevices)) :=
    not_aboutToRead_of_resume rfl
  obtain ⟨before, hbefore, hsub⟩ := h.unread hread
  refine ⟨?_, fun hagain => absurd hagain hdone⟩
  rw [hoffered, hreads, hbefore]
  exact hsub.append (List.Sublist.refl _)

theorem inOrder_next {a : TrackedConnection.Action} (henabled : s.Enabled a)
    (h : InOrder shown s) : InOrder (shown ++ shows s a) (s.next a) := by
  cases a with
  | tracked a =>
    cases a with
    | message m => exact inOrder_offer h rfl rfl
    | getTrackedDevices => exact inOrder_getTrackedDevices henabled h
    | waits =>
      rw [shows, List.append_nil]
      exact inOrder_silent h rfl fun _ => .inr henabled.2
    | resume =>
      rw [shows, List.append_nil]
      refine inOrder_silent h rfl ?_
      simp [AboutToRead, TrackedConnection.next, Tracking.next]
  | closeCallback => exact inOrder_offer h rfl rfl
  | connect =>
    rw [shows, List.append_nil, next_connect]
    exact inOrder_silent h rfl id
  | startConnect created | start | runQueued created | close =>
    rw [shows, List.append_nil]
    exact inOrder_silent h rfl id

end Step

section Ends
variable {s : TrackedConnection}

/-- How many connections a channel has left to end. -/
def connections : Option ChannelStatus → Nat
  | some .connecting | some .connected => 1
  | none | some .opened | some .disconnected | some .closed => 0

/-- How many starts `track_devices` has left to make or to queue. -/
def startsLeft : TrackingStart → Nat
  | .startConnect => 2
  | .start => 1
  | .returned => 0

/-- The ends that can still come: of the connection there is, of those the starts to
come can open, and the one whose callback is due. -/
def endsLeft (s : TrackedConnection) : Nat :=
  connections s.channel + startsLeft s.starting + s.queued + s.closing.toNat

theorem connections_le (channel : Option ChannelStatus) : connections channel ≤ 1 := by
  unfold connections
  split <;> decide

theorem connections_of_live {channel : Option ChannelStatus} (h : Live channel) :
    connections channel = 1 := by
  rcases h with rfl | rfl <;> rfl

/-- A start makes up for the connection it may open; every other step leaves as many
ends as there were, the one it shows included. -/
theorem endsLeft_next {a : TrackedConnection.Action} (henabled : s.Enabled a) :
    endsLeft (s.next a) + ends (shows s a) ≤ endsLeft s := by
  cases a with
  | tracked a => cases a <;> exact Nat.le_refl _
  | startConnect created =>
    have hstarting : s.starting = .startConnect := henabled
    have hle := connections_le (Source.startConnect created s.channel)
    simp only [endsLeft, TrackedConnection.next, hstarting, startsLeft, shows, ends,
      List.countP_nil]
    omega
  | start =>
    have hstarting : s.starting = .start := henabled
    simp only [endsLeft, TrackedConnection.next, hstarting, startsLeft, shows, ends,
      List.countP_nil]
    omega
  | runQueued created =>
    have hqueued : 0 < s.queued := henabled.2
    have hle := connections_le (Source.startConnect created s.channel)
    simp only [endsLeft, TrackedConnection.next, shows, ends, List.countP_nil]
    omega
  | connect =>
    have hconnecting : s.channel = some .connecting := henabled.2
    rw [next_connect]
    simp [endsLeft, hconnecting, connections, shows, ends]
  | close =>
    have hopen : s.closing = false := henabled.1
    have hone := connections_of_live henabled.2
    have hnone : connections (some .closed) = 0 := rfl
    simp only [endsLeft, TrackedConnection.next, hopen, hone, hnone, shows, ends, List.countP_nil,
      Bool.toNat_true, Bool.toNat_false]
    omega
  | closeCallback =>
    have hclosing : s.closing = true := henabled
    obtain ⟨flag, hnext⟩ := next_closeCallback s
    rw [hnext]
    simp [endsLeft, hclosing, shows, ends]

end Ends

section Runs
variable {N : Nat} {s : CallState} {channel : Option ChannelStatus} {queued : Nat}
  {t u : TrackedConnection} {actions more : List TrackedConnection.Action}

/-- Before the first end nothing but updates is offered. -/
theorem offered_eq_stored {shown : List Shown} (h : ends shown = 0) :
    offered shown = stored shown := by
  refine List.filterMap_congr ?_
  intro x hx
  cases x with
  | ended text => exact absurd rfl (List.countP_eq_zero.mp h _ hx)
  | stored text | read text => rfl

/-- The steps the consumer has left when nothing wakes it any more. -/
def stepsLeft (s : Tracking) : Nat :=
  match s.consumer, s.commandFinished with
  | .waits, true => 3
  | .getTrackedDevices, _ => 2
  | .resume, _ => 1
  | .waits, false => 0

theorem stepsLeft_le (s : Tracking) : stepsLeft s ≤ 3 := by
  unfold stepsLeft
  split <;> decide

/-- With nothing to connect, only the consumer has steps. -/
theorem consumer_of_ended {a : TrackedConnection.Action} (h : t.Ended) (henabled : t.Enabled a) :
    ∃ b, a = .tracked b ∧ t.tracking.Enabled b ∧ ∀ m, b ≠ .message m := by
  cases a with
  | tracked b =>
    cases b with
    | message m => exact absurd (.inr henabled.2.1) h.unconnected
    | waits | getTrackedDevices | resume => exact ⟨_, rfl, henabled.2, nofun⟩
  | startConnect created | start =>
    have hreturned := h.returned
    rw [show t.starting = _ from henabled] at hreturned
    cases hreturned
  | runQueued created =>
    have hqueued : 0 < t.queued := henabled.2
    rw [h.unqueued] at hqueued
    cases hqueued
  | connect => exact absurd (.inl henabled.2) h.unconnected
  | close => exact absurd henabled.2 h.unconnected
  | closeCallback =>
    have hsettled := h.settled
    rw [show t.closing = true from henabled] at hsettled
    cases hsettled

theorem stepsLeft_next {a : TrackedConnection.Action} (h : t.Ended) (henabled : t.Enabled a) :
    (t.next a).Ended ∧ stepsLeft (t.next a).tracking + 1 ≤ stepsLeft t.tracking := by
  obtain ⟨b, rfl, hstep, hno⟩ := consumer_of_ended h henabled
  refine ⟨⟨h.returned, h.unconnected, h.unqueued, h.settled⟩, ?_⟩
  cases b with
  | message m => exact absurd rfl (hno m)
  | waits =>
    obtain ⟨hconsumer, hflag⟩ : t.tracking.consumer = .waits ∧ _ := hstep
    simp [TrackedConnection.next, Tracking.next, stepsLeft, hconsumer, hflag]
  | getTrackedDevices =>
    have hconsumer : t.tracking.consumer = .getTrackedDevices := hstep
    simp [TrackedConnection.next, Tracking.next, stepsLeft, hconsumer]
  | resume =>
    have hconsumer : t.tracking.consumer = .resume := hstep
    simp [TrackedConnection.next, Tracking.next, stepsLeft, hconsumer]

/-- With nothing to connect, only a sleeping consumer has nothing to do. -/
theorem no_step_iff (h : t.Ended) : (∀ a, ¬ t.Enabled a) ↔ t.tracking.Blocked := by
  constructor
  · intro hnone
    cases hconsumer : t.tracking.consumer with
    | waits =>
      refine ⟨hconsumer, ?_⟩
      by_contra hflag
      exact hnone (.tracked .waits) ⟨h.returned, hconsumer, by simpa using hflag⟩
    | getTrackedDevices =>
      exact absurd ⟨h.returned, hconsumer⟩ (hnone (.tracked .getTrackedDevices))
    | resume => exact absurd ⟨h.returned, hconsumer⟩ (hnone (.tracked .resume))
  · intro hblocked a henabled
    have hle := (stepsLeft_next h henabled).2
    have hzero : stepsLeft t.tracking = 0 := by simp [stepsLeft, hblocked.1, hblocked.2]
    omega

/-- What is left to read when nothing connects any more. -/
structure LastRead (text : Bytes) (shown : List Shown) (s : TrackedConnection) : Prop where
  ended : s.Ended
  same : trackedText s = text
  once : (reads shown).Sublist [text]
  unread : AboutToRead s → reads shown = []

theorem lastRead_next {text : Bytes} {shown : List Shown} {a : TrackedConnection.Action}
    (henabled : t.Enabled a) (h : LastRead text shown t) :
    LastRead text (shown ++ shows t a) (t.next a) := by
  have hstill := (stepsLeft_next h.ended henabled).1
  obtain ⟨b, rfl, hstep, hno⟩ := consumer_of_ended h.ended henabled
  cases b with
  | message m => exact absurd rfl (hno m)
  | waits =>
    rw [shows, List.append_nil]
    exact ⟨hstill, h.same, h.once, fun _ => h.unread (.inr hstep)⟩
  | resume =>
    rw [shows, List.append_nil]
    refine ⟨hstill, h.same, h.once, ?_⟩
    simp [AboutToRead, TrackedConnection.next, Tracking.next]
  | getTrackedDevices =>
    have hreads : reads (shown ++ shows t (.tracked .getTrackedDevices)) = [text] := by
      have hnone := h.unread (.inl hstep)
      unfold reads at hnone ⊢
      rw [List.filterMap_append, hnone, ← h.same]
      rfl
    have hdone : ¬ AboutToRead (t.next (.tracked .getTrackedDevices)) :=
      not_aboutToRead_of_resume rfl
    exact ⟨hstill, h.same, by rw [hreads], fun hagain => absurd hagain hdone⟩

/-- **With nothing left to connect the loop sleeps for ever.** From any state in which
no connection is open, no start is queued and `track_devices` has returned, however the
loop goes on: it makes no more than three of its calls and reads no more than the
string stored last, once; and as soon as it has no call left to make it is asleep in
`waits()`, with nothing to wake it. -/
theorem ended_loop_sleeps (hended : t.Ended) (hrun : Run system (fun _ _ => True) t more u) :
    more.length ≤ 3 ∧ (reads (trace system shows t more)).Sublist [trackedText t] ∧
      ((∀ a, ¬ u.Enabled a) ↔ u.tracking.Blocked) := by
  have hstep : ∀ (x : TrackedConnection) a, x.Enabled a → True → x.Ended → (x.next a).Ended :=
    fun x a henabled _ hx => (stepsLeft_next hx henabled).1
  have hu : u.Ended := hrun.invariant Ended hstep hended
  have hstrong := hrun.strengthen Ended hstep hended
  have hlength :=
    hstrong.potential (fun x => stepsLeft x.tracking) (fun _ => true) (fun _ => true) 0
      (fun x a henabled hguard => (stepsLeft_next hguard.2 henabled).2)
  have hle := stepsLeft_le t.tracking
  have hlast : LastRead (trackedText t) ([] ++ trace system shows t more) u :=
    hrun.accumulate (LastRead (trackedText t)) (fun _ _ _ henabled _ h => lastRead_next henabled h)
      ⟨hended, rfl, List.nil_sublist _, fun _ => rfl⟩
  rw [List.nil_append] at hlast
  refine ⟨?_, hlast.once, no_step_iff hu⟩
  rw [List.countP_true] at hlength
  omega

end Runs

/-- An update that is read, and the close before the queued start has run. -/
def firstConnection : List TrackedConnection.Action :=
  [.startConnect true, .start, .connect, .tracked (.message (ascii "OKAY0005phone")),
    .tracked .waits, .tracked .getTrackedDevices, .tracked .resume, .close, .closeCallback]

/-- The loop reads without waiting for news. -/
def oneTurn : List TrackedConnection.Action :=
  [.tracked .waits, .tracked .getTrackedDevices, .tracked .resume]

/-- The queued start opens a connection with news of its own, which ends as well. -/
def secondConnection : List TrackedConnection.Action :=
  [.runQueued true, .connect, .tracked (.message (ascii "OKAY0006tablet"))] ++ oneTurn ++
    [.close, .closeCallback]

def twoConnections : List TrackedConnection.Action :=
  firstConnection ++ oneTurn ++ secondConnection

/-- The second end lets the loop read the last string again. -/
theorem ended_loop_sleeps_twoConnections :
    ∃ t u, Run system (fun _ _ => True) (begun 64 .fresh (some .opened) 0) twoConnections t ∧
      Run system (fun _ _ => True) t oneTurn u ∧
      reads (trace system shows t oneTurn) = [ascii "tablet"] ∧ ∀ a, ¬ u.Enabled a := by
  have hbefore : Run system (fun _ _ => True) (begun 64 .fresh (some .opened) 0) twoConnections _ :=
    .of_check rfl
  have hafter : Run system (fun _ _ => True)
      (twoConnections.foldl next (begun 64 .fresh (some .opened) 0)) oneTurn _ := .of_check rfl
  have hended : (twoConnections.foldl next (begun 64 .fresh (some .opened) 0)).Ended :=
    ⟨rfl, by decide, rfl, rfl⟩
  exact ⟨_, _, hbefore, hafter, by decide,
    (ended_loop_sleeps hended hafter).2.2.mpr ⟨rfl, rfl⟩⟩

end AdbClient.Guarantees.TrackedReads
