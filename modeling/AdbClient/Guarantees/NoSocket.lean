import AdbClient.Guarantees.WakeUp

/-!
# A call that gets no socket

`AdbCommand::start` drops what `startConnect` returns. When the channel of the call
before is closed and `createsocket` fails, on both threads, there is no channel to
report anything: no event comes, the flag stays cleared, and `waits` does not come
back. Spurious wake-ups and late notifications do not help.
-/
namespace AdbClient.Guarantees.NoSocket
open Source Support.Transition CommandObject

/-- Every call of `createsocket` fails. -/
def CreatesNone (_ : CommandObject) : Action → Prop
  | .startConnect created | .runQueued created => created = false
  | _ => True

instance (s : CommandObject) : (a : Action) → Decidable (CreatesNone s a)
  | .startConnect created | .runQueued created => inferInstanceAs (Decidable (created = false))
  | .setCommand _ | .clearFinished | .start | .test | .wakeSpuriously | .leave | .connect
  | .message _ | .close | .closeCallback | .notifyAll => isTrue trivial

/-- No channel, or one that is over. -/
def Over (channel : Option ChannelStatus) : Prop := ¬ Live channel ∧ channel ≠ some .opened

instance (channel : Option ChannelStatus) : Decidable (Over channel) :=
  inferInstanceAs (Decidable (_ ∧ _))

/-- The invariant of a call nobody will wake: the flag, once cleared, has no close
event in front of it. -/
structure Stranded (history : List Mark) (s : CommandObject) : Prop where
  silent : s.history = history
  begun : s.phase ≠ .idle
  unseen : s.phase ≠ .passed
  cleared : s.phase ≠ .armed → s.commandFinished = false
  channel : Over s.channel
  duty : s.duty ≠ .closing

section Step
variable {s : CommandObject} {history : List Mark}

/-- Without a socket a channel that is over stays. -/
theorem connectTo_over (h : Over s.channel) : s.connectTo false = s := by
  have hopens : ¬ Opens false s.channel := by
    intro hopens
    rcases hopens with hopened | ⟨-, hcreated⟩
    · exact h.2 hopened
    · cases hcreated
  exact connectTo_not_opens hopens

theorem stranded_next {a : Action} (henabled : s.Enabled a) (hguard : CreatesNone s a)
    (h : Stranded history s) : Stranded history (s.next a) := by
  obtain ⟨hsilent, hbegun, hunseen, hcleared, hchannel, hduty⟩ := h
  cases a with
  | setCommand c => exact absurd henabled hbegun
  | leave => exact absurd henabled hunseen
  | connect => exact absurd (.inl henabled.2) hchannel.1
  | message bytes => exact absurd (.inr henabled.2) hchannel.1
  | close => exact absurd henabled.2 hchannel.1
  | closeCallback => exact absurd henabled hduty
  | clearFinished => exact ⟨hsilent, by simp [next], by simp [next], fun _ => rfl, hchannel, hduty⟩
  | startConnect created =>
    obtain rfl : created = false := hguard
    have hp : s.phase = .cleared := henabled
    have hflag := hcleared (by simp [hp])
    simp only [next, connectTo_over hchannel]
    exact ⟨hsilent, by simp, by simp, fun _ => hflag, hchannel, hduty⟩
  | start =>
    have hp : s.phase = .started := henabled
    exact ⟨hsilent, by simp [next], by simp [next], fun _ => hcleared (by simp [hp]), hchannel,
      hduty⟩
  | test =>
    have hp : s.phase = .testing := henabled
    have hflag := hcleared (by simp [hp])
    refine ⟨hsilent, ?_, ?_, fun _ => hflag, hchannel, hduty⟩
    · simp [next, hflag]
    · simp [next, hflag]
  | wakeSpuriously =>
    have hp : s.phase = .blocked := henabled
    exact ⟨hsilent, by simp [next], by simp [next], fun _ => hcleared (by simp [hp]), hchannel,
      hduty⟩
  | runQueued created =>
    obtain rfl : created = false := hguard
    simp only [next, connectTo_over hchannel]
    exact ⟨hsilent, hbegun, hunseen, hcleared, hchannel, hduty⟩
  | notifyAll =>
    simp only [next]
    split
    next hp =>
      exact ⟨hsilent, by simp, by simp, fun _ => hcleared (by simp [hp]), hchannel, by simp⟩
    next => exact ⟨hsilent, hbegun, hunseen, hcleared, hchannel, by simp⟩

end Step

/-- **A call without a socket never returns.** From any state in which a call has
just begun on a channel that is over, with no close callback to come: in every run
in which no socket is created the call does not get past `waits()`, and nothing is
opened, written, dispatched or returned any more. -/
theorem no_socket_never_returns {s t : CommandObject} {actions : List Action}
    (harmed : s.phase = .armed) (hchannel : Over s.channel) (hduty : s.duty ≠ .closing)
    (hrun : Run system CreatesNone s actions t) :
    t.phase ≠ .idle ∧ t.phase ≠ .passed ∧ t.calls = s.calls ∧ t.history = s.history := by
  have hs : Stranded s.history s :=
    ⟨rfl, by simp [harmed], by simp [harmed], fun hne => absurd harmed hne, hchannel, hduty⟩
  have hstep : ∀ u a, u.Enabled a → CreatesNone u a →
      Stranded s.history u ∧ u.calls = s.calls →
      Stranded s.history (u.next a) ∧ (u.next a).calls = s.calls := by
    intro u a henabled hguard hu
    refine ⟨stranded_next henabled hguard hu.1, ?_⟩
    cases a with
    | setCommand c => exact absurd henabled hu.1.begun
    | connect => exact absurd (.inl henabled.2) hu.1.channel.1
    | message bytes => exact absurd (.inr henabled.2) hu.1.channel.1
    | closeCallback => exact absurd henabled hu.1.duty
    | _ => exact hu.2
  have ht := hrun.invariant (fun u => Stranded s.history u ∧ u.calls = s.calls) hstep ⟨hs, rfl⟩
  exact ⟨ht.1.begun, ht.1.unseen, ht.2, ht.1.silent⟩

/-- A call that has had its connection, and the next one begun. -/
def untilSecond : List Action :=
  WakeUp.untilBlocked ++ [.runQueued true, .connect, .close, .closeCallback, .notifyAll, .test,
    .leave, .setCommand ⟨.hostSerial (.getState (ascii "d17cdac6")), trivial⟩]

def stranding : List Action :=
  [.clearFinished, .startConnect false, .start, .test, .runQueued false, .wakeSpuriously]

theorem no_socket_never_returns_second :
    ∃ s t, Run system (fun _ _ => True) fresh untilSecond s ∧ Run system CreatesNone s stranding t ∧
      t.phase ≠ .passed ∧ t.history = s.history := by
  have hsecond : Run system (fun _ _ => True) fresh untilSecond _ := .of_check rfl
  have hrun : Run system CreatesNone (untilSecond.foldl next fresh) stranding _ := .of_check rfl
  obtain ⟨-, hpassed, -, hhistory⟩ :=
    no_socket_never_returns rfl (by decide) (by decide) hrun
  exact ⟨_, _, hsecond, hrun, hpassed, hhistory⟩

end AdbClient.Guarantees.NoSocket
