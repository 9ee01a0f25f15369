import AdbClient.Abstract.Reading
import AdbClient.Source.TrackLoop
import AdbClient.Support.Stream

/-!
# An update that arrives before `resume`

The flag is one bit and `resume` clears it without looking at what it stands
for. An update stored between the consumer's read and its `resume` sets the flag
in vain: the consumer goes to sleep on the string it read before. Nothing else
loses one, since every other update finds the flag still to be seen.
-/
namespace AdbClient.Guarantees.LostUpdate
open Source Abstract Support.Stream Support.Transition Tracking

/-- The consumer has read what is stored. -/
def Current (s : Tracking) : Prop :=
  s.deviceStatus = some (HostCommand.getTrackedDevices s.object)

/-- An update that arrives between the read and `resume` brings the string that is
stored already. -/
def KeepsRead (s : Tracking) : Tracking.Action → Prop
  | .message m =>
      s.consumer = .resume → (reading m).result = HostCommand.getTrackedDevices s.object
  | .waits | .getTrackedDevices | .resume => True

instance (s : Tracking) : (a : Tracking.Action) → Decidable (KeepsRead s a)
  | .message _ => inferInstanceAs (Decidable (_ → _))
  | .waits | .getTrackedDevices | .resume => isTrue trivial

/-- The invariant: whoever is about to sleep, or sleeps, has seen the last update.
The buffer stays cleared, so that what an update stores is read off its message. -/
structure SeenAsleep (s : Tracking) : Prop where
  cleared : ∃ n, s.memory = zeroed n
  read : s.consumer = .resume → Current s
  asleep : s.Blocked → 0 < s.updates → Current s

section Step
variable {s : Tracking} {a : Tracking.Action} {m : Bytes}

/-- The tracking callback stores the text of the message, clears the buffer and wakes. -/
theorem onMessage_stores {h : Handled} (hcleared : ∃ n, s.memory = zeroed n)
    (hrun : s.onMessage m = .ok h) :
    HostCommand.getTrackedDevices h.state = (reading m).result ∧
      (∃ n, h.memory = zeroed n) ∧ h.weakUp = true := by
  obtain ⟨n, hmemory⟩ := hcleared
  rw [Tracking.onMessage, hmemory] at hrun
  obtain ⟨reply, hread, hreply⟩ := bind_eq_ok hrun
  rw [readProtocolString_eq_ok hread] at hreply
  cases hreply
  exact ⟨List.nil_append _, ⟨max n m.length, memset_deliver_max⟩, rfl⟩

/-- What an update does, the consumer's own fields apart. -/
theorem next_message (hcleared : ∃ n, s.memory = zeroed n) (henabled : s.Enabled (.message m)) :
    ∃ object n, HostCommand.getTrackedDevices object = (reading m).result ∧
      s.next (.message m) =
        { s with
          object := object, memory := zeroed n, commandFinished := true
          updates := s.updates + 1 } := by
  have hok : (s.onMessage m).isOk = true := henabled
  cases hrun : s.onMessage m with
  | error fault =>
    rw [hrun] at hok
    cases hok
  | ok h =>
    obtain ⟨htext, ⟨n, hmemory⟩, hwake⟩ := onMessage_stores hcleared hrun
    refine ⟨h.state, n, htext, ?_⟩
    simp only [Tracking.next, hrun, hmemory, hwake, Bool.or_true]

/-- An update keeps the string read current where it has the same text. -/
theorem seenAsleep_message (henabled : s.Enabled (.message m)) (hguard : KeepsRead s (.message m))
    (h : SeenAsleep s) : SeenAsleep (s.next (.message m)) := by
  obtain ⟨object, n, htext, hnext⟩ := next_message h.cleared henabled
  rw [hnext]
  constructor
  · exact ⟨n, rfl⟩
  · intro hresume
    have hstored : HostCommand.getTrackedDevices s.object = (reading m).result :=
      (hguard hresume).symm
    have hread : s.deviceStatus = some (HostCommand.getTrackedDevices s.object) := h.read hresume
    rw [hstored, ← htext] at hread
    exact hread
  · intro hblocked
    cases hblocked.2

/-- One step that the guard lets through: the read makes the string current, `resume`
finds it so, and the flag an update sets is lowered by `resume` alone. -/
theorem seenAsleep_next (henabled : s.Enabled a) (hguard : KeepsRead s a) (h : SeenAsleep s) :
    SeenAsleep (s.next a) := by
  cases a with
  | message m => exact seenAsleep_message henabled hguard h
  | waits => exact ⟨h.cleared, nofun, fun hblocked => nomatch hblocked.1⟩
  | getTrackedDevices => exact ⟨h.cleared, fun _ => rfl, fun hblocked => nomatch hblocked.1⟩
  | resume =>
    have hread : Current s := h.read henabled
    exact ⟨h.cleared, nofun, fun _ _ => hread⟩

end Step

theorem seenAsleep_started (N : Nat) (s : CallState) : SeenAsleep (started N s) := by
  refine ⟨⟨N, rfl⟩, nofun, ?_⟩
  intro _ hupdates
  cases hupdates

theorem seenAsleep_of_run {N : Nat} {s : CallState} {t : Tracking}
    {actions : List Tracking.Action} (hrun : Run system KeepsRead (started N s) actions t) :
    SeenAsleep t :=
  hrun.invariant SeenAsleep (fun _ _ henabled hguard h => seenAsleep_next henabled hguard h)
    (seenAsleep_started N s)

/-- **No device update is lost that does not overtake `resume`.** In every state that
any interleaving reaches in which no update with another text comes between the
consumer's read and its `resume`: a consumer that sleeps after the first update has
read the current `m_tracked_device`. -/
theorem blocked_reads_current (N : Nat) (s : CallState) {t : Tracking}
    {actions : List Tracking.Action} (hrun : Run system KeepsRead (started N s) actions t)
    (hblocked : t.Blocked) (hupdates : 0 < t.updates) :
    t.deviceStatus = some (HostCommand.getTrackedDevices t.object) :=
  (seenAsleep_of_run hrun).asleep hblocked hupdates

/-- One update, read, the same again before `resume`, and the consumer asleep. -/
def oneTurn : List Tracking.Action :=
  [.message (ascii "OKAY0005phone"), .waits, .getTrackedDevices, .message (ascii "0005phone"),
    .resume]

theorem blocked_reads_current_oneTurn :
    ∃ t, Run system KeepsRead (started 64 .fresh) oneTurn t ∧ t.Blocked ∧
      t.deviceStatus = some (HostCommand.getTrackedDevices t.object) := by
  have hrun : Run system KeepsRead (started 64 .fresh) oneTurn _ := .of_check rfl
  exact ⟨_, hrun, ⟨rfl, rfl⟩, blocked_reads_current 64 .fresh hrun ⟨rfl, rfl⟩ (by decide)⟩

/-- The condition is exact: the first update that does not meet it is lost, if `resume`
follows. -/
theorem overtaking_update_lost (N : Nat) (s : CallState) {t : Tracking}
    {actions : List Tracking.Action} (hrun : Run system KeepsRead (started N s) actions t)
    {m : Bytes} (henabled : t.Enabled (.message m)) (hguard : ¬ KeepsRead t (.message m)) :
    (t.next (.message m)).Enabled .resume ∧
      ((t.next (.message m)).next .resume).Blocked ∧
      0 < ((t.next (.message m)).next .resume).updates ∧
      ¬ Current ((t.next (.message m)).next .resume) := by
  have h := seenAsleep_of_run hrun
  obtain ⟨hresume, hother⟩ := Classical.not_imp.mp hguard
  obtain ⟨object, n, htext, hnext⟩ := next_message h.cleared henabled
  rw [hnext]
  refine ⟨hresume, ⟨rfl, rfl⟩, Nat.succ_pos _, ?_⟩
  intro hcurrent
  have hread : t.deviceStatus = some (HostCommand.getTrackedDevices t.object) := h.read hresume
  have hsame : t.deviceStatus = some (HostCommand.getTrackedDevices object) := hcurrent
  rw [hread, htext] at hsame
  exact hother (Option.some.inj hsame).symm

/-- The device leaves after the read and before `resume`. -/
def overtakenTurn : List Tracking.Action :=
  [.message (ascii "OKAY0005phone"), .waits, .getTrackedDevices, .message (ascii "0000"), .resume]

theorem blocked_reads_current_fails :
    ∃ t, Run system (fun _ _ => True) (started 64 .fresh) overtakenTurn t ∧ t.Blocked ∧
      0 < t.updates ∧ t.deviceStatus ≠ some (HostCommand.getTrackedDevices t.object) := by
  have hbefore : Run system KeepsRead (started 64 .fresh) (overtakenTurn.take 3) _ :=
    .of_check rfl
  have hrun : Run system (fun _ _ => True) (started 64 .fresh) overtakenTurn _ := .of_check rfl
  obtain ⟨-, hblocked, hupdates, hstale⟩ :=
    overtaking_update_lost 64 .fresh hbefore (m := ascii "0000") rfl (by decide)
  exact ⟨_, hrun, hblocked, hupdates, hstale⟩

end AdbClient.Guarantees.LostUpdate
