import AdbClient.Guarantees.Screencap
import AdbClient.Guarantees.TransportRefusal

/-!
# Success without an acknowledgement

The status a call returns is what its operation starts from until a message
settles it, and then what the last such message says. No operation asks whether
an acknowledgement was among the messages: every message that is no failure
counts as a success, and two operations start from success. A call is therefore
silent about a missing `OKAY` exactly when it does not end in a failure.
-/
namespace AdbClient.Guarantees.Acknowledgement
open Source Abstract Support.Stream Screencap TransportRefusal

/-- The local `status` is initialised to 0, not to -1. -/
def PresumesSuccess : Call → Prop
  | .host .getDevices | .device (.shell _ _) => True
  | _ => False

/-- The messages that assign the status. -/
def Settles : Call → Bytes → Prop
  | .device (.screencap _), m => Decides m
  | _, _ => True

instance : (c : Call) → (m : Bytes) → Decidable (Settles c m)
  | .device (.screencap _), m => inferInstanceAs (Decidable (Decides m))
  | .device (.shell _ _), _ | .device (.sync _), _ | .device (.tcpip _ _), _
  | .device (.usb _), _ | .device (.root _), _ | .device (.reverse _ _ _ _), _
  | .device (.listReverse _), _ | .device (.killReverse _ _), _
  | .device (.killReverseAll _), _ | .host _, _ | .hostSerial _, _ => isTrue trivial

/-- Of these, the ones that assign -1. -/
def Fails : Call → Bytes → Prop
  | .device (.screencap _), m => m ≠ okay
  | .device _, m => m = fail
  | _, m => fail <+: m

/-- The last message that settles the status is a failure; where there is none,
the operation starts from failure. -/
def LastFails (c : Call) (msgs : List Bytes) : Prop :=
  match (msgs.filter fun m => decide (Settles c m)).getLast? with
  | some m => Fails c m
  | none => ¬ PresumesSuccess c

/-- The call does not come back with a success: it leaves by an exception or its
last word is a failure. -/
def EndsInFailure (c : Call) (msgs : List Bytes) : Prop :=
  (∃ m ∈ msgs, Rejected c m) ∨ LastFails c msgs

/-- The status a message that settles it assigns. -/
def said : Call → Bytes → Int
  | .device (.screencap _), m => verdict m
  | .device _, m => transportStatus m
  | _, m => (reading m).status

theorem said_eq_iff (c : Call) (m : Bytes) : said c m = -1 ↔ Fails c m := by
  have hreading : (reading m).status = -1 ↔ fail <+: m := by
    rw [reading_status]
    split <;> simp_all
  cases c with
  | host c => exact hreading
  | hostSerial c => exact hreading
  | device c =>
    cases c with
    | screencap serial =>
      simp only [said, verdict, Fails]
      split <;> simp_all
    | _ =>
      simp only [said, transportStatus, Fails]
      split <;> simp_all

/-- A waiting call starts from one of the two statuses. -/
theorem operation_status_iff {c : Call} (hwaits : c.Waits) :
    c.operation.status = -1 ↔ ¬ PresumesSuccess c := by
  unfold PresumesSuccess
  cases c with
  | host c =>
    cases c with
    | trackDevices => exact hwaits.elim
    | getDevices => exact iff_of_false (by decide) (by simp)
    | _ => exact iff_of_true rfl id
  | hostSerial c => cases c <;> exact iff_of_true rfl id
  | device c =>
    cases c with
    | shell serial command =>
      have hstatus : (Call.device (.shell serial command)).operation.status ≠ -1 := by
        change (0 : Int) ≠ -1
        decide
      exact iff_of_false hstatus (by simp)
    | _ => exact iff_of_true rfl id

section Run
variable {c : Call} {s s' : CallState} {m : Bytes} {msgs : List Bytes}

/-- One message, for every operation. -/
theorem next_status (h : (meaning c).next s m = .ok s') :
    s'.status = if Settles c m then said c m else s.status := by
  cases c with
  | host c => exact (host_next (c := .host c) trivial h).1
  | hostSerial c => exact (host_next (c := .hostSerial c) trivial h).1
  | device c =>
    cases h
    cases c with
    | screencap serial => exact screencap_next_status serial m s
    | _ => rfl

theorem run_status (h : msgs.foldlM (meaning c).next s = .ok s') :
    s'.status =
      ((msgs.filter fun m => decide (Settles c m)).getLast?.map (said c)).getD s.status := by
  apply run_overwrites_where CallState.status (said c) _ _ h
  intro s m s' hstep
  rw [next_status hstep]
  simp

theorem run_status_iff (hwaits : c.Waits)
    (h : msgs.foldlM (meaning c).next (entered c s) = .ok s') :
    s'.status = -1 ↔ LastFails c msgs := by
  rw [run_status h]
  unfold LastFails
  cases (msgs.filter fun m => decide (Settles c m)).getLast? with
  | none => exact operation_status_iff hwaits
  | some m => exact said_eq_iff c m

/-- What is done behind `waits()` leaves the status alone. -/
theorem run_map (b : BlockingCall) (N : Nat) (s : CallState) (msgs : List Bytes) :
    ∃ f : Session → Session, (∀ x, (f x).returned = x.returned) ∧
      b.run N s msgs = (b.underlying.run N s msgs).map f := by
  cases b with
  | direct c waits =>
    refine ⟨id, fun _ => rfl, ?_⟩
    rw [Except.map_id]
    rfl
  | throughShell c =>
    refine ⟨fun x => { x with state := { x.state with output := c.outputAfter x.state } },
      fun _ => rfl, ?_⟩
    simp only [BlockingCall.run, BlockingCall.underlying, Call.run, Call.operation,
      LocalCommand.ShellCall.call]
    cases c.inner.operation.call N s msgs <;> rfl

/-- A waiting call comes back when its messages are handled, with the status they
leave. -/
theorem run_eq_ok_iff {N : Nat} (hN : 8 < N) (b : BlockingCall) (hfit : Fit N msgs)
    (r : Option Int) :
    (∃ x, b.run N s msgs = .ok x ∧ x.returned = r) ↔
      ∃ t, msgs.foldlM (meaning b.underlying).next (entered b.underlying s) = .ok t ∧
        some t.status = r := by
  obtain ⟨f, hreturned, hrun⟩ := run_map b N s msgs
  rw [hrun, Call.run, call_eq hN b.underlying msgs hfit s]
  cases msgs.foldlM (meaning b.underlying).next (entered b.underlying s) with
  | error fault => simp [Except.map]
  | ok t => simp [Except.map, hreturned]

end Run

theorem underlying_waits (b : BlockingCall) : b.underlying.Waits := by
  cases b with
  | direct c waits => exact waits
  | throughShell c => trivial

/-- Success is reported only if the bytes received begin with `OKAY`. -/
def Acknowledged (N : Nat) (b : BlockingCall) (s : CallState) (msgs : List Bytes) : Prop :=
  ∀ x, b.run N s msgs = .ok x → x.returned ≠ some (-1) → okay <+: msgs.flatten

/-- **When no success goes without an acknowledgement.** For every operation a
caller waits for, all arguments and every sequence of messages, the empty one
included: a call that returns anything but -1 has received bytes that begin with
`OKAY` if and only if they do, or the call ends in a failure. -/
theorem acknowledged_iff {N : Nat} (hN : 8 < N) (b : BlockingCall) (s : CallState)
    (msgs : List Bytes) (hfit : Fit N msgs) :
    Acknowledged N b s msgs ↔ okay <+: msgs.flatten ∨ EndsInFailure b.underlying msgs := by
  have hok := next_run_ok_iff b.underlying (entered b.underlying s) msgs
  constructor
  · intro hacknowledged
    by_contra hneither
    obtain ⟨hmissing, hends⟩ := not_or.mp hneither
    obtain ⟨haccepted, hlast⟩ := not_or.mp hends
    obtain ⟨t, hrun⟩ := hok.mpr fun m hm hrejected => haccepted ⟨m, hm, hrejected⟩
    obtain ⟨x, hx, hreturned⟩ := (run_eq_ok_iff hN b hfit _).mpr ⟨t, hrun, rfl⟩
    apply hmissing
    apply hacknowledged x hx
    rw [hreturned, ne_eq, Option.some.injEq, run_status_iff (underlying_waits b) hrun]
    exact hlast
  · intro h x hx hsuccess
    obtain ⟨t, hrun, hreturned⟩ := (run_eq_ok_iff hN b hfit _).mp ⟨x, hx, rfl⟩
    rcases h with hokay | ⟨m, hm, hrejected⟩ | hlast
    · exact hokay
    · exact absurd hrejected (hok.mp ⟨t, hrun⟩ m hm)
    · rw [← hreturned, ne_eq, Option.some.injEq, run_status_iff (underlying_waits b) hrun]
        at hsuccess
      exact absurd hlast hsuccess

/-- A connection that is refused: no message at all. -/
theorem acknowledged_killForward :
    Acknowledged 64
      (.direct (.hostSerial (.killForward (ascii "d17cdac6") (ascii "tcp:1"))) trivial) .fresh [] :=
  (acknowledged_iff (by decide) _ .fresh [] (by decide)).mpr (.inr (.inr id))

/-- `get_properties` reports success on a refused connection. -/
theorem acknowledged_fails :
    ¬ Acknowledged 64 (.throughShell (.getProperties (ascii "d17cdac6"))) .fresh [] := by
  intro hacknowledged
  have hfit : Fit 64 [] := by decide
  obtain ⟨x, hx, hreturned⟩ := (run_eq_ok_iff (s := .fresh) (by decide)
    (.throughShell (.getProperties (ascii "d17cdac6"))) hfit (some 0)).mpr ⟨_, rfl, rfl⟩
  exact absurd (hacknowledged x hx (by rw [hreturned]; decide)) (by decide)

end AdbClient.Guarantees.Acknowledgement
