import AdbClient.Guarantees.Screencap
import AdbClient.Guarantees.TransportRefusal

/-!
# Two copies of one handshake

`screencap` writes the transport handshake out again instead of calling
`respond_transport_command`. The copy writes the same requests on the same
messages. Its status differs in three ways: it starts from failure, only messages
of four bytes touch it, and of these `FAIL` is the one that does not, since its
comparison lacks the `== 0`. A shell that runs the same command returns what the
last message says.
-/
namespace AdbClient.Guarantees.TwoHandshakes
open Source Abstract Screencap TransportHandshake TransportRefusal

/-- What `screencap` runs on the device. -/
def screencapCommand : Bytes := ascii "/system/bin/screencap -p"

/-- Of the messages of four bytes other than `FAIL`, the last is `OKAY`. -/
def LastDecidesOkay (msgs : List Bytes) : Prop :=
  (msgs.filter fun m => decide (Decides m)).getLast? = some okay

instance (msgs : List Bytes) : Decidable (LastDecidesOkay msgs) :=
  inferInstanceAs (Decidable (_ = _))

section Status
variable {N : Nat} {msgs : List Bytes}

/-- `screencap` succeeds when the last message that settles its status is `OKAY`. -/
theorem screencap_returned (hN : 8 < N) (serial : Bytes) (s : CallState) (hfit : Fit N msgs) :
    ∃ x, (LocalCommand.screencap serial).call N s msgs = .ok x ∧
      x.wire = (requests (.screencap serial) msgs).flatMap frame ∧
      x.returned = some (if LastDecidesOkay msgs then 0 else -1) := by
  refine ⟨_, device_call hN (.screencap serial) msgs hfit s, device_wire _ _ _ _, ?_⟩
  rw [finishedSession_returned, screencap_run_status]
  by_cases hokay : LastDecidesOkay msgs
  · rw [if_pos hokay, hokay]
    rfl
  · rw [if_neg hokay]
    unfold LastDecidesOkay at hokay
    cases hlast : (msgs.filter fun m => decide (Decides m)).getLast? with
    | none => rfl
    | some m =>
      have hm : m ≠ okay := by
        intro heq
        rw [hlast, heq] at hokay
        exact hokay rfl
      rw [Option.map_some, Option.getD_some, verdict, if_neg hm]

/-- A shell fails when the last message is `FAIL`. -/
theorem shell_returned (hN : 8 < N) (serial command : Bytes) (s : CallState)
    (hne : msgs ≠ []) (hfit : Fit N msgs) :
    ∃ x, (LocalCommand.shell serial command).call N s msgs = .ok x ∧
      x.wire = (requests (.shell serial command) msgs).flatMap frame ∧
      x.returned = some (if msgs.getLast? = some fail then -1 else 0) := by
  refine ⟨_, device_call hN (.shell serial command) msgs hfit s, device_wire _ _ _ _, ?_⟩
  have hresponds : Responds (.shell serial command) := trivial
  rw [finishedSession_returned, device_run_returns hresponds hne]

end Status

/-- Same bytes on the wire, same status. -/
def Agree (x y : Session) : Prop := x.wire = y.wire ∧ x.returned = y.returned

/-- **When the two copies agree.** For every serial number and every non-empty
sequence of messages: `screencap` and the shell that runs the same command write
the same bytes and return the same status if and only if either the last message
is `FAIL` alone or the last of the other messages of four bytes is `OKAY`, but
not both. -/
theorem handshakes_agree_iff {N : Nat} (hN : 8 < N) (serial : Bytes) (s s' : CallState)
    (msgs : List Bytes) (hne : msgs ≠ []) (hfit : Fit N msgs) :
    (∃ x y, (LocalCommand.screencap serial).call N s msgs = .ok x ∧
      (LocalCommand.shell serial screencapCommand).call N s' msgs = .ok y ∧ Agree x y) ↔
      (LastDecidesOkay msgs ↔ msgs.getLast? ≠ some fail) := by
  obtain ⟨x, hx, hwire, hreturned⟩ := screencap_returned hN serial s hfit
  obtain ⟨y, hy, hwire', hreturned'⟩ := shell_returned hN serial screencapCommand s' hne hfit
  have hsame : requests (.screencap serial) msgs =
      requests (.shell serial screencapCommand) msgs := rfl
  simp only [hx, hy, Except.ok.injEq, exists_and_left, exists_eq_left']
  unfold Agree
  rw [hwire, hwire', hsame, hreturned, hreturned']
  by_cases hokay : LastDecidesOkay msgs
  · by_cases hfail : msgs.getLast? = some fail
    · simp [hokay, hfail]
    · simp [hokay, hfail]
  · by_cases hfail : msgs.getLast? = some fail
    · simp [hokay, hfail]
    · simp [hokay, hfail]

/-- An image in a piece longer than four bytes. -/
theorem handshakes_agree_image :
    ∃ x y, (LocalCommand.screencap (ascii "d17cdac6")).call 64 .fresh
        [okay, okay, [137, 80, 78, 71, 0]] = .ok x ∧
      (LocalCommand.shell (ascii "d17cdac6") screencapCommand).call 64 .fresh
        [okay, okay, [137, 80, 78, 71, 0]] = .ok y ∧ Agree x y :=
  (handshakes_agree_iff (by decide) (ascii "d17cdac6") .fresh .fresh _ (by decide)
    (by decide)).mpr (by decide)

/-- A piece of four bytes of the image fails `screencap`. -/
theorem handshakes_agree_fails :
    ¬ ∃ x y, (LocalCommand.screencap (ascii "d17cdac6")).call 64 .fresh
        [okay, okay, [137, 80, 78, 71]] = .ok x ∧
      (LocalCommand.shell (ascii "d17cdac6") screencapCommand).call 64 .fresh
        [okay, okay, [137, 80, 78, 71]] = .ok y ∧ Agree x y := by
  have hfit : Fit 64 [okay, okay, [137, 80, 78, 71]] := by decide
  intro hagree
  obtain ⟨x, y, hx, hy, -, hsame⟩ := hagree
  obtain ⟨x', hx', -, hreturned⟩ :=
    screencap_returned (by decide) (ascii "d17cdac6") .fresh hfit
  obtain ⟨y', hy', -, hreturned'⟩ :=
    shell_returned (by decide) (ascii "d17cdac6") screencapCommand .fresh (by decide) hfit
  rw [hx, Except.ok.injEq] at hx'
  rw [hy, Except.ok.injEq] at hy'
  subst hx' hy'
  rw [hreturned, hreturned'] at hsame
  exact absurd hsame (by decide)

end AdbClient.Guarantees.TwoHandshakes
