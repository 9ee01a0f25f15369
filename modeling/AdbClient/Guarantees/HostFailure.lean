import AdbClient.Abstract.Reply

/-!
# A failed request to the server

A host operation reports a refusal, `FAIL` with the length and the text of the
error, exactly when the whole reply is one message. Otherwise the last message
would have to begin with `FAIL` again, which no message inside the header does,
and every message that is read as an error drops eight bytes: what is left of two
or more is shorter than the text.
-/
namespace AdbClient.Guarantees.HostFailure
open Source Abstract Support.Stream

/-- The call fails, the caller's outputs are as before, the error text is there. -/
def Reported (s : CallState) (E : Bytes) (x : Session) : Prop :=
  x.returned = some (-1) ∧ x.state.output = s.output ∧ x.state.version = s.version ∧
    x.state.error = s.error ++ E

/-- On a failure without a result every host operation takes over status and
error message and leaves its outputs alone. -/
theorem host_next_failure {c : Call} (hc : c.WaitsOnHost) {m : Bytes}
    (hstatus : (reading m).status = -1) (hresult : (reading m).result = []) (s : CallState) :
    (meaning c).next s m = .ok (takeReading s m) := by
  cases c with
  | device c => exact hc.elim
  | hostSerial c =>
    cases c <;> simp [meaning, hostSerialNext, appendResult, takeReading, hresult]
  | host c =>
    cases c with
    | trackDevices => exact hc.elim
    | getVersion =>
      simp [meaning, hostNext, takeReading, hstatus, pure, Except.pure, bind, Except.bind]
    | _ => simp [meaning, hostNext, appendResult, takeReading, hstatus, hresult]

/-- Two or more messages that end in a failure do not add up to the error text. -/
theorem single_of_failure {E : Bytes} (hE : E.length ≤ 65535) {msgs : List Bytes}
    (hcut : Cut (reply fail E) msgs) {m : Bytes} (hlast : msgs.getLast? = some m)
    (hfail : fail <+: m) (herror : msgs.flatMap (fun m => (reading m).error) = E) :
    msgs = [reply fail E] := by
  obtain ⟨before, rfl⟩ := List.getLast?_eq_some_iff.mp hlast
  have hjoined := hcut.joined
  rw [List.flatten_append, List.flatten_singleton] at hjoined
  rcases before.eq_nil_or_concat with rfl | ⟨init, w, hw⟩
  · rw [← hjoined]
    rfl
  exfalso
  have hbefore : before.flatten ≠ [] := by
    intro hnil
    have hmem : w ∈ before := by simp [hw]
    exact hcut.nonempty w (List.mem_append_left _ hmem) (List.flatten_eq_nil_iff.mp hnil w hmem)
  have hm := hfail.length_le
  rw [fail_length] at hm
  by_cases hheader : before.flatten.length < 8
  · -- the last message would start inside the header
    obtain ⟨rest, rfl⟩ := hfail
    have hwidth := hexadecimal.print_length_of_lt 4
      (Nat.lt_of_le_of_lt hE (by decide : 65535 < 16 ^ 4))
    have hstart : before.flatten ++ 70 :: ((ascii "AIL") ++ rest) =
        (fail ++ hexadecimal.print 4 E.length) ++ E := by
      rw [List.append_assoc]
      exact hjoined
    refine letter_not_mem_header _ (mem_tail_of_append_eq hstart hbefore ?_)
    rw [List.length_append, hwidth, fail_length]
    exact hheader
  · have herrors := errors_length_le before
    have hlasterror := reading_error_length_le m
    have hlen := congrArg List.length hjoined
    have hsum := congrArg List.length herror
    rw [reply_length fail hE, List.length_append, fail_length] at hlen
    rw [List.flatMap_append, List.flatMap_singleton, List.length_append] at hsum
    omega

/-- **A failure is reported exactly when it comes in one piece.** For every host
operation that waits and every way its refusal arrives: the call returns -1,
leaves its outputs alone and appends the error text to `m_error` if and only if
the whole reply is one message. -/
theorem failure_reported_iff {N : Nat} (hN : 8 < N) (c : Call) (hc : c.WaitsOnHost)
    (s : CallState) (E : Bytes) (hzero : 0 ∉ E) (hE : E.length ≤ 65535) (msgs : List Bytes)
    (hcut : Cut (reply fail E) msgs) (hfit : Fit N msgs) :
    (∃ x, c.operation.call N s msgs = .ok x ∧ Reported s E x) ↔ msgs = [reply fail E] := by
  simp only [call_ok_iff hN c msgs hfit]
  constructor
  · intro hreported
    obtain ⟨x, ⟨s', hrun, rfl⟩, hreturned, -, -, herror⟩ := hreported
    have hlast := List.getLast?_eq_some_getLast (hcut.ne_nil (reply_ne_nil E).1)
    have hstatus := host_run_status hc.onHost hrun
    rw [hlast, Option.map_some, Option.getD_some, reading_status] at hstatus
    rw [finishedSession_returned, Option.some.injEq, hstatus] at hreturned
    have herrors := host_run_error hc.onHost hrun
    rw [show s'.error = s.error ++ E from herror] at herrors
    refine single_of_failure hE hcut hlast ?_ (List.append_cancel_left herrors).symm
    by_contra hfail
    simp [hfail] at hreturned
  · intro hmsgs
    subst hmsgs
    have hread := reading_refusal hzero hE
    have hnext := host_next_failure hc (by rw [hread]) (by rw [hread]) (entered c s)
    refine ⟨_, ⟨takeReading (entered c s) (reply fail E), ?_, rfl⟩, ?_⟩
    · rw [List.foldlM_cons, hnext]
      rfl
    · simp [Reported, finishedSession, Session.returned, takeReading, entered, hread]

theorem failure_reported_forward :
    ∃ x, (Call.hostSerial (.forward (ascii "d17cdac6") (ascii "tcp:1") (ascii "tcp:2")
        false)).operation.call 64 CallState.fresh [ascii "FAIL0006closed"] = .ok x ∧
      Reported CallState.fresh (ascii "closed") x :=
  (failure_reported_iff (by decide) (.hostSerial (.forward (ascii "d17cdac6") (ascii "tcp:1")
    (ascii "tcp:2") false)) trivial CallState.fresh (ascii "closed") (by decide) (by decide)
    [ascii "FAIL0006closed"] ⟨by decide, by decide⟩ (by decide)).mpr (by decide)

/-- A refusal whose length and text arrive on their own counts as a success. -/
theorem failure_reported_fails :
    Cut (reply fail (ascii "closed")) [fail, ascii "0006closed"] ∧
      Fit 64 [fail, ascii "0006closed"] ∧
      ¬ ∃ x, (Call.hostSerial (.forward (ascii "d17cdac6") (ascii "tcp:1") (ascii "tcp:2")
          false)).operation.call 64 CallState.fresh [fail, ascii "0006closed"] = .ok x ∧
        Reported CallState.fresh (ascii "closed") x := by
  refine ⟨⟨by decide, by decide⟩, by decide, ?_⟩
  intro hkept
  obtain ⟨x, hx, hreturned, -⟩ := hkept
  rw [call_eq (by decide) _ _ (by decide)] at hx
  cases hx
  exact absurd hreturned (by decide)

end AdbClient.Guarantees.HostFailure
