import AdbClient.Abstract.Conversation
import AdbClient.Support.Stream

/-!
# The server's reply, cut into messages

A reply is a status, the length of the text in four hexadecimal digits, and the
text. The network cuts it anywhere. What a call makes of the pieces is read off
here field by field: the status is that of the last message, the error message
and the output collect what each message contributes.
-/
namespace AdbClient.Abstract
open Source Support.Stream

def reply (status content : Bytes) : Bytes :=
  status ++ (hexadecimal.print 4 content.length ++ content)

example : reply fail (ascii "device not found") = ascii "FAIL0010device not found" := by decide

theorem reply_length (status : Bytes) {content : Bytes} (h : content.length ≤ 65535) :
    (reply status content).length = status.length + 4 + content.length := by
  have hhex := hexadecimal.print_length_of_lt 4
    (Nat.lt_of_le_of_lt h (by decide : 65535 < 16 ^ 4))
  simp only [reply, List.length_append, hhex]
  omega

theorem suffix_reply (status content : Bytes) : content <:+ reply status content :=
  ⟨status ++ hexadecimal.print 4 content.length, by simp [reply]⟩

/-- The text starts at offset 8. -/
theorem reply_drop {status content : Bytes} (hstatus : status.length = 4)
    (h : content.length ≤ 65535) : (reply status content).drop 8 = content := by
  have hlen := reply_length status h
  have hsuffix : (reply status content).drop 8 <:+ reply status content := List.drop_suffix _ _
  refine (List.suffix_of_suffix_length_le hsuffix (suffix_reply status content) ?_).eq_of_length ?_
  · rw [List.length_drop]
    omega
  · rw [List.length_drop]
    omega

theorem zero_not_mem_reply {status content : Bytes} (hstatus : 0 ∉ status) (h : 0 ∉ content) :
    0 ∉ reply status content := by
  simp only [reply, List.mem_append, not_or]
  refine ⟨hstatus, fun hhex => ?_, h⟩
  have := (mem_hexadecimal_print hhex).1
  simp [hexDigit] at this

/-- No second `FAIL` starts within the first eight bytes of a refusal. -/
theorem letter_not_mem_header (n : Nat) : 70 ∉ (fail ++ hexadecimal.print 4 n).tail := by
  intro hmem
  have hsplit : 70 ∈ ascii "AIL" ++ hexadecimal.print 4 n := hmem
  rcases List.mem_append.mp hsplit with hfail | hhex
  · exact absurd hfail (by decide)
  · exact absurd (mem_hexadecimal_print hhex).2 (by decide)

/-- A length starts with no letter of a status. -/
theorem digits_not_status {status : Bytes} (hstatus : status = okay ∨ status = fail) (n : Nat)
    (rest : Bytes) : ¬ status <+: hexadecimal.print 4 n ++ rest := by
  intro h
  obtain ⟨c, digits, hdigits⟩ : ∃ c digits, hexadecimal.print 4 n = c :: digits := by
    apply List.exists_cons_of_length_pos
    have := hexadecimal.width_le_print_length 4 n
    omega
  have hmem : c ∈ hexadecimal.print 4 n := by simp [hdigits]
  have hc := (mem_hexadecimal_print hmem).2
  rw [hdigits, List.cons_append] at h
  rcases hstatus with rfl | rfl
  · have hhead : (79 : Byte) = c := (List.cons_prefix_cons.mp h).1
    subst hhead
    exact absurd hc (by decide)
  · have hhead : (70 : Byte) = c := (List.cons_prefix_cons.mp h).1
    subst hhead
    exact absurd hc (by decide)

namespace Cut

theorem ne_nil {stream : Bytes} {msgs : List Bytes} (h : Cut stream msgs) (hne : stream ≠ []) :
    msgs ≠ [] := by
  intro hnil
  subst hnil
  exact hne h.joined.symm

theorem not_mem {stream : Bytes} {msgs : List Bytes} {c : Byte} (h : Cut stream msgs)
    (hc : c ∉ stream) : ∀ m ∈ msgs, c ∉ m := by
  intro m hm hcm
  rw [← h.joined] at hc
  exact hc (List.mem_flatten_of_mem hm hcm)

/-- The empty stream arrives in no message. -/
theorem eq_nil {msgs : List Bytes} (h : Cut [] msgs) : msgs = [] := by
  apply List.eq_nil_iff_forall_not_mem.mpr
  intro m hm
  exact h.nonempty m hm (List.flatten_eq_nil_iff.mp h.joined m hm)

/-- A message that is the whole stream is the only one. -/
theorem eq_singleton {stream : Bytes} {msgs : List Bytes} (h : Cut stream msgs)
    (hmem : stream ∈ msgs) : msgs = [stream] := by
  obtain ⟨before, after, rfl⟩ := List.append_of_mem hmem
  have hlen := congrArg List.length h.joined
  rw [List.flatten_append, List.flatten_cons, List.length_append, List.length_append] at hlen
  have hbefore : Cut [] before :=
    ⟨List.length_eq_zero_iff.mp (by omega), fun m hm => h.nonempty m (by simp [hm])⟩
  have hafter : Cut [] after :=
    ⟨List.length_eq_zero_iff.mp (by omega), fun m hm => h.nonempty m (by simp [hm])⟩
  rw [hbefore.eq_nil, hafter.eq_nil]
  rfl

end Cut

theorem reply_ne_nil (content : Bytes) : reply fail content ≠ [] ∧ reply okay content ≠ [] :=
  ⟨List.cons_ne_nil _ _, List.cons_ne_nil _ _⟩

/-- A reply that is one message. -/
theorem reading_reply {P : Bytes} (hzero : 0 ∉ P) (hP : P.length ≤ 65535) :
    reading (reply okay P) = ⟨0, P, []⟩ := by
  have hlen := reply_length okay hP
  rw [okay_length] at hlen
  have hokay : okay <+: reply okay P := List.prefix_append _ _
  rw [reading, if_pos (by omega), if_pos hokay, reply_drop okay_length hP, text_eq_self hzero]

theorem reading_refusal {E : Bytes} (hzero : 0 ∉ E) (hE : E.length ≤ 65535) :
    reading (reply fail E) = ⟨-1, [], E⟩ := by
  have hlen := reply_length fail hE
  have hfail : fail <+: reply fail E := List.prefix_append _ _
  rw [fail_length] at hlen
  rw [reading, if_pos (by omega), if_neg (not_okay_prefix_of_fail hfail), if_pos hfail,
    reply_drop fail_length hE, text_eq_self hzero]

/-- A reply whose status was a message of its own. -/
theorem reading_lengthAnd {P : Bytes} (hne : P ≠ []) (hzero : 0 ∉ P) (hP : P.length ≤ 65535) :
    reading (hexadecimal.print 4 P.length ++ P) = ⟨0, P, []⟩ := by
  have hhex := hexadecimal.print_length_of_lt 4
    (Nat.lt_of_le_of_lt hP (by decide : 65535 < 16 ^ 4))
  have hlong : 4 < (hexadecimal.print 4 P.length ++ P).length := by
    have := List.length_pos_iff.mpr hne
    rw [List.length_append]
    omega
  rw [reading, if_pos hlong, if_neg (digits_not_status (.inl rfl) _ _),
    if_neg (digits_not_status (.inr rfl) _ _), List.drop_left' hhex, text_eq_self hzero]

/-- A message is a failure exactly when it begins with `FAIL`. -/
theorem reading_status (m : Bytes) : (reading m).status = if fail <+: m then -1 else 0 := by
  unfold reading
  split
  next hlong =>
    split
    next ho =>
      have hf : ¬ fail <+: m := fun hf => not_okay_prefix_of_fail hf ho
      simp [hf]
    next ho => split <;> simp_all
  next hshort =>
    split
    next hfour => simp [prefix_iff_eq fail_length hfour]
    next hfour =>
      have hf : ¬ fail <+: m := by
        intro hf
        have := hf.length_le
        simp only [fail_length] at this
        omega
      simp [hf]

/-- A failure has no text for the caller. -/
theorem reading_result_of_fail {m : Bytes} (h : fail <+: m) : (reading m).result = [] := by
  have hlen := h.length_le
  rw [fail_length] at hlen
  by_cases hlong : 4 < m.length
  · rw [reading, if_pos hlong, if_neg (not_okay_prefix_of_fail h), if_pos h]
  · rw [reading, if_neg hlong, if_pos (by omega)]

theorem text_length_le (w : Bytes) : (text w).length ≤ w.length :=
  (List.takeWhile_prefix _).length_le

/-- Error text starts at offset 8 of a message. -/
theorem reading_error_length_le (m : Bytes) : (reading m).error.length ≤ m.length - 8 := by
  have htext := text_length_le (m.drop 8)
  rw [List.length_drop] at htext
  unfold reading
  split
  · split
    · simp
    · split
      · exact htext
      · simp
  · split <;> simp

theorem errors_length_le (msgs : List Bytes) :
    (msgs.flatMap fun m => (reading m).error).length ≤ msgs.flatten.length - 8 :=
  flatMap_length_le reading_error_length_le msgs

section Host
variable {c : Call} {s s' : CallState} {m : Bytes} {msgs : List Bytes}

/-- One message: the host operations all take over status and error message. -/
theorem host_next (hc : c.OnHost) (h : (meaning c).next s m = .ok s') :
    s'.status = (reading m).status ∧ s'.error = s.error ++ (reading m).error := by
  cases c with
  | device c => exact hc.elim
  | hostSerial c =>
    cases h
    cases c <;> exact ⟨rfl, rfl⟩
  | host c =>
    cases c with
    | getVersion =>
      simp only [meaning, hostNext] at h
      split at h
      · obtain ⟨version, -, h⟩ := bind_eq_ok h
        cases h
        exact ⟨rfl, rfl⟩
      · cases h
        exact ⟨rfl, rfl⟩
    | _ =>
      cases h
      exact ⟨rfl, rfl⟩

theorem host_run_status (hc : c.OnHost) (h : msgs.foldlM (meaning c).next s = .ok s') :
    s'.status = (msgs.getLast?.map fun m => (reading m).status).getD s.status :=
  run_overwrites CallState.status _ (fun _ _ _ hstep => (host_next hc hstep).1) h

theorem host_run_error (hc : c.OnHost) (h : msgs.foldlM (meaning c).next s = .ok s') :
    s'.error = s.error ++ msgs.flatMap fun m => (reading m).error :=
  run_appends CallState.error _ (fun _ _ _ hstep => (host_next hc hstep).2) h

/-- One message: these operations append the text read to the output. -/
theorem passesOutput_next (hc : c.PassesOutput) :
    (meaning c).next = fun s m => .ok (appendResult s m) := by
  cases c with
  | device c => exact hc.elim
  | hostSerial c => cases c <;> first | rfl | exact hc.elim
  | host c => cases c <;> first | rfl | exact hc.elim

theorem output_run (msgs : List Bytes) (s : CallState) :
    (msgs.foldl appendResult s).output = s.output ++ msgs.flatMap fun m => (reading m).result :=
  run_appends CallState.output (fun m => (reading m).result)
    (fun _ _ _ hstep => by cases hstep; rfl) (foldlM_ok appendResult msgs s)

end Host
end AdbClient.Abstract
