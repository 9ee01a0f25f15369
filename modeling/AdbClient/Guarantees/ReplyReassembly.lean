import AdbClient.Abstract.Reply

/-!
# A successful reply, however it is cut

`read_protocol_string` drops the status and the length of a reply by looking at
one message at a time. A message of at least four bytes always loses something,
a shorter one nothing. The reply has eight bytes in front of its text, so the
text comes out whole only when the messages together lose eight bytes: one
message that carries status and length at once, or two messages that lose four
each. What is kept in front of the last loss then has to begin the text.
-/
namespace AdbClient.Guarantees.ReplyReassembly
open Source Abstract Support.Stream

/-- Too short for a status: the message is appended as it is. -/
def Short (m : Bytes) : Prop := m.length < 4

instance (m : Bytes) : Decidable (Short m) := inferInstanceAs (Decidable (_ < _))

/-- The message is taken for a reply with status and length. -/
def LosesEight (m : Bytes) : Prop :=
  (okay <+: m ∧ 8 ≤ m.length) ∨ (fail <+: m ∧ m.length = 8)

/-- The message is taken for a bare status or for a text behind a length. -/
def LosesFour (m : Bytes) : Prop :=
  m.length = 4 ∨ (4 < m.length ∧ ¬ okay <+: m ∧ ¬ fail <+: m)

def LosesOnce (P : Bytes) (msgs : List Bytes) : Prop :=
  ∃ before m after, msgs = before ++ m :: after ∧
    (∀ w ∈ before ++ after, Short w) ∧ LosesEight m ∧ before.flatten <+: P

def LosesTwice (P : Bytes) (msgs : List Bytes) : Prop :=
  ∃ before m between m' after, msgs = before ++ m :: (between ++ m' :: after) ∧
    (∀ w ∈ before ++ (between ++ after), Short w) ∧ LosesFour m ∧ LosesFour m' ∧
    before.flatten ++ (m.drop 4 ++ between.flatten) <+: P

/-- The ways of cutting a reply that the parser puts together again. -/
def WellCut (P : Bytes) (msgs : List Bytes) : Prop :=
  (∀ m, msgs.getLast? = some m → ¬ fail <+: m) ∧ (LosesOnce P msgs ∨ LosesTwice P msgs)

/-- What is appended of a message without zero bytes. -/
def kept (m : Bytes) : Bytes :=
  if Short m then m
  else if okay <+: m then m.drop 8
  else if fail <+: m then []
  else m.drop 4

/-- Of a message of four bytes nothing is left, whichever they are. -/
theorem kept_four {m : Bytes} (h : m.length = 4) : kept m = m.drop 4 := by
  have hshort : ¬ Short m := by
    unfold Short
    omega
  rw [kept, if_neg hshort, List.drop_of_length_le (by omega : m.length ≤ 8),
    List.drop_of_length_le h.le]
  simp

theorem reading_result {m : Bytes} (h : 0 ∉ m) : (reading m).result = kept m := by
  have hdrop : ∀ n, text (m.drop n) = m.drop n := fun n =>
    text_eq_self fun hz => h (List.mem_of_mem_drop hz)
  by_cases hshort : Short m
  · have hlen : m.length < 4 := hshort
    have hlong : ¬ 4 < m.length := by omega
    rw [kept, if_pos hshort, reading, if_neg hlong, if_neg (by omega)]
    exact text_eq_self h
  · by_cases hfour : m.length = 4
    · rw [kept_four hfour, List.drop_of_length_le hfour.le, reading, if_neg (by omega),
        if_pos hfour]
    · have hlong : 4 < m.length := by
        unfold Short at hshort
        omega
      rw [kept, if_neg hshort, reading, if_pos hlong]
      split
      · exact hdrop 8
      · split
        · rfl
        · exact hdrop 4

/-- How many bytes of a message are not appended. -/
def lost (m : Bytes) : Nat := m.length - (kept m).length

section OneMessage
variable {m : Bytes}

theorem kept_short (h : Short m) : kept m = m := if_pos h

theorem kept_length_le (m : Bytes) : (kept m).length ≤ m.length := by
  unfold kept
  split
  · exact Nat.le_refl _
  · split
    · exact (List.drop_suffix 8 m).length_le
    · split
      · exact Nat.zero_le _
      · exact (List.drop_suffix 4 m).length_le

theorem kept_length_add_lost (m : Bytes) : (kept m).length + lost m = m.length := by
  have := kept_length_le m
  unfold lost
  omega

theorem lost_short (h : Short m) : lost m = 0 := by
  rw [lost, kept_short h, Nat.sub_self]

/-- A message long enough for a status loses at least that many bytes. -/
theorem four_le_lost (h : ¬ Short m) : 4 ≤ lost m := by
  have hlen : 4 ≤ m.length := Nat.le_of_not_lt h
  unfold lost kept
  rw [if_neg h]
  split
  · rw [List.length_drop]
    omega
  · split
    · rw [List.length_nil]
      omega
    · rw [List.length_drop]
      omega

theorem losesEight_of_lost (h : lost m = 8) : LosesEight m := by
  have hshort : ¬ Short m := by
    intro hs
    rw [lost_short hs] at h
    cases h
  have hlen := kept_length_add_lost m
  unfold kept at hlen
  rw [if_neg hshort, h] at hlen
  split at hlen
  next ho => exact .inl ⟨ho, by omega⟩
  next ho =>
    split at hlen
    next hf => exact .inr ⟨hf, by simpa using hlen.symm⟩
    next hf =>
      rw [List.length_drop] at hlen
      omega

theorem losesFour_of_lost (h : lost m = 4) : LosesFour m := by
  have hshort : ¬ Short m := by
    intro hs
    rw [lost_short hs] at h
    cases h
  by_cases hfour : m.length = 4
  · exact .inl hfour
  · have hlen := kept_length_add_lost m
    unfold kept at hlen
    rw [if_neg hshort, h] at hlen
    unfold Short at hshort
    split at hlen
    · rw [List.length_drop] at hlen
      omega
    next ho =>
      split at hlen
      · rw [List.length_nil] at hlen
        omega
      next hf => exact .inr ⟨by omega, ho, hf⟩

theorem kept_losesEight (h : LosesEight m) : 8 ≤ m.length ∧ kept m = m.drop 8 := by
  have hlen : 8 ≤ m.length := by
    rcases h with ⟨_, hlen⟩ | ⟨_, hlen⟩ <;> omega
  have hshort : ¬ Short m := by
    unfold Short
    omega
  refine ⟨hlen, ?_⟩
  rcases h with ⟨ho, _⟩ | ⟨hf, hlen⟩
  · rw [kept, if_neg hshort, if_pos ho]
  · rw [kept, if_neg hshort, if_neg (not_okay_prefix_of_fail hf), if_pos hf,
      List.drop_of_length_le hlen.le]

theorem kept_losesFour (h : LosesFour m) : 4 ≤ m.length ∧ kept m = m.drop 4 := by
  have hlen : 4 ≤ m.length := by
    rcases h with hlen | ⟨hlen, _⟩ <;> omega
  have hshort : ¬ Short m := by
    unfold Short
    omega
  refine ⟨hlen, ?_⟩
  rcases h with hlen | ⟨_, ho, hf⟩
  · exact kept_four hlen
  · rw [kept, if_neg hshort, if_neg ho, if_neg hf]

end OneMessage

section ManyMessages
variable {P : Bytes} {msgs before rest : List Bytes} {m : Bytes}

def lostAll (msgs : List Bytes) : Nat := (msgs.map lost).sum

theorem flatMap_kept_short (h : ∀ m ∈ msgs, Short m) : msgs.flatMap kept = msgs.flatten :=
  flatMap_eq_flatten fun m hm => kept_short (h m hm)

theorem flatMap_kept_length (msgs : List Bytes) :
    (msgs.flatMap kept).length + lostAll msgs = msgs.flatten.length := by
  induction msgs with
  | nil => rfl
  | cons m msgs ih =>
    have hm := kept_length_add_lost m
    simp only [List.flatMap_cons, List.length_append, List.flatten_cons, lostAll, List.map_cons,
      List.sum_cons] at ih ⊢
    omega

theorem lostAll_short (h : ∀ m ∈ msgs, Short m) : lostAll msgs = 0 := by
  have hlen := flatMap_kept_length msgs
  rw [flatMap_kept_short h] at hlen
  omega

/-- Messages that are all short, up to the first one that loses something. -/
theorem lostAll_split (hbefore : ∀ w ∈ before, Short w) :
    lostAll (before ++ m :: rest) = lost m + lostAll rest := by
  have h : lostAll before = 0 := lostAll_short hbefore
  simp only [lostAll, List.map_append, List.map_cons, List.sum_append, List.sum_cons] at h ⊢
  omega

theorem split_lossy (msgs : List Bytes) :
    (∀ m ∈ msgs, Short m) ∨ ∃ before m rest, msgs = before ++ m :: rest ∧
      (∀ w ∈ before, Short w) ∧ 4 ≤ lost m ∧ lostAll msgs = lost m + lostAll rest := by
  rcases split_first (¬ Short ·) msgs with hshort | ⟨before, m, rest, rfl, hbefore, hm⟩
  · exact .inl (by simpa using hshort)
  · have hbefore' : ∀ w ∈ before, Short w := by simpa using hbefore
    exact .inr ⟨before, m, rest, rfl, hbefore', four_le_lost hm, lostAll_split hbefore'⟩

theorem short_of_lostAll (h : lostAll msgs < 4) : ∀ m ∈ msgs, Short m := by
  rcases split_lossy msgs with hshort | ⟨_, m, rest, _, _, hm, hsum⟩
  · exact hshort
  · omega

/-- Four bytes are lost in one message. -/
theorem split_of_lostAll_four (h : lostAll msgs = 4) :
    ∃ before m after, msgs = before ++ m :: after ∧ (∀ w ∈ before ++ after, Short w) ∧
      LosesFour m := by
  rcases split_lossy msgs with hshort | ⟨before, m, after, hmsgs, hbefore, hm, hsum⟩
  · rw [lostAll_short hshort] at h
    cases h
  · have hafter : ∀ w ∈ after, Short w := short_of_lostAll (by omega)
    refine ⟨before, m, after, hmsgs, ?_, losesFour_of_lost (by omega)⟩
    intro w hw
    exact (List.mem_append.mp hw).elim (hbefore w) (hafter w)

/-- Eight bytes are lost in one message or in two. -/
theorem loses_of_kept (hkept : msgs.flatMap kept = P)
    (hlen : msgs.flatten.length = P.length + 8) : LosesOnce P msgs ∨ LosesTwice P msgs := by
  have hlost := flatMap_kept_length msgs
  rw [hkept] at hlost
  rcases split_lossy msgs with hshort | ⟨before, m, rest, rfl, hbefore, hm, hsum⟩
  · rw [lostAll_short hshort] at hlost
    omega
  rw [List.flatMap_append, List.flatMap_cons, flatMap_kept_short hbefore] at hkept
  by_cases hrest : lostAll rest < 4
  · have hrest' := short_of_lostAll hrest
    rw [lostAll_short hrest'] at hsum
    refine .inl ⟨before, m, rest, rfl, ?_, losesEight_of_lost (by omega), ⟨_, hkept⟩⟩
    intro w hw
    exact (List.mem_append.mp hw).elim (hbefore w) (hrest' w)
  · have hfourLost : lostAll rest = 4 := by omega
    obtain ⟨between, m', after, rfl, hshort, hm'⟩ := split_of_lostAll_four hfourLost
    have hfour : LosesFour m := losesFour_of_lost (by omega)
    have hbetween := flatMap_kept_short (fun w hw => hshort w (List.mem_append_left _ hw))
    refine .inr ⟨before, m, between, m', after, rfl, ?_, hfour, hm', ?_⟩
    · intro w hw
      exact (List.mem_append.mp hw).elim (hbefore w) (hshort w)
    · rw [← (kept_losesFour hfour).2, ← hbetween]
      exact ⟨kept m' ++ after.flatMap kept, by rw [← hkept]; simp⟩

theorem kept_of_losesOnce (hsuffix : P <:+ msgs.flatten)
    (hlen : msgs.flatten.length = P.length + 8) (h : LosesOnce P msgs) :
    msgs.flatMap kept = P := by
  obtain ⟨before, m, after, rfl, hshort, hm, hpre⟩ := h
  obtain ⟨h8, hkept⟩ := kept_losesEight hm
  have hbefore := flatMap_kept_short (fun w hw => hshort w (List.mem_append_left _ hw))
  have hafter := flatMap_kept_short (fun w hw => hshort w (List.mem_append_right _ hw))
  rw [List.flatMap_append, List.flatMap_cons, hbefore, hafter, hkept]
  rw [List.flatten_append, List.flatten_cons] at hsuffix hlen
  apply append_eq_of_prefix_of_suffix hsuffix _ hpre
  · simp only [List.length_append, List.length_drop] at hlen ⊢
    omega
  · refine ⟨before.flatten ++ m.take 8, ?_⟩
    rw [List.append_assoc, ← List.append_assoc (m.take 8), List.take_append_drop]

theorem kept_of_losesTwice (hsuffix : P <:+ msgs.flatten)
    (hlen : msgs.flatten.length = P.length + 8) (h : LosesTwice P msgs) :
    msgs.flatMap kept = P := by
  obtain ⟨before, m, between, m', after, rfl, hshort, hm, hm', hpre⟩ := h
  obtain ⟨h4, hkept⟩ := kept_losesFour hm
  obtain ⟨h4', hkept'⟩ := kept_losesFour hm'
  have hbefore := flatMap_kept_short (fun w hw => hshort w (List.mem_append_left _ hw))
  have hbetween := flatMap_kept_short
    (fun w hw => hshort w (List.mem_append_right _ (List.mem_append_left _ hw)))
  have hafter := flatMap_kept_short
    (fun w hw => hshort w (List.mem_append_right _ (List.mem_append_right _ hw)))
  simp only [List.flatten_append, List.flatten_cons] at hsuffix hlen
  have hjoin : (before ++ m :: (between ++ m' :: after)).flatMap kept =
      (before.flatten ++ (m.drop 4 ++ between.flatten)) ++ (m'.drop 4 ++ after.flatten) := by
    simp only [List.flatMap_append, List.flatMap_cons, hbefore, hbetween, hafter, hkept, hkept',
      List.append_assoc]
  rw [hjoin]
  apply append_eq_of_prefix_of_suffix hsuffix _ hpre
  · simp only [List.length_append, List.length_drop] at hlen ⊢
    omega
  · refine ⟨before.flatten ++ (m ++ (between.flatten ++ m'.take 4)), ?_⟩
    simp only [List.append_assoc]
    rw [← List.append_assoc (m'.take 4), List.take_append_drop]

/-- The text comes out whole exactly when status and length alone are lost. -/
theorem kept_eq_iff (hP : P.length ≤ 65535) (hcut : Cut (reply okay P) msgs) :
    msgs.flatMap kept = P ↔ LosesOnce P msgs ∨ LosesTwice P msgs := by
  have hlen : msgs.flatten.length = P.length + 8 := by
    rw [hcut.joined, reply_length okay hP, okay_length]
    omega
  have hsuffix : P <:+ msgs.flatten := by
    rw [hcut.joined]
    exact suffix_reply okay P
  constructor
  · intro h
    exact loses_of_kept h hlen
  · intro h
    exact h.elim (kept_of_losesOnce hsuffix hlen) (kept_of_losesTwice hsuffix hlen)

end ManyMessages

section Run
variable {c : Call} {s : CallState} {msgs : List Bytes}

theorem passesOutput_run (hc : c.PassesOutput) :
    msgs.foldlM (meaning c).next s = .ok (msgs.foldl appendResult s) := by
  rw [passesOutput_next hc, foldlM_ok]

/-- The status is that of the last message. -/
theorem appendResult_status_iff (hne : msgs ≠ []) :
    (msgs.foldl appendResult s).status = 0 ↔
      ∀ m, msgs.getLast? = some m → ¬ fail <+: m := by
  have hstatus := run_overwrites CallState.status (fun m => (reading m).status)
    (fun _ _ _ hstep => by cases hstep; rfl) (foldlM_ok appendResult msgs s)
  rw [hstatus, List.getLast?_eq_some_getLast hne]
  simp [reading_status]

end Run

/-- **A reply comes out whole exactly when it is well cut.** For every operation
that hands the message and the caller's string to the parser, and every way the
reply to it arrives: the call returns 0 and appends the text of the reply, no
more and no less, if and only if the messages lose status and length and nothing
else, and the last one does not begin like a failure. -/
theorem reply_returned_iff {N : Nat} (hN : 8 < N) (c : Call) (hc : c.PassesOutput)
    (s : CallState) (P : Bytes) (hzero : 0 ∉ P) (hP : P.length ≤ 65535) (msgs : List Bytes)
    (hcut : Cut (reply okay P) msgs) (hfit : Fit N msgs) :
    (∃ x, c.operation.call N s msgs = .ok x ∧ x.returned = some 0 ∧
      x.state.output = s.output ++ P) ↔ WellCut P msgs := by
  let t := msgs.foldl appendResult (entered c s)
  have hcall : c.operation.call N s msgs = .ok (finishedSession c N msgs t) := by
    rw [call_eq hN c msgs hfit s, passesOutput_run hc]
    rfl
  have hresults : (msgs.flatMap fun m => (reading m).result) = msgs.flatMap kept := by
    have hmsgs := hcut.not_mem (zero_not_mem_reply zero_not_mem_okay hzero)
    exact List.flatMap_congr fun m hm => reading_result (hmsgs m hm)
  have houtput : t.output = s.output ++ msgs.flatMap kept := by
    rw [← hresults]
    exact output_run msgs (entered c s)
  have hstatus : t.status = 0 ↔ ∀ m, msgs.getLast? = some m → ¬ fail <+: m :=
    appendResult_status_iff (hcut.ne_nil (reply_ne_nil P).2)
  simp only [hcall, Except.ok.injEq, exists_eq_left', finishedSession_returned,
    Option.some.injEq]
  unfold WellCut
  rw [hstatus, ← kept_eq_iff hP hcut, show (finishedSession c N msgs t).state.output = _ from
    houtput, List.append_right_inj]

theorem reply_returned_getState :
    ∃ x, (Call.hostSerial (.getState (ascii "d17cdac6"))).operation.call 64 CallState.fresh
        [okay, ascii "0006device"] = .ok x ∧ x.returned = some 0 ∧
      x.state.output = ascii "device" :=
  (reply_returned_iff (by decide) (.hostSerial (.getState (ascii "d17cdac6"))) trivial
    CallState.fresh (ascii "device") (by decide) (by decide) [okay, ascii "0006device"]
    ⟨by decide, by decide⟩ (by decide)).mpr
    ⟨fun m hm => by cases hm; decide,
      .inr ⟨[], okay, [], ascii "0006device", [], rfl, by simp, .inl rfl, .inr (by decide),
        by decide⟩⟩

/-- A text that arrives behind its header loses four bytes of its own. -/
theorem reply_returned_fails :
    Cut (reply okay (ascii "device")) [ascii "OKAY0006", ascii "device"] ∧
      Fit 64 [ascii "OKAY0006", ascii "device"] ∧
      ¬ ∃ x, (Call.hostSerial (.getState (ascii "d17cdac6"))).operation.call 64 CallState.fresh
          [ascii "OKAY0006", ascii "device"] = .ok x ∧ x.returned = some 0 ∧
        x.state.output = ascii "device" := by
  refine ⟨⟨by decide, by decide⟩, by decide, ?_⟩
  intro hkept
  obtain ⟨x, hx, -, houtput⟩ := hkept
  rw [call_eq (by decide) _ _ (by decide)] at hx
  cases hx
  exact absurd houtput (by decide)

end AdbClient.Guarantees.ReplyReassembly
