import AdbClient.Guarantees.TransportRefusal
import AdbClient.Support.Pieces

/-!
# The listing of the reverse forwards, message by message

After the transport's own `OKAY` the server sends `OKAY` for the service, `OKAY`
for the result, the length of the listing and the listing, in messages of one or
more of these fields. `list_reverse` treats every message alike: it skips eight
bytes when there is an `OKAY` anywhere in it and four otherwise. The listing comes
out whole when it shares its message with its length and at most one `OKAY`; alone
it loses its first bytes, unless it has none.
-/
namespace AdbClient.Guarantees.ReverseListing
open Source Abstract Support.Stream Support.Pieces TransportRefusal

/-- The length of a listing as the server sends it. -/
def lengthField (P : Bytes) : Bytes := hexadecimal.print 4 P.length

/-- What the server sends once the service is requested. -/
def serverFields (P : Bytes) : List Bytes := [okay, okay, lengthField P, P]

/-- The groupings that bring the listing over. With two `OKAY` and the length in
front of it, the listing replaces what it loses when it begins with its own
length. -/
def BringsOver (P : Bytes) (groups : List (List Bytes)) : Prop :=
  groups = [[okay], [okay, lengthField P, P]] ∨
  (groups = [[okay], [okay], [lengthField P, P]] ∨ groups = [[okay, okay], [lengthField P, P]]) ∧
    ¬ okay <:+: P ∨
  groups = [[okay, okay, lengthField P], [P]] ∧ lengthField P <+: P ∧ ¬ okay <:+: P ∨
  (groups = [[okay], [okay], [lengthField P], [P]] ∨ groups = [[okay], [okay, lengthField P], [P]] ∨
    groups = [[okay, okay], [lengthField P], [P]]) ∧ P = []

section Fields
variable {P m w : Bytes}

theorem lengthField_length (hP : P.length ≤ 65535) : (lengthField P).length = 4 :=
  hexadecimal.print_length_of_lt 4 (Nat.lt_of_le_of_lt hP (by decide : 65535 < 16 ^ 4))

/-- No zero byte and no first letter of a status in a length. -/
theorem lengthField_not_mem (P : Bytes) :
    0 ∉ lengthField P ∧ 79 ∉ lengthField P ∧ 70 ∉ lengthField P := by
  refine ⟨?_, ?_, ?_⟩
  · intro h
    exact absurd (mem_hexadecimal_print h).1 (by decide)
  · intro h
    exact absurd (mem_hexadecimal_print h).2 (by decide)
  · intro h
    exact absurd (mem_hexadecimal_print h).2 (by decide)

/-- A text begins with a length, so it is not `FAIL`. -/
theorem lengthField_append_ne_fail (hP : P.length ≤ 65535) (w : Bytes) :
    lengthField P ++ w ≠ fail := by
  intro h
  have hmem : 70 ∈ (lengthField P ++ w).take 4 := by
    rw [h]
    decide
  rw [← lengthField_length hP, List.take_left] at hmem
  exact (lengthField_not_mem P).2.2 hmem

/-- What is skipped of a text without zero byte. -/
theorem listed_eq (hzero : 0 ∉ m) :
    listed m = if m = fail then [] else m.drop (if okay <:+: m then 8 else 4) := by
  have hdrop : ∀ k, text (m.drop k) = m.drop k := fun k =>
    text_eq_self fun h => hzero (List.mem_of_mem_drop h)
  unfold listed
  rw [text_eq_self hzero, hdrop, hdrop]
  split
  · rfl
  · split <;> rfl

theorem okay_append_ne_fail (w : Bytes) : okay ++ w ≠ fail := by
  intro h
  exact absurd (List.cons.inj h).1 (by decide)

/-- Behind a status four more bytes are skipped, whatever they are. -/
theorem listed_okay (hzero : 0 ∉ w) : listed (okay ++ w) = w.drop 4 := by
  have hmem : 0 ∉ okay ++ w := List.not_mem_append zero_not_mem_okay hzero
  rw [listed_eq hmem, if_neg (okay_append_ne_fail w), if_pos (List.prefix_append okay w).isInfix]
  rfl

/-- Behind a length nothing more is skipped, unless there is an `OKAY`. -/
theorem listed_lengthField (hP : P.length ≤ 65535) (hzero : 0 ∉ w) :
    listed (lengthField P ++ w) = w.drop (if okay <:+: w then 4 else 0) := by
  have hmem : 0 ∉ lengthField P ++ w := List.not_mem_append (lengthField_not_mem P).1 hzero
  have hlies : okay <:+: lengthField P ++ w ↔ okay <:+: w :=
    cons_infix_append_iff (lengthField_not_mem P).2.1
  have hskip : ∀ k, (lengthField P ++ w).drop (4 + k) = w.drop k := by
    intro k
    rw [← List.drop_drop, List.drop_left' (lengthField_length hP)]
  rw [listed_eq hmem, if_neg (lengthField_append_ne_fail hP w)]
  simp only [hlies]
  split
  · exact hskip 4
  · exact hskip 0

/-- A listing alone loses its first bytes. -/
theorem listed_eq_self_iff (hzero : 0 ∉ P) : listed P = P ↔ P = [] := by
  constructor
  · intro h
    by_contra hne
    have hlen := congrArg List.length h
    have hpos := List.length_pos_iff.mpr hne
    rw [listed_eq hzero] at hlen
    split at hlen
    · rw [List.length_nil] at hlen
      omega
    · rw [List.length_drop] at hlen
      split at hlen <;> omega
  · intro h
    subst h
    decide

/-- Its own length in front makes up for it. -/
theorem lengthField_listed_iff (hP : P.length ≤ 65535) (hzero : 0 ∉ P) :
    lengthField P ++ listed P = P ↔ lengthField P <+: P ∧ ¬ okay <:+: P := by
  constructor
  · intro h
    refine ⟨⟨listed P, h⟩, ?_⟩
    intro hokay
    have hne : P ≠ fail := by
      rw [← h]
      exact lengthField_append_ne_fail hP _
    have hlisted : listed P = P.drop 8 := by
      rw [listed_eq hzero, if_neg hne, if_pos hokay]
    have hrest : okay <:+: P.drop 8 := by
      rw [← hlisted]
      rw [← h] at hokay
      exact (cons_infix_append_iff (lengthField_not_mem P).2.1).mp hokay
    have hlen := congrArg List.length h
    have hfour := hrest.length_le
    rw [hlisted, List.length_append, lengthField_length hP, List.length_drop] at hlen
    rw [List.length_drop, okay_length] at hfour
    omega
  · intro h
    obtain ⟨⟨rest, hrest⟩, hokay⟩ := h
    have hzero' : 0 ∉ rest := fun hz => hzero (hrest ▸ List.mem_append_right _ hz)
    have hno : ¬ okay <:+: rest := by
      intro hmore
      rw [← hrest] at hokay
      exact hokay (hmore.trans (List.suffix_append _ rest).isInfix)
    have hlisted := listed_lengthField hP hzero'
    rw [hrest, if_neg hno, List.drop_zero] at hlisted
    rw [hlisted, hrest]

/-- Behind its length the whole listing is taken, unless it has an `OKAY`. -/
theorem drop_eq_self_iff : P.drop (if okay <:+: P then 4 else 0) = P ↔ ¬ okay <:+: P := by
  constructor
  · intro h hokay
    have hlen := congrArg List.length h
    have hfour := hokay.length_le
    rw [if_pos hokay, List.length_drop] at hlen
    rw [okay_length] at hfour
    omega
  · intro hokay
    rw [if_neg hokay, List.drop_zero]

/-- The messages without the listing: only the length behind two `OKAY` is taken
for text. -/
theorem listed_header (hP : P.length ≤ 65535) :
    listed okay = [] ∧ listed (okay ++ okay) = [] ∧ listed (lengthField P) = [] ∧
      listed (okay ++ lengthField P) = [] ∧
      listed (okay ++ (okay ++ lengthField P)) = lengthField P := by
  have hzero := (lengthField_not_mem P).1
  have hfour := lengthField_length hP
  refine ⟨by decide, by decide, ?_, ?_, ?_⟩
  · have halone := listed_lengthField hP (w := []) (by simp)
    rw [List.append_nil] at halone
    rw [halone, List.drop_nil]
  · rw [listed_okay hzero, List.drop_of_length_le (Nat.le_of_eq hfour)]
  · rw [listed_okay (List.not_mem_append zero_not_mem_okay hzero)]
    exact List.drop_left' okay_length

/-- The messages with the listing behind its length. -/
theorem listed_body (hP : P.length ≤ 65535) (hzero : 0 ∉ P) :
    listed (okay ++ (lengthField P ++ P)) = P ∧
      listed (okay ++ (okay ++ (lengthField P ++ P))) = lengthField P ++ P := by
  have hbody : 0 ∉ lengthField P ++ P := List.not_mem_append (lengthField_not_mem P).1 hzero
  constructor
  · rw [listed_okay hbody]
    exact List.drop_left' (lengthField_length hP)
  · rw [listed_okay (List.not_mem_append zero_not_mem_okay hbody)]
    exact List.drop_left' okay_length

end Fields

/-- The text appended is the listing, and the last message is no failure. -/
def Brought (P : Bytes) (msgs : List Bytes) : Prop :=
  msgs.getLast? ≠ some fail ∧ msgs.flatMap listed = P

/-- One case for every grouping. -/
theorem brought_iff {P : Bytes} (hzero : 0 ∉ P) (hP : P.length ≤ 65535)
    {groups : List (List Bytes)} (hgroups : groups.flatten = serverFields P)
    (hne : ∀ g ∈ groups, g ≠ []) :
    Brought P (okay :: groups.map List.flatten) ↔ BringsOver P groups := by
  obtain ⟨h1, h2, h3, h4, h5⟩ := listed_header hP
  obtain ⟨h6, h7⟩ := listed_body hP hzero
  have hbody := listed_lengthField hP hzero
  have hfail := lengthField_append_ne_fail hP P
  have halone : P ≠ fail ∧ listed P = P ↔ P = [] := by
    rw [listed_eq_self_iff hzero]
    constructor
    · exact And.right
    · intro h
      exact ⟨by rw [h]; decide, h⟩
  have hmade : P ≠ fail ∧ lengthField P ++ listed P = P ↔
      lengthField P <+: P ∧ ¬ okay <:+: P := by
    rw [lengthField_listed_iff hP hzero]
    constructor
    · exact And.right
    · intro h
      obtain ⟨rest, hrest⟩ := h.1
      refine ⟨?_, h⟩
      rw [← hrest]
      exact lengthField_append_ne_fail hP rest
  have hlong : lengthField P ++ P ≠ P := by
    intro h
    have hlen := congrArg List.length h
    rw [List.length_append, lengthField_length hP] at hlen
    omega
  have hmem := mem_groupings hgroups hne
  simp only [groupings, serverFields, List.flatMap_cons, List.flatMap_nil, List.append_nil,
    List.cons_append, List.nil_append, List.mem_cons, List.not_mem_nil, or_false] at hmem
  unfold Brought BringsOver
  rcases hmem with rfl | rfl | rfl | rfl | rfl | rfl | rfl | rfl
  · simpa [h1, h3] using halone
  · simpa [h1, h2, h3] using halone
  · simpa [h1, h4] using halone
  · simpa [h1, h5] using hmade
  · simpa [h1, hbody, hfail] using drop_eq_self_iff
  · simpa [h1, h2, hbody, hfail] using drop_eq_self_iff
  · simp [h1, h6, okay_append_ne_fail]
  · simp [h1, h7, hlong]

/-- What the caller sees: the last message is the status, and the text is appended. -/
theorem listReverse_received {N : Nat} (hN : 8 < N) (serial : Bytes) (s : CallState) (P : Bytes)
    {msgs : List Bytes} (hne : msgs ≠ []) (hfit : Fit N msgs) :
    (∃ x, (LocalCommand.listReverse serial).call N s msgs = .ok x ∧ x.returned = some 0 ∧
      x.state.output = s.output ++ P) ↔ Brought P msgs := by
  let t := msgs.foldl (deviceNext (.listReverse serial)) (entered (.device (.listReverse serial)) s)
  have hcall : (LocalCommand.listReverse serial).call N s msgs =
      .ok (finishedSession (.device (.listReverse serial)) N msgs t) :=
    device_call hN (.listReverse serial) msgs hfit s
  have hresponds : Responds (.listReverse serial) := trivial
  have hstatus : t.status = 0 ↔ msgs.getLast? ≠ some fail := by
    have hrun : t.status = _ := device_run_returns hresponds hne
    rw [hrun]
    split <;> simp_all
  have houtput : t.output = s.output ++ msgs.flatMap listed := listReverse_run_output serial
  have hstate : (finishedSession (.device (.listReverse serial)) N msgs t).state = t := rfl
  simp only [hcall, Except.ok.injEq, exists_eq_left', finishedSession_returned,
    Option.some.injEq, hstatus, hstate, houtput, List.append_cancel_left_eq]
  rfl

/-- **When the listing comes over.** For every listing without zero byte of at most
65535 bytes and every grouping of the server's fields into messages behind the
transport's `OKAY`: `list_reverse` returns 0 and appends exactly the listing if
and only if the grouping brings it over. -/
theorem listReverse_iff {N : Nat} (hN : 8 < N) (serial : Bytes) (s : CallState) (P : Bytes)
    (hzero : 0 ∉ P) (hP : P.length ≤ 65535) (groups : List (List Bytes))
    (hgroups : groups.flatten = serverFields P) (hne : ∀ g ∈ groups, g ≠ [])
    (hfit : Fit N (okay :: groups.map List.flatten)) :
    (∃ x, (LocalCommand.listReverse serial).call N s (okay :: groups.map List.flatten) = .ok x ∧
      x.returned = some 0 ∧ x.state.output = s.output ++ P) ↔ BringsOver P groups := by
  rw [listReverse_received hN serial s P (List.cons_ne_nil _ _) hfit]
  exact brought_iff hzero hP hgroups hne

/-- One `OKAY` alone, and the other with the listing. -/
theorem listReverse_two :
    ∃ x, (LocalCommand.listReverse (ascii "d17cdac6")).call 64 .fresh
        [okay, okay, ascii "OKAY000ehost-4 tcp:1 x"] = .ok x ∧
      x.returned = some 0 ∧ x.state.output = [] ++ ascii "host-4 tcp:1 x" :=
  (listReverse_iff (by decide) (ascii "d17cdac6") .fresh (ascii "host-4 tcp:1 x") (by decide)
    (by decide) [[okay], [okay, ascii "000e", ascii "host-4 tcp:1 x"]] (by decide) (by decide)
    (by decide)).mpr (.inl (by decide))

/-- A listing in a message of its own loses four bytes. -/
theorem listReverse_fails :
    [[okay], [okay, ascii "000e"], [ascii "host-4 tcp:1 x"]].flatten =
        serverFields (ascii "host-4 tcp:1 x") ∧
      ¬ ∃ x, (LocalCommand.listReverse (ascii "d17cdac6")).call 64 .fresh
          (okay :: [[okay], [okay, ascii "000e"], [ascii "host-4 tcp:1 x"]].map List.flatten) =
            .ok x ∧
        x.returned = some 0 ∧ x.state.output = [] ++ ascii "host-4 tcp:1 x" := by
  refine ⟨by decide, ?_⟩
  intro hread
  have hbrought := (listReverse_received (by decide) (ascii "d17cdac6") .fresh
    (ascii "host-4 tcp:1 x") (List.cons_ne_nil _ _) (by decide)).mp hread
  exact absurd hbrought.2 (by decide)

end AdbClient.Guarantees.ReverseListing
