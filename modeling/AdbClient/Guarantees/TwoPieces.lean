import AdbClient.Guarantees.ReplyReassembly

/-!
# A reply in one piece or in two

In one piece a reply is read as it should be. In two, the pieces have to lose
eight bytes together. The first begins with the status once it has four bytes,
and then loses up to eight; the second never begins with a status. This leaves
the cut right behind the status, where each piece loses four, and a cut that
leaves fewer than four bytes of the text behind.
-/
namespace AdbClient.Guarantees.TwoPieces
open Source Abstract ReplyReassembly

/-- `read_protocol_string` on a message at the start of a zeroed read buffer. -/
def read (N : Nat) (m result error : Bytes) : Except Fault (Int × Bytes × Bytes) :=
  readProtocolString (deliver (zeroed N) m) result error

/-- Two messages one after the other, the second with the strings the first left. -/
def readBoth (N : Nat) (m m' result error : Bytes) : Except Fault (Int × Bytes × Bytes) := do
  let (_, result, error) ← read N m result error
  read N m' result error

/-- The cuts after which the text comes out whole. -/
def SafeCut (P : Bytes) (k : Nat) : Prop := k = 4 ∨ (P.length + 4 < k ∧ 8 ≤ k)

section Pieces
variable {P m : Bytes} {k : Nat}

theorem kept_okay (h : okay <+: m) : kept m = m.drop 8 := by
  have hlen := h.length_le
  rw [okay_length] at hlen
  have hshort : ¬ Short m := Nat.not_lt.mpr hlen
  rw [kept, if_neg hshort, if_pos h]

theorem take_okay (hk : 4 ≤ k) : okay <+: (reply okay P).take k := by
  rw [reply, List.take_append, List.take_of_length_le (by simpa using hk)]
  exact List.prefix_append _ _

theorem not_status_of_head {b : Byte} {rest : Bytes} (ho : b ≠ 79) (hf : b ≠ 70) :
    ¬ okay <+: b :: rest ∧ ¬ fail <+: b :: rest := by
  constructor
  · intro h
    exact ho (List.cons_prefix_cons.mp h).1.symm
  · intro h
    exact hf (List.cons_prefix_cons.mp h).1.symm

/-- A cut within the status leaves a second piece that begins with no status. -/
theorem drop_not_status (h0 : 0 < k) (h4 : k < 4) :
    ¬ okay <+: (reply okay P).drop k ∧ ¬ fail <+: (reply okay P).drop k := by
  obtain rfl | rfl | rfl : k = 1 ∨ k = 2 ∨ k = 3 := by omega
  · exact not_status_of_head (b := 75) (by decide) (by decide)
  · exact not_status_of_head (b := 65) (by decide) (by decide)
  · exact not_status_of_head (b := 89) (by decide) (by decide)

/-- What the two pieces lose adds up to status and length when the text comes out. -/
theorem lost_eight (hP : P.length ≤ 65535) (hlt : k < (reply okay P).length)
    (h : kept ((reply okay P).take k) ++ kept ((reply okay P).drop k) = P) :
    lost ((reply okay P).take k) + lost ((reply okay P).drop k) = 8 := by
  have hlen := congrArg List.length h
  have hfirst := kept_length_add_lost ((reply okay P).take k)
  have hsecond := kept_length_add_lost ((reply okay P).drop k)
  have hreply := reply_length okay hP
  rw [List.length_append] at hlen
  rw [List.length_take_of_le hlt.le] at hfirst
  rw [List.length_drop] at hsecond
  rw [okay_length] at hreply
  omega

theorem safeCut_of_kept (hP : P.length ≤ 65535) (h0 : 0 < k) (hlt : k < (reply okay P).length)
    (h : kept ((reply okay P).take k) ++ kept ((reply okay P).drop k) = P) : SafeCut P k := by
  have hlost := lost_eight hP hlt h
  have hreply := reply_length okay hP
  rw [okay_length] at hreply
  by_cases h4 : k < 4
  · -- nothing of the first piece is lost, and the second has no status to lose
    have hshort : Short ((reply okay P).take k) := by
      unfold Short
      rw [List.length_take_of_le hlt.le]
      exact h4
    rw [lost_short hshort, Nat.zero_add] at hlost
    have hno := drop_not_status (P := P) h0 h4
    rcases losesEight_of_lost hlost with ⟨ho, _⟩ | ⟨hf, _⟩
    · exact absurd ho hno.1
    · exact absurd hf hno.2
  · have hkept := kept_okay (take_okay (P := P) (Nat.le_of_not_lt h4))
    have hfirst := kept_length_add_lost ((reply okay P).take k)
    rw [hkept, List.length_drop, List.length_take_of_le hlt.le] at hfirst
    by_cases hshort : Short ((reply okay P).drop k)
    · rw [lost_short hshort] at hlost
      unfold Short at hshort
      rw [List.length_drop] at hshort
      right
      omega
    · have := four_le_lost hshort
      left
      omega

theorem kept_of_safeCut (hP : P.length ≤ 65535) (hlt : k < (reply okay P).length)
    (h : SafeCut P k) : kept ((reply okay P).take k) ++ kept ((reply okay P).drop k) = P := by
  have hreply := reply_length okay hP
  rw [okay_length] at hreply
  rcases h with rfl | ⟨hlong, h8⟩
  · have hrest : (reply okay P).drop 4 = hexadecimal.print 4 P.length ++ P := rfl
    have hshort : ¬ Short ((reply okay P).drop 4) := by
      unfold Short
      rw [List.length_drop]
      omega
    have hsecond : kept ((reply okay P).drop 4) = P := by
      rw [kept, if_neg hshort, hrest, if_neg (digits_not_status (.inl rfl) _ _),
        if_neg (digits_not_status (.inr rfl) _ _), ← hrest, List.drop_drop,
        reply_drop okay_length hP]
    have hfirst : kept ((reply okay P).take 4) = [] := by
      rw [kept_okay (take_okay (Nat.le_refl 4))]
      exact List.drop_of_length_le (by rw [List.length_take]; omega)
    rw [hfirst, hsecond, List.nil_append]
  · have hshort : Short ((reply okay P).drop k) := by
      unfold Short
      rw [List.length_drop]
      omega
    have hrest : (reply okay P).drop k = P.drop (k - 8) := by
      have hdrop := List.drop_drop (i := k - 8) (j := 8) (l := reply okay P)
      rw [reply_drop okay_length hP, Nat.add_sub_cancel' h8] at hdrop
      exact hdrop.symm
    rw [kept_okay (take_okay (by omega)), kept_short hshort, List.drop_take,
      reply_drop okay_length hP, hrest, List.take_append_drop]

/-- What two messages without zero bytes leave in an empty result. -/
theorem readBoth_result {N : Nat} {m' : Bytes} (hN : 8 < N) (hm : m.length < N)
    (hm' : m'.length < N) (hzero : 0 ∉ m) (hzero' : 0 ∉ m') (error : Bytes) :
    (readBoth N m m' [] error).map (·.2.1) = .ok (kept m ++ kept m') := by
  simp only [readBoth, read, readProtocolString_deliver hN hm, bind, Except.bind,
    readProtocolString_deliver hN hm', reading_result hzero, reading_result hzero',
    List.nil_append, Except.map]

end Pieces

/-- **A reply in one piece, and in two.** For every text: the whole reply as one
message returns 0, appends exactly the text and leaves the error message alone.
Cut in two, it leaves exactly the text in an empty result if and only if the cut
is right behind the status, or leaves fewer than four bytes of the text and a
first piece of at least eight. -/
theorem reply_read {P : Bytes} (hzero : 0 ∉ P) (hP : P.length ≤ 65535) :
    (∀ N result error, (reply okay P).length < N →
      read N (reply okay P) result error = .ok (0, result ++ P, error)) ∧
    (∀ N k error, 8 < N → 0 < k → k < (reply okay P).length →
      ((reply okay P).take k).length < N → ((reply okay P).drop k).length < N →
      ((readBoth N ((reply okay P).take k) ((reply okay P).drop k) [] error).map (·.2.1) = .ok P ↔
        k = 4 ∨ (P.length + 4 < k ∧ 8 ≤ k))) := by
  have hreply := reply_length okay hP
  rw [okay_length] at hreply
  constructor
  · intro N result error hN
    rw [read, readProtocolString_deliver (by omega) hN, reading_reply hzero hP, List.append_nil]
  · intro N k error hN h0 hlt htake hdrop
    have hz := zero_not_mem_reply zero_not_mem_okay hzero
    have hzt : 0 ∉ (reply okay P).take k := fun h => hz (List.mem_of_mem_take h)
    have hzd : 0 ∉ (reply okay P).drop k := fun h => hz (List.mem_of_mem_drop h)
    rw [readBoth_result hN htake hdrop hzt hzd error, Except.ok.injEq]
    constructor
    · intro h
      exact safeCut_of_kept hP h0 hlt h
    · intro h
      exact kept_of_safeCut hP hlt h

/-- The text `device` in one piece, cut behind the status, and cut two bytes short
of its end. -/
theorem reply_read_device :
    read 64 (ascii "OKAY0006device") [] [] = .ok (0, ascii "device", []) ∧
      (readBoth 64 okay (ascii "0006device") [] []).map (·.2.1) = .ok (ascii "device") ∧
      (readBoth 64 (ascii "OKAY0006devi") (ascii "ce") [] []).map (·.2.1) =
        .ok (ascii "device") := by
  have h := reply_read (P := ascii "device") (by decide) (by decide)
  refine ⟨h.1 64 [] [] (by decide), ?_, ?_⟩
  · exact (h.2 64 4 [] (by decide) (by decide) (by decide) (by decide) (by decide)).mpr (.inl rfl)
  · exact (h.2 64 12 [] (by decide) (by decide) (by decide) (by decide) (by decide)).mpr
      (.inr (by decide))

end AdbClient.Guarantees.TwoPieces
