import AdbClient.Abstract.Splitting
import AdbClient.Support.Pieces

/-!
# Pieces and lines

`string_split` asks the end-of-file flag, not `std::getline`, whether to go on.
The flag is set by the turn that finds no delimiter, so the loop takes one turn
for every piece and none is missed or added, empty ones included.

`get_lines_from_buf` takes the pieces without the last one, which is empty only
when the text is empty or ends in a newline. Of any other text the end is lost.
-/
namespace AdbClient.Guarantees.Lines
open Source Abstract Support.Pieces

/-- The stream after so many turns of the loop. -/
def streamAfter (delimiter : Byte) : Nat → StringStream → StringStream
  | 0, ss => ss
  | k + 1, ss => streamAfter delimiter k (getline ss delimiter).2

/-- Pieces without the delimiter that give the text back when they are joined. -/
structure IsSplit (d : Byte) (str : Bytes) (pieces : List Bytes) : Prop where
  nonempty : pieces ≠ []
  separated : ∀ w ∈ pieces, d ∉ w
  joined : [d].intercalate pieces = str

section Split
variable {d : Byte} {str : Bytes} {pieces : List Bytes}

theorem getline_piece {w : Bytes} (hw : d ∉ w) (rest : Bytes) :
    getline ⟨w ++ d :: rest, false⟩ d = (w, ⟨rest, false⟩) := by
  simp only [getline, takeWhile_piece hw, List.drop_left]

/-- The flag is set by the turn after as many turns as there are delimiters. -/
theorem streamAfter_eof (d : Byte) (str : Bytes) :
    (∀ k, k ≤ str.count d → (streamAfter d k ⟨str, false⟩).eof = false) ∧
      (streamAfter d (str.count d + 1) ⟨str, false⟩).eof = true := by
  induction str using separated_induction d with
  | last s hs =>
    rw [List.count_eq_zero.mpr hs]
    constructor
    · intro k hk
      rw [Nat.le_zero.mp hk, streamAfter]
    · rw [streamAfter, getline_last hs, streamAfter]
  | cut w rest hw ih =>
    rw [List.count_append, List.count_eq_zero.mpr hw, List.count_cons_self, Nat.zero_add]
    constructor
    · intro k hk
      cases k with
      | zero => rw [streamAfter]
      | succ k =>
        rw [streamAfter, getline_piece hw]
        exact ih.1 k (Nat.le_of_succ_le_succ hk)
    · rw [streamAfter, getline_piece hw]
      exact ih.2

theorem isSplit_stringSplit (d : Byte) (str : Bytes) : IsSplit d str (stringSplit str d) := by
  rw [stringSplit_eq]
  exact ⟨List.splitOn_ne_nil d str, not_mem_of_mem_splitOn str, List.intercalate_splitOn d⟩

/-- Whatever has been joined is split where it was joined. -/
theorem IsSplit.eq_stringSplit (h : IsSplit d str pieces) : pieces = stringSplit str d := by
  rw [stringSplit_eq, ← h.joined]
  exact (List.splitOn_intercalate d h.separated h.nonempty).symm

end Split

/-- **Splitting and joining are inverse.** For every text and every delimiter: the
loop comes to its end in the turn after as many turns as there are delimiters;
the pieces it collects are one more than these, and the only non-empty list of
pieces without the delimiter that joins to the text; and every such list is what
its own join is split into. -/
theorem stringSplit_unique (str : Bytes) (d : Byte) :
    ((∀ k, k ≤ str.count d → (streamAfter d k ⟨str, false⟩).eof = false) ∧
      (streamAfter d (str.count d + 1) ⟨str, false⟩).eof = true) ∧
    (stringSplit str d).length = str.count d + 1 ∧
    (∀ pieces, IsSplit d str pieces ↔ pieces = stringSplit str d) ∧
    (∀ pieces : List Bytes, pieces ≠ [] → (∀ w ∈ pieces, d ∉ w) →
      stringSplit ([d].intercalate pieces) d = pieces) := by
  refine ⟨streamAfter_eof d str, ?_, ?_, ?_⟩
  · rw [stringSplit_eq, splitOn_length]
  · intro pieces
    constructor
    · intro h
      exact h.eq_stringSplit
    · intro h
      rw [h]
      exact isSplit_stringSplit d str
  · intro pieces hne hseparated
    have h : IsSplit d ([d].intercalate pieces) pieces := ⟨hne, hseparated, rfl⟩
    exact h.eq_stringSplit.symm

/-- The lines appended lose nothing: each followed by a newline, they give back
the text, with its last line completed. -/
def Lossless (buf : Bytes) (appended : List Bytes) : Prop :=
  (∀ l ∈ appended, 10 ∉ l) ∧
    appended.flatMap (· ++ [10]) = if buf = [] ∨ [10] <:+ buf then buf else buf ++ [10]

instance (buf : Bytes) (appended : List Bytes) : Decidable (Lossless buf appended) :=
  inferInstanceAs (Decidable (_ ∧ _ = _))

/-- The text is its lines and the piece behind them. -/
theorem buf_eq (buf : Bytes) :
    ∃ last, 10 ∉ last ∧ (stringSplit buf 10).dropLast.flatMap (· ++ [10]) ++ last = buf := by
  have h := isSplit_stringSplit 10 buf
  have hsplit := List.dropLast_append_getLast h.nonempty
  refine ⟨(stringSplit buf 10).getLast h.nonempty, h.separated _ (List.getLast_mem _), ?_⟩
  rw [← intercalate_concat, hsplit, h.joined]

theorem getLinesFromBuf_eq (lines : List Bytes) (buf : Bytes) :
    getLinesFromBuf lines buf = .ok (lines ++ (stringSplit buf 10).dropLast) := by
  rw [getLinesFromBuf, popBack, if_neg (isSplit_stringSplit 10 buf).nonempty]
  rfl

/-- The piece that is dropped is empty, or the text ended in it. -/
theorem lossless_iff (buf : Bytes) :
    Lossless buf (stringSplit buf 10).dropLast ↔ buf = [] ∨ [10] <:+ buf := by
  obtain ⟨last, hlast, hbuf⟩ := buf_eq buf
  have hends : (buf = [] ∨ [10] <:+ buf) ↔ last = [] := by
    rw [← hbuf]
    exact ends_iff hlast
  constructor
  · intro h
    by_contra hcut
    have hjoined := congrArg List.length h.2
    have hlen := congrArg List.length hbuf
    rw [if_neg hcut, List.length_append, List.length_singleton] at hjoined
    rw [List.length_append] at hlen
    omega
  · intro h
    rw [hends.mp h, List.append_nil] at hbuf
    constructor
    · intro l hl
      exact (isSplit_stringSplit 10 buf).separated l (List.mem_of_mem_dropLast hl)
    · rw [if_pos h, hbuf]

/-- **When no line is lost.** For every text and every list handed in:
`get_lines_from_buf` keeps what is in the list and appends lines without newline
that lose nothing of the text if and only if the text is empty or ends in a
newline. -/
theorem getLinesFromBuf_lossless_iff (lines : List Bytes) (buf : Bytes) :
    (∃ appended, getLinesFromBuf lines buf = .ok (lines ++ appended) ∧ Lossless buf appended) ↔
      buf = [] ∨ [10] <:+ buf := by
  simp only [getLinesFromBuf_eq, Except.ok.injEq, List.append_cancel_left_eq, exists_eq_left']
  exact lossless_iff buf

/-- Shell output without a final newline loses its only line. -/
theorem getLinesFromBuf_lossless_fails :
    ¬ ∃ appended, getLinesFromBuf [] (ascii "14") = .ok ([] ++ appended) ∧
      Lossless (ascii "14") appended := by
  simp only [getLinesFromBuf_eq, Except.ok.injEq, List.append_cancel_left_eq, exists_eq_left',
    lossless_iff]
  decide

end AdbClient.Guarantees.Lines
