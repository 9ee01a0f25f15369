import AdbClient.Source.Utils

/-!
# Splitting and space collapsing

`string_split` is `List.splitOn`: the loop on the end-of-file flag neither misses
a last empty piece nor adds one. `unique_spaces` is `squeeze`, which only
remembers whether the last character kept was a space.
-/
namespace AdbClient.Abstract
open Source

/-- What follows the longest prefix without the delimiter starts with it. -/
theorem drop_takeWhile_ne {α : Type} [DecidableEq α] {d c : α} {l rest : List α}
    (h : l.drop (l.takeWhile (· ≠ d)).length = c :: rest) : c = d := by
  induction l with
  | nil => simp at h
  | cons a l ih =>
    by_cases ha : a = d
    · simp [ha] at h
      exact h.1.symm
    · simp [ha] at h
      exact ih (by simpa using h)

theorem getline_last {ss : StringStream} {d : Byte} (h : d ∉ ss.rest) :
    getline ss d = (ss.rest, ⟨[], true⟩) := by
  have hword : ss.rest.takeWhile (· ≠ d) = ss.rest := by
    rw [List.takeWhile_eq_self_iff]
    intro c hc
    simpa using fun hcd : c = d => h (hcd ▸ hc)
  simp only [getline, hword, List.drop_length]

theorem getline_cut {ss : StringStream} {d : Byte} (h : d ∈ ss.rest) :
    ∃ word rest, d ∉ word ∧ ss.rest = word ++ d :: rest ∧
      getline ss d = (word, ⟨rest, false⟩) := by
  have hprefix : ss.rest.takeWhile (· ≠ d) <+: ss.rest := List.takeWhile_prefix _
  have hjoin := List.prefix_iff_eq_append.mp hprefix
  have hword : d ∉ ss.rest.takeWhile (· ≠ d) := by
    intro hd
    simpa using List.mem_takeWhile_imp hd
  cases hdrop : ss.rest.drop (ss.rest.takeWhile (· ≠ d)).length with
  | nil =>
    rw [hdrop, List.append_nil] at hjoin
    rw [hjoin] at hword
    exact absurd h hword
  | cons c rest =>
    obtain rfl := drop_takeWhile_ne hdrop
    rw [hdrop] at hjoin
    refine ⟨_, rest, hword, hjoin.symm, ?_⟩
    simp only [getline, hdrop]

/-- One turn of the loop splits off the first piece. -/
theorem splitOn_getline (ss : StringStream) (d : Byte) :
    ss.rest.splitOn d = (getline ss d).1 ::
      if (getline ss d).2.eof then [] else (getline ss d).2.rest.splitOn d := by
  by_cases hd : d ∈ ss.rest
  · obtain ⟨word, rest, hword, hrest, hline⟩ := getline_cut hd
    rw [hline, hrest, List.splitOn_append_cons_self, List.splitOn_eq_singleton hword]
    rfl
  · rw [getline_last hd, List.splitOn_eq_singleton hd]
    rfl

theorem splitLoop_eq (d : Byte) (ss : StringStream) (res : List Bytes) :
    splitLoop d ss res = res ++ if ss.eof then [] else ss.rest.splitOn d := by
  induction ss, res using splitLoop.induct d with
  | case1 ss res heof =>
    rw [splitLoop]
    simp [heof]
  | case2 ss res heof next ih =>
    rw [splitLoop, if_neg heof, ih, if_neg heof, splitOn_getline ss d]
    simp only [next, List.append_assoc, List.singleton_append]

theorem stringSplit_eq (str : Bytes) (d : Byte) : stringSplit str d = str.splitOn d := by
  rw [stringSplit, splitLoop_eq]
  simp

/-- A text without the delimiter is one piece. -/
theorem stringSplit_of_not_mem {str : Bytes} {d : Byte} (h : d ∉ str) :
    stringSplit str d = [str] := by
  rw [stringSplit_eq, List.splitOn_eq_singleton h]

/-- The first piece ends at the first delimiter. -/
theorem stringSplit_append {w : Bytes} {d : Byte} (h : d ∉ w) (rest : Bytes) :
    stringSplit (w ++ d :: rest) d = w :: stringSplit rest d := by
  simp only [stringSplit_eq, List.splitOn_append_cons_self, List.splitOn_eq_singleton h,
    List.singleton_append]

/-- Lines that end in the delimiter are the pieces, and an empty one follows. -/
theorem stringSplit_lines (d : Byte) (lines : List Bytes) (h : ∀ l ∈ lines, d ∉ l) :
    stringSplit (lines.flatMap (· ++ [d])) d = lines ++ [[]] := by
  induction lines with
  | nil => exact stringSplit_of_not_mem (by simp)
  | cons l lines ih =>
    rw [List.flatMap_cons, List.append_assoc, List.singleton_append,
      stringSplit_append (h l (by simp)), ih (fun l' hl' => h l' (by simp [hl']))]
    rfl

/-- Collapses runs of spaces; the flag says that the last character kept is one. -/
def squeeze : Bool → Bytes → Bytes
  | _, [] => []
  | afterSpace, c :: s =>
      if afterSpace ∧ c = 32 then squeeze true s else c :: squeeze (c = 32) s

theorem destutter_eq_squeeze (a : Byte) (s : Bytes) :
    s.destutter' (fun lhs rhs => ¬ (lhs = rhs ∧ lhs = 32)) a = a :: squeeze (a = 32) s := by
  induction s generalizing a with
  | nil => rfl
  | cons c s ih =>
    rw [List.destutter']
    by_cases hdrop : a = c ∧ a = 32
    · obtain ⟨rfl, rfl⟩ := hdrop
      rw [if_neg (by simp), ih]
      simp [squeeze]
    · rw [if_pos hdrop, ih]
      have hkeep : ¬ (a = 32 ∧ c = 32) := by
        intro hspaces
        exact hdrop ⟨hspaces.1.trans hspaces.2.symm, hspaces.1⟩
      simp [squeeze, hkeep]

theorem uniqueSpaces_eq (s : Bytes) : uniqueSpaces s = squeeze false s := by
  cases s with
  | nil => rfl
  | cons c s =>
    rw [uniqueSpaces, List.destutter, destutter_eq_squeeze]
    simp [squeeze]

/-- Whether the last character of a text is a space; the flag stands in for one in
front of it. -/
def endsInSpace : Bool → Bytes → Bool
  | afterSpace, [] => afterSpace
  | _, c :: s => endsInSpace (c = 32) s

/-- A text is collapsed from left to right, and the flag is all that is carried on. -/
theorem squeeze_append (afterSpace : Bool) (s t : Bytes) :
    squeeze afterSpace (s ++ t) = squeeze afterSpace s ++ squeeze (endsInSpace afterSpace s) t := by
  induction s generalizing afterSpace with
  | nil => rfl
  | cons c s ih =>
    by_cases hdrop : afterSpace ∧ c = 32
    · simp [squeeze, endsInSpace, hdrop, ih]
    · simp [squeeze, endsInSpace, hdrop, ih]

theorem endsInSpace_squeeze (afterSpace : Bool) (s : Bytes) :
    endsInSpace afterSpace (squeeze afterSpace s) = endsInSpace afterSpace s := by
  induction s generalizing afterSpace with
  | nil => rfl
  | cons c s ih =>
    by_cases hdrop : afterSpace ∧ c = 32
    · simp [squeeze, endsInSpace, hdrop, ih]
    · simp [squeeze, endsInSpace, hdrop, ih]

/-- A collapsed text has no run left to collapse. -/
theorem squeeze_squeeze (afterSpace : Bool) (s : Bytes) :
    squeeze afterSpace (squeeze afterSpace s) = squeeze afterSpace s := by
  induction s generalizing afterSpace with
  | nil => rfl
  | cons c s ih =>
    by_cases hdrop : afterSpace ∧ c = 32
    · simp [squeeze, hdrop, ih]
    · simp [squeeze, hdrop, ih]

/-- Collapsing the front of a text first makes no difference. -/
theorem uniqueSpaces_append (s t : Bytes) :
    uniqueSpaces (uniqueSpaces s ++ t) = uniqueSpaces (s ++ t) := by
  simp only [uniqueSpaces_eq, squeeze_append, squeeze_squeeze, endsInSpace_squeeze]

def spaces (n : Nat) : Bytes := List.replicate n 32

/-- A word without spaces is kept. -/
theorem squeeze_word {w : Bytes} (h : 32 ∉ w) (rest : Bytes) :
    squeeze false (w ++ rest) = w ++ squeeze false rest := by
  induction w with
  | nil => rfl
  | cons c w ih =>
    simp only [List.mem_cons, not_or] at h
    simp [squeeze, Ne.symm h.1, ih h.2]

/-- Before anything but a space it does not matter whether one was kept. -/
theorem squeeze_of_head? {rest : Bytes} (h : rest.head? ≠ some 32) (afterSpace : Bool) :
    squeeze afterSpace rest = squeeze false rest := by
  cases rest with
  | nil => rfl
  | cons c rest =>
    have hc : c ≠ 32 := by
      intro hc
      exact h (congrArg some hc)
    simp [squeeze, hc]

/-- The spaces that follow a space are dropped. -/
theorem squeeze_true_spaces (n : Nat) (rest : Bytes) :
    squeeze true (spaces n ++ rest) = squeeze true rest := by
  induction n with
  | zero => rfl
  | succ n ih => simpa [spaces, List.replicate_succ, squeeze] using ih

/-- A run of spaces becomes one space. -/
theorem squeeze_spaces (n : Nat) {rest : Bytes} (h : rest.head? ≠ some 32) :
    squeeze false (spaces (n + 1) ++ rest) = 32 :: squeeze false rest := by
  rw [← squeeze_of_head? h true, ← squeeze_true_spaces n rest]
  simp [spaces, List.replicate_succ, squeeze]

theorem head?_word {w : Bytes} (hne : w ≠ []) (h : 32 ∉ w) (rest : Bytes) :
    (w ++ rest).head? ≠ some 32 := by
  rw [List.head?_append_of_ne_nil _ hne]
  intro hspace
  exact h (List.mem_of_mem_head? hspace)

/-- A gap between two words becomes one space. -/
theorem squeeze_gap {n : Nat} (hn : 0 < n) {w : Bytes} (hne : w ≠ []) (h : 32 ∉ w)
    (rest : Bytes) :
    squeeze false (spaces n ++ (w ++ rest)) = 32 :: (w ++ squeeze false rest) := by
  obtain ⟨k, rfl⟩ : ∃ k, n = k + 1 := ⟨n - 1, by omega⟩
  rw [squeeze_spaces k (head?_word hne h rest), squeeze_word h]

/-- A word is kept wherever it stands. -/
theorem uniqueSpaces_word {w : Bytes} (hne : w ≠ []) (h : 32 ∉ w) (before after : Bytes) :
    uniqueSpaces (before ++ (w ++ after)) = uniqueSpaces before ++ (w ++ uniqueSpaces after) := by
  simp only [uniqueSpaces_eq]
  rw [squeeze_append, squeeze_of_head? (head?_word hne h after), squeeze_word h]

end AdbClient.Abstract
