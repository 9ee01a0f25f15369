import AdbClient.Guarantees.DeviceListing

/-!
# Which texts the device parser survives

`get_device_info_from_buf` indexes the fields of a line without a check of its
own: six of them when there are more than three, two otherwise, and the second
part of each labelled field. A line of one field, of four or of five, or with a
label missing reads behind the end of a vector; so does a blank line. The split
itself always has a last piece to pop.
-/
namespace AdbClient.Guarantees.DeviceLines
open Source Abstract Support.Stream DeviceListing

/-- The number behind the colon is one `atoi` can return. -/
def NumberFits (field : Bytes) : Prop :=
  ∀ value, (stringSplit field 58)[1]? = some value → (atoi value).isOk

/-- The fields of a line, a tab counted as a space once. -/
def fields (line : Bytes) : List Bytes := stringSplit (replaceFirstTab line) 32

/-- Two or three fields, or at least six of which the third to the sixth have a
colon: all that is read of the line is there. -/
def InRange (line : Bytes) : Prop :=
  (fields line).length = 2 ∨ (fields line).length = 3 ∨
    6 ≤ (fields line).length ∧ ∀ field ∈ ((fields line).drop 2).take 4, 58 ∈ field

/-- The number in the sixth field, if there is one, fits as well. -/
def Readable (line : Bytes) : Prop :=
  InRange line ∧ ∀ field, (fields line)[5]? = some field → NumberFits field

theorem stringSplit_ne_nil (str : Bytes) (d : Byte) : stringSplit str d ≠ [] := by
  rw [stringSplit_eq]
  exact List.splitOn_ne_nil d str

/-- The second part of a field is there when the field has a colon. -/
theorem labelled_iff (field : Bytes) :
    (∃ value, element (stringSplit field 58) 1 = .ok value) ↔ 58 ∈ field := by
  constructor
  · intro h
    by_contra hno
    obtain ⟨value, hvalue⟩ := h
    rw [stringSplit_of_not_mem hno] at hvalue
    cases hvalue
  · intro h
    obtain ⟨word, rest, rfl, hword⟩ := List.eq_append_cons_of_mem h
    obtain ⟨value, more, hrest⟩ := List.exists_cons_of_ne_nil (stringSplit_ne_nil rest 58)
    rw [stringSplit_append hword, hrest]
    exact ⟨value, rfl⟩

theorem element_eq_ok {α : Type} {v : List α} {i : Nat} {a : α} (h : element v i = .ok a) :
    v[i]? = some a := by
  unfold element at h
  cases hi : v[i]? with
  | none =>
    rw [hi] at h
    cases h
  | some b =>
    rw [hi] at h
    cases h
    rfl

theorem element_ok_iff {α : Type} (v : List α) (i : Nat) :
    (∃ a, element v i = .ok a) ↔ i < v.length := by
  constructor
  · intro h
    obtain ⟨a, ha⟩ := h
    exact (List.getElem?_eq_some_iff.mp (element_eq_ok ha)).1
  · intro h
    refine ⟨v[i], ?_⟩
    rw [element, List.getElem?_eq_getElem h]
    rfl

section Line
variable {line : Bytes}

/-- Up to three fields, two are read. -/
theorem fewFields_ok_iff (h : ¬ 3 < (fields line).length) :
    (∃ info, deviceInfoOfLine line = .ok info) ↔ 2 ≤ (fields line).length := by
  unfold deviceInfoOfLine
  rw [← fields]
  simp only [gt_iff_lt, if_neg h, exists_bind_ok]
  constructor
  · intro hread
    obtain ⟨_, _, _, hstate, _⟩ := hread
    exact (element_ok_iff _ 1).mp ⟨_, hstate⟩
  · intro hlen
    obtain ⟨_, hserial⟩ := (element_ok_iff (fields line) 0).mpr (by omega)
    obtain ⟨_, hstate⟩ := (element_ok_iff (fields line) 1).mpr (by omega)
    exact ⟨_, hserial, _, hstate, _, rfl⟩

/-- With more than three, six are. -/
theorem six_le_of_ok (h : 3 < (fields line).length)
    (hread : ∃ info, deviceInfoOfLine line = .ok info) : 6 ≤ (fields line).length := by
  unfold deviceInfoOfLine at hread
  rw [← fields] at hread
  simp only [gt_iff_lt, if_pos h, exists_bind_ok] at hread
  obtain ⟨_, _, _, _, _, _, _, _, _, _, _, _, _, _, _, _, _, hlast, _⟩ := hread
  exact (element_ok_iff _ 5).mp ⟨_, hlast⟩

/-- Of six fields or more the labelled ones are split, and the number is read. -/
theorem labelledFields_ok_iff {serial state product model device transportId : Bytes}
    {rest : List Bytes}
    (hfields : fields line =
      serial :: state :: product :: model :: device :: transportId :: rest) :
    (∃ info, deviceInfoOfLine line = .ok info) ↔
      58 ∈ product ∧ 58 ∈ model ∧ 58 ∈ device ∧ 58 ∈ transportId ∧ NumberFits transportId := by
  unfold deviceInfoOfLine
  rw [← fields, hfields]
  simp only [List.length_cons, gt_iff_lt, show ∀ n, 3 < n + 1 + 1 + 1 + 1 + 1 + 1 by omega,
    if_true, element_cons_zero, element_cons_succ, ok_bind, exists_bind_ok]
  constructor
  · intro h
    obtain ⟨_, hproduct, _, hmodel, _, hdevice, value, hvalue, number, hnumber, -⟩ := h
    refine ⟨(labelled_iff _).mp ⟨_, hproduct⟩, (labelled_iff _).mp ⟨_, hmodel⟩,
      (labelled_iff _).mp ⟨_, hdevice⟩, (labelled_iff _).mp ⟨_, hvalue⟩, ?_⟩
    intro value' hvalue'
    rw [element_eq_ok hvalue, Option.some.injEq] at hvalue'
    rw [← hvalue', hnumber]
    rfl
  · intro h
    obtain ⟨hproduct, hmodel, hdevice, htransport, hfits⟩ := h
    obtain ⟨_, hproduct⟩ := (labelled_iff _).mpr hproduct
    obtain ⟨_, hmodel⟩ := (labelled_iff _).mpr hmodel
    obtain ⟨_, hdevice⟩ := (labelled_iff _).mpr hdevice
    obtain ⟨value, hvalue⟩ := (labelled_iff _).mpr htransport
    have hnumber := hfits value (element_eq_ok hvalue)
    cases hatoi : atoi value with
    | error fault =>
      rw [hatoi] at hnumber
      cases hnumber
    | ok number => exact ⟨_, hproduct, _, hmodel, _, hdevice, value, hvalue, number, hatoi, _, rfl⟩

/-- One line. -/
theorem deviceInfoOfLine_ok_iff (line : Bytes) :
    (∃ info, deviceInfoOfLine line = .ok info) ↔ Readable line := by
  unfold Readable InRange
  by_cases hfew : 3 < (fields line).length
  · by_cases hsix : 6 ≤ (fields line).length
    · match hfields : fields line, hsix with
      | serial :: state :: product :: model :: device :: transportId :: rest, _ =>
        rw [labelledFields_ok_iff hfields]
        simp [and_assoc]
    · have hno : ¬ ∃ info, deviceInfoOfLine line = .ok info := fun h => hsix (six_le_of_ok hfew h)
      refine iff_of_false hno ?_
      omega
  · rw [fewFields_ok_iff hfew, List.getElem?_eq_none (by omega)]
    simp only [reduceCtorEq, false_imp_iff, implies_true, and_true]
    omega

theorem element_eq_error_iff {α : Type} (v : List α) (i : Nat) :
    element v i = .error .outOfBounds ↔ v.length ≤ i := by
  rw [element, ← List.getElem?_eq_none_iff]
  cases v[i]? <;> simp [load]

theorem labelled_error_iff (field : Bytes) :
    element (stringSplit field 58) 1 = .error .outOfBounds ↔ 58 ∉ field := by
  rw [element_eq_error_iff, ← labelled_iff, element_ok_iff, Nat.not_lt]

theorem atoi_ne_outOfBounds (s : Bytes) : atoi s ≠ .error .outOfBounds := by
  unfold atoi
  dsimp only
  split <;> simp

/-- With four fields or five the next one is read all the same. -/
theorem missingFields_outOfBounds (h : 3 < (fields line).length)
    (hsix : ¬ 6 ≤ (fields line).length) :
    deviceInfoOfLine line = .error .outOfBounds := by
  have hend : element ([] : List Bytes) 0 = .error .outOfBounds := rfl
  unfold deviceInfoOfLine
  rw [← fields]
  match hfields : fields line with
  | [serial, state, product, model] | [serial, state, product, model, device] =>
    simp only [List.length_cons, List.length_nil, gt_iff_lt, Nat.reduceAdd, Nat.reduceLT, if_true,
      element_cons_zero, element_cons_succ, ok_bind, bind_eq_error_iff, labelled_error_iff,
      hend, true_or, exists_and_right, labelled_iff, and_true]
    grind
  | [] | [_] | [_, _] | [_, _, _] | _ :: _ :: _ :: _ :: _ :: _ :: _ =>
    rw [hfields] at h hsix
    simp at h hsix

/-- Of six or more, the labelled ones have to have a second part. -/
theorem labelledFields_outOfBounds_iff {serial state product model device transportId : Bytes}
    {rest : List Bytes}
    (hfields : fields line =
      serial :: state :: product :: model :: device :: transportId :: rest) :
    deviceInfoOfLine line = .error .outOfBounds ↔
      ¬ (58 ∈ product ∧ 58 ∈ model ∧ 58 ∈ device ∧ 58 ∈ transportId) := by
  unfold deviceInfoOfLine
  rw [← fields, hfields]
  simp only [List.length_cons, gt_iff_lt, show ∀ n, 3 < n + 1 + 1 + 1 + 1 + 1 + 1 by omega,
    if_true, element_cons_zero, element_cons_succ, ok_bind, bind_eq_error_iff, labelled_error_iff,
    exists_and_right, labelled_iff, atoi_ne_outOfBounds, pure, Except.pure, reduceCtorEq, and_false,
    exists_false, or_false]
  grind

/-- Whether a read leaves a vector does not depend on the number. -/
theorem deviceInfoOfLine_outOfBounds_iff (line : Bytes) :
    deviceInfoOfLine line = .error .outOfBounds ↔ ¬ InRange line := by
  unfold InRange
  by_cases hfew : 3 < (fields line).length
  · by_cases hsix : 6 ≤ (fields line).length
    · match hfields : fields line, hsix with
      | serial :: state :: product :: model :: device :: transportId :: rest, _ =>
        rw [labelledFields_outOfBounds_iff hfields]
        simp
    · refine iff_of_true (missingFields_outOfBounds hfew hsix) ?_
      omega
  · unfold deviceInfoOfLine
    rw [← fields]
    simp only [gt_iff_lt, if_neg hfew, bind_eq_error_iff, element_eq_error_iff, pure, Except.pure,
      reduceCtorEq, and_false, exists_false, or_false, exists_and_right, element_ok_iff]
    omega

end Line

/-- The last piece is popped, whatever it is. -/
theorem getDeviceInfoFromBuf_eq (devicesList : List DeviceInfo) (buf : Bytes) :
    getDeviceInfoFromBuf devicesList buf = (stringSplit buf 10).dropLast.foldlM
      (fun list line => do return list ++ [← deviceInfoOfLine line]) devicesList := by
  have hpop : popBack (stringSplit buf 10) = .ok (stringSplit buf 10).dropLast :=
    if_neg (stringSplit_ne_nil buf 10)
  unfold getDeviceInfoFromBuf
  rw [hpop, ok_bind]

/-- The devices appended are those of the lines, in order. -/
theorem getDeviceInfoFromBuf_appends {devicesList list : List DeviceInfo} {buf : Bytes} :
    getDeviceInfoFromBuf devicesList buf = .ok list ↔ ∃ infos, list = devicesList ++ infos ∧
      List.Forall₂ (fun line info => deviceInfoOfLine line = .ok info)
        (stringSplit buf 10).dropLast infos := by
  rw [getDeviceInfoFromBuf_eq]
  exact run_makes

/-- A line goes through or fails whatever stands in the list already. -/
theorem appendLine_ok_iff (list : List DeviceInfo) (line : Bytes) :
    (∃ list', (do return list ++ [← deviceInfoOfLine line] : Except Fault _) = .ok list') ↔
      Readable line := by
  simp [exists_bind_ok, ← deviceInfoOfLine_ok_iff, pure, Except.pure]

theorem appendLine_outOfBounds_iff (list : List DeviceInfo) (line : Bytes) :
    (do return list ++ [← deviceInfoOfLine line] : Except Fault _) = .error .outOfBounds ↔
      ¬ InRange line := by
  simp [bind_eq_error_iff, deviceInfoOfLine_outOfBounds_iff, pure, Except.pure]

/-- **The texts the device parser gets through.** For every text: all accesses are
in range and the parser returns if and only if every line that ends in a newline
is readable; an access leaves a vector if and only if such a line is not in range and
those before it are readable. -/
theorem getDeviceInfoFromBuf_ok_iff (devicesList : List DeviceInfo) (buf : Bytes) :
    ((∃ list, getDeviceInfoFromBuf devicesList buf = .ok list) ↔
        ∀ line ∈ (stringSplit buf 10).dropLast, Readable line) ∧
      (getDeviceInfoFromBuf devicesList buf = .error .outOfBounds ↔
        ∃ before line after, (stringSplit buf 10).dropLast = before ++ line :: after ∧
          (∀ l ∈ before, Readable l) ∧ ¬ InRange line) := by
  rw [getDeviceInfoFromBuf_eq]
  constructor
  · exact run_ok_iff appendLine_ok_iff
  · rw [run_error_iff]
    simp only [appendLine_outOfBounds_iff, exists_and_right, run_ok_iff appendLine_ok_iff]

/-- A blank line has one field, and the second is read. -/
theorem getDeviceInfoFromBuf_fails :
    ¬ ∃ list, getDeviceInfoFromBuf [] (ascii "\n") = .ok list := by
  have hlines : stringSplit (ascii "\n") 10 = [[], []] := by
    rw [stringSplit_eq]
    rfl
  have hfields : fields [] = [[]] := stringSplit_of_not_mem (by decide)
  have hline : deviceInfoOfLine [] = .error .outOfBounds := by
    unfold deviceInfoOfLine
    rw [← fields, hfields]
    rfl
  intro hread
  obtain ⟨list, hlist⟩ := hread
  unfold getDeviceInfoFromBuf at hlist
  rw [hlines, show popBack [[], []] = .ok [([] : Bytes)] from rfl, ok_bind, List.foldlM_cons,
    hline] at hlist
  cases hlist

end AdbClient.Guarantees.DeviceLines
