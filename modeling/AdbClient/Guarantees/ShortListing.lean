import AdbClient.Guarantees.DeviceFields
import AdbClient.Source.DeviceInfo

/-!
# The short listing read back

`host:devices` lists a device as its serial number, a tab and its state. The
parser turns the tab into a space and cuts the line at every space, so a state of
one word is the second piece and comes back whole. Of a state of several words
only the first is kept; with three or more the line even counts as one of the
long listing.
-/
namespace AdbClient.Guarantees.ShortListing
open Source Abstract Support.Stream Support.Pieces DeviceListing DeviceLines DeviceFields

/-- One line of the listing. -/
structure Entry where
  serial : Bytes
  state : Bytes
  serial_plain : Plain serial
  state_lineless : 9 ∉ state ∧ 10 ∉ state

def Entry.line (e : Entry) : Bytes := e.serial ++ 9 :: e.state

/-- The listing as the server sends it. -/
def shortListing (entries : List Entry) : Bytes := entries.flatMap fun e => e.line ++ [10]

/-- A device and one of the states the server knows. -/
abbrev Known := { serial : Bytes // Plain serial } × ConnectionState

def deviceEntry (d : Known) : Entry where
  serial := d.1
  state := stateToString d.2
  serial_plain := d.1.2
  state_lineless := ⟨(stateToString_separators d.2).1, (stateToString_separators d.2).2.1⟩

/-- The device has the serial number and the state of the entry. -/
def Matches (e : Entry) (info : DeviceInfo) : Prop :=
  info.serial = e.serial ∧ info.state = e.state

/-- The listing is read back, behind the devices already there. -/
def ReadBack (devicesList : List DeviceInfo) (entries : List Entry) : Prop :=
  ∃ infos, getDeviceInfoFromBuf devicesList (shortListing entries) = .ok (devicesList ++ infos) ∧
    List.Forall₂ Matches entries infos

section Line
variable {line : Bytes} {info : DeviceInfo}

/-- Serial number and state are the first two fields on either branch. -/
theorem firstFields_of_ok (h : deviceInfoOfLine line = .ok info) :
    element (fields line) 0 = .ok info.serial ∧ element (fields line) 1 = .ok info.state := by
  by_cases hlong : 3 < (fields line).length
  · obtain ⟨_, _, _, _, rest, hfields, -⟩ := longLine_reads hlong h
    rw [hfields]
    exact ⟨rfl, rfl⟩
  · unfold deviceInfoOfLine at h
    rw [← fields] at h
    simp only [gt_iff_lt, if_neg hlong] at h
    obtain ⟨serial, hserial, h⟩ := bind_eq_ok h
    obtain ⟨state, hstate, h⟩ := bind_eq_ok h
    cases h
    exact ⟨hserial, hstate⟩

theorem fields_line (e : Entry) : fields e.line = e.serial :: stringSplit e.state 32 := by
  have htab : replaceFirstTab e.line = e.serial ++ 32 :: e.state := by
    rw [Entry.line, replaceFirstTab, takeWhile_piece e.serial_plain.2.1, List.drop_left]
  rw [fields, htab, stringSplit_append e.serial_plain.1]

/-- The second field is the state up to its first space. -/
theorem state_field_iff (state : Bytes) :
    element (stringSplit state 32) 0 = .ok state ↔ 32 ∉ state := by
  constructor
  · intro h hspace
    obtain ⟨word, rest, rfl, hword⟩ := List.eq_append_cons_of_mem hspace
    rw [stringSplit_append hword, element_cons_zero, Except.ok.injEq] at h
    rw [← h] at hspace
    exact hword hspace
  · intro h
    rw [stringSplit_of_not_mem h]
    rfl

/-- One line. -/
theorem line_matches_iff (e : Entry) :
    (∃ info, deviceInfoOfLine e.line = .ok info ∧ Matches e info) ↔ 32 ∉ e.state := by
  have hfields := fields_line e
  constructor
  · intro h
    obtain ⟨info, hinfo, -, hstate⟩ := h
    have hsecond := (firstFields_of_ok hinfo).2
    rw [hfields, element_cons_succ, hstate] at hsecond
    exact (state_field_iff e.state).mp hsecond
  · intro h
    rw [stringSplit_of_not_mem h] at hfields
    have hfew : ¬ 3 < (fields e.line).length := by
      rw [hfields]
      simp
    obtain ⟨info, hinfo⟩ := (fewFields_ok_iff hfew).mpr (by rw [hfields]; exact Nat.le_refl 2)
    obtain ⟨hserial, hstate⟩ := firstFields_of_ok hinfo
    rw [hfields, element_cons_zero, Except.ok.injEq] at hserial
    rw [hfields, element_cons_succ, element_cons_zero, Except.ok.injEq] at hstate
    exact ⟨info, hinfo, hserial.symm, hstate.symm⟩

end Line

theorem stringSplit_shortListing (entries : List Entry) :
    stringSplit (shortListing entries) 10 = entries.map Entry.line ++ [[]] := by
  rw [← stringSplit_lines 10 (entries.map Entry.line), List.flatMap_map]
  · rfl
  · intro l hl
    obtain ⟨e, -, rfl⟩ := List.mem_map.mp hl
    simp [Entry.line, e.serial_plain.2.2, e.state_lineless.2]

/-- The listing is read back when each of its lines is. -/
theorem readBack_iff (devicesList : List DeviceInfo) (entries : List Entry) :
    ReadBack devicesList entries ↔ ∀ e ∈ entries, 32 ∉ e.state := by
  unfold ReadBack
  simp only [getDeviceInfoFromBuf_appends, stringSplit_shortListing, List.dropLast_concat,
    List.append_cancel_left_eq, exists_eq_left', List.forall₂_map_left_iff, ← line_matches_iff]
  rw [← exists_forall₂_iff]
  constructor
  · intro h
    obtain ⟨infos, hread, hmatch⟩ := h
    exact ⟨infos, hread.mp (fun _ _ hinfo hsame => ⟨hinfo, hsame⟩) hmatch⟩
  · intro h
    obtain ⟨infos, hboth⟩ := h
    exact ⟨infos, hboth.imp fun _ _ h => h.1, hboth.imp fun _ _ h => h.2⟩

/-- **When the short listing is read back.** For all devices already in the list
and every listing: the parser keeps them and appends one device for each entry,
in order, with its serial number and its whole state, if and only if no state has
a space. Of the states the server knows, `kCsNoPerm` is the one that has. -/
theorem shortListing_readBack_iff (devicesList : List DeviceInfo) :
    (∀ entries, ReadBack devicesList entries ↔ ∀ e ∈ entries, 32 ∉ e.state) ∧
    (∀ devices : List Known, ReadBack devicesList (devices.map deviceEntry) ↔
      ∀ d ∈ devices, d.2 ≠ .kCsNoPerm) := by
  refine ⟨readBack_iff devicesList, ?_⟩
  intro devices
  rw [readBack_iff, List.forall_mem_map]
  apply forall₂_congr
  intro d _
  exact not_congr (stateToString_separators d.2).2.2

/-- A device without permissions. -/
theorem shortListing_readBack_fails :
    ¬ ReadBack [] [deviceEntry (⟨ascii "0123", by decide⟩, .kCsNoPerm)] := by
  rw [readBack_iff]
  decide

end AdbClient.Guarantees.ShortListing
