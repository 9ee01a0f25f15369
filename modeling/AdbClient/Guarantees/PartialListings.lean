import AdbClient.Guarantees.DeviceLines
import AdbClient.Guarantees.Lines
import AdbClient.Guarantees.ShortListing
import AdbClient.Support.CompleteLines

/-!
# Listings read in parts, and listings cut off

Both parsers append to what the caller hands in, so a listing may be read part by
part. That finds the same lines exactly when no part ends in the middle of one. A
listing that is cut off anywhere gives the devices and lines that are complete by
then: the piece that `pop_back` drops is the one that was cut.
-/
namespace AdbClient.Guarantees.PartialListings
open Source Abstract Support.CompleteLines Support.Stream DeviceLines Lines ShortListing

/-- Read one part, then the other, into the same list. -/
def inParts {α : Type} (parse : List α → Bytes → Except Fault (List α)) (list : List α)
    (a b : Bytes) : Except Fault (List α) :=
  parse list a >>= fun list' => parse list' b

/-- No line is cut in two: the first part ends one, or the second has none. -/
def CutBetweenLines (a b : Bytes) : Prop := a = [] ∨ [10] <:+ a ∨ 10 ∉ b

instance (a b : Bytes) : Decidable (CutBetweenLines a b) :=
  inferInstanceAs (Decidable (_ ∨ _ ∨ _))

section Lines
variable (list : List Bytes) (a b buf : Bytes)

/-- The lines of the parser are the complete ones. -/
theorem dropLast_stringSplit (buf : Bytes) : (stringSplit buf 10).dropLast = lines 10 buf := by
  rw [stringSplit_eq, lines]

theorem getLinesFromBuf_lines : getLinesFromBuf list buf = .ok (list ++ lines 10 buf) := by
  rw [getLinesFromBuf_eq, dropLast_stringSplit]

theorem getLinesFromBuf_inParts_iff :
    inParts getLinesFromBuf list a b = getLinesFromBuf list (a ++ b) ↔ CutBetweenLines a b := by
  rw [CutBetweenLines, ← lines_append_iff, inParts, getLinesFromBuf_lines, ok_bind,
    getLinesFromBuf_lines, getLinesFromBuf_lines, Except.ok.injEq, List.append_assoc,
    List.append_cancel_left_eq]
  exact eq_comm

end Lines

section Devices
variable {list : List DeviceInfo} {a b buf : Bytes}

/-- The device parser is the fold over the complete lines. -/
theorem getDeviceInfoFromBuf_lines (list : List DeviceInfo) (buf : Bytes) :
    getDeviceInfoFromBuf list buf =
      (lines 10 buf).foldlM (fun list line => do return list ++ [← deviceInfoOfLine line])
        list := by
  have hpop : popBack (stringSplit buf 10) = .ok (lines 10 buf) := by
    rw [popBack, if_neg (stringSplit_ne_nil buf 10), dropLast_stringSplit]
  unfold getDeviceInfoFromBuf
  rw [hpop, ok_bind]

/-- A line that is not readable stops the parser in the same place. -/
theorem getDeviceInfoFromBuf_inParts (hends : CutBetweenLines a b) (list : List DeviceInfo) :
    inParts getDeviceInfoFromBuf list a b = getDeviceInfoFromBuf list (a ++ b) := by
  have hlines := (lines_append_iff a b).mpr hends
  rw [getDeviceInfoFromBuf_lines list (a ++ b), hlines, List.foldlM_append, inParts,
    getDeviceInfoFromBuf_lines list a]
  exact bind_congr fun list' => getDeviceInfoFromBuf_lines list' b

/-- What a listing is read as, for the number of lines complete by a position. -/
theorem getDeviceInfoFromBuf_take {infos : List DeviceInfo} (n : Nat)
    (h : getDeviceInfoFromBuf list buf = .ok (list ++ infos)) :
    getDeviceInfoFromBuf list (buf.take n) =
      .ok (list ++ infos.take ((buf.take n).count 10)) := by
  obtain ⟨infos', hlist, hread⟩ := getDeviceInfoFromBuf_appends.mp h
  obtain rfl : infos = infos' := List.append_cancel_left hlist
  apply getDeviceInfoFromBuf_appends.mpr
  refine ⟨_, rfl, ?_⟩
  rw [dropLast_stringSplit] at hread ⊢
  rw [lines_take]
  exact List.forall₂_take _ hread

end Devices

/-- **When listings may be read in parts.** For every two parts: reading them one
after the other appends the same lines as reading them together, to whatever list,
if and only if no line is cut in two; and then the devices are the same as well,
the fault of a line that cannot be read included. -/
theorem listings_in_parts (a b : Bytes) :
    (∀ found, inParts getLinesFromBuf found a b = getLinesFromBuf found (a ++ b) ↔
      CutBetweenLines a b) ∧
    (CutBetweenLines a b → ∀ list,
      inParts getDeviceInfoFromBuf list a b = getDeviceInfoFromBuf list (a ++ b)) :=
  ⟨fun found => getLinesFromBuf_inParts_iff found a b,
    fun hends list => getDeviceInfoFromBuf_inParts hends list⟩

/-- **A listing that is cut off has no half-read entry.** For every text both parsers
get through and every position to cut it off at: the devices and the lines read are
the first ones of the whole listing, one for each newline in front of the cut. -/
theorem listings_cut_off {list infos : List DeviceInfo} {buf : Bytes}
    (h : getDeviceInfoFromBuf list buf = .ok (list ++ infos)) (found : List Bytes) (n : Nat) :
    getDeviceInfoFromBuf list (buf.take n) = .ok (list ++ infos.take ((buf.take n).count 10)) ∧
      getLinesFromBuf found (buf.take n) =
        .ok (found ++ (lines 10 buf).take ((buf.take n).count 10)) := by
  refine ⟨getDeviceInfoFromBuf_take n h, ?_⟩
  rw [getLinesFromBuf_lines, lines_take]

def twoDevices : List Entry :=
  [deviceEntry (⟨ascii "0123", by decide⟩, .kCsDevice),
    deviceEntry (⟨ascii "4567", by decide⟩, .kCsOffline)]

/-- Cut off in the middle of the second device. -/
theorem listings_cut_off_twoDevices :
    ∃ infos, getDeviceInfoFromBuf [] (shortListing twoDevices) = .ok ([] ++ infos) ∧
      getDeviceInfoFromBuf [] ((shortListing twoDevices).take 18) = .ok ([] ++ infos.take 1) := by
  obtain ⟨infos, hread, -⟩ := (readBack_iff [] twoDevices).mpr (by decide)
  have hcount : ((shortListing twoDevices).take 18).count 10 = 1 := by decide
  have hcut := (listings_cut_off hread [] 18).1
  rw [hcount] at hcut
  exact ⟨infos, hread, hcut⟩

end AdbClient.Guarantees.PartialListings
