import Mathlib.Data.List.Destutter
import AdbClient.Source.Numbers

/-!
# utils.cpp

`std::getline` on a stream takes the characters up to the delimiter, drops the
delimiter, and sets the end-of-file flag only when it ran into the end of the
text instead of a delimiter. `std::unique` is the single pass that compares each
element with the last one kept.
-/
namespace AdbClient.Source

/-- `std::stringstream`: what is left to extract and the end-of-file flag. -/
structure StringStream where
  rest : Bytes
  eof : Bool
  deriving DecidableEq, Repr

def getline (ss : StringStream) (delimiter : Byte) : Bytes × StringStream :=
  let word := ss.rest.takeWhile (· ≠ delimiter)
  match ss.rest.drop word.length with
  | [] => (word, ⟨[], true⟩)
  | _ :: rest => (word, ⟨rest, false⟩)

/-- What bounds the loop of `string_split`: every turn consumes a delimiter or
sets the flag. -/
def StringStream.turns (ss : StringStream) : Nat := if ss.eof then 0 else ss.rest.length + 1

theorem getline_turns (ss : StringStream) (delimiter : Byte) (h : ss.eof = false) :
    (getline ss delimiter).2.turns < ss.turns := by
  unfold getline
  dsimp only
  split
  · simp [StringStream.turns, h]
  next c rest hdrop =>
    have hlen := congrArg List.length hdrop
    simp only [List.length_drop, List.length_cons] at hlen
    simp only [StringStream.turns, h, Bool.false_eq_true, if_false]
    omega

/-- `while (!ss.eof()) { getline(ss, word, delimiter); res.emplace_back(word); }` -/
def splitLoop (delimiter : Byte) (ss : StringStream) (res : List Bytes) : List Bytes :=
  if ss.eof then res
  else
    let next := getline ss delimiter
    splitLoop delimiter next.2 (res ++ [next.1])
termination_by ss.turns
decreasing_by
  rename_i h
  exact getline_turns ss delimiter (by simpa using h)

def stringSplit (str : Bytes) (delimiter : Byte) : List Bytes :=
  splitLoop delimiter ⟨str, false⟩ []

/-- The predicate handed to `std::unique` is `lhs == rhs && lhs == ' '`; an
element is dropped when it holds of the last one kept. -/
def uniqueSpaces (str : Bytes) : Bytes := str.destutter fun lhs rhs => ¬ (lhs = rhs ∧ lhs = 32)

/-- The fields of `DeviceInfo` that the parser sets; it leaves the others at
their defaults. -/
structure DeviceInfo where
  serial : Bytes
  state : Bytes
  product : Bytes
  model : Bytes
  device : Bytes
  transportId : Int
  deriving DecidableEq, Repr

/-- `v[i]`, with no check in the source. -/
def element {α : Type} (v : List α) (i : Nat) : Except Fault α := load v[i]?

/-- `v.pop_back()`. -/
def popBack {α : Type} (v : List α) : Except Fault (List α) :=
  if v = [] then .error .outOfBounds else .ok v.dropLast

/-- `device.replace(device.find('\t'), 1, 1, ' ')` when there is a tab. -/
def replaceFirstTab (device : Bytes) : Bytes :=
  device.takeWhile (· ≠ 9) ++
    match device.drop (device.takeWhile (· ≠ 9)).length with
    | [] => []
    | _ :: rest => 32 :: rest

/-- The body of the loop over the lines. -/
def deviceInfoOfLine (line : Bytes) : Except Fault DeviceInfo := do
  let devicesInfo := stringSplit (replaceFirstTab line) 32
  if devicesInfo.length > 3 then
    let serial ← element devicesInfo 0
    let state ← element devicesInfo 1
    let product ← element (stringSplit (← element devicesInfo 2) 58) 1
    let model ← element (stringSplit (← element devicesInfo 3) 58) 1
    let device ← element (stringSplit (← element devicesInfo 4) 58) 1
    let transportId ← atoi (← element (stringSplit (← element devicesInfo 5) 58) 1)
    return { serial, state, product, model, device, transportId }
  else
    let serial ← element devicesInfo 0
    let state ← element devicesInfo 1
    return { serial, state, product := [], model := [], device := [], transportId := -1 }

def getDeviceInfoFromBuf (devicesList : List DeviceInfo) (buf : Bytes) :
    Except Fault (List DeviceInfo) := do
  let lines ← popBack (stringSplit buf 10)
  lines.foldlM (fun list line => do return list ++ [← deviceInfoOfLine line]) devicesList

def getLinesFromBuf (lines : List Bytes) (buf : Bytes) : Except Fault (List Bytes) := do
  let linesTmp ← popBack (stringSplit buf 10)
  return lines ++ linesTmp

end AdbClient.Source
