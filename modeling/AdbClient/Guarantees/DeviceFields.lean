import AdbClient.Guarantees.DeviceLines
import AdbClient.Support.Pieces

/-!
# Which token a device field is read from

On a line of more than three fields `get_device_info_from_buf` takes product,
model, device and transport id from the third to the sixth field, and of each the
second of the pieces between colons. It never looks at the key in front of the
colon, so a line with another field among them, such as the `usb:` path the
server prints for a device on a cable, moves every value behind it.
-/
namespace AdbClient.Guarantees.DeviceFields
open Source Abstract Support.Stream Support.Pieces DeviceListing DeviceLines

/-- The text before the first colon. -/
def tokenKey (token : Bytes) : Bytes := token.takeWhile (· ≠ 58)

/-- The text behind the first colon. -/
def tokenValue (token : Bytes) : Bytes := token.drop ((tokenKey token).length + 1)

/-- The token the parser reads at index `i` has this key, and its value satisfies
`P`. -/
def TokenAt (line : Bytes) (i : Nat) (key : Bytes) (P : Bytes → Prop) : Prop :=
  ∃ token, (fields line)[i]? = some token ∧ tokenKey token = key ∧ P (tokenValue token)

/-- Each of the four fields is the value of the token it is read from, whose key
is the name of the field. -/
structure FilledByKey (line : Bytes) (info : DeviceInfo) : Prop where
  product : TokenAt line 2 (ascii "product") fun v => v = info.product
  model : TokenAt line 3 (ascii "model") fun v => v = info.model
  device : TokenAt line 4 (ascii "device") fun v => v = info.device
  transportId : TokenAt line 5 (ascii "transport_id") fun v => atoi v = .ok info.transportId

/-- The third to the sixth field have the four keys in this order, and no other
colon in a value that is kept as text. -/
structure KeysInPlace (line : Bytes) : Prop where
  product : TokenAt line 2 (ascii "product") fun v => 58 ∉ v
  model : TokenAt line 3 (ascii "model") fun v => 58 ∉ v
  device : TokenAt line 4 (ascii "device") fun v => 58 ∉ v
  transportId : TokenAt line 5 (ascii "transport_id") fun _ => True

section Token
variable {token piece w rest : Bytes}

theorem tokenKey_append (hw : 58 ∉ w) (rest : Bytes) : tokenKey (w ++ 58 :: rest) = w :=
  takeWhile_piece hw rest

theorem tokenKey_eq_self_iff (w : Bytes) : tokenKey w = w ↔ 58 ∉ w := by
  rw [tokenKey, List.takeWhile_eq_self_iff]
  simp only [decide_eq_true_eq]
  constructor
  · intro hall hmem
    exact hall 58 hmem rfl
  · intro hmem c hc
    exact ne_of_mem_of_not_mem hc hmem

theorem tokenValue_append (hw : 58 ∉ w) (rest : Bytes) : tokenValue (w ++ 58 :: rest) = rest := by
  rw [tokenValue, tokenKey_append hw, ← List.drop_drop, List.drop_left]
  rfl

/-- The piece that is read ends at the next colon. -/
theorem piece_eq (h : element (stringSplit token 58) 1 = .ok piece) :
    piece = tokenKey (tokenValue token) := by
  by_cases hcolon : 58 ∈ token
  · obtain ⟨w, rest, rfl, hw⟩ := List.eq_append_cons_of_mem hcolon
    rw [stringSplit_append hw, element_cons_succ] at h
    rw [tokenValue_append hw]
    by_cases hmore : 58 ∈ rest
    · obtain ⟨v, more, rfl, hv⟩ := List.eq_append_cons_of_mem hmore
      rw [stringSplit_append hv] at h
      cases h
      exact (tokenKey_append hv more).symm
    · rw [stringSplit_of_not_mem hmore] at h
      cases h
      exact ((tokenKey_eq_self_iff _).mpr hmore).symm
  · rw [stringSplit_of_not_mem hcolon] at h
    cases h

/-- A number does not go on behind the next colon. -/
theorem atoi_tokenKey (w : Bytes) : atoi (tokenKey w) = atoi w := by
  by_cases hcolon : 58 ∈ w
  · obtain ⟨v, rest, rfl, hv⟩ := List.eq_append_cons_of_mem hcolon
    rw [tokenKey_append hv, atoi_colon]
  · rw [(tokenKey_eq_self_iff w).mpr hcolon]

end Token

section Line
variable {line : Bytes} {info : DeviceInfo}

/-- What a long line is read into. -/
theorem longLine_reads (hlong : 3 < (fields line).length)
    (h : deviceInfoOfLine line = .ok info) :
    ∃ product model device transportId, ∃ rest : List Bytes,
      fields line = info.serial :: info.state :: product :: model :: device :: transportId :: rest ∧
      info.product = tokenKey (tokenValue product) ∧ info.model = tokenKey (tokenValue model) ∧
      info.device = tokenKey (tokenValue device) ∧
      atoi (tokenValue transportId) = .ok info.transportId := by
  match hfields : fields line, six_le_of_ok hlong ⟨info, h⟩ with
  | serial :: state :: product :: model :: device :: transportId :: rest, _ =>
    unfold deviceInfoOfLine at h
    rw [← fields, hfields] at h
    simp only [List.length_cons, gt_iff_lt, show ∀ n, 3 < n + 1 + 1 + 1 + 1 + 1 + 1 by omega,
      if_true, element_cons_zero, element_cons_succ, ok_bind] at h
    obtain ⟨productPiece, hproduct, h⟩ := bind_eq_ok h
    obtain ⟨modelPiece, hmodel, h⟩ := bind_eq_ok h
    obtain ⟨devicePiece, hdevice, h⟩ := bind_eq_ok h
    obtain ⟨transportPiece, htransport, h⟩ := bind_eq_ok h
    obtain ⟨number, hnumber, h⟩ := bind_eq_ok h
    cases h
    refine ⟨product, model, device, transportId, rest, rfl, piece_eq hproduct, piece_eq hmodel,
      piece_eq hdevice, ?_⟩
    rw [← atoi_tokenKey, ← piece_eq htransport]
    exact hnumber

theorem tokenAt_iff {token key : Bytes} {i : Nat} {P : Bytes → Prop}
    (h : (fields line)[i]? = some token) :
    TokenAt line i key P ↔ tokenKey token = key ∧ P (tokenValue token) := by
  unfold TokenAt
  simp only [h, Option.some.injEq, exists_eq_left']

/-- A text is the whole value when the value has no second colon. -/
theorem valueAt_iff {token key field : Bytes} {i : Nat} (h : (fields line)[i]? = some token)
    (hfield : field = tokenKey (tokenValue token)) :
    TokenAt line i key (fun v => v = field) ↔ TokenAt line i key (fun v => 58 ∉ v) := by
  have hself : tokenValue token = field ↔ 58 ∉ tokenValue token := by
    rw [hfield, eq_comm]
    exact tokenKey_eq_self_iff _
  rw [tokenAt_iff h, tokenAt_iff h, hself]

/-- A number is that of the value in any case. -/
theorem numberAt_iff {token key : Bytes} {i : Nat} {number : Int}
    (h : (fields line)[i]? = some token) (hnumber : atoi (tokenValue token) = .ok number) :
    TokenAt line i key (fun v => atoi v = .ok number) ↔ TokenAt line i key (fun _ => True) := by
  rw [tokenAt_iff h, tokenAt_iff h, and_true, and_iff_left hnumber]

/-- One line. -/
theorem filledByKey_line_iff (hlong : 3 < (fields line).length)
    (h : deviceInfoOfLine line = .ok info) : FilledByKey line info ↔ KeysInPlace line := by
  obtain ⟨product, model, device, transportId, rest, hfields, hproduct, hmodel, hdevice,
    htransport⟩ := longLine_reads hlong h
  have htoken : (fields line)[2]? = some product ∧ (fields line)[3]? = some model ∧
      (fields line)[4]? = some device ∧ (fields line)[5]? = some transportId := by
    rw [hfields]
    exact ⟨rfl, rfl, rfl, rfl⟩
  obtain ⟨h2, h3, h4, h5⟩ := htoken
  constructor
  · intro hfilled
    exact {
      product := (valueAt_iff h2 hproduct).mp hfilled.product
      model := (valueAt_iff h3 hmodel).mp hfilled.model
      device := (valueAt_iff h4 hdevice).mp hfilled.device
      transportId := (numberAt_iff h5 htransport).mp hfilled.transportId }
  · intro hkeys
    exact {
      product := (valueAt_iff h2 hproduct).mpr hkeys.product
      model := (valueAt_iff h3 hmodel).mpr hkeys.model
      device := (valueAt_iff h4 hdevice).mpr hkeys.device
      transportId := (numberAt_iff h5 htransport).mpr hkeys.transportId }

end Line

/-- **When every field is read under its own key.** For every text the parser gets
through: the devices of its long lines are filled by key if and only if each of
these lines has the four keys in place. -/
theorem getDeviceInfoFromBuf_keys_iff (devicesList list : List DeviceInfo) (buf : Bytes)
    (h : getDeviceInfoFromBuf devicesList buf = .ok list) :
    ∃ infos, list = devicesList ++ infos ∧
      (List.Forall₂ (fun line info => 3 < (fields line).length → FilledByKey line info)
          (stringSplit buf 10).dropLast infos ↔
        ∀ line ∈ (stringSplit buf 10).dropLast, 3 < (fields line).length → KeysInPlace line) := by
  obtain ⟨infos, hlist, hinfos⟩ := getDeviceInfoFromBuf_appends.mp h
  refine ⟨infos, hlist, forall₂_iff_forall hinfos ?_⟩
  intro line info hline
  constructor
  · intro hfilled hlong
    exact (filledByKey_line_iff hlong hline).mp (hfilled hlong)
  · intro hkeys hlong
    exact (filledByKey_line_iff hlong hline).mpr (hkeys hlong)

/-- A text of one line. -/
theorem lines_of_line {line : Bytes} (h : 10 ∉ line) :
    (stringSplit (line ++ [10]) 10).dropLast = [line] := by
  rw [stringSplit_append h, stringSplit_of_not_mem (by simp)]
  rfl

theorem getDeviceInfoFromBuf_line {line : Bytes} {info : DeviceInfo} (h : 10 ∉ line)
    (hread : deviceInfoOfLine line = .ok info) :
    getDeviceInfoFromBuf [] (line ++ [10]) = .ok [info] := by
  refine getDeviceInfoFromBuf_appends.mpr ⟨[info], rfl, ?_⟩
  rw [lines_of_line h]
  exact .cons hread .nil

/-- A line of the table. The server prints `path` for a device on a cable. -/
def listedLine (path : Bytes) : Bytes :=
  ascii "d17cdac6 device " ++ path ++ ascii "product:x model:y device:z transport_id:1"

theorem fields_listedLine_cable : fields (listedLine (ascii "usb:1-1 ")) =
    [ascii "d17cdac6", ascii "device", ascii "usb:1-1", ascii "product:x", ascii "model:y",
      ascii "device:z", ascii "transport_id:1"] := by
  simp only [fields, stringSplit_eq]
  decide

theorem fields_listedLine : fields (listedLine []) =
    [ascii "d17cdac6", ascii "device", ascii "product:x", ascii "model:y", ascii "device:z",
      ascii "transport_id:1"] := by
  simp only [fields, stringSplit_eq]
  decide

/-- Without a path the keys are in place. -/
theorem getDeviceInfoFromBuf_keys_listed :
    ∃ infos, [⟨ascii "d17cdac6", ascii "device", ascii "x", ascii "y", ascii "z", 1⟩] =
        [] ++ infos ∧
      List.Forall₂ (fun line info => 3 < (fields line).length → FilledByKey line info)
        (stringSplit (listedLine [] ++ [10]) 10).dropLast infos := by
  have hread : deviceInfoOfLine (listedLine []) =
      .ok ⟨ascii "d17cdac6", ascii "device", ascii "x", ascii "y", ascii "z", 1⟩ := by
    unfold deviceInfoOfLine
    rw [← fields, fields_listedLine]
    simp only [stringSplit_eq]
    decide
  obtain ⟨infos, hlist, hkeys⟩ := getDeviceInfoFromBuf_keys_iff [] _ _
    (getDeviceInfoFromBuf_line (by decide) hread)
  refine ⟨infos, hlist, hkeys.mpr ?_⟩
  rw [lines_of_line (by decide), List.forall_mem_singleton]
  intro _
  constructor
  · exact ⟨ascii "product:x", by rw [fields_listedLine]; rfl, by decide, by decide⟩
  · exact ⟨ascii "model:y", by rw [fields_listedLine]; rfl, by decide, by decide⟩
  · exact ⟨ascii "device:z", by rw [fields_listedLine]; rfl, by decide, by decide⟩
  · exact ⟨ascii "transport_id:1", by rw [fields_listedLine]; rfl, by decide, trivial⟩

/-- With a path the product is the path, and the number is that of the device
name. -/
theorem getDeviceInfoFromBuf_keys_fails :
    getDeviceInfoFromBuf [] (listedLine (ascii "usb:1-1 ") ++ [10]) =
        .ok [⟨ascii "d17cdac6", ascii "device", ascii "1-1", ascii "x", ascii "y", 0⟩] ∧
      (stringSplit (listedLine (ascii "usb:1-1 ") ++ [10]) 10).dropLast =
        [listedLine (ascii "usb:1-1 ")] ∧
      3 < (fields (listedLine (ascii "usb:1-1 "))).length ∧
      ¬ FilledByKey (listedLine (ascii "usb:1-1 "))
        ⟨ascii "d17cdac6", ascii "device", ascii "1-1", ascii "x", ascii "y", 0⟩ := by
  refine ⟨getDeviceInfoFromBuf_line (by decide) ?_, lines_of_line (by decide), ?_, ?_⟩
  · unfold deviceInfoOfLine
    rw [← fields, fields_listedLine_cable]
    simp only [stringSplit_eq]
    decide
  · rw [fields_listedLine_cable]
    decide
  · intro hfilled
    obtain ⟨token, htoken, hkey, -⟩ := hfilled.product
    rw [fields_listedLine_cable] at htoken
    cases htoken
    exact absurd hkey (by decide)

end AdbClient.Guarantees.DeviceFields
