import AdbClient.Abstract.Splitting
import AdbClient.Support.Stream
import Mathlib.Data.PNat.Basic

/-!
# The device table read back

`get_devices_with_path` collapses the padding of the server's table with
`unique_spaces` and leaves the reading to `get_device_info_from_buf`. The parser
undoes the server's rendering, whatever the padding: the pieces between the
single spaces are the fields in order, the piece behind the colon is the value of
a labelled field, and the piece after the last newline is the one popped.

A serial number may be empty; its line then starts with the gap, and the first
piece is the empty one in front of it. An empty state would be lost with its gap.
-/
namespace AdbClient.Guarantees.DeviceListing
open Source Abstract Support.Stream

/-- A text that no separator of the table occurs in. -/
def Plain (w : Bytes) : Prop := 32 ∉ w ∧ 9 ∉ w ∧ 10 ∉ w

instance (w : Bytes) : Decidable (Plain w) := inferInstanceAs (Decidable (_ ∧ _ ∧ _))

/-- The value of a labelled field has no colon either. -/
def PlainValue (w : Bytes) : Prop := Plain w ∧ 58 ∉ w

instance (w : Bytes) : Decidable (PlainValue w) := inferInstanceAs (Decidable (_ ∧ _))

def padded (fields : List (ℕ+ × Bytes)) : Bytes :=
  fields.flatMap fun p => spaces p.1 ++ p.2

def spaced (words : List Bytes) : Bytes := words.flatMap (32 :: ·)

/-- One line of the table: a device and the padding in front of each of its
fields but the first. -/
structure Row where
  serial : Bytes
  state : Bytes
  product : Bytes
  model : Bytes
  device : Bytes
  transportId : Nat
  stateGap : ℕ+
  productGap : ℕ+
  modelGap : ℕ+
  deviceGap : ℕ+
  transportGap : ℕ+
  serial_plain : Plain serial
  state_plain : Plain state
  state_ne : state ≠ []
  product_plain : PlainValue product
  model_plain : PlainValue model
  device_plain : PlainValue device
  transportId_lt : transportId < 2 ^ 31

namespace Row

def info (r : Row) : DeviceInfo where
  serial := r.serial
  state := r.state
  product := r.product
  model := r.model
  device := r.device
  transportId := r.transportId

/-- The fields after the serial number, each with the number of spaces in front. -/
def fields (r : Row) : List (ℕ+ × Bytes) :=
  [(r.stateGap, r.state), (r.productGap, ascii "product:" ++ r.product),
    (r.modelGap, ascii "model:" ++ r.model), (r.deviceGap, ascii "device:" ++ r.device),
    (r.transportGap, ascii "transport_id:" ++ formatUnsigned r.transportId)]

/-- `serial state product:P model:M device:D transport_id:N`, padded. -/
def line (r : Row) : Bytes := r.serial ++ padded r.fields

/-- The same line with one space in each gap. -/
def collapsed (r : Row) : Bytes := r.serial ++ spaced (r.fields.map Prod.snd)

end Row

/-- The table as the server sends it. -/
def render (rows : List Row) : Bytes := rows.flatMap fun r => r.line ++ [10]

example : render [{
      serial := ascii "emulator-5554", state := ascii "device", product := ascii "sdk"
      model := [], device := ascii "x86", transportId := 17
      stateGap := 10, productGap := 1, modelGap := 1, deviceGap := 2, transportGap := 1
      serial_plain := by decide, state_plain := by decide, state_ne := by decide
      product_plain := by decide, model_plain := by decide, device_plain := by decide
      transportId_lt := by decide }] =
    ascii "emulator-5554          device product:sdk model:  device:x86 transport_id:17\n" := by
  decide

theorem squeeze_padded (fields : List (ℕ+ × Bytes))
    (h : ∀ p ∈ fields, p.2 ≠ [] ∧ 32 ∉ p.2) (rest : Bytes) :
    squeeze false (padded fields ++ rest) =
      spaced (fields.map Prod.snd) ++ squeeze false rest := by
  induction fields with
  | nil => rfl
  | cons p fields ih =>
    obtain ⟨hne, hp⟩ := h p (by simp)
    have hrest := ih (fun q hq => h q (by simp [hq]))
    calc
      squeeze false (padded (p :: fields) ++ rest)
          = squeeze false (spaces p.1 ++ (p.2 ++ (padded fields ++ rest))) := by
            simp [padded]
      _ = 32 :: (p.2 ++ squeeze false (padded fields ++ rest)) := squeeze_gap p.1.pos hne hp _
      _ = _ := by simp [hrest, spaced]

theorem stringSplit_spaced {w : Bytes} (hw : 32 ∉ w) (words : List Bytes)
    (h : ∀ v ∈ words, 32 ∉ v) : stringSplit (w ++ spaced words) 32 = w :: words := by
  induction words generalizing w with
  | nil =>
    rw [spaced, List.flatMap_nil, List.append_nil]
    exact stringSplit_of_not_mem hw
  | cons v words ih =>
    have hv := ih (h v (by simp)) (fun u hu => h u (by simp [hu]))
    have hhead := stringSplit_append hw (v ++ spaced words)
    rw [hv] at hhead
    simpa [spaced] using hhead

theorem spaced_not_mem {c : Byte} (hc : c ≠ 32) {words : List Bytes} (h : ∀ v ∈ words, c ∉ v) :
    c ∉ spaced words := by
  intro hmem
  obtain ⟨v, hv, hcv⟩ := List.mem_flatMap.mp hmem
  rcases List.mem_cons.mp hcv with h32 | hcv
  · exact hc h32
  · exact h v hv hcv

/-- A decimal number is a plain value. -/
theorem formatUnsigned_plain (n : Nat) : PlainValue (formatUnsigned n) := by
  have not_mem : ∀ c : Byte, c.toNat < 48 ∨ 57 < c.toNat → c ∉ formatUnsigned n := by
    intro c hc hmem
    have := mem_formatUnsigned hmem
    omega
  exact ⟨⟨not_mem 32 (by decide), not_mem 9 (by decide), not_mem 10 (by decide)⟩,
    not_mem 58 (by decide)⟩

theorem plain_append {u v : Bytes} (hu : Plain u) (hv : Plain v) : Plain (u ++ v) := by
  simp only [Plain, List.mem_append, not_or] at *
  exact ⟨⟨hu.1, hv.1⟩, ⟨hu.2.1, hv.2.1⟩, ⟨hu.2.2, hv.2.2⟩⟩

/-- A labelled field is plain and, thanks to its label, not empty. -/
theorem labelled_plain (label : Bytes) (hne : label ≠ []) (hl : Plain label) {value : Bytes}
    (hv : Plain value) : label ++ value ≠ [] ∧ Plain (label ++ value) :=
  ⟨List.append_ne_nil_of_left_ne_nil hne value, plain_append hl hv⟩

namespace Row

theorem fields_plain (r : Row) : ∀ p ∈ r.fields, p.2 ≠ [] ∧ Plain p.2 := by
  intro p hp
  simp only [fields, List.mem_cons, List.not_mem_nil, or_false] at hp
  rcases hp with rfl | rfl | rfl | rfl | rfl
  · exact ⟨r.state_ne, r.state_plain⟩
  · exact labelled_plain (ascii "product:") (by decide) (by decide) r.product_plain.1
  · exact labelled_plain (ascii "model:") (by decide) (by decide) r.model_plain.1
  · exact labelled_plain (ascii "device:") (by decide) (by decide) r.device_plain.1
  · exact labelled_plain (ascii "transport_id:") (by decide) (by decide)
      (formatUnsigned_plain _).1

/-- A collapsed line has no separator but its spaces. -/
theorem collapsed_not_mem (r : Row) : 9 ∉ r.collapsed ∧ 10 ∉ r.collapsed := by
  have words : ∀ v ∈ r.fields.map Prod.snd, Plain v := by
    intro v hv
    obtain ⟨p, hp, rfl⟩ := List.mem_map.mp hv
    exact (r.fields_plain p hp).2
  simp only [collapsed, List.mem_append, not_or]
  exact ⟨⟨r.serial_plain.2.1, spaced_not_mem (by decide) fun v hv => (words v hv).2.1⟩,
    ⟨r.serial_plain.2.2, spaced_not_mem (by decide) fun v hv => (words v hv).2.2⟩⟩

theorem squeeze_line (r : Row) (rest : Bytes) :
    squeeze false (r.line ++ 10 :: rest) = r.collapsed ++ 10 :: squeeze false rest := by
  have hfields := squeeze_padded r.fields
    (fun p hp => ⟨(r.fields_plain p hp).1, (r.fields_plain p hp).2.1⟩) (10 :: rest)
  rw [line, List.append_assoc, squeeze_word r.serial_plain.1, hfields, collapsed,
    List.append_assoc]
  rfl

theorem stringSplit_collapsed (r : Row) :
    stringSplit r.collapsed 32 = r.serial :: r.fields.map Prod.snd := by
  apply stringSplit_spaced r.serial_plain.1
  intro v hv
  obtain ⟨p, hp, rfl⟩ := List.mem_map.mp hv
  exact (r.fields_plain p hp).2.1

end Row

theorem replaceFirstTab_of_not_mem {s : Bytes} (h : 9 ∉ s) : replaceFirstTab s = s := by
  have hword : s.takeWhile (· ≠ 9) = s := by
    rw [List.takeWhile_eq_self_iff]
    intro c hc
    simpa using fun h9 : c = 9 => h (h9 ▸ hc)
  simp only [replaceFirstTab, hword, List.drop_length, List.append_nil]

theorem element_cons_zero {α : Type} (a : α) (v : List α) : element (a :: v) 0 = .ok a := rfl

theorem element_cons_succ {α : Type} (a : α) (v : List α) (i : Nat) :
    element (a :: v) (i + 1) = element v i := rfl

/-- The value of a labelled field is the second piece. -/
theorem labelled_value (label : Bytes) {word value : Bytes} (hword : word = label ++ [58])
    (hl : 58 ∉ label) (hv : 58 ∉ value) :
    element (stringSplit (word ++ value) 58) 1 = .ok value := by
  rw [hword, List.append_assoc, List.singleton_append, stringSplit_append hl,
    stringSplit_of_not_mem hv]
  rfl

/-- One line gives back its device. -/
theorem deviceInfoOfLine_collapsed (r : Row) : deviceInfoOfLine r.collapsed = .ok r.info := by
  have hproduct : element (stringSplit (ascii "product:" ++ r.product) 58) 1 = .ok r.product :=
    labelled_value (ascii "product") (by decide) (by decide) r.product_plain.2
  have hmodel : element (stringSplit (ascii "model:" ++ r.model) 58) 1 = .ok r.model :=
    labelled_value (ascii "model") (by decide) (by decide) r.model_plain.2
  have hdevice : element (stringSplit (ascii "device:" ++ r.device) 58) 1 = .ok r.device :=
    labelled_value (ascii "device") (by decide) (by decide) r.device_plain.2
  have htransport : element (stringSplit
      (ascii "transport_id:" ++ formatUnsigned r.transportId) 58) 1 =
      .ok (formatUnsigned r.transportId) :=
    labelled_value (ascii "transport_id") (by decide) (by decide) (formatUnsigned_plain _).2
  unfold deviceInfoOfLine
  rw [replaceFirstTab_of_not_mem r.collapsed_not_mem.1, r.stringSplit_collapsed]
  simp only [Row.fields, List.map_cons, List.map_nil, List.length_cons, List.length_nil,
    Nat.reduceAdd, Nat.reduceLT, gt_iff_lt, if_true]
  simp only [element_cons_zero, element_cons_succ, ok_bind, hproduct, hmodel, hdevice,
    htransport, atoi_formatUnsigned r.transportId_lt]
  rfl

theorem squeeze_render (rows : List Row) :
    squeeze false (render rows) = rows.flatMap fun r => r.collapsed ++ [10] := by
  induction rows with
  | nil => rfl
  | cons r rows ih =>
    calc
      squeeze false (render (r :: rows)) = squeeze false (r.line ++ 10 :: render rows) := by
        simp [render]
      _ = r.collapsed ++ 10 :: squeeze false (render rows) := r.squeeze_line _
      _ = _ := by simp [ih]

/-- The lines of a table are parsed one by one, in order. -/
theorem foldlM_collapsed (rows : List Row) (list : List DeviceInfo) :
    (rows.map Row.collapsed).foldlM
      (fun list line => do return list ++ [← deviceInfoOfLine line]) list =
      (.ok (list ++ rows.map Row.info) : Except Fault (List DeviceInfo)) := by
  refine run_makes.mpr ⟨rows.map Row.info, rfl, ?_⟩
  rw [List.forall₂_map_left_iff, List.forall₂_map_right_iff, List.forall₂_same]
  intro r _
  exact deviceInfoOfLine_collapsed r

/-- **Decoding undoes encoding.** Every table of well formed rows, collapsed and
parsed, appends exactly the devices of its rows to the list handed in. -/
theorem getDeviceInfoFromBuf_render (devicesList : List DeviceInfo) (rows : List Row) :
    getDeviceInfoFromBuf devicesList (uniqueSpaces (render rows)) =
      .ok (devicesList ++ rows.map Row.info) := by
  have hlines : stringSplit (uniqueSpaces (render rows)) 10 =
      rows.map Row.collapsed ++ [[]] := by
    rw [uniqueSpaces_eq, squeeze_render, ← stringSplit_lines 10 (rows.map Row.collapsed)]
    · rw [List.flatMap_map]
    · intro l hl
      obtain ⟨r, -, rfl⟩ := List.mem_map.mp hl
      exact r.collapsed_not_mem.2
  have hpop : popBack (rows.map Row.collapsed ++ [[]]) = .ok (rows.map Row.collapsed) := by
    simp [popBack]
  unfold getDeviceInfoFromBuf
  rw [hlines, hpop]
  exact foldlM_collapsed rows devicesList

end AdbClient.Guarantees.DeviceListing
