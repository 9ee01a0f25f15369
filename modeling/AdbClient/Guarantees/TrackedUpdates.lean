import AdbClient.Guarantees.ReplyReassembly

/-!
# Device updates that arrive together

The tracking callback clears the stored list and hands it the message as one
reply: it reads no length. An update that is alone in its message, or alone
behind the status, comes out as it is. Of two or more in one message the first
length is dropped and everything behind it is stored, later lengths included, so
the text is too long by at least one length.
-/
namespace AdbClient.Guarantees.TrackedUpdates
open Source Abstract Support.Stream ReplyReassembly

/-- An update as the server sends it. -/
def lengthPrefixed (u : Bytes) : Bytes := hexadecimal.print 4 u.length ++ u

def packed (group : List Bytes) : Bytes := group.flatMap lengthPrefixed

/-- The messages the tracking stream arrives in: each carries one update or more,
and the status is a message of its own or precedes the first update. -/
inductive Packing (updates : List Bytes) : List Bytes → Prop
  | apart {groups : List (List Bytes)} (joined : groups.flatten = updates)
      (nonempty : ∀ g ∈ groups, g ≠ []) : Packing updates (okay :: groups.map packed)
  | together {first : List Bytes} {groups : List (List Bytes)}
      (joined : (first :: groups).flatten = updates) (nonempty : ∀ g ∈ first :: groups, g ≠ []) :
      Packing updates ((okay ++ packed first) :: groups.map packed)

/-- The message carries the update and no other. -/
def Carries (u m : Bytes) : Prop := m = lengthPrefixed u ∨ m = okay ++ lengthPrefixed u

/-- The latest update is the only one in its message, and its length has four digits. -/
def LatestAlone (u : Bytes) (msgs : List Bytes) : Prop :=
  u.length ≤ 65535 ∧ ∃ m, msgs.getLast? = some m ∧ Carries u m

section OneMessage
variable {u : Bytes} {group : List Bytes}

theorem packed_concat (group : List Bytes) (u : Bytes) :
    packed (group ++ [u]) = packed group ++ lengthPrefixed u := by
  simp [packed]

theorem four_le_lengthPrefixed (u : Bytes) : u.length + 4 ≤ (lengthPrefixed u).length := by
  have := hexadecimal.width_le_print_length 4 u.length
  rw [lengthPrefixed, List.length_append]
  omega

theorem four_le_packed (hne : group ≠ []) : 4 ≤ (packed group).length := by
  obtain ⟨v, rest, rfl⟩ := List.exists_cons_of_ne_nil hne
  have hv := four_le_lengthPrefixed v
  rw [packed, List.flatMap_cons, List.length_append]
  omega

theorem packed_digits (hne : group ≠ []) :
    ∃ n rest, packed group = hexadecimal.print 4 n ++ rest := by
  obtain ⟨v, tail, rfl⟩ := List.exists_cons_of_ne_nil hne
  exact ⟨v.length, v ++ packed tail, by simp [packed, lengthPrefixed]⟩

/-- Without a status, only the first length is dropped. -/
theorem kept_packed (hne : group ≠ []) : kept (packed group) = (packed group).drop 4 := by
  obtain ⟨n, rest, hdigits⟩ := packed_digits hne
  have hshort : ¬ Short (packed group) := Nat.not_lt.mpr (four_le_packed hne)
  rw [kept, if_neg hshort, hdigits, if_neg (digits_not_status (.inl rfl) n rest),
    if_neg (digits_not_status (.inr rfl) n rest)]

/-- Behind the status, too. -/
theorem kept_okay_packed (group : List Bytes) :
    kept (okay ++ packed group) = (packed group).drop 4 := by
  have hshort : ¬ Short (okay ++ packed group) := by
    unfold Short
    rw [List.length_append, okay_length]
    omega
  have hdrop : (okay ++ packed group).drop 8 = (packed group).drop 4 := by
    rw [List.drop_append, okay_length, List.drop_of_length_le (by decide), List.nil_append]
  rw [kept, if_neg hshort, if_pos (List.prefix_append _ _), hdrop]

/-- What is behind the first length is the last update exactly when that is the
only one and its length has four digits. -/
theorem drop_packed_iff :
    (packed (group ++ [u])).drop 4 = u ↔ u.length ≤ 65535 ∧ group = [] := by
  have hwidth := hexadecimal.width_le_print_length 4 u.length
  constructor
  · intro h
    have hlen := congrArg List.length h
    rw [List.length_drop, packed_concat, List.length_append, lengthPrefixed,
      List.length_append] at hlen
    constructor
    · by_contra hlong
      have hbound : hexadecimal.base ^ 4 ≤ u.length := by
        change 65536 ≤ u.length
        omega
      have hdigits := hexadecimal.lt_print_length hbound
      omega
    · by_contra hne
      have := four_le_packed hne
      omega
  · intro h
    obtain ⟨hu, rfl⟩ := h
    have hdigits := hexadecimal.print_length_of_lt 4
      (Nat.lt_of_le_of_lt hu (by decide : 65535 < 16 ^ 4))
    rw [List.nil_append, packed, List.flatMap_singleton, lengthPrefixed, List.drop_append,
      hdigits, List.drop_of_length_le hdigits.le]
    rfl

theorem packed_eq_iff : packed (group ++ [u]) = lengthPrefixed u ↔ group = [] := by
  constructor
  · intro h
    by_contra hne
    have hlen := congrArg List.length h
    have := four_le_packed hne
    rw [packed_concat, List.length_append] at hlen
    omega
  · intro h
    subst h
    simp [packed]

/-- A group carries its last update alone when it has no other. -/
theorem carries_packed : Carries u (packed (group ++ [u])) ↔ group = [] := by
  have hne : group ++ [u] ≠ [] := by simp
  obtain ⟨n, rest, hdigits⟩ := packed_digits hne
  have hno : packed (group ++ [u]) ≠ okay ++ lengthPrefixed u := by
    intro h
    rw [hdigits] at h
    exact digits_not_status (.inl rfl) n rest (h ▸ List.prefix_append _ _)
  unfold Carries
  rw [packed_eq_iff]
  exact or_iff_left hno

theorem carries_okay_packed : Carries u (okay ++ packed (group ++ [u])) ↔ group = [] := by
  have hno : okay ++ packed (group ++ [u]) ≠ lengthPrefixed u := by
    intro h
    have hfront : okay <+: lengthPrefixed u := h ▸ List.prefix_append _ _
    exact digits_not_status (.inl rfl) u.length u hfront
  unfold Carries
  rw [List.append_right_inj, packed_eq_iff]
  exact or_iff_right hno

end OneMessage

namespace Packing
variable {updates earlier : List Bytes} {u : Bytes} {msgs : List Bytes}

/-- The last group ends in the last update. -/
theorem last_group {groups : List (List Bytes)} (joined : groups.flatten = earlier ++ [u])
    (nonempty : ∀ g ∈ groups, g ≠ []) : ∃ init group, groups = init ++ [group ++ [u]] := by
  rcases groups.eq_nil_or_concat with rfl | ⟨init, last, rfl⟩
  · simp at joined
  · rw [List.concat_eq_append] at joined nonempty ⊢
    rcases last.eq_nil_or_concat with rfl | ⟨group, v, rfl⟩
    · exact absurd rfl (nonempty [] (by simp))
    · rw [List.concat_eq_append, List.flatten_append, List.flatten_singleton,
        ← List.append_assoc] at joined
      have hv : v = u := by simpa using (List.append_inj_right' joined rfl)
      subst hv
      exact ⟨init, group, by rw [List.concat_eq_append]⟩

/-- The last message is the last group, with the status in front of it or not. -/
theorem last_message (h : Packing (earlier ++ [u]) msgs) :
    ∃ group, msgs.getLast? = some (packed (group ++ [u])) ∨
      msgs.getLast? = some (okay ++ packed (group ++ [u])) := by
  cases h with
  | apart joined nonempty =>
    obtain ⟨init, group, rfl⟩ := last_group joined nonempty
    refine ⟨group, .inl ?_⟩
    rw [List.map_append, List.map_singleton, ← List.cons_append, List.getLast?_concat]
  | together joined nonempty =>
    obtain ⟨init, group, hgroups⟩ := last_group joined nonempty
    refine ⟨group, ?_⟩
    cases init with
    | nil =>
      obtain ⟨rfl, rfl⟩ := List.cons.inj hgroups
      exact .inr rfl
    | cons first init =>
      rw [List.cons_append, List.cons.injEq] at hgroups
      obtain ⟨rfl, rfl⟩ := hgroups
      left
      rw [List.map_append, List.map_singleton, ← List.cons_append, List.getLast?_concat]

theorem zero_not_mem_packed {group : List Bytes} (hzero : ∀ v ∈ group, 0 ∉ v) :
    0 ∉ packed group := by
  intro hmem
  obtain ⟨v, hv, hz⟩ := List.mem_flatMap.mp hmem
  rcases List.mem_append.mp hz with hdigits | hz
  · have := (mem_hexadecimal_print hdigits).1
    simp [hexDigit] at this
  · exact hzero v hv hz

theorem zero_not_mem (h : Packing updates msgs) (hzero : ∀ v ∈ updates, 0 ∉ v) :
    ∀ m ∈ msgs, 0 ∉ m := by
  have hgroup : ∀ {groups : List (List Bytes)}, groups.flatten = updates → ∀ g ∈ groups,
      0 ∉ packed g := by
    intro groups joined g hg
    apply zero_not_mem_packed
    intro v hv
    exact hzero v (joined ▸ List.mem_flatten_of_mem hg hv)
  intro m hm
  cases h with
  | apart joined nonempty =>
    rcases List.mem_cons.mp hm with rfl | hm
    · exact zero_not_mem_okay
    · obtain ⟨g, hg, rfl⟩ := List.mem_map.mp hm
      exact hgroup joined g hg
  | together joined nonempty =>
    rcases List.mem_cons.mp hm with rfl | hm
    · exact List.not_mem_append zero_not_mem_okay (hgroup joined _ (by simp))
    · obtain ⟨g, hg, rfl⟩ := List.mem_map.mp hm
      exact hgroup joined g (by simp [hg])

end Packing

/-- The callback stores what the last message says. -/
theorem tracked_run {N : Nat} (hN : 8 < N) (s : CallState) {msgs : List Bytes}
    (hfit : Fit N msgs) {m : Bytes} (hlast : msgs.getLast? = some m) :
    ∃ x, HostCommand.trackDevices.underway N s msgs = .ok x ∧
      HostCommand.getTrackedDevices x.state = (reading m).result := by
  let store (s : CallState) (m : Bytes) : CallState :=
    { takeReading s m with trackedDevice := (reading m).result }
  have hrun := underway_eq hN (.host .trackDevices) msgs hfit s
  rw [show (meaning (.host .trackDevices)).next = fun s m => .ok (store s m) from rfl,
    foldlM_ok] at hrun
  refine ⟨_, hrun, ?_⟩
  have hfield := run_overwrites CallState.trackedDevice (fun m => (reading m).result)
    (fun _ _ _ hstep => by cases hstep; rfl)
    (foldlM_ok store msgs (entered (.host .trackDevices) s))
  rwa [hlast] at hfield

/-- **The latest update is stored exactly when it comes alone.** For every
non-empty sequence of updates and every way of packing it: once all messages are
handled, `get_tracked_devices` returns the last update if and only if no other
update is in its message and its length has four digits. -/
theorem latest_stored_iff {N : Nat} (hN : 8 < N) (s : CallState) (earlier : List Bytes)
    (u : Bytes) (hzero : ∀ v ∈ earlier ++ [u], 0 ∉ v) (msgs : List Bytes)
    (hpacking : Packing (earlier ++ [u]) msgs) (hfit : Fit N msgs) :
    (∃ x, HostCommand.trackDevices.underway N s msgs = .ok x ∧
      HostCommand.getTrackedDevices x.state = u) ↔ LatestAlone u msgs := by
  obtain ⟨group, hlast⟩ := hpacking.last_message
  have hmsgs := hpacking.zero_not_mem hzero
  unfold LatestAlone
  rcases hlast with hlast | hlast
  · obtain ⟨x, hx, htracked⟩ := tracked_run hN s hfit hlast
    rw [reading_result (hmsgs _ (List.mem_of_getLast? hlast)), kept_packed (by simp)] at htracked
    simp only [hx, Except.ok.injEq, exists_eq_left', hlast, Option.some.injEq, htracked,
      drop_packed_iff, carries_packed]
  · obtain ⟨x, hx, htracked⟩ := tracked_run hN s hfit hlast
    rw [reading_result (hmsgs _ (List.mem_of_getLast? hlast)), kept_okay_packed] at htracked
    simp only [hx, Except.ok.injEq, exists_eq_left', hlast, Option.some.injEq, htracked,
      drop_packed_iff, carries_okay_packed]

/-- A device that comes and one that leaves, in two messages. -/
theorem latest_stored_leaving :
    ∃ x, HostCommand.trackDevices.underway 64 .fresh
        [okay ++ lengthPrefixed (ascii "phone"), lengthPrefixed []] = .ok x ∧
      HostCommand.getTrackedDevices x.state = [] :=
  (latest_stored_iff (by decide) .fresh [ascii "phone"] [] (by decide) _
    (@Packing.together _ [ascii "phone"] [[[]]] rfl (by decide)) (by decide)).mpr
    ⟨by decide, lengthPrefixed [], rfl, .inl rfl⟩

/-- The same two updates in one message: the list stored is `phone0000`. -/
theorem latest_stored_fails :
    Packing [ascii "phone", []] [okay, packed [ascii "phone", []]] ∧
      Fit 64 [okay, packed [ascii "phone", []]] ∧
      ¬ ∃ x, HostCommand.trackDevices.underway 64 .fresh
          [okay, packed [ascii "phone", []]] = .ok x ∧
        HostCommand.getTrackedDevices x.state = [] := by
  have hfit : Fit 64 [okay, packed [ascii "phone", []]] := by decide
  refine ⟨@Packing.apart _ [[ascii "phone", []]] rfl (by decide), hfit, ?_⟩
  intro hstored
  obtain ⟨x, hx, htracked⟩ := hstored
  obtain ⟨y, hy, hstored⟩ := tracked_run (by decide) .fresh hfit rfl
  rw [hx, Except.ok.injEq] at hy
  subst hy
  rw [htracked] at hstored
  exact absurd hstored (by decide)

end AdbClient.Guarantees.TrackedUpdates
