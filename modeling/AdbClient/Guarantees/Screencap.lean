import AdbClient.Abstract.Reply

/-!
# The image of a screen capture

The screencap callback tells status and image apart by the size of the message:
four bytes are a status, anything else is image data, zero bytes included. Of the
stream `OKAY` and image it therefore drops exactly the pieces of four bytes. The
image comes out whole when one piece of four bytes is dropped and that piece
stands for the status: it is `OKAY`, and what comes before it begins the image.
-/
namespace AdbClient.Guarantees.Screencap
open Source Abstract Support.Stream

/-- The message settles the status. -/
def Decides (m : Bytes) : Prop := m.length = 4 ∧ m ≠ fail

instance (m : Bytes) : Decidable (Decides m) := inferInstanceAs (Decidable (_ ∧ _))

def verdict (m : Bytes) : Int := if m = okay then 0 else -1

/-- What a message adds to the image. -/
def imagePart (m : Bytes) : Bytes := if m.length = 4 then [] else m

section Run
variable {msgs : List Bytes} {s : CallState}

/-- One message. -/
theorem screencap_next_status (serial m : Bytes) (s : CallState) :
    (deviceNext (.screencap serial) s m).status = if Decides m then verdict m else s.status := by
  simp only [deviceNext, Decides, verdict]
  split
  next hfour =>
    split
    next ho => simp [ho, okay_ne_fail]
    next ho => split <;> simp_all
  next hfour => simp [hfour]

theorem screencap_run_status (serial : Bytes) :
    (msgs.foldl (deviceNext (.screencap serial)) s).status =
      ((msgs.filter fun m => decide (Decides m)).getLast?.map verdict).getD s.status := by
  apply run_overwrites_where CallState.status verdict _ _
    (foldlM_ok (deviceNext (.screencap serial)) msgs s)
  intro s m s' hstep
  cases hstep
  rw [screencap_next_status]
  simp

theorem screencap_run_output (serial : Bytes) :
    (msgs.foldl (deviceNext (.screencap serial)) s).output =
      s.output ++ msgs.flatMap imagePart := by
  apply run_appends CallState.output imagePart _
    (foldlM_ok (deviceNext (.screencap serial)) msgs s)
  intro s m s' hstep
  cases hstep
  simp only [deviceNext, imagePart]
  split
  · split
    · simp
    · split <;> simp
  · rfl

end Run

section Parts
variable {pieces before after : List Bytes} {m D : Bytes}

theorem imageParts_eq (h : ∀ m ∈ pieces, m.length ≠ 4) :
    pieces.flatMap imagePart = pieces.flatten :=
  flatMap_eq_flatten fun m hm => if_neg (h m hm)

theorem imagePart_length_le (m : Bytes) : (imagePart m).length ≤ m.length := by
  unfold imagePart
  split <;> simp

theorem imageParts_length_le (pieces : List Bytes) :
    (pieces.flatMap imagePart).length ≤ pieces.flatten.length :=
  flatMap_length_le (n := 0) imagePart_length_le pieces

/-- A piece of four bytes is missing from the image. -/
theorem imageParts_length_add_four (hmem : m ∈ pieces) (hm : m.length = 4) :
    (pieces.flatMap imagePart).length + 4 ≤ pieces.flatten.length := by
  obtain ⟨before, after, rfl⟩ := List.append_of_mem hmem
  have hbefore := imageParts_length_le before
  have hafter := imageParts_length_le after
  simp only [List.flatMap_append, List.flatMap_cons, imagePart, if_pos hm, List.flatten_append,
    List.flatten_cons, List.length_append, List.length_nil]
  omega

/-- Exactly one piece is dropped when the lengths agree. -/
theorem split_of_imageParts (hcut : Cut (okay ++ D) pieces) (h : pieces.flatMap imagePart = D) :
    ∃ before m after, pieces = before ++ m :: after ∧ m.length = 4 ∧
      (∀ w ∈ before ++ after, w.length ≠ 4) ∧ before.flatten ++ after.flatten = D := by
  have hlen := congrArg List.length hcut.joined
  rw [List.length_append, okay_length] at hlen
  rcases split_first (·.length = 4) pieces with hnone | ⟨before, m, after, rfl, hbefore, hm⟩
  · rw [imageParts_eq hnone] at h
    rw [h] at hlen
    omega
  · rw [List.flatMap_append, List.flatMap_cons, imageParts_eq hbefore, imagePart, if_pos hm,
      List.nil_append] at h
    have hparts := congrArg List.length h
    rw [List.length_append] at hparts
    simp only [List.flatten_append, List.flatten_cons, List.length_append] at hlen
    have hafter : ∀ w ∈ after, w.length ≠ 4 := by
      intro w hw hfour
      have := imageParts_length_add_four hw hfour
      omega
    rw [imageParts_eq hafter] at h
    refine ⟨before, m, after, rfl, hm, ?_, h⟩
    intro w hw
    exact (List.mem_append.mp hw).elim (hbefore w) (hafter w)

/-- The piece that is dropped is not `FAIL`: the letters of the rest would not
add up. -/
theorem ne_fail_of_split (hcut : Cut (okay ++ D) (before ++ m :: after))
    (h : before.flatten ++ after.flatten = D) : m ≠ fail := by
  intro hfail
  subst hfail
  have hletters := congrArg (List.count 70) hcut.joined
  have hrest := congrArg (List.count 70) h
  rw [List.flatten_append, List.flatten_cons, List.count_append, List.count_append,
    List.count_append, show okay.count 70 = 0 by decide,
    show fail.count 70 = 1 by decide] at hletters
  rw [List.count_append] at hrest
  omega

/-- Of the acknowledgement and pieces with one of four bytes, that one decides. -/
theorem filter_decides (hbefore : ∀ w ∈ before ++ after, w.length ≠ 4) (hm : Decides m) :
    (okay :: (before ++ m :: after)).filter (fun m => decide (Decides m)) = [okay, m] := by
  have hnil : ∀ ws : List Bytes, (∀ w ∈ ws, w.length ≠ 4) →
      ws.filter (fun m => decide (Decides m)) = [] := by
    intro ws hws
    rw [List.filter_eq_nil_iff]
    intro w hw hdecides
    exact hws w hw (of_decide_eq_true hdecides).1
  have hokay : Decides okay := by decide
  simp only [List.filter_cons, List.filter_append, hokay, hm, decide_true, if_true,
    hnil before (fun w hw => hbefore w (List.mem_append_left _ hw)),
    hnil after (fun w hw => hbefore w (List.mem_append_right _ hw)), List.nil_append]

end Parts

/-- One piece is `OKAY` and nothing else, no other piece has four bytes, and the
pieces before it begin the image. -/
def AcknowledgedApart (D : Bytes) (pieces : List Bytes) : Prop :=
  ∃ before after, pieces = before ++ okay :: after ∧ (∀ w ∈ before ++ after, w.length ≠ 4) ∧
    before.flatten <+: D

/-- **When a screen capture comes out whole.** For every image and every way the
service's `OKAY` and the image arrive behind the acknowledged transport: the call
returns 0 and appends exactly the image if and only if one piece is `OKAY` alone,
no other piece has four bytes, and what comes before it begins the image. -/
theorem screencap_whole_iff {N : Nat} (hN : 8 < N) (serial : Bytes) (s : CallState) (D : Bytes)
    (pieces : List Bytes) (hcut : Cut (okay ++ D) pieces) (hfit : Fit N (okay :: pieces)) :
    (∃ x, (LocalCommand.Call.screencap serial).operation.call N s (okay :: pieces) = .ok x ∧
      x.returned = some 0 ∧ x.state.output = s.output ++ D) ↔ AcknowledgedApart D pieces := by
  let t := (okay :: pieces).foldl (deviceNext (.screencap serial))
    (entered (.device (.screencap serial)) s)
  have hstatus : t.status = _ := screencap_run_status serial
  have houtput : t.output = s.output ++ (okay :: pieces).flatMap imagePart :=
    screencap_run_output serial
  rw [List.flatMap_cons, show imagePart okay = [] from rfl, List.nil_append] at houtput
  simp only [device_call hN (.screencap serial) (okay :: pieces) hfit s, Except.ok.injEq,
    exists_eq_left', finishedSession_returned, Option.some.injEq]
  rw [show (finishedSession (.device (.screencap serial)) N (okay :: pieces) t).state.output = _
    from houtput, List.append_right_inj]
  constructor
  · intro h
    obtain ⟨hzero, hparts⟩ := h
    obtain ⟨before, m, after, rfl, hm, hothers, hjoin⟩ := split_of_imageParts hcut hparts
    have hdecides : Decides m := ⟨hm, ne_fail_of_split hcut hjoin⟩
    rw [filter_decides hothers hdecides] at hstatus
    have hokay : m = okay := by
      by_contra hne
      rw [show t.status = verdict m from hstatus, verdict, if_neg hne] at hzero
      cases hzero
    subst hokay
    exact ⟨before, after, rfl, hothers, ⟨after.flatten, hjoin⟩⟩
  · intro h
    obtain ⟨before, after, rfl, hothers, hfront⟩ := h
    have hokay : Decides okay := by decide
    rw [filter_decides hothers hokay] at hstatus
    refine ⟨hstatus, ?_⟩
    have hbefore := imageParts_eq fun w hw => hothers w (List.mem_append_left _ hw)
    have hafter := imageParts_eq fun w hw => hothers w (List.mem_append_right _ hw)
    rw [List.flatMap_append, List.flatMap_cons, hbefore, hafter,
      show imagePart okay = [] from rfl, List.nil_append]
    have hjoined := hcut.joined
    have hlen := congrArg List.length hjoined
    simp only [List.flatten_append, List.flatten_cons, List.length_append] at hjoined hlen
    apply append_eq_of_prefix_of_suffix (List.suffix_append okay D) _ hfront
    · omega
    · exact ⟨before.flatten ++ okay, by rw [List.append_assoc, hjoined]⟩

theorem screencap_whole_png :
    ∃ x, (LocalCommand.Call.screencap (ascii "d17cdac6")).operation.call 64 .fresh
        [okay, okay, [137, 80, 78, 71, 0], [13, 10]] = .ok x ∧
      x.returned = some 0 ∧ x.state.output = [137, 80, 78, 71, 0, 13, 10] :=
  (screencap_whole_iff (by decide) (ascii "d17cdac6") .fresh [137, 80, 78, 71, 0, 13, 10]
    [okay, [137, 80, 78, 71, 0], [13, 10]] ⟨by decide, by decide⟩ (by decide)).mpr
    ⟨[], [[137, 80, 78, 71, 0], [13, 10]], rfl, by decide, by decide⟩

/-- An acknowledgement that comes with the first bytes of the image is taken for
image data. -/
theorem screencap_whole_fails :
    Cut (okay ++ [137, 80, 78, 71, 0]) [okay ++ [137, 80, 78, 71, 0]] ∧
      Fit 64 [okay, okay ++ [137, 80, 78, 71, 0]] ∧
      ¬ ∃ x, (LocalCommand.Call.screencap (ascii "d17cdac6")).operation.call 64 .fresh
          [okay, okay ++ [137, 80, 78, 71, 0]] = .ok x ∧
        x.returned = some 0 ∧ x.state.output = [137, 80, 78, 71, 0] := by
  refine ⟨⟨by decide, by decide⟩, by decide, ?_⟩
  intro hwhole
  obtain ⟨x, hx, -, houtput⟩ := hwhole
  rw [device_call (by decide) _ _ (by decide)] at hx
  cases hx
  exact absurd houtput (by decide)

end AdbClient.Guarantees.Screencap
