import Mathlib.Data.List.Infix

/-!
# Keywords with an argument behind them

A request is a keyword, and behind some keywords an argument that nothing
delimits. The request can be told from every other one as soon as no keyword that
takes an argument is the beginning of another keyword.
-/
namespace AdbClient.Support.Keywords
variable {κ α : Type}

/-- Keywords, which of them take an argument, and why they cannot be confused. -/
structure Vocabulary (κ α : Type) where
  word : κ → List α
  takes : κ → Bool
  free : ∀ k l, takes k = true → word k <+: word l → k = l
  distinct : ∀ k l, word k = word l → k = l

/-- A keyword of the vocabulary, with an argument if it takes one. -/
@[ext] structure Request (V : Vocabulary κ α) where
  keyword : κ
  argument : Option (List α)
  fits : argument.isSome = V.takes keyword

variable {V : Vocabulary κ α}

def Request.text (r : Request V) : List α := V.word r.keyword ++ r.argument.getD []

theorem takes_of_some {r : Request V} {a : List α} (h : r.argument = some a) :
    V.takes r.keyword = true := by
  rw [← r.fits, h]
  rfl

/-- The keyword is where the text begins, and the only one that can be there. -/
theorem keyword_eq {r s : Request V} (h : r.text = s.text) : r.keyword = s.keyword := by
  unfold Request.text at h
  cases hr : r.argument with
  | none =>
    rw [hr, Option.getD_none, List.append_nil] at h
    cases hs : s.argument with
    | none =>
      rw [hs, Option.getD_none, List.append_nil] at h
      exact V.distinct _ _ h
    | some b => exact (V.free _ _ (takes_of_some hs) (h ▸ List.prefix_append _ _)).symm
  | some a =>
    have hfront : V.word r.keyword <+: V.word s.keyword ++ s.argument.getD [] :=
      h ▸ List.prefix_append _ _
    cases hs : s.argument with
    | none =>
      rw [hs, Option.getD_none, List.append_nil] at hfront
      exact V.free _ _ (takes_of_some hr) hfront
    | some b =>
      rcases List.prefix_or_prefix_of_prefix hfront (List.prefix_append _ _) with hrs | hsr
      · exact V.free _ _ (takes_of_some hr) hrs
      · exact (V.free _ _ (takes_of_some hs) hsr).symm

/-- **The text of a request tells the request.** -/
theorem text_injective : Function.Injective (Request.text (V := V)) := by
  intro r s h
  have hkeyword := keyword_eq h
  have hsome : r.argument.isSome = s.argument.isSome := by rw [r.fits, s.fits, hkeyword]
  refine Request.ext hkeyword ?_
  unfold Request.text at h
  rw [hkeyword, List.append_cancel_left_eq] at h
  cases hr : r.argument with
  | none =>
    rw [hr, Option.isSome_none] at hsome
    exact (Option.not_isSome_iff_eq_none.mp (by rw [← hsome]; decide)).symm
  | some a =>
    rw [hr, Option.isSome_some] at hsome
    obtain ⟨b, hb⟩ := Option.isSome_iff_exists.mp hsome.symm
    rw [hr, hb, Option.getD_some, Option.getD_some] at h
    rw [hb, h]

theorem request_text_eq_iff {r s : Request V} :
    r.text = s.text ↔ r.keyword = s.keyword ∧ r.argument = s.argument := by
  constructor
  · intro h
    rw [text_injective h]
    exact ⟨rfl, rfl⟩
  · intro h
    rw [Request.ext h.1 h.2]

end AdbClient.Support.Keywords
