import Mathlib.Data.List.Infix

/-!
# Texts joined by a separator

A head, a keyword and possibly an argument are written one after the other with a
separator between them and nothing escaped. The keyword has no separator; head
and argument are arbitrary. The three come back from the text as long as no head
contains a keyword that takes an argument, between separators of its own. Where
they do not, the text is cut at another of its separators.
-/
namespace AdbClient.Support.Separator
variable {α : Type} {sep : α} {s t k l q r : List α} {a b : Option (List α)}

/-- The keyword and its argument. -/
def request (sep : α) (k : List α) : Option (List α) → List α
  | none => k
  | some a => k ++ sep :: a

/-- The keyword occurs in the text as a part that is followed by a separator once
the text is followed by one. -/
def HasPart (sep : α) (k s : List α) : Prop := sep :: (k ++ [sep]) <:+: s ++ [sep]

/-- The second pair is the first one cut at a later separator. -/
def Shifted (sep : α) (s q t r : List α) : Prop :=
  ∃ x, t = s ++ sep :: x ∧ q = x ++ sep :: r

/-- A text with a separator in it is cut at the same one, or at a later one. -/
theorem append_cons_eq_iff :
    s ++ sep :: q = t ++ sep :: r ↔
      (s = t ∧ q = r) ∨ Shifted sep s q t r ∨ Shifted sep t r s q := by
  constructor
  · intro h
    rcases List.append_eq_append_iff.mp h with ⟨u, rfl, hu⟩ | ⟨u, rfl, hu⟩
    · cases u with
      | nil => exact .inl ⟨(List.append_nil s).symm, (List.cons.inj hu).2⟩
      | cons c u =>
        obtain ⟨rfl, hq⟩ := List.cons.inj hu
        exact .inr (.inl ⟨u, rfl, hq⟩)
    · cases u with
      | nil => exact .inl ⟨List.append_nil t, (List.cons.inj hu).2.symm⟩
      | cons c u =>
        obtain ⟨rfl, hr⟩ := List.cons.inj hu
        exact .inr (.inr ⟨u, rfl, hr⟩)
  · rintro (⟨rfl, rfl⟩ | ⟨x, rfl, rfl⟩ | ⟨x, rfl, rfl⟩)
    · rfl
    · simp
    · simp

/-- A text without separator is cut nowhere else. -/
theorem not_shifted_of_not_mem (hl : sep ∉ l) : ¬ Shifted sep s q l r := by
  rintro ⟨x, rfl, -⟩
  exact hl (by simp)

/-- A request that begins behind a separator of another one: that one has an argument,
and the other begins behind a separator of it. -/
theorem shifted_request_iff (hk : sep ∉ k) :
    Shifted sep s (request sep k a) t q ↔
      ∃ b front, a = some b ∧ sep :: b = front ++ sep :: q ∧ t = s ++ sep :: (k ++ front) := by
  constructor
  · rintro ⟨x, rfl, hx⟩
    cases a with
    | none =>
      rw [request] at hx
      exact absurd (hx ▸ by simp) hk
    | some b =>
      rcases append_cons_eq_iff.mp hx with ⟨rfl, rfl⟩ | ⟨y, rfl, rfl⟩ | hshift
      · exact ⟨b, [], rfl, rfl, by rw [List.append_nil]⟩
      · exact ⟨_, sep :: y, rfl, rfl, rfl⟩
      · exact absurd hshift (not_shifted_of_not_mem hk)
  · rintro ⟨b, front, rfl, hfront, rfl⟩
    exact ⟨k ++ front, rfl, by rw [request, hfront, List.append_assoc]⟩

/-- A keyword without argument holds the last separator, and one with an argument
would otherwise be part of the other head. -/
theorem not_shifted_request (hk : sep ∉ k) (hpart : a.isSome → ¬ HasPart sep k t) :
    ¬ Shifted sep s (request sep k a) t q := by
  intro h
  obtain ⟨b, front, rfl, hfront, rfl⟩ := (shifted_request_iff hk).mp h
  apply hpart rfl
  cases front with
  | nil => exact ⟨s, [], by simp⟩
  | cons c front =>
    obtain ⟨rfl, -⟩ := List.cons.inj hfront
    exact ⟨s, front ++ [sep], by simp⟩

/-- Keyword and argument come back from a request. -/
theorem request_inj (hk : sep ∉ k) (hl : sep ∉ l) (h : request sep k a = request sep l b) :
    k = l ∧ a = b := by
  cases a with
  | none =>
    cases b with
    | none => exact ⟨h, rfl⟩
    | some b =>
      simp only [request] at h
      exact absurd (h ▸ by simp) hk
  | some a =>
    cases b with
    | none =>
      simp only [request] at h
      exact absurd (h ▸ by simp) hl
    | some b =>
      rcases append_cons_eq_iff.mp h with ⟨rfl, rfl⟩ | hshift | hshift
      · exact ⟨rfl, rfl⟩
      · exact absurd hshift (not_shifted_of_not_mem hl)
      · exact absurd hshift (not_shifted_of_not_mem hk)

/-- **Head, keyword and argument come back from the text.** -/
theorem joined_inj (hk : sep ∉ k) (hl : sep ∉ l) (hs : b.isSome → ¬ HasPart sep l s)
    (ht : a.isSome → ¬ HasPart sep k t)
    (h : s ++ sep :: request sep k a = t ++ sep :: request sep l b) :
    s = t ∧ k = l ∧ a = b := by
  rcases append_cons_eq_iff.mp h with ⟨rfl, hrequest⟩ | hshift | hshift
  · exact ⟨rfl, request_inj hk hl hrequest⟩
  · exact absurd hshift (not_shifted_request hk ht)
  · exact absurd hshift (not_shifted_request hl hs)

end AdbClient.Support.Separator
