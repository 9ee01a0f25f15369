import Mathlib.Data.List.Forall2

/-!
# Streams received in pieces

A receiver that folds over the pieces of a stream keeps some fields by appending
what each piece contributes and overwrites others with what the last piece says.
The rules here read such fields off the whole run, for any state, any piece and
any failure. The remaining lemmas compare a stream with what is left of it when
its pieces lose some of their elements.
-/
namespace AdbClient.Support.Stream

section Steps
variable {ε α β : Type}

theorem ok_bind (a : α) (f : α → Except ε β) : (Except.ok a >>= f) = f a := rfl

theorem exists_bind_ok (x : Except ε α) (f : α → Except ε β) :
    (∃ b, (x >>= f) = .ok b) ↔ ∃ a, x = .ok a ∧ ∃ b, f a = .ok b := by
  cases x with
  | error fault => simp [bind, Except.bind]
  | ok a => simp [bind, Except.bind]

theorem bind_eq_ok {x : Except ε α} {f : α → Except ε β} {b : β} (h : (x >>= f) = .ok b) :
    ∃ a, x = .ok a ∧ f a = .ok b := by
  cases x with
  | error fault => cases h
  | ok a => exact ⟨a, rfl, h⟩

theorem bind_eq_error_iff (x : Except ε α) (f : α → Except ε β) (fault : ε) :
    (x >>= f) = .error fault ↔ x = .error fault ∨ ∃ a, x = .ok a ∧ f a = .error fault := by
  cases x with
  | error fault' => simp [bind, Except.bind]
  | ok a => simp [bind, Except.bind]

theorem map_eq_ok {x : Except ε α} {f : α → β} {b : β} (h : x.map f = .ok b) :
    ∃ a, x = .ok a ∧ f a = b := by
  cases x with
  | error fault => cases h
  | ok a => exact ⟨a, rfl, Except.ok.inj h⟩

end Steps

section Fields
variable {ε σ α β : Type} {step : σ → α → Except ε σ} {s s' : σ} {pieces : List α}

theorem foldlM_cons_ok {a : α} (h : (a :: pieces).foldlM step s = .ok s') :
    ∃ t, step s a = .ok t ∧ pieces.foldlM step t = .ok s' := by
  rw [List.foldlM_cons] at h
  exact bind_eq_ok h

/-- The last piece is one step more. -/
theorem foldlM_concat_ok {a : α} (h : (pieces ++ [a]).foldlM step s = .ok s') :
    ∃ t, pieces.foldlM step s = .ok t ∧ step t a = .ok s' := by
  rw [List.foldlM_append] at h
  obtain ⟨t, hrun, hlast⟩ := bind_eq_ok h
  obtain ⟨u, hu, hnil⟩ := foldlM_cons_ok hlast
  cases hnil
  exact ⟨t, hrun, hu⟩

/-- Where a step fails on certain pieces in every state, a run goes through when
there is no such piece. -/
theorem run_ok_iff {p : α → Prop} (hstep : ∀ s a, (∃ t, step s a = .ok t) ↔ p a) :
    (∃ t, pieces.foldlM step s = .ok t) ↔ ∀ a ∈ pieces, p a := by
  induction pieces generalizing s with
  | nil => simp [pure, Except.pure]
  | cons a pieces ih =>
    rw [List.forall_mem_cons, ← hstep s a]
    constructor
    · intro h
      obtain ⟨t, ht⟩ := h
      obtain ⟨u, hu, hrun⟩ := foldlM_cons_ok ht
      exact ⟨⟨u, hu⟩, ih.mp ⟨t, hrun⟩⟩
    · intro h
      obtain ⟨⟨u, hu⟩, hrest⟩ := h
      obtain ⟨t, ht⟩ := (ih (s := u)).mpr hrest
      refine ⟨t, ?_⟩
      rw [List.foldlM_cons, hu]
      exact ht

/-- A run that fails does so at one piece, behind a run of those before it. -/
theorem run_error_iff {fault : ε} :
    pieces.foldlM step s = .error fault ↔ ∃ before a after, pieces = before ++ a :: after ∧
      ∃ t, before.foldlM step s = .ok t ∧ step t a = .error fault := by
  induction pieces generalizing s with
  | nil => simp [pure, Except.pure]
  | cons a pieces ih =>
    rw [List.foldlM_cons, bind_eq_error_iff]
    constructor
    · intro h
      rcases h with hfirst | ⟨t, ht, hrest⟩
      · exact ⟨[], a, pieces, rfl, s, rfl, hfirst⟩
      · obtain ⟨before, b, after, rfl, u, hbefore, hb⟩ := ih.mp hrest
        refine ⟨a :: before, b, after, rfl, u, ?_, hb⟩
        rw [List.foldlM_cons, ht]
        exact hbefore
    · intro h
      obtain ⟨before, b, after, hpieces, u, hbefore, hb⟩ := h
      cases before with
      | nil =>
        cases hpieces
        cases hbefore
        exact .inl hb
      | cons c before =>
        cases hpieces
        obtain ⟨t, ht, hrun⟩ := foldlM_cons_ok hbefore
        exact .inr ⟨t, ht, ih.mpr ⟨before, b, after, rfl, u, hrun, hb⟩⟩

/-- A field every step appends to collects all contributions in order. -/
theorem run_appends (field : σ → List β) (part : α → List β)
    (hstep : ∀ s a s', step s a = .ok s' → field s' = field s ++ part a)
    (h : pieces.foldlM step s = .ok s') : field s' = field s ++ pieces.flatMap part := by
  induction pieces generalizing s with
  | nil =>
    cases h
    simp
  | cons a pieces ih =>
    obtain ⟨t, ht, hrun⟩ := foldlM_cons_ok h
    rw [ih hrun, hstep s a t ht, List.flatMap_cons, List.append_assoc]

/-- A field that some pieces overwrite holds what the last of them says. -/
theorem run_overwrites_where (field : σ → β) (part : α → β) (p : α → Bool)
    (hstep : ∀ s a s', step s a = .ok s' → field s' = if p a then part a else field s)
    (h : pieces.foldlM step s = .ok s') :
    field s' = ((pieces.filter p).getLast?.map part).getD (field s) := by
  induction pieces generalizing s with
  | nil =>
    cases h
    rfl
  | cons a pieces ih =>
    obtain ⟨t, ht, hrun⟩ := foldlM_cons_ok h
    have hfield := hstep s a t ht
    rw [ih hrun]
    cases hp : p a with
    | false =>
      rw [hp] at hfield
      rw [List.filter_cons_of_neg (by simp [hp]), hfield]
      rfl
    | true =>
      rw [hp] at hfield
      rw [List.filter_cons_of_pos hp, List.getLast?_cons, hfield]
      cases (pieces.filter p).getLast? <;> rfl

/-- A field every step overwrites holds what the last piece says. -/
theorem run_overwrites (field : σ → β) (part : α → β)
    (hstep : ∀ s a s', step s a = .ok s' → field s' = part a)
    (h : pieces.foldlM step s = .ok s') :
    field s' = (pieces.getLast?.map part).getD (field s) := by
  have hrun := run_overwrites_where field part (fun _ => true) hstep h
  rwa [List.filter_eq_self.mpr fun _ _ => rfl] at hrun

/-- A field no step changes is as it was. -/
theorem run_keeps (field : σ → β) (hstep : ∀ s a s', step s a = .ok s' → field s' = field s)
    (h : pieces.foldlM step s = .ok s') : field s' = field s := by
  have hrun := run_overwrites_where field (fun _ => field s) (fun _ => false) hstep h
  rwa [List.filter_eq_nil_iff.mpr (by simp)] at hrun

end Fields

section Made
variable {ε α β : Type} {make : α → Except ε β} {R S : α → β → Prop} {p : α → Prop}
  {as : List α}

/-- A run that appends what it makes of each piece goes through when all of them
can be made, and they stand in order behind what was there. -/
theorem run_makes {list list' : List β} :
    as.foldlM (fun list a => do return list ++ [← make a]) list = .ok list' ↔
      ∃ bs, list' = list ++ bs ∧ List.Forall₂ (fun a b => make a = .ok b) as bs := by
  induction as generalizing list with
  | nil =>
    simp only [List.foldlM_nil, pure, Except.pure, Except.ok.injEq, List.forall₂_nil_left_iff,
      exists_eq_right, List.append_nil]
    exact eq_comm
  | cons a as ih =>
    constructor
    · intro h
      obtain ⟨t, ht, hrun⟩ := foldlM_cons_ok h
      obtain ⟨bs, rfl, hbs⟩ := ih.mp hrun
      obtain ⟨b, hmake, happend⟩ := bind_eq_ok ht
      cases happend
      exact ⟨b :: bs, List.append_assoc list [b] bs, .cons hmake hbs⟩
    · intro h
      obtain ⟨bs, rfl, hbs⟩ := h
      obtain ⟨b, rest, hmake, hrest, rfl⟩ := List.forall₂_cons_left_iff.mp hbs
      rw [List.foldlM_cons, hmake]
      exact ih.mpr ⟨rest, List.append_cons list b rest, hrest⟩

/-- Related elements can be found for all when they can for each. -/
theorem exists_forall₂_iff : (∃ bs, List.Forall₂ R as bs) ↔ ∀ a ∈ as, ∃ b, R a b := by
  induction as with
  | nil => simp
  | cons a as ih =>
    rw [List.forall_mem_cons, ← ih]
    constructor
    · intro h
      obtain ⟨_, hbs⟩ := h
      obtain ⟨b, bs, hb, hrest, -⟩ := List.forall₂_cons_left_iff.mp hbs
      exact ⟨⟨b, hb⟩, bs, hrest⟩
    · intro h
      obtain ⟨⟨b, hb⟩, bs, hbs⟩ := h
      exact ⟨b :: bs, .cons hb hbs⟩

/-- Where a relation says of related elements what can be said of the left ones. -/
theorem forall₂_iff_forall {bs : List β} (h : List.Forall₂ R as bs)
    (hS : ∀ a b, R a b → (S a b ↔ p a)) : List.Forall₂ S as bs ↔ ∀ a ∈ as, p a := by
  induction h with
  | nil => simp
  | cons hab hrest ih => rw [List.forall₂_cons, List.forall_mem_cons, hS _ _ hab, ih]

end Made

section Parts
variable {α : Type} {part : List α → List α} {pieces : List (List α)}

/-- Pieces that contribute all of themselves give the stream back. -/
theorem flatMap_eq_flatten (h : ∀ m ∈ pieces, part m = m) :
    pieces.flatMap part = pieces.flatten :=
  (List.flatMap_congr h).trans List.flatMap_id'

/-- Where every piece loses `n` elements or all it has, so does the stream. -/
theorem flatMap_length_le {n : Nat} (hpart : ∀ m, (part m).length ≤ m.length - n)
    (pieces : List (List α)) : (pieces.flatMap part).length ≤ pieces.flatten.length - n := by
  induction pieces with
  | nil => simp
  | cons m pieces ih =>
    have hm := hpart m
    rw [List.flatMap_cons, List.length_append, List.flatten_cons, List.length_append]
    omega

/-- A normal form that does not change when the front of a text is normalised
first can be taken again after every piece. -/
theorem foldl_normalise {normal : List α → List α}
    (hnormal : ∀ s t, normal (normal s ++ t) = normal (s ++ t)) (s piece : List α) :
    (piece :: pieces).foldl (fun acc m => normal (acc ++ m)) s =
      normal (s ++ (piece :: pieces).flatten) := by
  induction pieces generalizing s piece with
  | nil => simp
  | cons m pieces ih =>
    rw [List.foldl_cons, ih, hnormal, List.append_assoc]
    rfl

end Parts

section Pieces
variable {α : Type} {stream text u v w : List α} {c : α}

/-- Two parts that add up to the length of a suffix of the stream make it up,
when the one is a prefix of it and the other another suffix of the stream. -/
theorem append_eq_of_prefix_of_suffix (htext : text <:+ stream) (hv : v <:+ stream)
    (hu : u <+: text) (hlen : u.length + v.length = text.length) : u ++ v = text := by
  obtain ⟨t, rfl⟩ := hu
  have ht : t <:+ stream := (List.suffix_append u t).trans htext
  have hlen' : v.length = t.length := by
    rw [List.length_append] at hlen
    omega
  rw [(List.suffix_of_suffix_length_le hv ht (Nat.le_of_eq hlen')).eq_of_length hlen']

/-- An element that starts a later piece within the first `w` is in its tail. -/
theorem mem_tail_of_append_eq (h : u ++ c :: v = w ++ text) (hu : u ≠ [])
    (hlen : u.length < w.length) : c ∈ w.tail := by
  obtain ⟨a, u, rfl⟩ := List.exists_cons_of_ne_nil hu
  cases w with
  | nil => simp at hlen
  | cons b w =>
    rw [List.cons_append, List.cons_append, List.cons.injEq] at h
    rw [List.length_cons, List.length_cons] at hlen
    have hw : (u ++ c :: v)[u.length]? = (w ++ text)[u.length]? := by rw [h.2]
    rw [List.getElem?_append_right u.length.le_refl, Nat.sub_self, List.getElem?_cons_zero,
      List.getElem?_append_left (by omega)] at hw
    exact List.mem_of_getElem? hw.symm

/-- Either no piece has the property or there is a first one that does. -/
theorem split_first (p : α → Prop) [DecidablePred p] (pieces : List α) :
    (∀ a ∈ pieces, ¬ p a) ∨
      ∃ before a after, pieces = before ++ a :: after ∧ (∀ b ∈ before, ¬ p b) ∧ p a := by
  cases hfind : pieces.find? (decide <| p ·) with
  | none =>
    left
    simpa using hfind
  | some a =>
    obtain ⟨ha, before, after, rfl, hbefore⟩ := List.find?_eq_some_iff_append.mp hfind
    right
    exact ⟨before, a, after, rfl, by simpa using hbefore, by simpa using ha⟩

end Pieces
end AdbClient.Support.Stream
