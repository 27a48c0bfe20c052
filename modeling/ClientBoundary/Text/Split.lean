/-!
# Cutting text at a separator

A text over a separator is a non-empty list of pieces: `cut` takes the text apart, `glue` puts it
back. Paths, option values and ignore files are all read this way; the first are made of bytes and the
others of characters.
-/

namespace ClientBoundary

namespace Text

variable {α : Type} [DecidableEq α]

/-- The pieces of `cs` between occurrences of `sep`; an empty text is one empty piece. -/
def cut (sep : α) : List α → List (List α)
  | [] => [[]]
  | c :: cs =>
    if c = sep then [] :: cut sep cs
    else
      match cut sep cs with
      | [] => [[c]]
      | piece :: pieces => (c :: piece) :: pieces

/-- The pieces joined by `sep`. -/
def glue (sep : α) : List (List α) → List α
  | [] => []
  | [piece] => piece
  | piece :: pieces => piece ++ sep :: glue sep pieces

/-- What is left of `cs` after the lead `lead`, if `cs` begins with it. -/
def stripLead? : (lead cs : List α) → Option (List α)
  | [], cs => some cs
  | _ :: _, [] => none
  | l :: lead, c :: cs => if l = c then stripLead? lead cs else none

/-- `cs` without the longest run of characters satisfying `p` at its end. -/
def dropEndWhile (p : α → Bool) (cs : List α) : List α :=
  (cs.reverse.dropWhile p).reverse

/-- There is always a first piece. -/
theorem cut_ne_nil (sep : α) (cs : List α) : cut sep cs ≠ [] := by
  cases cs with
  | nil => simp [cut]
  | cons c cs =>
    by_cases h : c = sep
    · simp [cut, h]
    · simp only [cut, h, if_false]
      split <;> simp

/-- Cutting and gluing loses nothing. -/
theorem glue_cut (sep : α) (cs : List α) : glue sep (cut sep cs) = cs := by
  induction cs with
  | nil => rfl
  | cons c cs ih =>
    by_cases h : c = sep
    · subst h
      have hne := cut_ne_nil c cs
      cases hp : cut c cs with
      | nil => exact absurd hp hne
      | cons p ps => rw [hp] at ih; simp [cut, hp, glue, ih]
    · have hne := cut_ne_nil sep cs
      cases hp : cut sep cs with
      | nil => exact absurd hp hne
      | cons p ps =>
        rw [hp] at ih
        cases ps with
        | nil => simp [cut, hp, h, glue] at ih ⊢; exact ih
        | cons q qs => simp [cut, hp, h, glue] at ih ⊢; exact ih

/-- No piece holds the separator. -/
theorem not_mem_of_mem_cut {sep : α} {cs piece : List α} (h : piece ∈ cut sep cs) :
    sep ∉ piece := by
  induction cs generalizing piece with
  | nil =>
    rw [cut, List.mem_singleton] at h
    simp [h]
  | cons c cs ih =>
    by_cases hc : c = sep
    · rw [cut, if_pos hc] at h
      rcases List.mem_cons.1 h with rfl | h
      · simp
      · exact ih h
    · rw [cut, if_neg hc] at h
      cases hp : cut sep cs with
      | nil => exact absurd hp (cut_ne_nil sep cs)
      | cons first pieces =>
        rw [hp] at h ih
        rcases List.mem_cons.1 h with rfl | h
        · have hfirst := ih (List.mem_cons_self ..)
          simp [hfirst, Ne.symm hc]
        · exact ih (List.mem_cons_of_mem _ h)

/-- A text without the separator is its only piece. -/
theorem cut_of_not_mem {sep : α} {cs : List α} (h : sep ∉ cs) : cut sep cs = [cs] := by
  induction cs with
  | nil => rfl
  | cons c cs ih =>
    have hc := List.ne_of_not_mem_cons h
    have hcs := List.not_mem_of_not_mem_cons h
    rw [cut, if_neg (Ne.symm hc), ih hcs]

/-- A separator cuts a text in two. -/
theorem cut_append (sep : α) (as bs : List α) :
    cut sep (as ++ sep :: bs) = cut sep as ++ cut sep bs := by
  induction as with
  | nil => simp [cut]
  | cons c as ih =>
    by_cases hc : c = sep
    · rw [List.cons_append, cut, if_pos hc, cut, if_pos hc, ih, List.cons_append]
    · rw [List.cons_append, cut, if_neg hc, cut, if_neg hc, ih]
      cases hp : cut sep as with
      | nil => exact absurd hp (cut_ne_nil sep as)
      | cons piece pieces => rfl

/-- A piece in front of a separator is cut off. -/
theorem cut_append_cons {sep : α} {piece : List α} (h : sep ∉ piece) (cs : List α) :
    cut sep (piece ++ sep :: cs) = piece :: cut sep cs := by
  rw [cut_append, cut_of_not_mem h, List.singleton_append]

/-- Gluing and cutting loses nothing if no piece holds the separator. -/
theorem cut_glue {sep : α} {pieces : List (List α)} (hne : pieces ≠ [])
    (h : ∀ piece ∈ pieces, sep ∉ piece) : cut sep (glue sep pieces) = pieces := by
  induction pieces with
  | nil => exact absurd rfl hne
  | cons piece pieces ih =>
    obtain ⟨hpiece, hpieces⟩ := List.forall_mem_cons.1 h
    cases pieces with
    | nil => exact cut_of_not_mem hpiece
    | cons next pieces =>
      rw [glue, cut_append_cons hpiece, ih (by simp) hpieces]
      simp

omit [DecidableEq α] in
/-- Pieces glued together hold the text of some of them glued together. -/
theorem glue_sublist {sep : α} {as bs : List (List α)} (h : as.Sublist bs) :
    (glue sep as).Sublist (glue sep bs) := by
  induction h with
  | slnil => exact .slnil
  | @cons as bs b h ih =>
    cases bs with
    | nil =>
      rw [List.sublist_nil.1 h]
      exact List.nil_sublist _
    | cons next rest => exact (ih.cons _).trans (List.sublist_append_right _ _)
  | @cons_cons as bs a h ih =>
    cases bs with
    | nil =>
      obtain rfl := List.sublist_nil.1 h
      exact List.Sublist.refl _
    | cons next rest =>
      cases as with
      | nil => exact List.sublist_append_left _ _
      | cons first as => exact (ih.cons_cons _).append_left _

theorem stripLead?_append (lead rest : List α) : stripLead? lead (lead ++ rest) = some rest := by
  induction lead with
  | nil => rfl
  | cons c lead ih => rw [List.cons_append, stripLead?, if_pos rfl, ih]

/-- The stripped lead put back in front gives the text. -/
theorem append_of_stripLead? {lead cs rest : List α} (h : stripLead? lead cs = some rest) :
    lead ++ rest = cs := by
  induction lead generalizing cs with
  | nil => simpa [stripLead?] using h.symm
  | cons l lead ih =>
    cases cs with
    | nil => simp [stripLead?] at h
    | cons c cs =>
      by_cases hc : l = c
      · simp only [stripLead?, hc, if_true] at h
        simp [hc, ih h]
      · simp [stripLead?, hc] at h

end Text

end ClientBoundary
