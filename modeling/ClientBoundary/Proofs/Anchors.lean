import ClientBoundary.Proofs.DeadEdges

/-!
# Bases and their anchors

A specifier with a slash in front is seen from the root of the project, and one that falls under an alias from each
target of it. Its base is what is left of the specifier, joined to that anchor and cleaned. If the specifier goes
nowhere up, the base should be the anchor with the **normal** segments behind it, and lie below the anchor therefore.

It does, unless what is left is taken for more than a way down: if it starts with a slash, joining drops the anchor
(`steps_baseOf_absolute`), and if the alias ends inside of a segment so that two dots are left in front, these lead up
(`steps_baseOf_up`).
-/

namespace ClientBoundary

namespace Text

/-- Behind the first of its pieces, a list has the same pieces wherever it stands at the end of another. -/
theorem cut_append_tail {α : Type} [DecidableEq α] (sep : α) (as bs : List α) :
    ∃ front, cut sep (as ++ bs) = front ++ (cut sep bs).tail := by
  suffices h : ∃ first front, cut sep (as ++ bs) = first :: front ++ (cut sep bs).tail by
    obtain ⟨first, front, h⟩ := h
    exact ⟨first :: front, h⟩
  induction as with
  | nil =>
    obtain ⟨first, rest, hcut⟩ := List.exists_cons_of_ne_nil (cut_ne_nil sep bs)
    exact ⟨first, [], by simp [hcut]⟩
  | cons c as ih =>
    obtain ⟨first, front, h⟩ := ih
    by_cases hc : c = sep
    · exact ⟨[], first :: front, by rw [List.cons_append, cut, if_pos hc, h]; rfl⟩
    · exact ⟨c :: first, front, by rw [List.cons_append, cut, if_neg hc, h]; rfl⟩

end Text

namespace Path

open Bytes (slash dot)

variable {p anchor : Path} {rest : Bytes}

/-- Steps that are names. -/
def AllNames (ss : List Step) : Prop := ∀ s ∈ ss, ∃ n, s = .name n

/-- The steps of the normal segments of a text: without those that make no step, and without two dots. -/
def normals (text : String) : List Step :=
  ((Disk.segmentsOf text).filterMap Step.ofSegment?).filter (· != .up)

/-! ## Cleaning -/

/-- Names are put on top of what is cleaned. -/
theorem foldl_cleanStep_names {names : List Step} (h : AllNames names) (done : List Step) :
    names.foldl cleanStep done = names.reverse ++ done := by
  induction names generalizing done with
  | nil => rfl
  | cons s names ih =>
    obtain ⟨⟨n, rfl⟩, hnames⟩ := List.forall_mem_cons.1 h
    rw [List.foldl_cons, ih hnames]
    simp [cleanStep]

/-- Names behind a path stay when it is cleaned. -/
theorem cleanSteps_append {ss names : List Step} (h : AllNames names) :
    cleanSteps (ss ++ names) = cleanSteps ss ++ names := by
  rw [cleanSteps, List.foldl_append, foldl_cleanStep_names h, List.reverse_append, List.reverse_reverse, cleanSteps]

/-- The steps of a cleaned path that starts at the root. -/
theorem steps_clean (h : p.steps.head? = some .root) : p.clean.steps = cleanSteps p.steps := by
  obtain ⟨inner, hsteps⟩ := List.head?_eq_some_iff.1 h
  have hregular := regular_steps p
  rw [hsteps] at hregular
  obtain ⟨cleaned, hcleaned, hclean⟩ := reverse_foldl_cleanStep (.inr rfl) hregular.2
  have hroot : cleanSteps p.steps = .root :: cleaned := by
    rw [hsteps]
    exact hclean
  rw [clean_eq_ofSteps (by simp [hroot]), hroot]
  exact steps_ofSteps ⟨.inl rfl, hcleaned⟩

theorem head?_steps_absolute (h : p.isAbsolute = true) : p.steps.head? = some .root := by
  rw [steps, if_pos h]
  rfl

/-- **A path that is continued and cleaned**, if the continuation does not start at the root. -/
theorem steps_clean_join (h : anchor.isAbsolute = true) (hrest : rest.head? ≠ some slash) :
    (anchor.join rest).clean.steps =
      cleanSteps (anchor.steps ++ (Disk.segmentsOf rest).filterMap Step.ofSegment?) := by
  have hjoin : (anchor.join rest).steps = anchor.steps ++ (Disk.segmentsOf rest).filterMap Step.ofSegment? :=
    steps_join (bytes_of_isAbsolute h) hrest
  rw [steps_clean, hjoin]
  rw [hjoin, List.head?_append, head?_steps_absolute h]
  rfl

/-! ## Segments -/

/-- Segments other than two dots make names. -/
theorem allNames_segments {segments : List Bytes} (h : [dot, dot] ∉ segments) :
    AllNames (segments.filterMap Step.ofSegment?) := by
  intro s hs
  obtain ⟨segment, hmem, hsegment⟩ := List.mem_filterMap.1 hs
  have hdots : segment ≠ [dot, dot] := fun heq => h (heq ▸ hmem)
  rw [Step.ofSegment?] at hsegment
  rw [if_neg hdots] at hsegment
  split at hsegment
  · cases hsegment
  split at hsegment
  · cases hsegment
  · exact ⟨_, (Option.some.inj hsegment).symm⟩

theorem filter_names {ss : List Step} (h : AllNames ss) : ss.filter (· != .up) = ss := by
  refine List.filter_eq_self.2 fun s hs => ?_
  obtain ⟨n, rfl⟩ := h s hs
  rfl

theorem normals_eq {text : String} (h : [dot, dot] ∉ Disk.segmentsOf text) :
    normals text = (Disk.segmentsOf text).filterMap Step.ofSegment? :=
  filter_names (allNames_segments h)

end Path

namespace Resolve

open ClientBoundary.Path
open Bytes (slash dot)

variable {project : Project} {importer anchor : Path} {specifier rest : String}

/-- What goes down from an anchor leads to the anchor with its normal segments behind. -/
theorem steps_baseOf (h : anchor.isAbsolute = true) (hslash : rest.toList.head? ≠ some '/')
    (hup : [dot, dot] ∉ Disk.segmentsOf rest) :
    (baseOf rest anchor).steps = anchor.clean.steps ++ normals rest := by
  have hhead : (Bytes.ofText rest).head? ≠ some slash := Bytes.head?_encode.not.2 hslash
  rw [baseOf, steps_clean_join h hhead, cleanSteps_append (allNames_segments hup), normals_eq hup,
    steps_clean (head?_steps_absolute h)]

/-- What starts with a slash leads away from any anchor. -/
theorem steps_baseOf_absolute (hslash : rest.toList.head? = some '/') (hup : [dot, dot] ∉ Disk.segmentsOf rest) :
    (baseOf rest anchor).steps = .root :: normals rest := by
  have hhead : (Bytes.ofText rest).head? = some slash := Bytes.head?_encode.2 hslash
  have habs : isAbsolute ⟨rest⟩ = true := beq_iff_eq.2 hhead
  have hsteps : steps ⟨rest⟩ = [.root] ++ (Disk.segmentsOf rest).filterMap Step.ofSegment? := by
    rw [steps, if_pos habs]
    rfl
  rw [baseOf, join_of_absolute anchor hhead, steps_clean (head?_steps_absolute habs), hsteps,
    cleanSteps_append (allNames_segments hup), normals_eq hup]
  rfl

/-- Two dots in front lead to what is above the anchor. -/
theorem steps_baseOf_up (h : anchor.isAbsolute = true) {tail : List Bytes}
    (hcut : Disk.segmentsOf rest = [dot, dot] :: tail) (hup : [dot, dot] ∉ tail) :
    (baseOf rest anchor).steps = (anchor.join "..").clean.steps ++ normals rest := by
  have hslash : (Bytes.ofText rest).head? ≠ some slash := by
    intro hhead
    obtain ⟨bs, hbs⟩ := List.head?_eq_some_iff.1 hhead
    rw [Disk.segmentsOf, hbs, Text.cut, if_pos rfl] at hcut
    cases hcut
  have hnames := allNames_segments hup
  have hnormals : normals rest = tail.filterMap Step.ofSegment? := by
    rw [normals, hcut]
    exact filter_names hnames
  rw [baseOf, steps_clean_join h hslash, steps_clean_join h (by decide), hnormals, ← cleanSteps_append hnames,
    List.append_assoc, hcut]
  rfl

/-- An alias that applies is in the table, and what is left stands behind its stem. -/
theorem of_lookup {t : AliasTable} {rule : AliasRule} (h : t.lookup specifier = some (rule, rest)) :
    rule ∈ t.rules ∧ rule.stem ++ rest = specifier := by
  obtain ⟨r, hr, hrest⟩ := List.exists_of_findSome?_eq_some h
  obtain ⟨_, hrest, heq⟩ := Option.map_eq_some_iff.1 hrest
  cases heq
  exact ⟨hr, (AliasRule.rest?_eq_some.1 hrest).1⟩

/-- **Bases and their anchors.** Let the root and all targets of aliases start at the root of the disk, and let no
segment of the specifier be two dots. A specifier with a slash in front has one base: the root of the project with the
normal segments behind it, unless a second slash follows. A specifier that falls under an alias has one base for each
target: the target with the normal segments of what is left behind it, unless that starts with a slash or with two
dots. A slash in front of what is left leads away from the anchor, and two dots to what is above it. -/
theorem bases?_anchored (hroot : project.root.isAbsolute = true)
    (htargets : ∀ rule ∈ project.aliases.rules, ∀ target ∈ rule.targets, target.isAbsolute = true)
    (hup : Bytes.ofText ".." ∉ Disk.segmentsOf specifier) :
    (∀ rest, specifier = "/" ++ rest →
      bases? project importer specifier = some [baseOf rest project.root] ∧
        (rest.toList.head? ≠ some '/' →
          (baseOf rest project.root).steps = project.root.clean.steps ++ normals rest) ∧
        (rest.toList.head? = some '/' → (baseOf rest project.root).steps = .root :: normals rest)) ∧
      ∀ rule rest, ¬ IsRelative specifier → (∀ rest, specifier ≠ "/" ++ rest) →
        project.aliases.lookup specifier = some (rule, rest) →
        bases? project importer specifier = some (rule.targets.map (baseOf rest)) ∧
          ∀ target ∈ rule.targets,
            (rest.toList.head? ≠ some '/' → (Disk.segmentsOf rest).head? ≠ some (Bytes.ofText "..") →
              (baseOf rest target).steps = target.clean.steps ++ normals rest) ∧
            (rest.toList.head? = some '/' → (baseOf rest target).steps = .root :: normals rest) ∧
            ((Disk.segmentsOf rest).head? = some (Bytes.ofText "..") →
              (baseOf rest target).steps = (target.join "..").clean.steps ++ normals rest) := by
  have hdots : Bytes.ofText ".." = [dot, dot] := rfl
  rw [hdots] at hup ⊢
  constructor
  · rintro rest rfl
    have hrest : [dot, dot] ∉ Disk.segmentsOf rest := by
      rw [Bytes.ofText_append] at hup
      exact fun hmem => hup (List.mem_cons_of_mem _ hmem)
    refine ⟨(Anchored.rooted rest).bases?_eq, ?_, ?_⟩
    · exact fun hslash => steps_baseOf hroot hslash hrest
    · exact fun hslash => steps_baseOf_absolute hslash hrest
  · intro rule rest hrelative hrooted hlookup
    refine ⟨(Anchored.aliased hrelative hrooted hlookup).bases?_eq, fun target htarget => ?_⟩
    obtain ⟨hrule, hstem⟩ := of_lookup hlookup
    have habs := htargets rule hrule target htarget
    -- behind the first segment of what is left, the segments are those of the specifier
    obtain ⟨first, tail, hfirst⟩ := List.exists_cons_of_ne_nil (Text.cut_ne_nil slash (Bytes.ofText rest))
    obtain ⟨front, hfront⟩ := Text.cut_append_tail slash (Bytes.ofText rule.stem) (Bytes.ofText rest)
    rw [← Disk.segmentsOf] at hfirst
    have htail : [dot, dot] ∉ tail := by
      rw [← hstem, Bytes.ofText_append, Disk.segmentsOf, hfront, ← Disk.segmentsOf, hfirst] at hup
      exact fun hmem => hup (List.mem_append_right _ hmem)
    have hall : first ≠ [dot, dot] → [dot, dot] ∉ Disk.segmentsOf rest := by
      intro hne
      rw [hfirst, List.mem_cons]
      exact not_or.2 ⟨hne.symm, htail⟩
    rw [hfirst, List.head?_cons]
    refine ⟨fun hslash hne => ?_, fun hslash => ?_, fun hfront => ?_⟩
    · exact steps_baseOf habs hslash (hall fun heq => hne (congrArg some heq))
    · refine steps_baseOf_absolute hslash (hall ?_)
      rintro rfl
      obtain ⟨bs, hbs⟩ := List.head?_eq_some_iff.1 (Bytes.head?_encode.2 hslash)
      rw [Disk.segmentsOf, Bytes.ofText, hbs, Text.cut, if_pos rfl] at hfirst
      cases hfirst
    · exact steps_baseOf_up habs (Option.some.inj hfront ▸ hfirst) htail

/-- A project with an alias that ends in a slash and one that does not. -/
def harbour : Project := ⟨⟨"/w"⟩, .ofList [("@/*", [⟨"/w/./src/"⟩, ⟨"/w/old/../lib"⟩]), ("P*", [⟨"/w/lib"⟩])]⟩

theorem bases?_anchored_harbour :
    bases? harbour ⟨"/w/p.tsx"⟩ "/a//./b" = some [baseOf "a//./b" ⟨"/w"⟩] ∧
      (baseOf "a//./b" ⟨"/w"⟩).steps = [.root, .name "w", .name "a", .name "b"] ∧
      bases? harbour ⟨"/w/p.tsx"⟩ "@/a//./b" = some [baseOf "a//./b" ⟨"/w/./src/"⟩, baseOf "a//./b" ⟨"/w/old/../lib"⟩] ∧
      (baseOf "a//./b" ⟨"/w/old/../lib"⟩).steps = [.root, .name "w", .name "lib", .name "a", .name "b"] := by
  have hroot : harbour.root.isAbsolute = true := by decide
  have htargets : ∀ rule ∈ harbour.aliases.rules, ∀ target ∈ rule.targets, target.isAbsolute = true := by
    decide +kernel
  have hlookup : harbour.aliases.lookup "@/a//./b" =
      some (⟨"@/", true, [⟨"/w/./src/"⟩, ⟨"/w/old/../lib"⟩]⟩, "a//./b") := by
    decide +kernel
  have hrelative : ¬ IsRelative "@/a//./b" := by
    rw [← isRelative_iff]
    decide
  have hrooted : ∀ rest, "@/a//./b" ≠ "/" ++ rest := by
    intro rest hrest
    have hhead := congrArg (·.toList.head?) hrest
    simp at hhead
  obtain ⟨hbase, hbelow, -⟩ := (@bases?_anchored harbour ⟨"/w/p.tsx"⟩ "/a//./b" hroot htargets (by decide +kernel)).1
    "a//./b" rfl
  obtain ⟨hbases, hall⟩ := (@bases?_anchored harbour ⟨"/w/p.tsx"⟩ "@/a//./b" hroot htargets (by decide +kernel)).2
    _ _ hrelative hrooted hlookup
  refine ⟨hbase, (hbelow (by decide)).trans (by decide +kernel), hbases, ?_⟩
  exact ((hall ⟨"/w/old/../lib"⟩ (by simp)).1 (by decide) (by decide +kernel)).trans (by decide +kernel)

/-- Without two dots in the specifier, a base may still lie elsewhere. -/
theorem base_leaves_anchor :
    Bytes.ofText ".." ∉ Disk.segmentsOf "//x" ∧ bases? harbour ⟨"/w/p.tsx"⟩ "//x" = some [⟨"/x"⟩] ∧
      Bytes.ofText ".." ∉ Disk.segmentsOf "P/x" ∧ bases? harbour ⟨"/w/p.tsx"⟩ "P/x" = some [⟨"/x"⟩] ∧
      ¬ (clean ⟨"/w"⟩).steps <+: steps ⟨"/x"⟩ ∧ steps ⟨"/x"⟩ ≠ (clean ⟨"/w/lib"⟩).steps ++ normals "/x" := by
  decide +kernel

end Resolve

end ClientBoundary
