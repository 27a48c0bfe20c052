import ClientBoundary.Path
import ClientBoundary.Proofs.Bytes

/-!
# Plain paths

Many paths name the same place. One of them is **plain**: it has no slashes and dots that make no step,
so its steps give it back. A few facts about plain paths carry the rest:

* reading the plain path of steps gives these steps again (`steps_ofSteps`), for every list of steps
  that is read from a path at all (`Regular`);
* a cleaned path is plain, and so is what it shows with an extension behind it
  (`isPlain_clean_appendShown`), even where it shows less than it is;
* a joined path has the steps of its parts (`steps_join`), and the path in front of the last step has the
  other steps (`steps_parent?`), so what either is cleaned to does not depend on how they are written;
* what is written of a path behind another one leads back to it (`steps_join_seenBelow`), and a text leads
  there exactly if that is one (`exists_text_iff`).
-/

namespace ClientBoundary

open Bytes (slash dot)

namespace Step

/-- A step that can stand behind others: `..` or a name that is a segment of its own. -/
def IsInner (s : Step) : Prop := ofSegment? s.bytes = some s ∧ slash ∉ s.bytes

theorem not_isInner_here : ¬ here.IsInner := fun h => nomatch h.1

theorem not_isInner_root : ¬ root.IsInner := fun h => h.2 (by decide)

/-- Only the empty segment and the dot make no step. -/
theorem eq_of_ofSegment?_none {segment : Bytes} (h : ofSegment? segment = none) :
    segment = [] ∨ segment = [dot] := by
  rw [ofSegment?] at h
  split at h
  · rename_i hnil
    exact .inl hnil
  split at h
  · rename_i hdot
    exact .inr hdot
  split at h <;> cases h

/-- A segment that makes a step is what the step is written as. -/
theorem bytes_of_ofSegment? {segment : Bytes} {s : Step} (h : ofSegment? segment = some s) :
    s.bytes = segment := by
  rw [ofSegment?] at h
  split at h
  · cases h
  split at h
  · cases h
  split at h
  · rename_i hup
    cases h
    exact hup.symm
  · cases h
    rfl

theorem isInner_of_ofSegment? {segment : Bytes} {s : Step} (h : ofSegment? segment = some s)
    (hslash : slash ∉ segment) : s.IsInner := by
  have hbytes := bytes_of_ofSegment? h
  exact ⟨by rw [hbytes, h], by rwa [hbytes]⟩

/-- A name is a step of its own if it is a segment and neither a dot nor two. -/
theorem isInner_name {n : Bytes} (hne : n ≠ []) (hdot : n ≠ [dot]) (hdots : n ≠ [dot, dot])
    (hslash : slash ∉ n) : (name n).IsInner := by
  refine ⟨?_, hslash⟩
  rw [bytes, ofSegment?, if_neg hne, if_neg hdot, if_neg hdots]

/-- Inner steps are read back from what they are written as. -/
theorem filterMap_ofSegment?_bytes {ss : List Step} (h : ∀ s ∈ ss, s.IsInner) :
    (ss.map Step.bytes).filterMap ofSegment? = ss := by
  induction ss with
  | nil => rfl
  | cons s ss ih =>
    obtain ⟨hs, hss⟩ := List.forall_mem_cons.1 h
    rw [List.map_cons, List.filterMap_cons_some hs.1, ih hss]

/-- Segments that come from a path make inner steps. -/
theorem isInner_of_mem_filterMap {bs : Bytes} {segments : List Bytes}
    (hsub : ∀ segment ∈ segments, segment ∈ Text.cut slash bs) :
    ∀ s ∈ segments.filterMap ofSegment?, s.IsInner := by
  intro s hs
  obtain ⟨segment, hmem, hseg⟩ := List.mem_filterMap.1 hs
  exact isInner_of_ofSegment? hseg (Text.not_mem_of_mem_cut (hsub segment hmem))

end Step

namespace Path

/-! ## Regular lists of steps -/

/-- Steps as they are read from a path: only the first may be the root or a dot. -/
def Regular : List Step → Prop
  | [] => True
  | first :: rest =>
    (first = .root ∨ first = .here ∨ first.IsInner) ∧ ∀ s ∈ rest, s.IsInner

theorem regular_of_isInner {ss : List Step} (h : ∀ s ∈ ss, s.IsInner) : Regular ss := by
  cases ss with
  | nil => trivial
  | cons first rest =>
    obtain ⟨hfirst, hrest⟩ := List.forall_mem_cons.1 h
    exact ⟨.inr (.inr hfirst), hrest⟩

/-- The steps of a path are regular. -/
theorem regular_steps (p : Path) : Regular p.steps := by
  rw [steps]
  split
  · exact ⟨.inl rfl, Step.isInner_of_mem_filterMap fun _ h => h⟩
  · cases hsegs : p.segments with
    | nil => trivial
    | cons first rest =>
      have hsub : ∀ segment ∈ first :: rest, segment ∈ Text.cut slash p.bytes := by
        intro segment h
        rw [← hsegs] at h
        exact h
      rw [stepsOfSegments]
      split
      · exact ⟨.inr (.inl rfl),
          Step.isInner_of_mem_filterMap fun s hs => hsub s (List.mem_cons_of_mem _ hs)⟩
      · exact regular_of_isInner (Step.isInner_of_mem_filterMap hsub)

/-- A path that is not empty, does not start at the root and does not start with a dot makes a step
by its first segment. -/
theorem ofSegment?_first {p : Path} {first : Bytes} {rest : List Bytes}
    (hempty : p.bytes ≠ []) (habs : p.isAbsolute = false) (hsegs : p.segments = first :: rest)
    (hdot : first ≠ [dot]) : ∃ s, Step.ofSegment? first = some s ∧ s ≠ .root := by
  have hglue : Text.glue slash p.segments = p.bytes := Text.glue_cut _ _
  cases hs : Step.ofSegment? first with
  | none =>
    -- an empty first segment means that the path is empty or starts with a slash
    rcases Step.eq_of_ofSegment?_none hs with rfl | h
    · cases rest with
      | nil =>
        rw [hsegs] at hglue
        exact absurd hglue.symm hempty
      | cons next rest =>
        rw [isAbsolute, ← hglue, hsegs] at habs
        cases habs
    · exact absurd h hdot
  | some s =>
    refine ⟨s, rfl, ?_⟩
    rintro rfl
    exact Step.not_isInner_root (Step.isInner_of_ofSegment? hs
      (Text.not_mem_of_mem_cut (hsegs ▸ List.mem_cons_self ..)))

/-- The steps of a path start at the root if the path does, and there is one unless it is empty. -/
theorem head?_steps {p : Path} (hempty : p.bytes ≠ []) :
    ∃ s, p.steps.head? = some s ∧ (s = .root ↔ p.isAbsolute = true) := by
  cases habs : p.isAbsolute with
  | true =>
    rw [steps, if_pos habs]
    exact ⟨.root, rfl, by simp⟩
  | false =>
    rw [steps, habs]
    cases hsegs : p.segments with
    | nil => exact absurd hsegs (Text.cut_ne_nil _ _)
    | cons first rest =>
      by_cases hdot : first = [dot]
      · exact ⟨.here, by simp [stepsOfSegments, hdot], by simp⟩
      · obtain ⟨s, hs, hroot⟩ := ofSegment?_first hempty habs hsegs hdot
        exact ⟨s, by simp [stepsOfSegments, hdot, hs], by simp [hroot]⟩

/-! ## The plain path of steps -/

/-- Reading steps that are glued together gives what they are written as. -/
theorem cut_glue_bytes {ss : List Step} (hne : ss ≠ []) (h : ∀ s ∈ ss, slash ∉ s.bytes) :
    Text.cut slash (Text.glue slash (ss.map Step.bytes)) = ss.map Step.bytes := by
  refine Text.cut_glue (by simpa using hne) ?_
  intro piece hpiece
  obtain ⟨s, hs, rfl⟩ := List.mem_map.1 hpiece
  exact h s hs

theorem segments_root (rest : List Step) :
    (ofSteps (.root :: rest)).segments =
      [] :: Text.cut slash (Text.glue slash (rest.map Step.bytes)) := by
  rw [segments, ofSteps]
  exact Text.cut_append_cons List.not_mem_nil _

theorem isAbsolute_root (rest : List Step) : (ofSteps (.root :: rest)).isAbsolute = true := rfl

/-- A path that does not start at the root is written as its steps, glued together. -/
theorem ofSteps_of_ne_root {ss : List Step} (h : ss.head? ≠ some .root) :
    ofSteps ss = ⟨Text.glue slash (ss.map Step.bytes)⟩ := by
  rw [ofSteps]
  intro rest hss
  rw [hss] at h
  exact h rfl

/-- Steps that do not start at the root are written without slashes, none of them empty. -/
theorem bytes_of_regular {ss : List Step} (h : Regular ss) (hroot : ss.head? ≠ some .root) :
    ∀ s ∈ ss, slash ∉ s.bytes ∧ s.bytes ≠ [] := by
  have hinner : ∀ s : Step, s.IsInner → slash ∉ s.bytes ∧ s.bytes ≠ [] := by
    intro s hs
    refine ⟨hs.2, fun hnil => ?_⟩
    have := hs.1
    rw [hnil] at this
    cases this
  cases ss with
  | nil => simp
  | cons first rest =>
    obtain ⟨hfirst, hrest⟩ := h
    intro s hs
    rcases List.mem_cons.1 hs with rfl | hs
    · rcases hfirst with rfl | rfl | hfirst
      · exact absurd rfl hroot
      · decide
      · exact hinner _ hfirst
    · exact hinner s (hrest s hs)

/-- Steps that do not start at the root are written as a path that does not. -/
theorem isAbsolute_glue {ss : List Step} (h : ∀ s ∈ ss, slash ∉ s.bytes ∧ s.bytes ≠ []) :
    isAbsolute ⟨Text.glue slash (ss.map Step.bytes)⟩ = false := by
  rw [isAbsolute]
  cases ss with
  | nil => rfl
  | cons s ss =>
    obtain ⟨hslash, hne⟩ := h s (List.mem_cons_self ..)
    cases hbs : s.bytes with
    | nil => exact absurd hbs hne
    | cons b bs =>
      have hb : b ≠ slash := by
        rintro rfl
        exact hslash (by simp [hbs])
      cases ss <;> simp [Text.glue, hbs, hb]

theorem stepsOfSegments_bytes {ss : List Step} (h : Regular ss) (hroot : ss.head? ≠ some .root)
    (hne : ss ≠ []) : stepsOfSegments (ss.map Step.bytes) = ss := by
  cases ss with
  | nil => exact absurd rfl hne
  | cons first rest =>
    obtain ⟨hfirst, hrest⟩ := h
    have hback := Step.filterMap_ofSegment?_bytes hrest
    rw [List.map_cons, stepsOfSegments]
    rcases hfirst with rfl | rfl | hfirst
    · exact absurd rfl hroot
    · rw [if_pos (show Step.here.bytes = [dot] from rfl), hback]
    · have hdot : first.bytes ≠ [dot] := by
        intro hdot
        have := hfirst.1
        rw [hdot] at this
        cases this
      rw [if_neg hdot, List.filterMap_cons_some hfirst.1, hback]

/-- **Round trip.** Reading the plain path of regular steps gives these steps. -/
theorem steps_ofSteps {ss : List Step} (h : Regular ss) : (ofSteps ss).steps = ss := by
  by_cases hroot : ss.head? = some .root
  · obtain ⟨rest, rfl⟩ := List.head?_eq_some_iff.1 hroot
    rw [steps, if_pos (isAbsolute_root rest), segments_root]
    cases rest with
    | nil => rfl
    | cons s rest =>
      -- the slash of the root leaves an empty segment, which makes no step
      have hinner := h.2
      rw [cut_glue_bytes (by simp) fun s hs => (hinner s hs).2]
      exact congrArg (Step.root :: ·) (Step.filterMap_ofSegment?_bytes hinner)
  · have hbytes := bytes_of_regular h hroot
    rw [ofSteps_of_ne_root hroot, steps, isAbsolute_glue hbytes, segments]
    cases hss : ss with
    | nil => rfl
    | cons first rest =>
      rw [← hss, cut_glue_bytes (by simp [hss]) fun s hs => (hbytes s hs).1]
      exact stepsOfSegments_bytes h hroot (by simp [hss])

/-- The plain path that names the same place. -/
def plain (p : Path) : Path := ofSteps p.steps

/-- A path that is plain. -/
def IsPlain (p : Path) : Prop := p.plain = p

@[simp] theorem steps_plain (p : Path) : p.plain.steps = p.steps := steps_ofSteps (regular_steps p)

theorem isAbsolute_plain {p : Path} (hempty : p.bytes ≠ []) :
    p.plain.bytes ≠ [] ∧ p.plain.isAbsolute = p.isAbsolute := by
  obtain ⟨s, hs, hroot⟩ := head?_steps hempty
  have hplain : p.plain.bytes ≠ [] := by
    intro h
    have hnil : p.plain.steps = [] := by
      rw [show p.plain = ⟨[]⟩ from congrArg mk h]
      rfl
    rw [steps_plain] at hnil
    simp [hnil] at hs
  obtain ⟨s', hs', hroot'⟩ := head?_steps hplain
  rw [steps_plain, hs, Option.some.injEq] at hs'
  subst hs'
  exact ⟨hplain, Bool.eq_iff_iff.2 (hroot'.symm.trans hroot)⟩

/-- Plain paths of the same place are equal. -/
theorem IsPlain.eq_of_steps {p q : Path} (hp : p.IsPlain) (hq : q.IsPlain)
    (h : p.steps = q.steps) : p = q := by
  rw [← hp, ← hq, plain, plain, h]

theorem isPlain_ofSteps {ss : List Step} (h : Regular ss) : (ofSteps ss).IsPlain := by
  rw [IsPlain, plain, steps_ofSteps h]

/-! ## Cleaned paths -/

/-- One step of cleaning keeps a stack of inner steps, which may stand on the root. -/
theorem cleanStep_stack {bottom inner : List Step} {s : Step}
    (hbottom : bottom = [] ∨ bottom = [.root]) (hinner : ∀ r ∈ inner, r.IsInner) (hs : s.IsInner) :
    ∃ inner', (∀ r ∈ inner', r.IsInner) ∧ cleanStep (inner ++ bottom) s = inner' ++ bottom := by
  have hpush : ∀ r ∈ s :: inner, r.IsInner := List.forall_mem_cons.2 ⟨hs, hinner⟩
  cases s with
  | root => exact absurd hs Step.not_isInner_root
  | here => exact absurd hs Step.not_isInner_here
  | name n => exact ⟨_, hpush, rfl⟩
  | up =>
    -- it takes a name away, stays where there is none, and is lost at the root
    cases inner with
    | nil =>
      rcases hbottom with rfl | rfl
      · exact ⟨_, hpush, rfl⟩
      · exact ⟨[], hinner, rfl⟩
    | cons top inner =>
      obtain ⟨htop, hrest⟩ := List.forall_mem_cons.1 hinner
      cases top with
      | root => exact absurd htop Step.not_isInner_root
      | here => exact absurd htop Step.not_isInner_here
      | name n => exact ⟨inner, hrest, rfl⟩
      | up => exact ⟨_, hpush, rfl⟩

theorem foldl_cleanStep_stack {bottom inner ss : List Step}
    (hbottom : bottom = [] ∨ bottom = [.root]) (hinner : ∀ r ∈ inner, r.IsInner)
    (hss : ∀ r ∈ ss, r.IsInner) :
    ∃ inner', (∀ r ∈ inner', r.IsInner) ∧ ss.foldl cleanStep (inner ++ bottom) = inner' ++ bottom := by
  induction ss generalizing inner with
  | nil => exact ⟨inner, hinner, rfl⟩
  | cons s ss ih =>
    obtain ⟨hs, hss⟩ := List.forall_mem_cons.1 hss
    obtain ⟨inner', hinner', hstep⟩ := cleanStep_stack hbottom hinner hs
    rw [List.foldl_cons, hstep]
    exact ih hinner' hss

/-- Cleaning inner steps leaves inner steps, behind what stood there before. -/
theorem reverse_foldl_cleanStep {bottom ss : List Step} (hbottom : bottom = [] ∨ bottom = [.root])
    (hss : ∀ r ∈ ss, r.IsInner) :
    ∃ inner, (∀ s ∈ inner, s.IsInner) ∧ (ss.foldl cleanStep bottom).reverse = bottom ++ inner := by
  obtain ⟨inner, hinner, hfold⟩ := foldl_cleanStep_stack hbottom (List.forall_mem_nil _) hss
  rw [List.nil_append] at hfold
  refine ⟨inner.reverse, fun s hs => hinner s (List.mem_reverse.1 hs), ?_⟩
  rw [hfold, List.reverse_append]
  rcases hbottom with rfl | rfl
  · rfl
  · rfl

/-- Cleaned steps are inner ones, behind the root if the path starts there. -/
theorem cleanSteps_eq {ss : List Step} (h : Regular ss) :
    ∃ inner, (∀ s ∈ inner, s.IsInner) ∧ (cleanSteps ss = inner ∨ cleanSteps ss = .root :: inner) := by
  cases ss with
  | nil => exact ⟨[], List.forall_mem_nil _, .inl rfl⟩
  | cons first rest =>
    obtain ⟨hfirst, hrest⟩ := h
    rcases hfirst with rfl | rfl | hfirst
    · obtain ⟨inner, hinner, hclean⟩ := reverse_foldl_cleanStep (.inr rfl) hrest
      exact ⟨inner, hinner, .inr hclean⟩
    · obtain ⟨inner, hinner, hclean⟩ := reverse_foldl_cleanStep (.inl rfl) hrest
      exact ⟨inner, hinner, .inl hclean⟩
    · have hall : ∀ s ∈ first :: rest, s.IsInner := List.forall_mem_cons.2 ⟨hfirst, hrest⟩
      obtain ⟨inner, hinner, hclean⟩ := reverse_foldl_cleanStep (.inl rfl) hall
      exact ⟨inner, hinner, .inl hclean⟩

/-- What is written behind steps is written behind the last of them. -/
theorem glue_append (init : List Step) (s : Step) (ext : Bytes) :
    Text.glue slash ((init ++ [s]).map Step.bytes) ++ ext =
      Text.glue slash ((init ++ [Step.name (s.bytes ++ ext)]).map Step.bytes) := by
  induction init with
  | nil => rfl
  | cons r init ih =>
    cases init with
    | nil => simp [Text.glue, Step.bytes]
    | cons next init =>
      simp only [List.cons_append, List.map_cons, Text.glue] at ih ⊢
      rw [← ih, List.append_assoc, List.cons_append]

theorem ofSteps_append (init : List Step) {s : Step} (hs : s.IsInner) (ext : Bytes) :
    (⟨(ofSteps (init ++ [s])).bytes ++ ext⟩ : Path) = ofSteps (init ++ [.name (s.bytes ++ ext)]) := by
  by_cases hroot : init.head? = some .root
  · obtain ⟨rest, rfl⟩ := List.head?_eq_some_iff.1 hroot
    rw [List.cons_append, List.cons_append, ofSteps, ofSteps, ← glue_append, List.cons_append]
  · have hhead : ∀ r : Step, r ≠ .root → (init ++ [r]).head? ≠ some .root := by
      intro r hr
      cases init with
      | nil => simpa using hr
      | cons first init => simpa using hroot
    have hs : s ≠ .root := fun h => Step.not_isInner_root (h ▸ hs)
    rw [ofSteps_of_ne_root (hhead s hs), ofSteps_of_ne_root (hhead _ (by simp)), glue_append]

/-- A name with an extension of some length is no dot and no two dots. -/
theorem isInner_append {n ext : Bytes} (hn : slash ∉ n) (hext : slash ∉ ext)
    (hlong : 2 < ext.length) : (Step.name (n ++ ext)).IsInner := by
  have hlen : 2 < (n ++ ext).length := by
    rw [List.length_append]
    omega
  refine Step.isInner_name ?_ ?_ ?_ (by simp [hn, hext])
  all_goals
    intro h
    rw [h] at hlen
    exact absurd hlen (by decide)

theorem regular_append {init : List Step} {s : Step} {ext : Bytes} (h : Regular (init ++ [s]))
    (hs : s.IsInner) (hext : slash ∉ ext) (hlong : 2 < ext.length) :
    Regular (init ++ [.name (s.bytes ++ ext)]) := by
  have hname := isInner_append hs.2 hext hlong
  cases init with
  | nil => exact ⟨.inr (.inr hname), by simp⟩
  | cons first init =>
    refine ⟨h.1, fun r hr => ?_⟩
    rcases List.mem_append.1 hr with hr | hr
    · exact h.2 r (List.mem_append_left _ hr)
    · rw [List.mem_singleton.1 hr]
      exact hname

theorem clean_eq_ofSteps {p : Path} (h : cleanSteps p.steps ≠ []) :
    p.clean = ofSteps (cleanSteps p.steps) := by
  rw [clean]
  split
  · rename_i hnil
    exact absurd hnil h
  · rfl

/-! ## Shown paths -/

end Path

/-- The step that is written as a step is shown. -/
def Step.respelt : Step → Step
  | root => root
  | here => here
  | up => up
  | name n => name (Bytes.ofText n.shown)

namespace Step

theorem bytes_respelt (s : Step) : s.respelt.bytes = Bytes.ofText s.bytes.shown := by
  cases s with
  | name n => rfl
  | root => rfl
  | here => rfl
  | up => rfl

/-- What a segment shows makes the step that is shown: a dot is never shown for anything else. -/
theorem ofSegment?_shown (segment : Bytes) :
    ofSegment? (Bytes.ofText segment.shown) = (ofSegment? segment).map respelt := by
  have hnil : Bytes.ofText segment.shown = [] ↔ segment = [] :=
    Bytes.ofText_shown_eq_iff (s := "") (by decide)
  have hdot : Bytes.ofText segment.shown = [dot] ↔ segment = [dot] :=
    Bytes.ofText_shown_eq_iff (s := ".") (by decide)
  have hdots : Bytes.ofText segment.shown = [dot, dot] ↔ segment = [dot, dot] :=
    Bytes.ofText_shown_eq_iff (s := "..") (by decide)
  rw [ofSegment?, ofSegment?]
  simp only [hnil, hdot, hdots]
  split
  · rfl
  split
  · rfl
  split
  · rfl
  · rfl

theorem IsInner.respelt {s : Step} (h : s.IsInner) : s.respelt.IsInner := by
  rw [IsInner, bytes_respelt]
  refine ⟨?_, fun hslash => ?_⟩
  · rw [ofSegment?_shown, h.1]
    rfl
  · exact Bytes.slash_not_mem_shown h.2 (Bytes.slash_mem_encode.1 hslash)

end Step

namespace Path

theorem regular_respelt {ss : List Step} (h : Regular ss) : Regular (ss.map Step.respelt) := by
  cases ss with
  | nil => trivial
  | cons first rest =>
    obtain ⟨hfirst, hrest⟩ := h
    refine ⟨?_, fun s hs => ?_⟩
    · rcases hfirst with rfl | rfl | hfirst
      · exact .inl rfl
      · exact .inr (.inl rfl)
      · exact .inr (.inr hfirst.respelt)
    · obtain ⟨r, hr, rfl⟩ := List.mem_map.1 hs
      exact (hrest r hr).respelt

theorem ofText_shown_glue (ss : List Step) :
    Bytes.ofText (Bytes.shown (Text.glue slash (ss.map Step.bytes))) =
      Text.glue slash ((ss.map Step.respelt).map Step.bytes) := by
  rw [Bytes.ofText, Bytes.toList_shown_glue, Bytes.encode_glue, List.map_map, List.map_map,
    List.map_map]
  congr 2
  funext s
  exact s.bytes_respelt.symm

/-- The plain path of steps is shown as the plain path of what they show. -/
theorem ofText_shown_ofSteps (ss : List Step) :
    Bytes.ofText (ofSteps ss).shown = (ofSteps (ss.map Step.respelt)).bytes := by
  by_cases hroot : ss.head? = some .root
  · obtain ⟨rest, rfl⟩ := List.head?_eq_some_iff.1 hroot
    have hslash : ∀ bs : Bytes, Bytes.ofText (Bytes.shown (slash :: bs)) =
        slash :: Bytes.ofText bs.shown := by
      intro bs
      rw [← List.nil_append (slash :: bs), Bytes.shown_append_slash, Bytes.ofText_append]
      rfl
    rw [shown, ofSteps, hslash, ofText_shown_glue]
    rfl
  · have hroot' : (ss.map Step.respelt).head? ≠ some .root := by
      cases ss with
      | nil => simp
      | cons first rest => cases first <;> simp_all [Step.respelt]
    rw [ofSteps_of_ne_root hroot, ofSteps_of_ne_root hroot']
    exact ofText_shown_glue ss

/-- A plain path with an extension written behind it is plain. -/
theorem isPlain_append {ss : List Step} {ext : Bytes} (h : Regular ss) (hne : ss ≠ [])
    (hext : slash ∉ ext) (hlong : 2 < ext.length) :
    (⟨(ofSteps ss).bytes ++ ext⟩ : Path).IsPlain := by
  obtain ⟨init, s, rfl⟩ : ∃ init s, ss = init ++ [s] :=
    ⟨_, _, (List.dropLast_concat_getLast hne).symm⟩
  by_cases hs : s.IsInner
  · rw [ofSteps_append init hs]
    exact isPlain_ofSteps (regular_append h hs hext hlong)
  · -- only a root or a dot that stands alone is not inner, and the extension makes a name of its own
    have hinit : init = [] := by
      cases init with
      | nil => rfl
      | cons first init => exact absurd (h.2 s (by simp)) hs
    subst hinit
    rcases h.1 with rfl | rfl | hinner
    · have hname : (Step.name ([] ++ ext)).IsInner := isInner_append List.not_mem_nil hext hlong
      exact @isPlain_ofSteps [.root, .name ext] ⟨.inl rfl, by simpa using hname⟩
    · have hname : (Step.name ([dot] ++ ext)).IsInner := isInner_append (by decide) hext hlong
      exact @isPlain_ofSteps [.name ([dot] ++ ext)] ⟨.inr (.inr hname), by simp⟩
    · exact absurd hinner hs

/-- A cleaned path is the plain path of some steps. -/
theorem exists_clean_eq (p : Path) : ∃ ss, Regular ss ∧ ss ≠ [] ∧ p.clean = ofSteps ss := by
  obtain ⟨inner, hinner, hclean⟩ := cleanSteps_eq (regular_steps p)
  by_cases hnil : cleanSteps p.steps = []
  · refine ⟨[.here], ⟨.inr (.inl rfl), by simp⟩, by simp, ?_⟩
    rw [clean, hnil]
    rfl
  · refine ⟨cleanSteps p.steps, ?_, hnil, clean_eq_ofSteps hnil⟩
    rcases hclean with hclean | hclean
    · rw [hclean]
      exact regular_of_isInner hinner
    · rw [hclean]
      exact ⟨.inl rfl, hinner⟩

/-- **What a cleaned path shows, with an extension behind it, is plain.** -/
theorem isPlain_clean_appendShown (p : Path) {ext : String} (hext : '/' ∉ ext.toList)
    (hlong : 2 < (Bytes.ofText ext).length) : (p.clean.appendShown ext).IsPlain := by
  obtain ⟨ss, hregular, hne, hclean⟩ := exists_clean_eq p
  have hbytes : p.clean.appendShown ext =
      ⟨(ofSteps (ss.map Step.respelt)).bytes ++ Bytes.ofText ext⟩ := by
    rw [hclean, appendShown, Bytes.ofText_append, ofText_shown_ofSteps]
  rw [hbytes]
  exact isPlain_append (regular_respelt hregular) (by simpa using hne)
    (mt Bytes.slash_mem_encode.1 hext) hlong

/-! ## Joined paths -/

/-- Only the empty path has no steps. -/
theorem steps_eq_nil {p : Path} : p.steps = [] ↔ p.bytes = [] := by
  constructor
  · intro h
    by_cases hempty : p.bytes = []
    · exact hempty
    · obtain ⟨s, hs, -⟩ := head?_steps hempty
      rw [h] at hs
      cases hs
  · intro h
    rw [show p = ⟨[]⟩ from congrArg mk h]
    rfl

/-- Segments behind others make steps behind theirs. -/
theorem stepsOfSegments_append {as : List Bytes} (hne : as ≠ []) (bs : List Bytes) :
    stepsOfSegments (as ++ bs) = stepsOfSegments as ++ bs.filterMap Step.ofSegment? := by
  cases as with
  | nil => exact absurd rfl hne
  | cons first rest =>
    rw [List.cons_append, stepsOfSegments, stepsOfSegments]
    split
    · rw [List.filterMap_append, List.cons_append]
    · rw [← List.cons_append, List.filterMap_append]

/-- Steps of a path that is continued behind a slash. -/
theorem steps_slash {front : Bytes} (hne : front ≠ []) (back : Bytes) :
    steps ⟨front ++ slash :: back⟩ =
      steps ⟨front⟩ ++ (Text.cut slash back).filterMap Step.ofSegment? := by
  have habs : isAbsolute ⟨front ++ slash :: back⟩ = isAbsolute ⟨front⟩ := by
    cases front with
    | nil => exact absurd rfl hne
    | cons c cs => simp [isAbsolute]
  have hsegs : segments ⟨front ++ slash :: back⟩ = segments ⟨front⟩ ++ Text.cut slash back := by
    rw [segments, segments, Text.cut_append]
  rw [steps, steps, habs, hsegs]
  split
  · rw [List.filterMap_append, List.cons_append]
  · exact stepsOfSegments_append (Text.cut_ne_nil _ _) _

/-- **The steps of a joined path** are those of its parts, unless the second starts at the root. -/
theorem steps_join {p : Path} {q : Bytes} (hempty : p.bytes ≠ []) (hq : q.head? ≠ some slash) :
    (p.join q).steps = p.steps ++ (Text.cut slash q).filterMap Step.ofSegment? := by
  rw [join, if_neg hq]
  split
  · rename_i hlast
    exact absurd (List.getLast?_eq_none_iff.1 hlast) hempty
  · -- the slash is there already
    rename_i hlast
    obtain ⟨init, hinit⟩ := List.getLast?_eq_some_iff.1 hlast
    rw [show p = ⟨init ++ [slash]⟩ from congrArg mk hinit, List.append_assoc, List.singleton_append]
    by_cases hroot : init = []
    · subst hroot
      simp [steps, isAbsolute, segments, Text.cut, Step.ofSegment?]
    · rw [steps_slash hroot, steps_slash hroot]
      simp [Text.cut, Step.ofSegment?]
  · exact steps_slash hempty q

/-- A path that is continued by a path from the root is replaced by it. -/
theorem join_of_absolute (p : Path) {q : Bytes} (hq : q.head? = some slash) : p.join q = ⟨q⟩ := by
  rw [join, if_pos hq]

theorem join_of_empty {p : Path} (hempty : p.bytes = []) (q : Bytes) : p.join q = ⟨q⟩ := by
  rw [join]
  split
  · rfl
  · rw [hempty]
    rfl

/-- What a path is continued to shows in its steps. -/
theorem steps_join_congr {p q : Path} (h : p.steps = q.steps) (r : Bytes) :
    (p.join r).steps = (q.join r).steps := by
  by_cases hr : r.head? = some slash
  · rw [join_of_absolute p hr, join_of_absolute q hr]
  by_cases hempty : p.bytes = []
  · have hempty' : q.bytes = [] := steps_eq_nil.1 (h ▸ steps_eq_nil.2 hempty)
    rw [join_of_empty hempty, join_of_empty hempty']
  · have hempty' : q.bytes ≠ [] := fun hq => hempty (steps_eq_nil.1 (h ▸ steps_eq_nil.2 hq))
    rw [steps_join hempty hr, steps_join hempty' hr, h]

theorem clean_congr {p q : Path} (h : p.steps = q.steps) : p.clean = q.clean := by
  rw [clean, clean, h]

/-- A name behind a path is one step more. -/
theorem steps_join_name (p : Path) {n : Bytes} (hn : (Step.name n).IsInner) :
    (p.join n).steps = p.steps ++ [.name n] := by
  have hslash : slash ∉ n := hn.2
  have hcut : (Text.cut slash n).filterMap Step.ofSegment? = [.name n] := by
    rw [Text.cut_of_not_mem hslash]
    exact List.filterMap_cons_some hn.1
  have hhead : n.head? ≠ some slash := fun h => hslash (List.mem_of_head? h)
  by_cases hempty : p.bytes = []
  · have hregular : Regular [.name n] := ⟨.inr (.inr hn), List.forall_mem_nil _⟩
    rw [join_of_empty hempty, steps_eq_nil.2 hempty, show (⟨n⟩ : Path) = ofSteps [.name n] from rfl,
      steps_ofSteps hregular]
    rfl
  · rw [steps_join hempty hhead, hcut]

/-! ## Ends of paths -/

theorem isIdle_iff {segment : Bytes} : isIdle segment = true ↔ Step.ofSegment? segment = none := by
  constructor
  · intro h
    rcases Bool.or_eq_true_iff.1 h with h | h
    · rw [List.isEmpty_iff.1 h]
      rfl
    · rw [beq_iff_eq.1 h]
      rfl
  · intro h
    rcases Step.eq_of_ofSegment?_none h with rfl | rfl
    · rfl
    · rfl

theorem filterMap_dropWhile_isIdle (segments : List Bytes) :
    (segments.dropWhile isIdle).filterMap Step.ofSegment? = segments.filterMap Step.ofSegment? := by
  induction segments with
  | nil => rfl
  | cons segment rest ih =>
    rw [List.dropWhile_cons]
    split
    · rename_i hidle
      rw [ih, List.filterMap_cons_none (isIdle_iff.1 hidle)]
    · rfl

theorem filterMap_trimEnd (segments : List Bytes) :
    (trimEnd segments).filterMap Step.ofSegment? = segments.filterMap Step.ofSegment? := by
  rw [trimEnd, List.filterMap_reverse, filterMap_dropWhile_isIdle, List.filterMap_reverse,
    List.reverse_reverse]

theorem trimEnd_front (segments : List Bytes) : trimEnd segments <+: segments :=
  List.reverse_suffix.1 (by simpa [trimEnd] using List.dropWhile_suffix isIdle)

/-- Segments end with one that makes a step when idle ones are dropped there. -/
theorem isIdle_last_trimEnd {segments init : List Bytes} {last : Bytes}
    (h : trimEnd segments = init ++ [last]) : isIdle last = false := by
  have hhead := List.head?_dropWhile_not isIdle segments.reverse
  rw [← List.reverse_reverse (segments.reverse.dropWhile isIdle), ← trimEnd, h] at hhead
  simpa using hhead

/-- The steps that a first segment makes. -/
def leadSteps (isAbsolute : Bool) (first : Bytes) : List Step :=
  if isAbsolute then [.root] else stepsOfSegments [first]

/-- A path that starts at the root has an empty first segment and others behind it. -/
theorem isAbsolute_iff_segments {p : Path} {first : Bytes} {rest : List Bytes}
    (h : p.segments = first :: rest) : p.isAbsolute = true ↔ first = [] ∧ rest ≠ [] := by
  have hglue : Text.glue slash p.segments = p.bytes := Text.glue_cut _ _
  have hslash : slash ∉ first := Text.not_mem_of_mem_cut (h ▸ List.mem_cons_self ..)
  rw [isAbsolute, ← hglue, h]
  cases first with
  | nil => cases rest <;> simp [Text.glue]
  | cons b bs =>
    have hb : b ≠ slash := fun hb => hslash (hb ▸ List.mem_cons_self ..)
    cases rest <;> simp [Text.glue, hb]

/-- A first segment and the others make steps one after the other. -/
theorem steps_of_segments {p : Path} {first : Bytes} {rest : List Bytes}
    (h : p.segments = first :: rest) :
    p.steps = leadSteps p.isAbsolute first ++ rest.filterMap Step.ofSegment? := by
  rw [steps, leadSteps, h]
  split
  · rename_i habs
    rw [((isAbsolute_iff_segments h).1 habs).1]
    rfl
  · exact stepsOfSegments_append (List.cons_ne_nil first []) rest

/-- Segments that are glued together without idle ones at the end make the steps that they make. -/
theorem steps_glueTrimmed {isAbsolute : Bool} {first : Bytes} {rest : List Bytes}
    (habs : isAbsolute = true → first = []) (hrel : isAbsolute = false → rest ≠ [] → first ≠ [])
    (hslash : ∀ segment ∈ first :: rest, slash ∉ segment) :
    steps ⟨glueTrimmed isAbsolute first rest⟩ =
      leadSteps isAbsolute first ++ rest.filterMap Step.ofSegment? := by
  obtain ⟨hfirst, hrest⟩ := List.forall_mem_cons.1 hslash
  rw [← filterMap_trimEnd rest, glueTrimmed]
  split
  · rename_i hnil
    rw [hnil, List.filterMap_nil, List.append_nil]
    cases isAbsolute with
    | true => rfl
    | false =>
      have hsegs : segments ⟨first⟩ = [first] := Text.cut_of_not_mem hfirst
      rw [if_neg (by simp), steps_of_segments hsegs]
      have : (⟨first⟩ : Path).isAbsolute = false := by
        rw [Bool.eq_false_iff]
        exact fun h => ((isAbsolute_iff_segments hsegs).1 h).2 rfl
      rw [this, List.filterMap_nil, List.append_nil]
  · rename_i hne
    have hsub : ∀ segment ∈ first :: trimEnd rest, slash ∉ segment :=
      List.forall_mem_cons.2 ⟨hfirst, fun s hs => hrest s ((trimEnd_front rest).subset hs)⟩
    have hsegs : segments ⟨Text.glue slash (first :: trimEnd rest)⟩ = first :: trimEnd rest :=
      Text.cut_glue (by simp) hsub
    rw [steps_of_segments hsegs]
    have : (⟨Text.glue slash (first :: trimEnd rest)⟩ : Path).isAbsolute = isAbsolute := by
      rw [Bool.eq_iff_iff, isAbsolute_iff_segments hsegs]
      cases isAbsolute with
      | true => simpa [habs rfl] using hne
      | false =>
        have : rest ≠ [] := by
          rintro rfl
          exact hne rfl
        simpa using fun h => absurd h (hrel rfl this)
    rw [this]

/-- Where only the first segment makes a step, nothing is written in front of it. -/
theorem parent?_of_first {p : Path} {first : Bytes} {rest : List Bytes} (hsegs : p.segments = first :: rest)
    (hnil : trimEnd rest = []) :
    p.parent? = none ∧ (p.steps = [] ∨ p.steps = [.root]) ∨
      ∃ s, p.parent? = some ⟨[]⟩ ∧ p.steps = [s] ∧ s ≠ .root := by
  have hsteps := steps_of_segments hsegs
  rw [← filterMap_trimEnd, hnil, List.filterMap_nil, List.append_nil] at hsteps
  rw [parent?, hsegs]
  dsimp only
  rw [hnil]
  dsimp only
  by_cases hfirst : first = []
  · refine .inl ⟨if_pos hfirst, ?_⟩
    rw [hsteps, hfirst, leadSteps]
    split
    · exact .inr rfl
    · exact .inl rfl
  · have hrel : p.isAbsolute = false :=
      Bool.eq_false_iff.2 fun h => hfirst ((isAbsolute_iff_segments hsegs).1 h).1
    rw [if_neg hfirst]
    rw [hrel, leadSteps, if_neg (by simp)] at hsteps
    by_cases hdot : first = [dot]
    · exact .inr ⟨.here, rfl, by simp [hsteps, stepsOfSegments, hdot], by simp⟩
    · have hempty : p.bytes ≠ [] := by
        intro hempty
        rw [segments, hempty] at hsegs
        exact hfirst (List.cons.inj hsegs).1.symm
      obtain ⟨s, hs, hroot⟩ := ofSegment?_first hempty hrel hsegs hdot
      exact .inr ⟨s, rfl, by simp [hsteps, stepsOfSegments, hdot, hs], hroot⟩

/-- The last segment that makes a step, and what is written in front of it. -/
theorem parent?_of_last {p : Path} {first last : Bytes} {rest init : List Bytes}
    (hsegs : p.segments = first :: rest) (hlast : trimEnd rest = init ++ [last]) :
    ∃ q s, p.parent? = some q ∧ p.steps = q.steps ++ [s] ∧ s ≠ .root := by
  have hslash : ∀ segment ∈ first :: rest, slash ∉ segment := by
    intro segment h
    rw [← hsegs] at h
    exact Text.not_mem_of_mem_cut h
  have habs := isAbsolute_iff_segments hsegs
  have hfront : ∀ segment ∈ init ++ [last], segment ∈ rest := by
    intro segment h
    rw [← hlast] at h
    exact (trimEnd_front rest).subset h
  have hmem : last ∈ rest := hfront last (by simp)
  have hnone : Step.ofSegment? last ≠ none :=
    mt isIdle_iff.2 (Bool.eq_false_iff.1 (isIdle_last_trimEnd hlast))
  obtain ⟨s, hs⟩ := Option.ne_none_iff_exists'.1 hnone
  have hroot : s ≠ .root := by
    rintro rfl
    exact Step.not_isInner_root (Step.isInner_of_ofSegment? hs (hslash _ (List.mem_cons_of_mem _ hmem)))
  refine ⟨⟨glueTrimmed p.isAbsolute first init⟩, s, ?_, ?_, hroot⟩
  · rw [parent?, hsegs]
    dsimp only
    rw [hlast]
    split
    · rename_i hnil
      simp at hnil
    · rw [List.dropLast_concat]
  · have hinit : ∀ segment ∈ first :: init, slash ∉ segment := by
      intro segment h
      refine hslash segment ?_
      rcases List.mem_cons.1 h with rfl | h
      · exact List.mem_cons_self ..
      · exact List.mem_cons_of_mem _ (hfront segment (by simp [h]))
    rw [steps_glueTrimmed (fun h => (habs.1 h).1) _ hinit, steps_of_segments hsegs, ← filterMap_trimEnd, hlast]
    · simp [hs]
    · intro hrel _ hfirst
      rw [habs.2 ⟨hfirst, List.ne_nil_of_mem hmem⟩] at hrel
      cases hrel

/-- The path in front of the last step, and the step: there is none at the root and in the empty path. -/
theorem parent?_cases (p : Path) :
    p.parent? = none ∧ (p.steps = [] ∨ p.steps = [.root]) ∨
      ∃ q s, p.parent? = some q ∧ p.steps = q.steps ++ [s] ∧ s ≠ .root := by
  obtain ⟨first, rest, hsegs⟩ := List.exists_cons_of_ne_nil (Text.cut_ne_nil slash p.bytes)
  rcases List.eq_nil_or_concat (trimEnd rest) with hnil | ⟨init, last, hlast⟩
  · rcases parent?_of_first hsegs hnil with hnone | ⟨s, hsome, hsteps, hroot⟩
    · exact .inl hnone
    · exact .inr ⟨⟨[]⟩, s, hsome, hsteps, hroot⟩
  · exact .inr (parent?_of_last hsegs (hlast.trans (List.concat_eq_append ..)))

/-- **The path in front of the last step** has the other steps, however it is written. -/
theorem steps_parent? {p q : Path} (h : p.parent? = some q) : q.steps = p.steps.dropLast := by
  rcases parent?_cases p with ⟨hnone, -⟩ | ⟨q', s, hsome, hsteps, -⟩
  · rw [hnone] at h
    cases h
  · rw [hsome, Option.some.injEq] at h
    rw [hsteps, ← h, List.dropLast_concat]

theorem parent?_eq_none_iff {p : Path} : p.parent? = none ↔ p.steps = [] ∨ p.steps = [.root] := by
  rcases parent?_cases p with ⟨hnone, hsteps⟩ | ⟨q, s, hsome, hsteps, hroot⟩
  · exact ⟨fun _ => hsteps, fun _ => hnone⟩
  · rw [hsome, hsteps]
    refine ⟨nofun, fun h => ?_⟩
    rcases h with h | h
    · simp at h
    · exact absurd (List.append_eq_singleton_iff.1 h) (by simp [hroot])

/-- What the path in front of the last step means shows in the steps. -/
theorem steps_parent?_congr {p q : Path} (h : p.steps = q.steps) :
    p.parent?.map steps = q.parent?.map steps := by
  cases hp : p.parent? with
  | none =>
    rw [parent?_eq_none_iff, h, ← parent?_eq_none_iff] at hp
    rw [hp]
  | some p' =>
    cases hq : q.parent? with
    | none =>
      rw [parent?_eq_none_iff, ← h, ← parent?_eq_none_iff, hp] at hq
      cases hq
    | some q' => rw [Option.map_some, Option.map_some, steps_parent? hp, steps_parent? hq, h]

/-- The path in front of a name has the steps of what stands there. -/
theorem exists_parent?_join (p : Path) {n : Bytes} (hn : (Step.name n).IsInner) :
    ∃ q, (p.join n).parent? = some q ∧ q.steps = p.steps := by
  have hsteps := steps_join_name p hn
  cases hq : (p.join n).parent? with
  | none =>
    rw [parent?_eq_none_iff, hsteps] at hq
    rcases hq with hq | hq
    · simp at hq
    · exact absurd (List.append_eq_singleton_iff.1 hq) (by simp)
  | some q => exact ⟨q, rfl, by rw [steps_parent? hq, hsteps, List.dropLast_concat]⟩

/-! ## Paths below others -/

/-- Segments behind the first few steps make the other steps. -/
theorem filterMap_dropSteps (n : Nat) (segments : List Bytes) :
    (dropSteps n segments).filterMap Step.ofSegment? =
      (segments.filterMap Step.ofSegment?).drop n := by
  fun_induction dropSteps n segments with
  | case1 segments => rfl
  | case2 n => simp
  | case3 n segment rest hidle ih => rw [ih, List.filterMap_cons_none (isIdle_iff.1 hidle)]
  | case4 n segment rest hidle ih =>
    obtain ⟨s, hs⟩ := Option.ne_none_iff_exists'.1 (mt isIdle_iff.2 hidle)
    rw [ih, List.filterMap_cons_some hs, List.drop_succ_cons]

theorem dropSteps_sublist (n : Nat) (segments : List Bytes) :
    (dropSteps n segments).Sublist segments := by
  fun_induction dropSteps n segments with
  | case1 segments => exact .refl _
  | case2 n => exact .refl _
  | case3 n segment rest hidle ih => exact ih.cons _
  | case4 n segment rest hidle ih => exact ih.cons _

/-- Segments without idle ones at either end. -/
def body (segments : List Bytes) : List Bytes := trimEnd (segments.dropWhile isIdle)

theorem filterMap_body (segments : List Bytes) :
    (body segments).filterMap Step.ofSegment? = segments.filterMap Step.ofSegment? := by
  rw [body, filterMap_trimEnd, filterMap_dropWhile_isIdle]

/-- What is left begins with a segment that makes a step. -/
theorem isIdle_head_body {segments rest : List Bytes} {first : Bytes}
    (h : body segments = first :: rest) : isIdle first = false := by
  obtain ⟨back, hback⟩ := trimEnd_front (segments.dropWhile isIdle)
  rw [← body, h, List.cons_append] at hback
  have hhead := List.head?_dropWhile_not isIdle segments
  rw [← hback] at hhead
  simpa using hhead

/-- Segments that are glued together make the steps that they make, and do not start at the root. -/
theorem cut_gluedBody {segments : List Bytes} (h : ∀ segment ∈ segments, slash ∉ segment) :
    (Text.cut slash (gluedBody segments)).filterMap Step.ofSegment? =
        segments.filterMap Step.ofSegment? ∧
      (gluedBody segments).head? ≠ some slash := by
  have hglued : gluedBody segments = Text.glue slash (body segments) := rfl
  have hslash : ∀ segment ∈ body segments, slash ∉ segment := by
    intro segment hsegment
    exact h segment ((List.dropWhile_sublist _).subset ((trimEnd_front _).subset hsegment))
  rw [← filterMap_body segments, hglued]
  cases hbody : body segments with
  | nil => exact ⟨rfl, by simp [Text.glue]⟩
  | cons first rest =>
    rw [hbody] at hslash
    refine ⟨by rw [Text.cut_glue (by simp) hslash], ?_⟩
    have hidle := isIdle_head_body hbody
    cases first with
    | nil => cases hidle
    | cons b bs =>
      have hb : b ≠ slash := fun hb => hslash _ (List.mem_cons_self ..) (hb ▸ List.mem_cons_self ..)
      cases rest with
      | nil => simpa [Text.glue] using hb
      | cons next rest => simpa [Text.glue] using hb

theorem bytes_of_isAbsolute {p : Path} (h : p.isAbsolute = true) : p.bytes ≠ [] := by
  intro hempty
  rw [isAbsolute, hempty] at h
  cases h

/-- **What is written of a path behind another one** are its further steps if it leads there from the other one,
and the path as it is if not. -/
theorem seenBelow_cases {p base : Path} (hp : p.isAbsolute = true) (hbase : base.isAbsolute = true) :
    (¬ base.steps <+: p.steps ∧ p.seenBelow base = p) ∨
      (p.seenBelow base).bytes.head? ≠ some slash ∧
        p.steps = base.steps ++ (p.seenBelow base).segments.filterMap Step.ofSegment? := by
  have hsteps : p.steps = .root :: p.segments.filterMap Step.ofSegment? := by rw [steps, if_pos hp]
  rw [seenBelow, below?]
  split
  · rename_i hprefix
    rw [List.isPrefixOf_iff_prefix] at hprefix
    have hroot : base.steps = .root :: base.segments.filterMap Step.ofSegment? := by
      rw [steps, if_pos hbase]
    rw [hroot, hsteps, List.cons_prefix_cons] at hprefix
    obtain ⟨-, rest, hrest⟩ := hprefix
    rw [hroot, Option.getD_some]
    generalize base.segments.filterMap Step.ofSegment? = names at hrest
    have hslash : ∀ segment ∈ dropSteps names.length p.segments, slash ∉ segment := by
      intro segment hsegment
      exact Text.not_mem_of_mem_cut ((dropSteps_sublist _ _).subset hsegment)
    obtain ⟨hcut, hhead⟩ := cut_gluedBody hslash
    refine .inr ⟨hhead, ?_⟩
    rw [segments, hcut, filterMap_dropSteps, hsteps, ← hrest, List.drop_left, List.cons_append]
  · rename_i hprefix
    exact .inl ⟨fun h => hprefix (List.isPrefixOf_iff_prefix.2 h), rfl⟩

/-- **What is written behind a path leads back**: joined to the path again, it names the same place. -/
theorem steps_join_seenBelow {p base : Path} (hp : p.isAbsolute = true) (hbase : base.isAbsolute = true) :
    (base.join (p.seenBelow base).bytes).steps = p.steps := by
  rcases seenBelow_cases hp hbase with ⟨-, hsame⟩ | ⟨hhead, hsteps⟩
  · rw [hsame, join_of_absolute base (beq_iff_eq.1 hp)]
  · rw [steps_join (bytes_of_isAbsolute hbase) hhead, hsteps, segments]

/-! ## Paths that are texts -/

/-- Behind a text, a suffix is written where it is shown. -/
theorem appendShown_eq {p : Path} (h : p.isText = true) (suffix : String) :
    p.appendShown suffix = ⟨p.bytes ++ Bytes.ofText suffix⟩ := by
  rw [appendShown, Bytes.ofText_append, shown, Bytes.ofText_shown h]

/-- The segments of what is shown make the steps that are shown. -/
theorem filterMap_shown (bs : Bytes) :
    (Text.cut slash (Bytes.ofText bs.shown)).filterMap Step.ofSegment? =
      ((Text.cut slash bs).filterMap Step.ofSegment?).map Step.respelt := by
  rw [Bytes.cut_ofText_shown, List.filterMap_map, List.map_filterMap]
  congr 1
  funext segment
  exact Step.ofSegment?_shown segment

/-- Bytes whose steps are what they show are a text. -/
theorem isText_of_respelt {bs : Bytes}
    (h : ∀ s ∈ (Text.cut slash bs).filterMap Step.ofSegment?, s.respelt = s) : bs.isText = true := by
  have hsegment : ∀ segment ∈ Text.cut slash bs, Bytes.ofText (Bytes.shown segment) = segment := by
    intro segment hmem
    cases hs : Step.ofSegment? segment with
    | none => rcases Step.eq_of_ofSegment?_none hs with rfl | rfl <;> rfl
    | some s =>
      have hrespelt := h s (List.mem_filterMap.2 ⟨segment, hmem, hs⟩)
      rw [← Step.bytes_of_ofSegment? hs, ← Step.bytes_respelt, hrespelt]
  have hcut : Text.cut slash (Bytes.ofText bs.shown) = Text.cut slash bs := by
    rw [Bytes.cut_ofText_shown]
    exact (List.map_congr_left hsegment).trans (List.map_id _)
  have hbytes : Bytes.ofText bs.shown = bs := by
    rw [← Text.glue_cut slash (Bytes.ofText bs.shown), hcut, Text.glue_cut]
  rw [← hbytes]
  exact Bytes.isText_ofText _

/-- The steps of a text are what they show. -/
theorem respelt_of_text {text : String} {s : Step}
    (h : s ∈ (Text.cut slash (Bytes.ofText text)).filterMap Step.ofSegment?) : s.respelt = s := by
  have hshown := filterMap_shown (Bytes.ofText text)
  rw [Bytes.shown_ofText] at hshown
  have hsame : ∀ s ∈ (Text.cut slash (Bytes.ofText text)).filterMap Step.ofSegment?, id s = s.respelt :=
    List.map_inj_left.1 ((List.map_id _).trans hshown)
  exact (hsame s h).symm

/-- **Texts lead exactly to the paths that are texts themselves**, seen from where the texts start. -/
theorem exists_text_iff {p base : Path} (hp : p.isAbsolute = true) (hbase : base.isAbsolute = true) :
    (∃ text : String, (base.join text).steps = p.steps) ↔ (p.seenBelow base).isText = true := by
  refine ⟨fun ⟨text, h⟩ => isText_of_respelt fun s hs => ?_, fun h => ⟨(p.seenBelow base).shown, ?_⟩⟩
  · by_cases hslash : (Bytes.ofText text).head? = some slash
    · -- the text starts at the root, so all steps of the path are steps of the text
      have hmem : s ∈ p.steps := by
        rcases seenBelow_cases hp hbase with ⟨-, hsame⟩ | ⟨-, hsteps⟩
        · rw [hsame] at hs
          rw [steps, if_pos hp]
          exact List.mem_cons_of_mem _ hs
        · rw [hsteps]
          exact List.mem_append_right _ hs
      have habsolute : (⟨text⟩ : Path).isAbsolute = true := beq_iff_eq.2 hslash
      rw [← h, join_of_absolute base hslash, steps, if_pos habsolute] at hmem
      rcases List.mem_cons.1 hmem with rfl | hmem
      · rfl
      · exact respelt_of_text hmem
    · -- the path leads there from the base, and what is seen of it are the steps of the text
      rw [steps_join (bytes_of_isAbsolute hbase) hslash] at h
      rcases seenBelow_cases hp hbase with ⟨hbelow, -⟩ | ⟨-, hsteps⟩
      · exact absurd ⟨_, h⟩ hbelow
      · rw [hsteps] at h
        rw [← segments, ← List.append_cancel_left h] at hs
        exact respelt_of_text hs
  · rw [shown, Bytes.ofText_shown h, steps_join_seenBelow hp hbase]

end Path

end ClientBoundary
