import Mathlib.Data.List.Induction
import ClientBoundary.Proofs.Path
import ClientBoundary.Source

/-!
# Looking up paths

What a disk answers for a path, told by the steps of the path as far as possible.

* A search ends at a place that is written with **names** only, so link-free paths are plain, and the
  places of regular files are among those that the tree lists (`mem_files_of_get?`).
* Slashes and dots that make no step only ask for a directory. A search that succeeds does so without
  them, and ends at the same place: what is found at a path is found at its **plain** form
  (`locate_plain`). The converse fails, as a file with a slash behind it shows.
-/

namespace ClientBoundary

open Bytes (slash dot)

namespace Node

theorem mem_filesIn {es : List (Bytes × Node)} {name : Bytes} {n : Node} {place : Place}
    (hmem : (name, n) ∈ es) (hplace : place ∈ n.files) : name :: place ∈ filesIn es := by
  induction es with
  | nil => exact absurd hmem List.not_mem_nil
  | cons e rest ih =>
    obtain ⟨k, m⟩ := e
    rw [filesIn, List.mem_append]
    rcases List.mem_cons.1 hmem with heq | hmem
    · cases heq
      exact .inl (List.mem_map_of_mem hplace)
    · exact .inr (ih hmem)

theorem mem_of_lookup {es : List (Bytes × Node)} {name : Bytes} {n : Node}
    (h : es.lookup name = some n) : (name, n) ∈ es := by
  obtain ⟨l₁, l₂, hes, -⟩ := List.lookup_eq_some_iff.1 h
  rw [hes]
  simp

/-- Every place of a regular file is listed. -/
theorem mem_files_of_get? {place : Place} {n : Node} {c : Content}
    (h : n.get? place = some (.file c)) : place ∈ n.files := by
  induction place generalizing n with
  | nil =>
    cases h
    simp [files]
  | cons name place ih =>
    obtain ⟨m, hentry, hm⟩ := Option.bind_eq_some_iff.1 h
    cases n with
    | dir es =>
      rw [files]
      exact mem_filesIn (mem_of_lookup hentry) (ih hm)
    | file c => cases hentry
    | link target => cases hentry

end Node

namespace Disk

/-! ## Where a search ends -/

/-- A place that is written with names only. -/
def Named (place : Node.Place) : Prop := ∀ n ∈ place, (Step.name n).IsInner

/-- Segments without slashes. -/
def Unslashed (segments : List Bytes) : Prop := ∀ s ∈ segments, slash ∉ s

theorem unslashed_segmentsOf (bytes : Bytes) : Unslashed (segmentsOf bytes) :=
  fun _ => Text.not_mem_of_mem_cut

theorem Unslashed.append {as bs : List Bytes} (ha : Unslashed as) (hb : Unslashed bs) :
    Unslashed (as ++ bs) := by
  intro s hs
  rcases List.mem_append.1 hs with hs | hs
  · exact ha s hs
  · exact hb s hs

/-- A place that one comes to from the root by entering directories, and no link, by names that a path
can hold. -/
inductive Reached (tree : Node) : Node.Place → Prop
  | root : Reached tree []
  | entry {place : Node.Place} {node child : Node} {name : Bytes} : Reached tree place →
      tree.get? place = some node → node.isDir = true → node.entry? name = some child →
      (∀ target, child ≠ .link target) → (Step.name name).IsInner → name.length ≤ maxName →
      Reached tree (place ++ [name])

namespace Reached

variable {tree : Node} {place rest : Node.Place} {name : Bytes}

theorem named (h : Reached tree place) : Named place := by
  induction h with
  | root => exact List.forall_mem_nil _
  | entry _ _ _ _ _ hname _ ih =>
    intro n hn
    rcases List.mem_append.1 hn with hn | hn
    · exact ih n hn
    · rw [List.mem_singleton.1 hn]
      exact hname

theorem dropLast (h : Reached tree place) : Reached tree place.dropLast := by
  cases h with
  | root => exact .root
  | entry hplace =>
    rw [List.dropLast_concat]
    exact hplace

/-- The directory in which the last name of a place stands. -/
theorem last (h : Reached tree (place ++ [name])) : ∃ node child, tree.get? place = some node ∧
    node.isDir = true ∧ node.entry? name = some child ∧ (∀ target, child ≠ .link target) ∧
    (Step.name name).IsInner ∧ name.length ≤ maxName := by
  generalize hend : place ++ [name] = whole at h
  cases h with
  | root => exact absurd hend (by simp)
  | entry _ hnode hdir hentry hlink hname hlong =>
    obtain ⟨rfl, hsame⟩ := List.append_inj' hend rfl
    cases hsame
    exact ⟨_, _, hnode, hdir, hentry, hlink, hname, hlong⟩

theorem of_append (h : Reached tree (place ++ rest)) : Reached tree place := by
  induction rest using List.reverseRecOn with
  | nil => rwa [List.append_nil] at h
  | append_singleton rest name ih =>
    have hinit := h.dropLast
    rw [← List.append_assoc, List.dropLast_concat] at hinit
    exact ih hinit

end Reached

/-- What was found is in the tree, and its place is written with names. -/
def Found.IsIn (tree : Node) (found : Found) : Prop :=
  tree.get? found.place = some found.node ∧ Named found.place

theorem step_reached {tree : Node} {onLink : Node.Place → List Bytes → Search} {found : Found}
    (hlink : ∀ place segments, Reached tree place → Unslashed segments →
      onLink place segments = .ok found →
      Reached tree found.place ∧ tree.get? found.place = some found.node)
    {segments : List Bytes} {place : Node.Place} (hplace : Reached tree place)
    (hsegs : Unslashed segments) (h : step tree onLink place segments = .ok found) :
    Reached tree found.place ∧ tree.get? found.place = some found.node := by
  induction segments generalizing place with
  | nil =>
    rw [step] at h
    split at h
    · rename_i node hnode
      cases h
      exact ⟨hplace, hnode⟩
    · cases h
  | cons segment rest ih =>
    obtain ⟨hslash, hrest⟩ := List.forall_mem_cons.1 hsegs
    rw [step] at h
    split at h
    · cases h
    rename_i node hnode
    split at h
    · cases h
    rename_i hdir
    split at h
    · exact ih hplace hrest h
    rename_i hidle
    split at h
    · exact ih hplace.dropLast hrest h
    rename_i hup
    split at h
    · cases h
    rename_i hlong
    split at h
    · cases h
    · exact hlink _ _ hplace ((unslashed_segmentsOf _).append hrest) h
    · -- an entry that is no link: its segment is a name of its own
      rename_i child hchild hentry
      have hname : (Step.name segment).IsInner := by
        simp only [Bool.or_eq_true, decide_eq_true_eq, not_or] at hidle
        exact Step.isInner_name hidle.1 hidle.2 hup hslash
      refine ih (.entry hplace hnode (by simpa using hdir) hentry ?_ hname (by omega)) hrest h
      exact fun target heq => hchild target (by rw [heq])

theorem follow_reached {tree : Node} {found : Found} (links : Nat) :
    ∀ {place : Node.Place} {segments : List Bytes}, Reached tree place → Unslashed segments →
      follow tree links place segments = .ok found →
      Reached tree found.place ∧ tree.get? found.place = some found.node := by
  induction links with
  | zero =>
    intro place segments hplace hsegs h
    refine step_reached ?_ hplace hsegs h
    intro _ _ _ _ h
    cases h
  | succ links ih =>
    intro place segments hplace hsegs h
    refine step_reached ?_ hplace hsegs h
    intro place segments hplace hsegs h
    split at h
    · exact ih .root hsegs h
    · exact ih hplace hsegs h

theorem unslashed_wayTo (d : Disk) (p : Path) : Unslashed (d.wayTo p) := by
  rw [wayTo]
  split
  · exact unslashed_segmentsOf _
  · exact (unslashed_segmentsOf _).append (unslashed_segmentsOf _)

/-- What a path leads to is reached from the root. -/
theorem locate_reached {d : Disk} {p : Path} {found : Found} (h : d.locate p = .ok found) :
    Reached d.tree found.place ∧ d.tree.get? found.place = some found.node := by
  rw [locate] at h
  split at h
  · cases h
  split at h
  · cases h
  split at h
  · cases h
  exact follow_reached maxLinks .root (unslashed_wayTo d p) h

/-- What a path leads to is in the tree. -/
theorem locate_isIn {d : Disk} {p : Path} {found : Found} (h : d.locate p = .ok found) :
    found.IsIn d.tree := by
  obtain ⟨hreached, hnode⟩ := locate_reached h
  exact ⟨hnode, hreached.named⟩

theorem regular_pathOf {place : Node.Place} (h : Named place) :
    Path.Regular (.root :: place.map .name) := by
  refine ⟨.inl rfl, fun s hs => ?_⟩
  obtain ⟨n, hn, rfl⟩ := List.mem_map.1 hs
  exact h n hn

theorem isPlain_pathOf {place : Node.Place} (h : Named place) : (pathOf place).IsPlain :=
  Path.isPlain_ofSteps (regular_pathOf h)

/-! ## Segments that make no step -/

/-- Some segments without others that only ask for a directory. -/
inductive Thinned : List Bytes → List Bytes → Prop
  /-- nothing is left out -/
  | nil : Thinned [] []
  /-- a segment is kept -/
  | keep (s : Bytes) {as bs : List Bytes} : Thinned as bs → Thinned (s :: as) (s :: bs)
  /-- a segment that makes no step is left out -/
  | drop {s : Bytes} {as bs : List Bytes} : s = [] ∨ s = [dot] → Thinned as bs →
      Thinned as (s :: bs)

namespace Thinned

theorem append_left (cs : List Bytes) {as bs : List Bytes} (h : Thinned as bs) :
    Thinned (cs ++ as) (cs ++ bs) := by
  induction cs with
  | nil => exact h
  | cons c cs ih => exact .keep c ih

theorem sublist {as bs : List Bytes} (h : Thinned as bs) : as.Sublist bs := by
  induction h with
  | nil => exact .slnil
  | keep s _ ih => exact ih.cons_cons s
  | drop _ _ ih => exact ih.cons _

/-- The steps that segments make are written as these segments, thinned. -/
theorem bytes_of_segments (segments : List Bytes) :
    Thinned ((segments.filterMap Step.ofSegment?).map Step.bytes) segments := by
  induction segments with
  | nil => exact .nil
  | cons segment rest ih =>
    cases hs : Step.ofSegment? segment with
    | none =>
      rw [List.filterMap_cons_none hs]
      exact .drop (Step.eq_of_ofSegment?_none hs) ih
    | some s =>
      rw [List.filterMap_cons_some hs, List.map_cons, Step.bytes_of_ofSegment? hs]
      exact .keep _ ih

end Thinned

/-- A search that succeeds does so without the segments that make no step. -/
theorem step_thinned {tree : Node} {onLink : Node.Place → List Bytes → Search} {found : Found}
    (hlink : ∀ place target {as bs : List Bytes}, Thinned as bs →
      onLink place (segmentsOf target ++ bs) = .ok found →
      onLink place (segmentsOf target ++ as) = .ok found)
    {as bs : List Bytes} (hthin : Thinned as bs) {place : Node.Place}
    (h : step tree onLink place bs = .ok found) : step tree onLink place as = .ok found := by
  induction hthin generalizing place with
  | nil => exact h
  | keep s hthin ih =>
    -- both searches take the same branch, and go on with what is left
    rw [step] at h ⊢
    split at h
    · cases h
    split at h
    · cases h
    rename_i hdir
    rw [if_neg hdir]
    split at h
    · rename_i hidle
      rw [if_pos hidle]
      exact ih h
    rename_i hidle
    rw [if_neg hidle]
    split at h
    · rename_i hup
      rw [if_pos hup]
      exact ih h
    rename_i hup
    rw [if_neg hup]
    split at h
    · cases h
    rename_i hlong
    rw [if_neg hlong]
    split at h
    · cases h
    · exact hlink _ _ hthin h
    · exact ih h
  | drop hidle hthin ih =>
    -- the segment has asked for a directory and the search stayed there
    rw [step] at h
    split at h
    · cases h
    split at h
    · cases h
    rw [if_pos (by simpa using hidle)] at h
    exact ih h

theorem follow_thinned {tree : Node} {found : Found} (links : Nat) :
    ∀ {place : Node.Place} {as bs : List Bytes}, Thinned as bs →
      follow tree links place bs = .ok found → follow tree links place as = .ok found := by
  induction links with
  | zero =>
    intro place as bs hthin h
    refine step_thinned ?_ hthin h
    intro _ _ _ _ _ h
    cases h
  | succ links ih =>
    intro place as bs hthin h
    refine step_thinned ?_ hthin h
    intro place target as bs hthin h
    -- whether a link starts at the root shows in what it is written as, which is not thinned
    cases htarget : segmentsOf target with
    | nil => simp [segmentsOf, Text.cut_ne_nil] at htarget
    | cons first rest =>
      rw [htarget] at h
      simp only [List.cons_append] at h ⊢
      have hrest : Thinned (first :: (rest ++ as)) (first :: (rest ++ bs)) :=
        .keep first (hthin.append_left rest)
      split at h
      · rename_i hroot
        cases hroot
        exact ih hrest h
      · rename_i hroot
        split
        · rename_i hroot'
          cases hroot'
          exact absurd rfl (hroot _)
        · exact ih hrest h

/-! ## Plain paths -/

theorem segmentsOf_root {inner : List Step} (h : ∀ s ∈ inner, s.IsInner) (hne : inner ≠ []) :
    segmentsOf (Path.ofSteps (.root :: inner)).bytes = [] :: inner.map Step.bytes := by
  have hsegs := Path.segments_root inner
  rwa [Path.cut_glue_bytes hne fun s hs => (h s hs).2] at hsegs

theorem segmentsOf_steps {ss : List Step} (h : Path.Regular ss) (hroot : ss.head? ≠ some .root)
    (hne : ss ≠ []) : segmentsOf (Path.ofSteps ss).bytes = ss.map Step.bytes := by
  have hbytes := Path.bytes_of_regular h hroot
  rw [Path.ofSteps_of_ne_root hroot, segmentsOf, Path.cut_glue_bytes hne fun s hs => (hbytes s hs).1]

/-- The segments of a path that starts at the root hold its steps. -/
theorem thinned_absolute {p : Path} (habs : p.isAbsolute = true) :
    ∃ inner, p.steps = .root :: inner ∧ Thinned ([] :: inner.map Step.bytes) (segmentsOf p.bytes) := by
  obtain ⟨bs, hbs⟩ := List.head?_eq_some_iff.1 (beq_iff_eq.1 habs)
  have hsegs : Text.cut slash p.bytes = [] :: Text.cut slash bs := by
    rw [hbs, Text.cut, if_pos rfl]
  refine ⟨(Text.cut slash bs).filterMap Step.ofSegment?, ?_, ?_⟩
  · rw [Path.steps, if_pos habs, Path.segments, hsegs]
    rfl
  · rw [segmentsOf, hsegs]
    exact .keep [] (.bytes_of_segments _)

/-- The segments of a path that does not start at the root hold its steps. -/
theorem thinned_relative {p : Path} (habs : p.isAbsolute = false) :
    Thinned (p.steps.map Step.bytes) (segmentsOf p.bytes) := by
  have hsteps : p.steps = Path.stepsOfSegments p.segments := by
    rw [Path.steps, habs]
    rfl
  rw [segmentsOf.eq_1, ← Path.segments]
  cases hsegs : p.segments with
  | nil => exact absurd hsegs (Text.cut_ne_nil _ _)
  | cons first rest =>
    rw [hsegs, Path.stepsOfSegments] at hsteps
    by_cases hdot : first = [dot]
    · rw [hsteps, if_pos hdot, hdot]
      exact .keep [dot] (.bytes_of_segments rest)
    · rw [hsteps, if_neg hdot]
      exact .bytes_of_segments (first :: rest)

/-- The root is found at every path that names it, as it is at a slash. -/
theorem follow_root {tree : Node} {links : Nat} {found : Found} {segments : List Bytes}
    (hthin : Thinned [[]] segments) (h : follow tree links [] segments = .ok found) :
    follow tree links [] [[], []] = .ok found := by
  have hone := follow_thinned links hthin h
  have htwice : ∀ onLink, step tree onLink [] [[]] = .ok found →
      step tree onLink [] [[], []] = .ok found := by
    intro onLink h
    rw [step] at h ⊢
    split at h
    · cases h
    split at h
    · cases h
    rename_i hnode hdir
    rw [if_neg hdir, if_pos (by decide), step, hnode]
    simpa [hdir] using h
  cases links with
  | zero => exact htwice _ hone
  | succ links => exact htwice _ hone

/-- The plain path has the segments of the path, thinned, unless it is a slash. -/
theorem thinned_plain {p : Path} (hempty : p.bytes ≠ []) (hslash : p.steps ≠ [.root]) :
    Thinned (segmentsOf p.plain.bytes) (segmentsOf p.bytes) := by
  have hregular := Path.regular_steps p
  rw [Path.plain]
  cases habs : p.isAbsolute with
  | true =>
    obtain ⟨inner, hsteps, hthin⟩ := thinned_absolute habs
    rw [hsteps] at hregular hslash ⊢
    rwa [segmentsOf_root hregular.2 (by simpa using hslash)]
  | false =>
    obtain ⟨s, hs, hroot⟩ := Path.head?_steps hempty
    have hne : p.steps ≠ [] := by
      intro hnil
      simp [hnil] at hs
    have hhead : p.steps.head? ≠ some .root := by
      rw [hs, Ne, Option.some.injEq, hroot, habs]
      exact Bool.false_ne_true
    rw [segmentsOf_steps hregular hhead hne]
    exact thinned_relative habs

theorem isAbsolute_of_slash {p : Path} (hempty : p.bytes ≠ []) (hslash : p.steps = [.root]) :
    p.isAbsolute = true := by
  obtain ⟨s, hs, hroot⟩ := Path.head?_steps hempty
  rw [hslash] at hs
  exact hroot.1 (Option.some.inj hs).symm

/-- What is found on the way to a path is found on the way to its plain form. -/
theorem follow_plain {d : Disk} {p : Path} {links : Nat} {found : Found} (hempty : p.bytes ≠ [])
    (h : follow d.tree links [] (d.wayTo p) = .ok found) :
    follow d.tree links [] (d.wayTo p.plain) = .ok found := by
  rw [wayTo, (Path.isAbsolute_plain hempty).2]
  rw [wayTo] at h
  by_cases hslash : p.steps = [.root]
  · -- a slash alone is two empty segments, more than some paths of the root have
    have habs := isAbsolute_of_slash hempty hslash
    obtain ⟨inner, hsteps, hthin⟩ := thinned_absolute habs
    rw [hslash] at hsteps
    cases hsteps
    rw [if_pos habs] at h ⊢
    rw [Path.plain, hslash]
    exact follow_root hthin h
  · have hthin := thinned_plain hempty hslash
    split at h
    · rename_i habs
      rw [if_pos habs]
      exact follow_thinned links hthin h
    · rename_i habs
      rw [if_neg habs]
      exact follow_thinned links (hthin.append_left _) h

theorem glue_segmentsOf (bytes : Bytes) : Text.glue slash (segmentsOf bytes) = bytes :=
  Text.glue_cut _ _

/-- The plain path is made of the path by leaving bytes out. -/
theorem plain_sublist {p : Path} (hempty : p.bytes ≠ []) :
    p.plain.bytes.Sublist p.bytes := by
  by_cases hslash : p.steps = [.root]
  · have habs := isAbsolute_of_slash hempty hslash
    rw [Path.plain, hslash]
    exact List.singleton_sublist.2 (List.mem_of_head? (beq_iff_eq.1 habs))
  · rw [← glue_segmentsOf p.plain.bytes, ← glue_segmentsOf p.bytes]
    exact Text.glue_sublist (thinned_plain hempty hslash).sublist

/-- **What is found at a path is found at its plain form.** -/
theorem locate_plain {d : Disk} {p : Path} {found : Found} (h : d.locate p = .ok found) :
    d.locate p.plain = .ok found := by
  rw [locate] at h ⊢
  split at h
  · cases h
  split at h
  · cases h
  split at h
  · cases h
  rename_i hnul hempty hlong
  -- bytes are left out, so no limit is passed that was not passed before
  have hsub := plain_sublist hempty
  have hnul' : ¬ p.plain.bytes.contains 0 = true := by
    intro hmem
    exact hnul (List.contains_iff_mem.2 (hsub.subset (List.contains_iff_mem.1 hmem)))
  have hlong' : ¬ maxPath < p.plain.bytes.length := by
    have hle := hsub.length_le
    omega
  rw [if_neg hnul', if_neg (Path.isAbsolute_plain hempty).1, if_neg hlong']
  exact follow_plain hempty h

theorem readText_plain {d : Disk} {p : Path} {text : String} (h : d.readText p = .ok text) :
    d.readText p.plain = .ok text := by
  rw [readText] at h ⊢
  cases hfound : d.locate p with
  | error e =>
    rw [hfound] at h
    cases h
  | ok found =>
    rw [hfound] at h
    rw [locate_plain hfound]
    exact h

/-- A path can be read as text only where a regular file is. -/
theorem isFile_of_readText {d : Disk} {p : Path} {text : String} (h : d.readText p = .ok text) :
    d.isFile p = true := by
  rw [readText] at h
  rw [isFile]
  cases hfound : d.locate p with
  | error e =>
    rw [hfound] at h
    cases h
  | ok found =>
    rw [hfound] at h
    cases hnode : found.node with
    | file c => simp [hnode, Node.isFile]
    | link target => simp [bind, Except.bind, hnode] at h
    | dir es => simp [bind, Except.bind, hnode] at h

end Disk

namespace Module

variable {d : Disk} {p q : Path} {m : Module}

theorem exists_readText (h : ofFile d p = .ok m) :
    ∃ source, d.readText p = .ok source ∧ parse p source = .ok m := by
  rw [ofFile] at h
  split at h
  · rename_i source hsource
    exact ⟨source, hsource, h⟩
  · cases h

/-- How a text is read shows in the steps of its file. -/
theorem parse?_congr (h : p.steps = q.steps) (source : String) :
    parse? p source = parse? q source := by
  have hname : p.fileName? = q.fileName? := by rw [Path.fileName?, Path.fileName?, h]
  rw [parse?, parse?, Dialect.ofPath, Dialect.ofPath, Path.extension?, Path.extension?, hname]

/-- **What a file says at a path it says at its plain form.** -/
theorem ofFile_plain (h : ofFile d p = .ok m) : ofFile d p.plain = .ok m := by
  obtain ⟨source, hsource, hparse⟩ := exists_readText h
  have hplain : ofFile d p.plain = parse p.plain source := by
    rw [ofFile, Disk.readText_plain hsource]
  rw [parse] at hparse
  rw [hplain, parse, parse?_congr (Path.steps_plain p)]
  split at hparse
  · exact hparse
  · cases hparse

/-- Files that can be read at two paths of one place say the same. -/
theorem ofFile_eq_of_steps {m' : Module} (hsteps : p.steps = q.steps) (hp : ofFile d p = .ok m)
    (hq : ofFile d q = .ok m') : m = m' := by
  have hp := ofFile_plain hp
  have hq := ofFile_plain hq
  rw [Path.plain, hsteps] at hp
  exact Except.ok.inj (hp.symm.trans hq)

theorem isFile_of_ofFile (h : ofFile d p = .ok m) : d.isFile p = true := by
  obtain ⟨source, hsource, -⟩ := exists_readText h
  exact Disk.isFile_of_readText hsource

/-- A failure names the file it is about. -/
theorem path_of_ofFile {f : Failure} (h : ofFile d p = .error f) : f.path = p := by
  rw [ofFile] at h
  split at h
  · rw [parse] at h
    split at h
    · cases h
    · cases h
      rfl
  · cases h
    rfl

end Module

end ClientBoundary
