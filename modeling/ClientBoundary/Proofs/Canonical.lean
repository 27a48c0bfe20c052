import ClientBoundary.Proofs.Disk

/-!
# Link-free paths

A search ends at a place that is reached without a link. The path that is written for the place leads
there **straight on**, as far as it is not too long to be used at all. So a link-free path that leads
somewhere is its own link-free path (`canonical_canonical`), and of all paths that name a regular file it
is the one that tells the file by how it is written (`Names.canonical`).
-/

namespace ClientBoundary

open Bytes (slash dot)

/-- A name that is a step of its own is neither empty nor made of one or two dots. -/
theorem Step.IsInner.ne_dots {n : Bytes} (h : (Step.name n).IsInner) :
    n ≠ [] ∧ n ≠ [dot] ∧ n ≠ [dot, dot] := by
  refine ⟨?_, ?_, ?_⟩
  all_goals
    rintro rfl
    exact absurd h.1 (by decide)

namespace Disk

variable {d : Disk} {p q : Path} {place : Node.Place} {node : Node} {found : Found}

/-! ## The way to a place -/

/-- Names lead to a place that is reached by them. -/
theorem step_of_reached {tree : Node} (onLink : Node.Place → List Bytes → Search)
    {place rest : Node.Place} (h : Reached tree (place ++ rest))
    (hnode : tree.get? (place ++ rest) = some node) :
    step tree onLink place rest = .ok ⟨place ++ rest, node⟩ := by
  induction rest generalizing place with
  | nil =>
    rw [List.append_nil] at hnode ⊢
    rw [step, hnode]
  | cons name rest ih =>
    rw [List.append_cons] at h hnode ⊢
    obtain ⟨dir, child, hdir, hisDir, hentry, hlink, hname, hlong⟩ := h.of_append.last
    obtain ⟨hempty, hdot, hdots⟩ := hname.ne_dots
    have hrest := ih h hnode
    simp only [step, hdir, hisDir, hempty, hdot, hdots, hentry]
    cases child with
    | link target => exact absurd rfl (hlink target)
    | file content => simpa [Nat.not_lt.2 hlong] using hrest
    | dir entries => simpa [Nat.not_lt.2 hlong] using hrest

/-- A path that starts at the root has an empty segment in front. -/
theorem segmentsOf_absolute (h : p.isAbsolute = true) : ∃ rest, segmentsOf p.bytes = [] :: rest := by
  obtain ⟨bs, hbs⟩ := List.head?_eq_some_iff.1 (beq_iff_eq.1 h)
  exact ⟨Text.cut slash bs, by rw [segmentsOf, hbs, Text.cut, if_pos rfl]⟩

theorem isAbsolute_pathOf (place : Node.Place) : (pathOf place).isAbsolute = true :=
  Path.isAbsolute_root _

/-- Every way starts at the root, which it asks to be a directory. -/
theorem wayTo_eq (d : Disk) (p : Path) : ∃ rest, d.wayTo p = [] :: rest := by
  rw [wayTo]
  split
  · rename_i habs
    exact segmentsOf_absolute habs
  · obtain ⟨rest, hrest⟩ := segmentsOf_absolute (isAbsolute_pathOf d.cwd)
    exact ⟨rest ++ segmentsOf p.bytes, by rw [cwdPath, hrest, List.cons_append]⟩

theorem step_root {tree : Node} (onLink : Node.Place → List Bytes → Search) (rest : List Bytes) :
    step tree onLink [] ([] :: rest) =
      if tree.isDir then step tree onLink [] rest else .error .notDirectory := by
  rw [step]
  cases htree : tree.isDir <;> simp [Node.get?, htree]

/-- Where there is anything to be found, the root is a directory. -/
theorem isDir_of_locate (h : d.locate p = .ok found) : d.tree.isDir = true := by
  rw [locate] at h
  split at h
  · cases h
  split at h
  · cases h
  split at h
  · cases h
  obtain ⟨rest, hway⟩ := wayTo_eq d p
  by_contra hdir
  rw [hway, maxLinks, follow, step_root, if_neg hdir] at h
  cases h

/-- The segments of the path of a place are its names, behind the root. -/
theorem segmentsOf_pathOf (h : Named place) (hne : place ≠ []) :
    segmentsOf (pathOf place).bytes = [] :: place := by
  rw [pathOf, segmentsOf_root (regular_pathOf h).2 (by simpa using hne), List.map_map]
  exact congrArg _ (List.map_id place)

theorem step_pathOf {tree : Node} (onLink : Node.Place → List Bytes → Search)
    (hroot : tree.isDir = true) (h : Reached tree place) (hnode : tree.get? place = some node) :
    step tree onLink [] (segmentsOf (pathOf place).bytes) = .ok ⟨place, node⟩ := by
  have hstep : step tree onLink [] place = .ok ⟨place, node⟩ := step_of_reached onLink h hnode
  by_cases hne : place = []
  · -- a slash alone is two empty segments
    subst hne
    rw [show segmentsOf (pathOf []).bytes = [[], []] from rfl, step_root, if_pos hroot, step_root,
      if_pos hroot]
    exact hstep
  · rw [segmentsOf_pathOf h.named hne, step_root, if_pos hroot]
    exact hstep

/-- **The path of a place leads to it**, if it leads anywhere. -/
theorem locate_pathOf (hroot : d.tree.isDir = true) (h : Reached d.tree place)
    (hnode : d.tree.get? place = some node) (hfound : d.locate (pathOf place) = .ok found) :
    found = ⟨place, node⟩ := by
  rw [locate] at hfound
  split at hfound
  · cases hfound
  split at hfound
  · cases hfound
  split at hfound
  · cases hfound
  rw [wayTo, if_pos (isAbsolute_pathOf place), maxLinks, follow, step_pathOf _ hroot h hnode] at hfound
  exact (Except.ok.inj hfound).symm

/-! ## Link-free paths -/

theorem canonical_of_locate (h : d.locate p = .ok found) : d.canonical p = .ok (pathOf found.place) := by
  rw [canonical, h]
  rfl

/-- **Idempotence.** A link-free path that leads somewhere is its own link-free path. -/
theorem canonical_canonical (h : d.canonical p = .ok q) (hq : d.isThere q = true) :
    d.canonical q = .ok q := by
  cases hfound : d.locate p with
  | error e =>
    rw [canonical, hfound] at h
    cases h
  | ok found =>
    rw [canonical_of_locate hfound] at h
    cases h
    obtain ⟨hreached, hnode⟩ := locate_reached hfound
    cases hagain : d.locate (pathOf found.place) with
    | error e =>
      rw [isThere, hagain] at hq
      cases hq
    | ok found' =>
      have hsame := locate_pathOf (isDir_of_locate hfound) hreached hnode hagain
      rw [canonical_of_locate hagain, hsame]

/-- A path names the regular file at a place. -/
def Names (d : Disk) (p : Path) (place : Node.Place) : Prop :=
  ∃ content, d.locate p = .ok ⟨place, .file content⟩

theorem names_iff : d.Names p place ↔
    (d.locate p).map (fun found => (found.place, found.node.isFile)) = .ok (place, true) := by
  constructor
  · rintro ⟨content, hfound⟩
    rw [hfound]
    rfl
  · intro h
    cases hfound : d.locate p with
    | error e =>
      rw [hfound] at h
      cases h
    | ok found =>
      obtain ⟨place', node⟩ := found
      rw [hfound] at h
      obtain ⟨rfl, hnode⟩ := Prod.mk.inj (Except.ok.inj h)
      cases node with
      | file content => exact ⟨content, hfound⟩
      | link target => cases hnode
      | dir entries => cases hnode

instance : Decidable (d.Names p place) := decidable_of_iff _ names_iff.symm

theorem isFile_iff_names : d.isFile p = true ↔ ∃ place, d.Names p place := by
  simp only [names_iff]
  rw [isFile]
  cases d.locate p with
  | error e => simp [Except.map]
  | ok found => simp [Except.map]

/-- **All paths that name a file have its link-free path in common.** -/
theorem Names.canonical (h : d.Names p place) : d.canonical p = .ok (pathOf place) := by
  obtain ⟨content, hfound⟩ := h
  exact canonical_of_locate hfound

theorem isThere_of_isFile (h : d.isFile p = true) : d.isThere p = true := by
  obtain ⟨place, content, hfound⟩ := isFile_iff_names.1 h
  rw [isThere, hfound]
  rfl

/-- The link-free path of some regular file. -/
def IsLinkFree (d : Disk) (p : Path) : Prop := ∃ q, d.isFile q = true ∧ d.canonical q = .ok p

/-- A regular file has a link-free path. -/
theorem canonical_eq_canonicalOr (h : d.isFile p = true) : d.canonical p = .ok (d.canonicalOr p) := by
  obtain ⟨place, hplace⟩ := isFile_iff_names.1 h
  rw [canonicalOr, hplace.canonical]

theorem isLinkFree_canonicalOr (h : d.isFile q = true) : d.IsLinkFree (d.canonicalOr q) :=
  ⟨q, h, canonical_eq_canonicalOr h⟩

/-- A link-free path is plain, and its place is listed in the tree. -/
theorem IsLinkFree.mem_files (h : d.IsLinkFree p) :
    ∃ place ∈ d.tree.files, p = pathOf place ∧ p.IsPlain := by
  obtain ⟨q, hfile, hq⟩ := h
  obtain ⟨place, hplace⟩ := isFile_iff_names.1 hfile
  rw [hplace.canonical] at hq
  cases hq
  obtain ⟨content, hfound⟩ := hplace
  obtain ⟨hget, hnamed⟩ := locate_isIn hfound
  exact ⟨place, Node.mem_files_of_get? hget, rfl, isPlain_pathOf hnamed⟩

theorem IsLinkFree.isPlain (h : d.IsLinkFree p) : p.IsPlain := by
  obtain ⟨place, -, -, hplain⟩ := h.mem_files
  exact hplain

/-- A link-free path under which a file is found is the link-free path of that file. -/
theorem IsLinkFree.canonical (h : d.IsLinkFree p) (hp : d.isFile p = true) : d.canonical p = .ok p := by
  obtain ⟨q, -, hq⟩ := h
  exact canonical_canonical hq (isThere_of_isFile hp)

end Disk

end ClientBoundary
