import ClientBoundary.Proofs.Scan

/-!
# What is collected

A walk goes down from a root, into no directory that is excluded and into no link. So each path that it lists is that of
an **entry** of the tree: names of directories that are shown as none that is excluded, and a last name (`Walk.exists_of_mem_below`). Of
these, the ones with the name of a component are collected if a regular file is there.

What is collected for an entry is its link-free path. An entry that is no link is reached without any
(`Disk.Reached.append`), so this is its own path, which has the name of a component and lies in no excluded directory.
The target of a link is under neither condition: only the name of the link itself and the way to it are looked at.
-/

namespace ClientBoundary

/-! ## File trees -/

namespace Node

variable {n m : Node} {name : Bytes} {place rest : Place}

/-- A name that an entry of a directory can have. -/
def IsEntryName (name : Bytes) : Prop := (Step.name name).IsInner ∧ name.length ≤ Disk.maxName

instance : Decidable (IsEntryName name) :=
  inferInstanceAs (Decidable ((Step.ofSegment? name = some (.name name) ∧ Bytes.slash ∉ name) ∧ _))

/-- A tree as a disk holds it: the names in a directory are distinct, and each is one that an entry can have. -/
inductive WellFormed : Node → Prop where
  /-- a regular file -/
  | file (content : Content) : WellFormed (.file content)
  /-- a link -/
  | link (target : Bytes) : WellFormed (.link target)
  /-- a directory -/
  | dir {es : List (Bytes × Node)} (hnodup : (es.map Prod.fst).Nodup) (hnames : ∀ e ∈ es, IsEntryName e.1)
    (hnodes : ∀ e ∈ es, WellFormed e.2) : WellFormed (.dir es)

theorem lookup_of_mem {es : List (Bytes × Node)} (hnodup : (es.map Prod.fst).Nodup) (h : (name, n) ∈ es) :
    es.lookup name = some n := by
  induction es with
  | nil => cases h
  | cons e es ih =>
    obtain ⟨hfresh, hrest⟩ := List.nodup_cons.1 hnodup
    rcases List.mem_cons.1 h with rfl | h
    · simp
    · have hne : name ≠ e.1 := fun heq => hfresh (heq ▸ List.mem_map_of_mem (f := Prod.fst) h)
      rw [List.lookup_cons, beq_false_of_ne hne]
      exact ih hrest h

theorem isDir_of_entry? (h : n.entry? name = some m) : n.isDir = true := by
  cases n with
  | dir es => rfl
  | file content => cases h
  | link target => cases h

theorem get?_append (n : Node) (place rest : Place) : n.get? (place ++ rest) = (n.get? place).bind (get? · rest) := by
  induction place generalizing n with
  | nil => rfl
  | cons name place ih =>
    rw [List.cons_append, get?, get?]
    cases n.entry? name with
    | none => rfl
    | some m => exact ih m

theorem WellFormed.entry (h : n.WellFormed) (hentry : n.entry? name = some m) : m.WellFormed ∧ IsEntryName name := by
  have hmem := mem_of_lookup hentry
  cases h with
  | file content => cases hmem
  | link target => cases hmem
  | dir _ hnames hnodes => exact ⟨hnodes _ hmem, hnames _ hmem⟩

theorem WellFormed.get? (h : n.WellFormed) (hget : n.get? place = some m) : m.WellFormed := by
  induction place generalizing n with
  | nil =>
    cases hget
    exact h
  | cons name place ih =>
    obtain ⟨child, hentry, hget⟩ := Option.bind_eq_some_iff.1 hget
    exact ih (h.entry hentry).1 hget

end Node

namespace Disk

variable {d : Disk} {tree n m : Node} {place rest : Node.Place} {found : Found}

/-- Names in a well-formed tree lead on from a place that is reached, unless they end at a link. -/
theorem Reached.append (h : Reached tree place) (hn : tree.get? place = some n) (hwell : n.WellFormed)
    (hm : n.get? rest = some m) (hlink : ∀ target, m ≠ .link target) : Reached tree (place ++ rest) := by
  induction rest generalizing place n with
  | nil => rwa [List.append_nil]
  | cons name rest ih =>
    obtain ⟨child, hentry, hm⟩ := Option.bind_eq_some_iff.1 hm
    obtain ⟨hchild, hname, hlong⟩ := hwell.entry hentry
    -- a child that is not the last one has entries
    have hnolink : ∀ target, child ≠ .link target := by
      rintro target rfl
      cases rest with
      | nil => exact hlink target (Option.some.inj hm).symm
      | cons next rest => cases hm
    have hget : tree.get? (place ++ [name]) = some child := by
      rw [Node.get?_append, hn, Option.bind_some, Node.get?, hentry]
      rfl
    rw [List.append_cons]
    exact ih (.entry h hn (Node.isDir_of_entry? hentry) hentry hnolink hname hlong) hget hchild hm

end Disk

/-! ## Walks -/

namespace Walk

variable {w : Walk} {layers : List Layer} {path place p : Path} {n : Node}

/-- A walk lists the entries that it does not pass over, and what is below them. -/
theorem mem_among_iff {entries : List (Bytes × Node)} :
    p ∈ w.among layers path place entries ↔ ∃ e ∈ entries,
      w.passes layers e.1 ⟨path.join e.1, place.join e.1, e.2.isDir⟩ = false ∧
        (p = path.join e.1 ∨ p ∈ w.below layers (path.join e.1) (place.join e.1) e.2) := by
  induction entries with
  | nil => simp [among]
  | cons e entries ih =>
    rw [among, List.mem_append, ih, List.exists_mem_cons_iff]
    refine or_congr_left ?_
    cases hpasses : w.passes layers e.1 ⟨path.join e.1, place.join e.1, e.2.isDir⟩ with
    | true => simp
    | false => simp

/-- **What a walk lists below a node** are entries that it comes to by directories that are not excluded. -/
theorem exists_of_mem_below (hwell : n.WellFormed) (h : p ∈ w.below layers path place n) :
    ∃ dirs name m, p.steps = path.steps ++ (dirs ++ [name]).map .name ∧ n.get? (dirs ++ [name]) = some m ∧
      ∀ dir ∈ dirs, Bytes.shown dir ∉ w.exclude := by
  induction hwell generalizing layers path place with
  | file content =>
    rw [below] at h
    cases h
  | link target =>
    rw [below] at h
    cases h
  | dir hnodup hnames hnodes ih =>
    rw [below] at h
    obtain ⟨e, he, hpasses, hp⟩ := mem_among_iff.1 h
    have hentry : Node.entry? (.dir _) e.1 = some e.2 := Node.lookup_of_mem hnodup he
    have hsteps := Path.steps_join_name path (hnames e he).1
    rcases hp with rfl | hbelow
    · refine ⟨[], e.1, e.2, hsteps, ?_, List.forall_mem_nil _⟩
      rw [List.nil_append, Node.get?, hentry]
      rfl
    · obtain ⟨dirs, name, m, hp, hget, hdirs⟩ := ih e he hbelow
      refine ⟨e.1 :: dirs, name, m, ?_, ?_, List.forall_mem_cons.2 ⟨?_, hdirs⟩⟩
      · rw [hp, hsteps, List.append_assoc]
        rfl
      · rw [List.cons_append, Node.get?, hentry]
        exact hget
      · -- an entry with something below it is a directory, and not passed over
        have hdir : e.2.isDir = true := by
          cases hnode : e.2 with
          | dir es => rfl
          | file content => simp [hnode, below] at hbelow
          | link target => simp [hnode, below] at hbelow
        rw [passes, Bool.or_eq_false_iff, hdir, Bool.true_and] at hpasses
        simpa using hpasses.2

end Walk

/-! ## Component files -/

namespace Disk

variable {d : Disk} {p : Path} {place : Node.Place}

theorem steps_pathOf (h : Named place) : (pathOf place).steps = .root :: place.map .name :=
  Path.steps_ofSteps (regular_pathOf h)

end Disk

namespace Collect

open Disk

variable {d : Disk} {root : Node.Place} {entries : List (Bytes × Node)} {exclude : List String} {files : List Path}
  {q : Path}

theorem isComponent_congr {p : Path} (h : p.steps = q.steps) : p.isComponent = q.isComponent := by
  simp only [Path.isComponent, Path.hasExtension, Path.extension?, Path.fileName?, h]

/-- What the walk from a directory lists are the directory and entries below it. -/
theorem exists_of_mem_paths (hwell : d.tree.WellFormed) (hroot : d.locate (pathOf root) = .ok ⟨root, .dir entries⟩)
    {paths : List Path} (hpaths : Walk.paths ⟨d, exclude⟩ (pathOf root) = .ok paths) (hq : q ∈ paths) :
    q = pathOf root ∨ ∃ dirs name m, q.plain = pathOf (root ++ dirs ++ [name]) ∧
      d.tree.get? (root ++ dirs ++ [name]) = some m ∧ ∀ dir ∈ dirs, Bytes.shown dir ∉ exclude := by
  obtain ⟨hreached, hget⟩ := locate_reached hroot
  have hdash : ¬ (pathOf root).same ⟨"-"⟩ = true := by
    rw [Path.same_iff, steps_pathOf hreached.named]
    simp [show (Path.mk "-").steps = [.name "-"] from by decide]
  rw [Walk.paths, if_neg hdash] at hpaths
  simp only [hroot] at hpaths
  rw [if_neg (by simp [Node.isDir])] at hpaths
  split at hpaths
  · cases hpaths
  cases hpaths
  rcases List.mem_cons.1 hq with rfl | hq
  · exact .inl rfl
  · obtain ⟨dirs, name, m, hsteps, hm, hdirs⟩ := Walk.exists_of_mem_below (hwell.get? hget) hq
    refine .inr ⟨dirs, name, m, ?_, ?_, hdirs⟩
    · rw [Path.plain, hsteps, steps_pathOf hreached.named, List.cons_append, ← List.map_append, List.append_assoc]
      rfl
    · rw [List.append_assoc, Node.get?_append, hget, Option.bind_some, hm]

/-- **What is collected.** Each component file is the link-free path of an entry below the root: one that leads to a
regular file, has the name of a component, and comes behind directories of which none is excluded. It is the path of the
entry itself unless the entry is a link. -/
theorem components_entries (hwell : d.tree.WellFormed) (hroot : d.locate (pathOf root) = .ok ⟨root, .dir entries⟩)
    (h : components d (pathOf root) exclude = .ok files) :
    ∀ p ∈ files, ∃ dirs name,
      let entry := pathOf (root ++ dirs ++ [name])
      entry.isComponent = true ∧ (∀ dir ∈ dirs, Bytes.shown dir ∉ exclude) ∧ d.isFile entry = true ∧
        d.canonical entry = .ok p ∧
        (p = entry ∨ ∃ target, d.tree.get? (root ++ dirs ++ [name]) = some (.link target)) := by
  intro p hp
  obtain ⟨paths, hpaths, rfl⟩ := components_eq h
  obtain ⟨q, hq, rfl⟩ := List.mem_map.1 (mem_of_mem_sorted hp)
  obtain ⟨hq, hkept⟩ := List.mem_filter.1 hq
  obtain ⟨hfile, hcomponent⟩ := Bool.and_eq_true_iff.1 hkept
  obtain ⟨place, content, hlocate⟩ := isFile_iff_names.1 hfile
  rcases exists_of_mem_paths hwell hroot hpaths hq with rfl | ⟨dirs, name, m, hplain, hm, hdirs⟩
  · rw [hroot] at hlocate
    cases hlocate
  have hentry : d.Names (pathOf (root ++ dirs ++ [name])) place := ⟨content, hplain ▸ locate_plain hlocate⟩
  have hcanonical : d.canonicalOr q = pathOf place := by rw [canonicalOr, canonical_of_locate hlocate]
  refine ⟨dirs, name, ?_, hdirs, isFile_iff_names.2 ⟨place, hentry⟩, ?_, ?_⟩
  · rw [← hplain, isComponent_congr (Path.steps_plain q)]
    exact hcomponent
  · rw [hcanonical]
    exact hentry.canonical
  · by_cases hlink : ∃ target, m = .link target
    · obtain ⟨target, rfl⟩ := hlink
      exact .inr ⟨target, hm⟩
    · -- no link is on the way, so the entry is found where it stands
      obtain ⟨hreached, hget⟩ := locate_reached hroot
      have hrest : Node.get? (.dir entries) (dirs ++ [name]) = some m := by
        rwa [List.append_assoc, Node.get?_append, hget, Option.bind_some] at hm
      have hat := hreached.append hget (hwell.get? hget) hrest (not_exists.1 hlink)
      rw [← List.append_assoc] at hat
      obtain ⟨content, hfound⟩ := hentry
      have hsame := locate_pathOf (isDir_of_locate hroot) hat hm hfound
      rw [hcanonical]
      exact .inl (congrArg (pathOf ·.place) hsame)

/-- The project of `bypass`: a component, and two links with the names of components. -/
def bypassEntries : List (Bytes × Node) :=
  [("app", .dir [("page.tsx", .file (.ofText ""))]), ("a.tsx", .link "notes.txt"), ("notes.txt", .file (.ofText "")),
    ("b.tsx", .link "lib/x.jsx"), ("lib", .dir [("x.jsx", .file (.ofText ""))])]

/-- One link leads to a file with another name, the other into a directory that can be passed over. -/
def bypass : Disk := ⟨.dir [("w", .dir bypassEntries)], ["w"]⟩

/-- What is collected without the directory. -/
def bypassFiles : List Path := [⟨"/w/app/page.tsx"⟩, ⟨"/w/lib/x.jsx"⟩, ⟨"/w/notes.txt"⟩]

theorem components_bypass : components bypass (pathOf ["w"]) ["lib"] = .ok bypassFiles := by
  decide +kernel

theorem wellFormed_bypass : bypass.tree.WellFormed := by
  have hentries : ∀ e ∈ bypassEntries, e.2.WellFormed := by
    simp only [bypassEntries, List.forall_mem_cons]
    exact ⟨.dir (by decide) (by decide +kernel) (List.forall_mem_singleton.2 (.file _)), .link _, .file _, .link _,
      .dir (by decide) (by decide +kernel) (List.forall_mem_singleton.2 (.file _)), List.forall_mem_nil _⟩
  have hproject : Node.WellFormed (.dir bypassEntries) := .dir (by decide) (by decide +kernel) hentries
  exact .dir (by decide) (by decide +kernel) (List.forall_mem_singleton.2 hproject)

theorem components_entries_bypass :
    components bypass (pathOf ["w"]) ["lib"] = .ok bypassFiles ∧
      ∀ p ∈ bypassFiles, ∃ (dirs : List Bytes) (name : Bytes),
        (pathOf ("w" :: (dirs ++ [name]))).isComponent = true ∧ (∀ dir ∈ dirs, Bytes.shown dir ∉ ["lib"]) ∧
          bypass.canonical (pathOf ("w" :: (dirs ++ [name]))) = .ok p := by
  have hroot : bypass.locate (pathOf ["w"]) = .ok ⟨["w"], .dir bypassEntries⟩ := rfl
  refine ⟨components_bypass, fun p hp => ?_⟩
  obtain ⟨dirs, name, hcomponent, hdirs, -, hcanonical, -⟩ := components_entries wellFormed_bypass hroot
    components_bypass p hp
  exact ⟨dirs, name, hcomponent, hdirs, hcanonical⟩

/-- A component file without the name of a component, and one in a directory that is excluded. -/
theorem collected_by_link :
    components bypass ⟨"/w"⟩ ["lib"] = .ok bypassFiles ∧
      (⟨"/w/notes.txt"⟩ ∈ bypassFiles ∧ Path.isComponent ⟨"/w/notes.txt"⟩ = false) ∧
      ⟨"/w/lib/x.jsx"⟩ ∈ bypassFiles ∧
      Path.steps ⟨"/w/lib/x.jsx"⟩ = Path.steps ⟨"/w"⟩ ++ [.name "lib", .name "x.jsx"] := by
  decide +kernel

end Collect

end ClientBoundary
