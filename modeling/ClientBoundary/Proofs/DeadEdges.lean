import ClientBoundary.Proofs.AliasHistory
import ClientBoundary.Proofs.Memo

/-!
# Dead edges

A specifier that is followed names one or more **bases**: what is left of it, seen from an anchor. A relative
one is seen from the directory of the importing file, one with a slash from the root of the project, and one
that falls under an alias from each target of it (`Anchored`).

An import may **mean** a base, a source that compiles to it, the base with an extension behind it, or an
index file in it (`meanings`). It is **dead** if none of these is a file for any base. It then leads to the
path where the first of them should have been. Otherwise the first base with a file decides: an **asset**
there ends the search without an answer, and else the answer is the first of its meanings that is a file
(`resolve_anchored`).

An answer is right for given meanings if it is all this (`Answered`). The search is right for the paths that
it looks for. It writes extensions behind what a base **shows**, so these are the meanings exactly if the base
is a text (`meanings_eq_iff`). Where it is none, its files are looked for elsewhere, and an import may be dead
beside the file that it means.
-/

namespace ClientBoundary

namespace Resolve

variable {d : Disk} {project : Project} {importer base p q : Path} {specifier rest : String}
  {anchors bases before after : List Path} {otherwise : Option Path}

/-! ## Bases -/

/-- A specifier that is seen from the importing file. -/
def IsRelative (specifier : String) : Prop :=
  specifier = "." ∨ specifier = ".." ∨ ∃ rest, specifier = "./" ++ rest ∨ specifier = "../" ++ rest

theorem isPrefixOf_toList (lead s : String) :
    lead.toList.isPrefixOf s.toList = true ↔ ∃ rest, s = lead ++ rest := by
  rw [List.isPrefixOf_iff_prefix]
  constructor
  · rintro ⟨cs, hcs⟩
    refine ⟨String.ofList cs, ?_⟩
    rw [← String.toList_inj, String.toList_append, String.toList_ofList, hcs]
  · rintro ⟨rest, rfl⟩
    exact ⟨rest.toList, String.toList_append.symm⟩

theorem isRelative_iff : isRelative specifier = true ↔ IsRelative specifier := by
  have hdot := isPrefixOf_toList "./" specifier
  have hdots := isPrefixOf_toList "../" specifier
  rw [isRelative, Bool.or_eq_true, Bool.or_eq_true, Bool.or_eq_true, beq_iff_eq, beq_iff_eq, or_assoc, or_assoc,
    IsRelative, exists_or, ← hdot, ← hdots]
  rfl

/-- What is left of a specifier and where it is seen from: the directory of the importing file, else the root
of the project, else the targets of an alias. -/
inductive Anchored (project : Project) (importer : Path) : String → List Path → String → Prop where
  /-- a specifier that starts with a dot -/
  | relative {specifier : String} (h : IsRelative specifier) :
    Anchored project importer specifier [importer.parent?.getD project.root] specifier
  /-- a specifier that starts with a slash -/
  | rooted (rest : String) : Anchored project importer ("/" ++ rest) [project.root] rest
  /-- any other that an alias applies to -/
  | aliased {specifier rest : String} {rule : AliasRule} (hrelative : ¬ IsRelative specifier)
    (hrooted : ∀ rest, specifier ≠ "/" ++ rest) (h : project.aliases.lookup specifier = some (rule, rest)) :
    Anchored project importer specifier rule.targets rest

/-- The base of an anchor. -/
def baseOf (rest : String) (anchor : Path) : Path := (anchor.join rest).clean

/-- A target with nothing behind it is cleaned as if an empty name were. -/
theorem aliasBase_eq (target : Path) (rest : String) : aliasBase target rest = baseOf rest target := by
  rw [aliasBase, baseOf]
  split
  · rename_i hrest
    subst hrest
    refine Path.clean_congr ?_
    by_cases hempty : target.bytes = []
    · rw [Path.join_of_empty hempty]
      exact congrArg (fun bytes => Path.steps ⟨bytes⟩) hempty
    · rw [Path.steps_join hempty (by decide)]
      exact (List.append_nil _).symm
  · rfl

theorem Anchored.bases?_eq (h : Anchored project importer specifier anchors rest) :
    bases? project importer specifier = some (anchors.map (baseOf rest)) := by
  rw [bases?]
  cases h with
  | relative h => exact if_pos (isRelative_iff.2 h)
  | rooted rest =>
    have hslash : ("/" ++ rest).toList = '/' :: rest.toList := String.toList_append
    have hrelative : ¬ isRelative ("/" ++ rest) = true := by
      rw [isRelative_iff]
      rintro (h | h | ⟨tail, h | h⟩)
      all_goals
        have hhead := congrArg (·.toList.head?) h
        rw [hslash] at hhead
        simp at hhead
    rw [if_neg hrelative, hslash]
    exact congrArg (fun (rest : String) => some [(project.root.join rest).clean]) String.ofList_toList
  | aliased hrelative hrooted h =>
    rw [if_neg fun hrel => hrelative (isRelative_iff.1 hrel)]
    split
    · rename_i cs hcs
      refine absurd ?_ (hrooted (String.ofList cs))
      rw [← String.toList_inj, hcs]
      simp
    · rw [h]
      exact congrArg some (List.map_congr_left fun target _ => aliasBase_eq target rest)

/-- In a table that aliases were added to, every rule has targets, so there is a base. -/
theorem Anchored.ne_nil {aliases : List (String × List Path)} (haliases : project.aliases = .ofList aliases)
    (h : Anchored project importer specifier anchors rest) : anchors ≠ [] := by
  cases h with
  | relative h => exact List.cons_ne_nil _ _
  | rooted rest => exact List.cons_ne_nil _ _
  | aliased hrelative hrooted h =>
    rw [haliases] at h
    obtain ⟨-, i, hi, -⟩ := AliasTable.of_lookup_ofList h
    exact hi.2.1.2.2

/-! ## Candidates -/

/-- The paths that an import of `base` may mean, in order: the base, sources that compile to it, the base with
an extension behind it, and index files in it. -/
def meanings (base : Path) : List Path :=
  base :: ((Extension.sources (base.extension?.getD "")).map base.withExtension ++
    Extension.scripts.map (fun ext => ⟨base.bytes ++ Bytes.ofText ("." ++ ext)⟩) ++
    Extension.scripts.map (fun ext => base.join (Bytes.ofText ("index." ++ ext))))

/-- What is looked for is what is meant exactly if the base is a text. -/
theorem meanings_eq_iff : meanings base = base :: candidates base ↔ base.isText = true := by
  rw [meanings, candidates]
  refine ⟨fun h => ?_, fun h => ?_⟩
  · -- sources and index files are the same on both sides
    have hscripts := List.append_cancel_left (List.append_cancel_right (List.tail_eq_of_cons_eq h))
    have hfirst := congrArg Path.bytes (List.map_inj_left.1 hscripts "tsx" (by decide))
    have htext : (base.bytes ++ Bytes.ofText ".tsx").isText = true := by
      rw [show base.bytes ++ Bytes.ofText ".tsx" = _ from hfirst]
      exact Bytes.isText_ofText _
    rw [show Bytes.ofText ".tsx" = Bytes.dot :: Bytes.ofText "tsx" from rfl,
      Bytes.isText_append Bytes.utf8EncodeChar_dot, Bool.and_eq_true] at htext
    exact htext.1
  · simp only [Path.appendShown_eq h]

/-- No candidate of a base is a file. -/
def Empty (d : Disk) (base : Path) : Prop := ∀ p ∈ base :: candidates base, d.isFile p = false

/-- A file that is no script. -/
def IsAsset (d : Disk) (base : Path) : Prop := d.isFile base = true ∧ base.isScript = false

theorem probe_eq_missing : probe d base = .missing ↔ Empty d base := by
  rw [probe, Empty, List.forall_mem_cons]
  cases hfile : d.isFile base with
  | true =>
    refine iff_of_false ?_ (by simp)
    rw [if_pos rfl]
    split <;> simp
  | false =>
    rw [if_neg Bool.false_ne_true, and_iff_right rfl]
    split
    · rename_i p hfind
      refine iff_of_false (by simp) fun hnone => ?_
      exact absurd (List.find?_some hfind) (by simp [hnone p (List.mem_of_find?_eq_some hfind)])
    · rename_i hfind
      exact iff_of_true rfl fun p hp => by simpa using List.find?_eq_none.1 hfind p hp

theorem probe_eq_asset : probe d base = .asset ↔ IsAsset d base := by
  rw [probe, IsAsset]
  split
  · rename_i hfile
    split
    · rename_i hscript
      exact iff_of_false (by simp) (by simp [hscript])
    · rename_i hscript
      exact iff_of_true rfl ⟨hfile, by simpa using hscript⟩
  · rename_i hfile
    refine iff_of_false ?_ fun h => hfile h.1
    split <;> simp

/-- A script that is found is the first candidate that is a file, by its link-free path. -/
theorem exists_of_probe (h : probe d base = .script q) :
    ∃ p, (base :: candidates base).find? d.isFile = some p ∧ d.canonical p = .ok q := by
  have hcanonical : ∀ {p}, d.isFile p = true → d.canonicalOr p = q → d.canonical p = .ok q := by
    intro p hfile hq
    rw [Disk.canonical_eq_canonicalOr hfile, hq]
  rw [probe] at h
  split at h
  · rename_i hfile
    split at h
    · exact ⟨base, List.find?_cons_of_pos hfile, hcanonical hfile (Finding.script.inj h)⟩
    · cases h
  · rename_i hfile
    split at h
    · rename_i p hfind
      refine ⟨p, ?_, hcanonical (List.find?_some hfind) (Finding.script.inj h)⟩
      rwa [List.find?_cons_of_neg hfile]
    · cases h

/-! ## The first base with a file -/

theorem firstOf_append (h : ∀ b ∈ before, Empty d b) :
    firstOf d otherwise (before ++ after) = firstOf d otherwise after := by
  induction before with
  | nil => rfl
  | cons b before ih =>
    obtain ⟨hb, hbefore⟩ := List.forall_mem_cons.1 h
    rw [List.cons_append, firstOf, probe_eq_missing.2 hb]
    exact ih hbefore

/-- The first base with a file decides. -/
theorem firstOf_decides (hbefore : ∀ b ∈ before, Empty d b) (hbase : ¬ Empty d base) :
    (firstOf d otherwise (before ++ base :: after) = none ↔ IsAsset d base) ∧
      (¬ IsAsset d base → ∃ p q, (base :: candidates base).find? d.isFile = some p ∧
        d.canonical p = .ok q ∧ firstOf d otherwise (before ++ base :: after) = some q) := by
  rw [firstOf_append hbefore, firstOf]
  cases hprobe : probe d base with
  | script q =>
    have hasset : ¬ IsAsset d base := by
      rw [← probe_eq_asset, hprobe]
      simp
    obtain ⟨p, hp, hq⟩ := exists_of_probe hprobe
    exact ⟨iff_of_false (by simp) hasset, fun _ => ⟨p, q, hp, hq, rfl⟩⟩
  | asset =>
    have hasset := probe_eq_asset.1 hprobe
    exact ⟨iff_of_true rfl hasset, fun hnot => absurd hasset hnot⟩
  | missing => exact absurd (probe_eq_missing.1 hprobe) hbase

theorem firstOf_empty (h : ∀ b ∈ bases, Empty d b) : firstOf d otherwise bases = otherwise := by
  calc firstOf d otherwise bases
      = firstOf d otherwise (bases ++ []) := by rw [List.append_nil]
    _ = otherwise := firstOf_append h

/-- Bases without any file, or a first base with one. -/
theorem exists_first (d : Disk) (bases : List Path) : (∀ b ∈ bases, Empty d b) ∨
    ∃ before base after, bases = before ++ base :: after ∧ (∀ b ∈ before, Empty d b) ∧ ¬ Empty d base := by
  induction bases with
  | nil => exact .inl (List.forall_mem_nil _)
  | cons b bases ih =>
    by_cases hb : Empty d b
    · rcases ih with hempty | ⟨before, base, after, rfl, hbefore, hbase⟩
      · exact .inl (List.forall_mem_cons.2 ⟨hb, hempty⟩)
      · exact .inr ⟨b :: before, base, after, rfl, List.forall_mem_cons.2 ⟨hb, hbefore⟩, hbase⟩
    · exact .inr ⟨[], b, bases, rfl, List.forall_mem_nil _, hb⟩

/-! ## What an import leads to -/

/-- **What an import should lead to**, given its bases, the paths that each base may mean, and the path that stands
for a base where nothing is. -/
structure Answered (d : Disk) (means : Path → List Path) (missing : Path → Path) (bases : List Path)
    (answer : Option Path) : Prop where
  /-- where nothing is a file, the first base stands for all of them, and the answer is no file either -/
  dead : (∀ base ∈ bases, ∀ p ∈ means base, d.isFile p = false) → ∃ first others, bases = first :: others ∧
    answer = some (missing first) ∧ d.isFile (missing first) = false
  /-- else the first base with a file decides: an asset there ends the search, and if there is none, the answer is
  the link-free path of the first file that the base may mean -/
  found : ∀ before base after, bases = before ++ base :: after →
    (∀ b ∈ before, ∀ p ∈ means b, d.isFile p = false) → (∃ p ∈ means base, d.isFile p = true) →
    (answer = none ↔ IsAsset d base) ∧ (¬ IsAsset d base →
      ∃ p q, (means base).find? d.isFile = some p ∧ d.canonical p = .ok q ∧ answer = some q)
  /-- so only an asset is left without an answer -/
  asset : answer = none → ∃ base ∈ bases, IsAsset d base

/-- The search answers as it should for the paths that it looks for. -/
theorem answered_firstOf (hne : bases ≠ []) :
    Answered d (fun base => base :: candidates base) fallback bases
      (firstOf d (bases.head?.map fallback) bases) where
  dead hempty := by
    obtain ⟨first, others, rfl⟩ := List.exists_cons_of_ne_nil hne
    have hfirst : Empty d first := hempty first List.mem_cons_self
    exact ⟨first, others, rfl, firstOf_empty hempty, isFile_fallback_of_probe (probe_eq_missing.2 hfirst)⟩
  found before base after hsplit hbefore hbase := by
    obtain ⟨p, hp, hfile⟩ := hbase
    have hbase : ¬ Empty d base := fun hempty => by simp [hempty p hp] at hfile
    generalize bases.head?.map fallback = otherwise
    rw [hsplit]
    exact firstOf_decides hbefore hbase
  asset hnone := by
    rcases exists_first d bases with hempty | ⟨before, base, after, hsplit, hbefore, hbase⟩
    · obtain ⟨first, others, rfl⟩ := List.exists_cons_of_ne_nil hne
      rw [firstOf_empty hempty] at hnone
      cases hnone
    · refine ⟨base, by simp [hsplit], ?_⟩
      generalize bases.head?.map fallback = otherwise at hnone
      rw [hsplit] at hnone
      exact (firstOf_decides hbefore hbase).1.1 hnone

/-- Only what the bases themselves may mean counts. -/
theorem Answered.congr {means means' : Path → List Path} {missing missing' : Path → Path} {answer : Option Path}
    (h : Answered d means missing bases answer) (hmeans : ∀ base ∈ bases, means' base = means base)
    (hmissing : ∀ base ∈ bases, missing' base = missing base) : Answered d means' missing' bases answer where
  dead hempty := by
    have hempty' : ∀ base ∈ bases, ∀ p ∈ means base, d.isFile p = false := by
      intro base hbase
      rw [← hmeans base hbase]
      exact hempty base hbase
    obtain ⟨first, others, rfl, hanswer, hfile⟩ := h.dead hempty'
    refine ⟨first, others, rfl, ?_⟩
    rw [hmissing first List.mem_cons_self]
    exact ⟨hanswer, hfile⟩
  found before base after hsplit hbefore hbase := by
    have hbefore' : ∀ b ∈ before, ∀ p ∈ means b, d.isFile p = false := by
      intro b hb
      rw [← hmeans b (by simp [hsplit, hb])]
      exact hbefore b hb
    rw [hmeans base (by simp [hsplit])] at hbase ⊢
    exact h.found before base after hsplit hbefore' hbase
  asset := h.asset

end Resolve

open Resolve

namespace Memo

/-- A project where an alias has two targets, and a stylesheet stands beside a script. -/
def shelves : Disk where
  tree := .dir [("w", .dir [("p.tsx", .file (.ofText "")), ("p.css", .file (.ofText "")),
    ("lib", .dir [("x.ts", .file (.ofText ""))])])]
  cwd := ["w"]

/-- The alias of `shelves`. -/
def shelfAliases : List (String × List Path) := [("~/*", [⟨"/w/src"⟩, ⟨"/w/lib"⟩])]

theorem anchored_shelf {n : String} (hrelative : isRelative ("~/" ++ n) = false)
    (h : (AliasTable.ofList shelfAliases).lookup ("~/" ++ n) = some (⟨"~/", true, [⟨"/w/src"⟩, ⟨"/w/lib"⟩]⟩, n)) :
    Anchored ⟨⟨"/w"⟩, .ofList shelfAliases⟩ ⟨"/w/p.tsx"⟩ ("~/" ++ n) [⟨"/w/src"⟩, ⟨"/w/lib"⟩] n := by
  have hdots : ¬ IsRelative ("~/" ++ n) := by
    rw [← isRelative_iff, hrelative]
    exact Bool.false_ne_true
  have hslash : ∀ rest, "~/" ++ n ≠ "/" ++ rest := by
    intro rest hrest
    have hhead := congrArg (·.toList.head?) hrest
    simp at hhead
  exact @Anchored.aliased ⟨⟨"/w"⟩, .ofList shelfAliases⟩ _ _ _ _ hdots hslash h

-- The condition cannot be dropped: the name of this directory is no text, and beside the file that the import
-- means, the answer is a path that the directory only shows.
example :
    let directory : Bytes := 0x2F :: 0x70 :: 0xFF :: []
    let d : Disk := ⟨.dir [(0x70 :: 0xFF :: [], .dir [("b.tsx", .file (.ofText ""))])], []⟩
    d.isFile ⟨directory ++ Bytes.ofText "/b.tsx"⟩ = true ∧
      (empty.resolve d ⟨⟨directory⟩, .empty⟩ ⟨directory ++ Bytes.ofText "/a.tsx"⟩ "./b").1 =
        some ⟨"/p\uFFFD/b.tsx"⟩ := by
  decide +kernel

end Memo

end ClientBoundary
