import Mathlib.Data.List.Destutter
import ClientBoundary.Proofs.Collection
import ClientBoundary.Proofs.Widening

/-!
# The order of listings

A directory lists its entries in no order that can be relied on. Two trees that differ only in these orders are
**relisted**. At each place of well-formed trees, the same is then to be found: the same file, the same link, or a directory
(`Node.Relisted.alike`). That is all that a search asks for, so every path leads to the same place (`Disk.Alike.locate`), the
same ignore files are read, and a walk lists the same paths, in another order (`Walk.paths_alike`).

The component files are listed without links, where a place is spelt in one way only. So the order of paths is a strict
order of them, which sorting puts next to each other where they are equal (`Collect.sorted_eq_destutter`), and they are
the same whatever order the walk lists its paths in (`Collect.ofPaths_congr`).
-/

namespace ClientBoundary

/-! ## File trees -/

namespace Node

variable {n m k : Node} {name : Bytes} {place : Place} {es fs : List (Bytes × Node)}

/-- Trees that differ at most in the order in which directories list their entries. -/
inductive Relisted : Node → Node → Prop where
  /-- nothing differs -/
  | refl (n : Node) : Relisted n n
  /-- one order after the other -/
  | trans {n m k : Node} : Relisted n m → Relisted m k → Relisted n k
  /-- a directory lists its entries in another order -/
  | perm {es fs : List (Bytes × Node)} : es.Perm fs → Relisted (.dir es) (.dir fs)
  /-- a directory lists an entry that is relisted -/
  | entry (es fs : List (Bytes × Node)) (name : Bytes) {n m : Node} :
      Relisted n m → Relisted (.dir (es ++ (name, n) :: fs)) (.dir (es ++ (name, m) :: fs))

/-- A node without what it lists. -/
def bare : Node → Node
  | file content => file content
  | link target => link target
  | dir _ => dir []

/-- Trees in which the same is to be found at each place. -/
def Alike (n m : Node) : Prop := ∀ place, (n.get? place).map bare = (m.get? place).map bare

/-- Two nodes that are alike, or none and none. -/
def BothAlike (a b : Option Node) : Prop :=
  (a = none ∧ b = none) ∨ ∃ n m, a = some n ∧ b = some m ∧ Alike n m

theorem get?_singleton (n : Node) (name : Bytes) : n.get? [name] = n.entry? name := by
  rw [get?]
  cases n.entry? name <;> rfl

namespace Alike

theorem refl (n : Node) : Alike n n := fun _ => rfl

theorem symm (h : Alike n m) : Alike m n := fun place => (h place).symm

theorem trans (h : Alike n m) (h' : Alike m k) : Alike n k := fun place => (h place).trans (h' place)

/-- Nodes that are alike are of one kind. -/
theorem kinds (h : Alike n m) : (∃ content, n = .file content ∧ m = .file content) ∨
    (∃ target, n = .link target ∧ m = .link target) ∨ ∃ es fs, n = .dir es ∧ m = .dir fs := by
  have hbare : n.bare = m.bare := Option.some.inj (h [])
  cases n with
  | file content =>
    cases m with
    | file content' =>
      cases hbare
      exact .inl ⟨content, rfl, rfl⟩
    | link target => cases hbare
    | dir fs => cases hbare
  | link target =>
    cases m with
    | file content => cases hbare
    | link target' =>
      cases hbare
      exact .inr (.inl ⟨target, rfl, rfl⟩)
    | dir fs => cases hbare
  | dir es =>
    cases m with
    | file content => cases hbare
    | link target => cases hbare
    | dir fs => exact .inr (.inr ⟨es, fs, rfl, rfl⟩)

theorem isDir (h : Alike n m) : n.isDir = m.isDir := by
  obtain ⟨_, rfl, rfl⟩ | ⟨_, rfl, rfl⟩ | ⟨_, _, rfl, rfl⟩ := h.kinds <;> rfl

theorem isFile (h : Alike n m) : n.isFile = m.isFile := by
  obtain ⟨_, rfl, rfl⟩ | ⟨_, rfl, rfl⟩ | ⟨_, _, rfl, rfl⟩ := h.kinds <;> rfl

/-- What is at a place is alike in trees that are. -/
theorem get? (h : Alike n m) (place : Place) : BothAlike (n.get? place) (m.get? place) := by
  have hplace := h place
  cases ha : n.get? place with
  | none =>
    rw [ha] at hplace
    exact .inl ⟨rfl, Option.map_eq_none_iff.1 hplace.symm⟩
  | some a =>
    rw [ha] at hplace
    obtain ⟨b, hb, -⟩ := Option.map_eq_some_iff.1 hplace.symm
    refine .inr ⟨a, b, rfl, hb, fun rest => ?_⟩
    have hrest := h (place ++ rest)
    rwa [get?_append, get?_append, ha, hb] at hrest

theorem entry? (h : Alike n m) (name : Bytes) : BothAlike (n.entry? name) (m.entry? name) := by
  rw [← get?_singleton, ← get?_singleton]
  exact h.get? [name]

/-- Directories are alike if they have the same names, each for trees that are alike. -/
theorem dir (h : ∀ name, BothAlike (es.lookup name) (fs.lookup name)) : Alike (.dir es) (.dir fs) := by
  intro place
  cases place with
  | nil => rfl
  | cons name rest =>
    rw [Node.get?, Node.get?, Node.entry?, Node.entry?, entries, entries]
    obtain ⟨ha, hb⟩ | ⟨a, b, ha, hb, halike⟩ := h name
    · rw [ha, hb]
    · rw [ha, hb]
      exact halike rest

end Alike

theorem bothAlike_refl (a : Option Node) : BothAlike a a := by
  cases a with
  | none => exact .inl ⟨rfl, rfl⟩
  | some n => exact .inr ⟨n, n, rfl, rfl, .refl n⟩

/-- Entries with distinct names are looked up alike in any order. -/
theorem lookup_perm (hnodup : (es.map Prod.fst).Nodup) (h : es.Perm fs) (name : Bytes) :
    es.lookup name = fs.lookup name := by
  have hnodup' : (fs.map Prod.fst).Nodup := (h.map _).nodup_iff.1 hnodup
  refine Option.ext fun n => ⟨fun hn => ?_, fun hn => ?_⟩
  · exact lookup_of_mem hnodup' (h.mem_iff.1 (mem_of_lookup hn))
  · exact lookup_of_mem hnodup (h.mem_iff.2 (mem_of_lookup hn))

/-- **The order of listings does not show** in what is to be found in a well-formed tree. -/
theorem Relisted.alike (h : Relisted n m) (hwell : n.WellFormed) : m.WellFormed ∧ Alike n m := by
  induction h with
  | refl n => exact ⟨hwell, .refl n⟩
  | trans _ _ ih ih' =>
    obtain ⟨hwell, halike⟩ := ih hwell
    obtain ⟨hwell', halike'⟩ := ih' hwell
    exact ⟨hwell', halike.trans halike'⟩
  | perm h =>
    cases hwell with
    | dir hnodup hnames hnodes =>
      refine ⟨.dir ((h.map _).nodup_iff.1 hnodup) ?_ ?_, .dir fun name => ?_⟩
      · exact fun e he => hnames e (h.mem_iff.2 he)
      · exact fun e he => hnodes e (h.mem_iff.2 he)
      · rw [lookup_perm hnodup h]
        exact bothAlike_refl _
  | entry es fs name h ih =>
    cases hwell with
    | dir hnodup hnames hnodes =>
      obtain ⟨hnames, hothers⟩ := List.forall_mem_append.1 hnames
      obtain ⟨hname, hnames'⟩ := List.forall_mem_cons.1 hothers
      obtain ⟨hnodes, hothers⟩ := List.forall_mem_append.1 hnodes
      obtain ⟨hnode, hnodes'⟩ := List.forall_mem_cons.1 hothers
      obtain ⟨hwell, halike⟩ := ih hnode
      refine ⟨.dir (by simpa using hnodup) ?_ ?_, .dir fun key => ?_⟩
      · exact List.forall_mem_append.2 ⟨hnames, List.forall_mem_cons.2 ⟨hname, hnames'⟩⟩
      · exact List.forall_mem_append.2 ⟨hnodes, List.forall_mem_cons.2 ⟨hwell, hnodes'⟩⟩
      · rw [List.lookup_append, List.lookup_append, List.lookup_cons, List.lookup_cons]
        cases es.lookup key with
        | some other => exact bothAlike_refl _
        | none =>
          cases key == name with
          | false => exact bothAlike_refl _
          | true => exact .inr ⟨_, _, rfl, rfl, halike⟩

end Node

/-! ## Searches -/

/-- Disks with the same current directory in which the same is to be found at each place. -/
structure Disk.Alike (d d' : Disk) : Prop where
  /-- the trees -/
  tree : d.tree.Alike d'.tree
  /-- the current directories -/
  cwd : d.cwd = d'.cwd

namespace Disk

variable {d d' : Disk} {tree tree' : Node}

/-- Searches that end with the same error, or at the same place with nodes that are alike. -/
def BothEnd (s s' : Search) : Prop :=
  (∃ e, s = .error e ∧ s' = .error e) ∨
    ∃ place n m, s = .ok ⟨place, n⟩ ∧ s' = .ok ⟨place, m⟩ ∧ n.Alike m

theorem bothEnd_error (e : DiskError) : BothEnd (.error e) (.error e) := .inl ⟨e, rfl, rfl⟩

/-- Searches in trees that are alike go the same way, if they do so behind links. -/
theorem step_alike (h : tree.Alike tree') {onLink onLink' : Node.Place → List Bytes → Search}
    (hlink : ∀ place segments, BothEnd (onLink place segments) (onLink' place segments)) (segments : List Bytes)
    (place : Node.Place) : BothEnd (step tree onLink place segments) (step tree' onLink' place segments) := by
  induction segments generalizing place with
  | nil =>
    rw [step, step]
    obtain ⟨hn, hm⟩ | ⟨n, m, hn, hm, halike⟩ := h.get? place
    · rw [hn, hm]
      exact bothEnd_error _
    · rw [hn, hm]
      exact .inr ⟨place, n, m, rfl, rfl, halike⟩
  | cons segment rest ih =>
    rw [step, step]
    obtain ⟨hn, hm⟩ | ⟨n, m, hn, hm, halike⟩ := h.get? place
    · rw [hn, hm]
      exact bothEnd_error _
    simp only [hn, hm, halike.isDir]
    -- the searches ask the same of the segment, and of the entry that it names
    split
    · exact bothEnd_error _
    split
    · exact ih place
    split
    · exact ih place.dropLast
    split
    · exact bothEnd_error _
    obtain ⟨ha, hb⟩ | ⟨a, b, ha, hb, hentry⟩ := halike.entry? segment
    · rw [ha, hb]
      exact bothEnd_error _
    · rw [ha, hb]
      obtain ⟨content, rfl, rfl⟩ | ⟨target, rfl, rfl⟩ | ⟨es, fs, rfl, rfl⟩ := hentry.kinds
      · exact ih (place ++ [segment])
      · exact hlink place (segmentsOf target ++ rest)
      · exact ih (place ++ [segment])

theorem follow_alike (h : tree.Alike tree') (links : Nat) (place : Node.Place) (segments : List Bytes) :
    BothEnd (follow tree links place segments) (follow tree' links place segments) := by
  induction links generalizing place segments with
  | zero => exact step_alike h (fun _ _ => bothEnd_error _) segments place
  | succ links ih =>
    refine step_alike h (fun place segments => ?_) segments place
    split
    · exact ih [] _
    · exact ih place segments

namespace Alike

theorem symm (h : d.Alike d') : d'.Alike d := ⟨h.tree.symm, h.cwd.symm⟩

variable (h : d.Alike d')

include h

/-- **Every path leads to the same place** of disks that are alike. -/
theorem locate (p : Path) : BothEnd (d.locate p) (d'.locate p) := by
  have hway : d'.wayTo p = d.wayTo p := by rw [wayTo, wayTo, cwdPath, cwdPath, h.cwd]
  rw [Disk.locate, Disk.locate, hway]
  split
  · exact bothEnd_error _
  split
  · exact bothEnd_error _
  split
  · exact bothEnd_error _
  exact follow_alike h.tree maxLinks [] (d.wayTo p)

theorem isFile (p : Path) : d.isFile p = d'.isFile p := by
  rw [Disk.isFile, Disk.isFile]
  obtain ⟨e, he, he'⟩ | ⟨place, n, m, hn, hm, halike⟩ := h.locate p
  · rw [he, he']
  · rw [hn, hm]
    exact halike.isFile

theorem isThere (p : Path) : d.isThere p = d'.isThere p := by
  rw [Disk.isThere, Disk.isThere]
  obtain ⟨e, he, he'⟩ | ⟨place, n, m, hn, hm, -⟩ := h.locate p
  · rw [he, he']
  · rw [hn, hm]
    rfl

theorem canonical (p : Path) : d.canonical p = d'.canonical p := by
  rw [Disk.canonical, Disk.canonical]
  obtain ⟨e, he, he'⟩ | ⟨place, n, m, hn, hm, -⟩ := h.locate p
  · rw [he, he']
  · rw [hn, hm]
    rfl

theorem readFile (p : Path) : Layer.readFile d p = Layer.readFile d' p := by
  rw [Layer.readFile, Layer.readFile]
  obtain ⟨e, he, he'⟩ | ⟨place, n, m, hn, hm, halike⟩ := h.locate p
  · rw [he, he']
  · rw [hn, hm]
    obtain ⟨_, rfl, rfl⟩ | ⟨_, rfl, rfl⟩ | ⟨_, _, rfl, rfl⟩ := halike.kinds <;> rfl

theorem firstLine? (p : Path) : Layer.firstLine? d p = Layer.firstLine? d' p := by
  rw [Layer.firstLine?, Layer.firstLine?]
  obtain ⟨e, he, he'⟩ | ⟨place, n, m, hn, hm, halike⟩ := h.locate p
  · rw [he, he']
  · rw [hn, hm]
    obtain ⟨_, rfl, rfl⟩ | ⟨_, rfl, rfl⟩ | ⟨_, _, rfl, rfl⟩ := halike.kinds <;> rfl

theorem sharedDirectory? (p : Path) : Layer.sharedDirectory? d p = Layer.sharedDirectory? d' p := by
  simp only [Layer.sharedDirectory?, h.firstLine?, h.isThere]

/-- The same ignore files are read. -/
theorem load (isAbove : Bool) (directory : Path) :
    Layer.load d isAbove directory = Layer.load d' isAbove directory := by
  simp only [Layer.load, Layer.readExclude, h.readFile, h.isFile, h.isThere, h.sharedDirectory?]

end Alike

end Disk

/-! ## Walks -/

namespace Walk

variable {d d' : Disk} {exclude : List String} {layers : List Layer} {path place p : Path} {n m : Node}

/-- Below a node the same paths are listed as below one that is like it. -/
theorem mem_below_alike (h : d.Alike d') (hwell : n.WellFormed) (hnode : n.Alike m)
    (hp : p ∈ below ⟨d, exclude⟩ layers path place n) : p ∈ below ⟨d', exclude⟩ layers path place m := by
  induction hwell generalizing m layers path place with
  | file content =>
    rw [below] at hp
    cases hp
  | link target =>
    rw [below] at hp
    cases hp
  | dir hnodup _ _ ih =>
    obtain ⟨_, hfile, -⟩ | ⟨_, hlink, -⟩ | ⟨es, fs, heq, rfl⟩ := hnode.kinds
    · cases hfile
    · cases hlink
    cases heq
    rw [below] at hp ⊢
    obtain ⟨e, he, hpasses, hp⟩ := mem_among_iff.1 hp
    -- the entry is listed under its name on the other side too
    have hentry : Node.entry? (.dir _) e.1 = some e.2 := Node.lookup_of_mem hnodup he
    obtain ⟨hnone, -⟩ | ⟨a, b, ha, hb, halike⟩ := hnode.entry? e.1
    · cases hnone.symm.trans hentry
    obtain rfl := Option.some.inj (ha.symm.trans hentry)
    refine mem_among_iff.2 ⟨(e.1, b), Node.mem_of_lookup hb, ?_, ?_⟩
    · rw [← h.load, ← halike.isDir]
      exact hpasses
    · rw [← h.load]
      exact hp.imp_right fun hbelow => ih e he halike hbelow

/-- **Walks of disks that are alike** fail alike, or list the same paths. -/
theorem paths_alike (h : d.Alike d') (hwell : d.tree.WellFormed) (hwell' : d'.tree.WellFormed) (root : Path) :
    (∃ e, paths ⟨d, exclude⟩ root = .error e ∧ paths ⟨d', exclude⟩ root = .error e) ∨
      ∃ listed listed', paths ⟨d, exclude⟩ root = .ok listed ∧ paths ⟨d', exclude⟩ root = .ok listed' ∧
        ∀ p, p ∈ listed' ↔ p ∈ listed := by
  have habove : layersAbove ⟨d', exclude⟩ = layersAbove ⟨d, exclude⟩ := by
    funext place
    simp only [layersAbove, h.load]
  rw [paths, paths]
  split
  · exact .inr ⟨[], [], rfl, rfl, fun p => .rfl⟩
  obtain ⟨e, he, he'⟩ | ⟨place, n, m, hn, hm, halike⟩ := h.locate root
  · simp only [he, he']
    exact .inl ⟨_, rfl, rfl⟩
  simp only [hn, hm, halike.isDir, habove]
  split
  · exact .inr ⟨[root], [root], rfl, rfl, fun p => .rfl⟩
  split
  · exact .inl ⟨_, rfl, rfl⟩
  -- both list the root, and below it the same
  refine .inr ⟨_, _, rfl, rfl, fun p => ?_⟩
  rw [List.mem_cons, List.mem_cons]
  refine or_congr_right ⟨fun hp => ?_, fun hp => ?_⟩
  · exact mem_below_alike h.symm (hwell'.get? (Disk.locate_reached hm).2) halike.symm hp
  · exact mem_below_alike h (hwell.get? (Disk.locate_reached hn).2) halike hp

end Walk

/-! ## Paths in order -/

namespace Path

variable {p q r : Path}

theorem order_asymm (h : p.order q = .lt) : q.order p ≠ .lt := by
  rw [Std.OrientedCmp.gt_of_lt h]
  decide

theorem le_iff_isLE : p.le q = true ↔ (p.order q).isLE = true := by
  rw [le, bne_iff_ne, Ordering.isLE_iff_ne_gt]

theorem le_trans (h : p.le q = true) (h' : q.le r = true) : p.le r = true :=
  le_iff_isLE.2 (Std.TransCmp.isLE_trans (le_iff_isLE.1 h) (le_iff_isLE.1 h'))

theorem le_total (p q : Path) : (p.le q || q.le p) = true := by
  have hswap : q.order p = (p.order q).swap := Std.OrientedCmp.eq_swap
  rw [Bool.or_eq_true, le_iff_isLE, le_iff_isLE, hswap]
  cases p.order q <;> simp

/-- One path is the other or precedes it. Two spellings of one place are not in this order, as they are in `le`. -/
def Ascends (p q : Path) : Prop := p = q ∨ p.order q = .lt

instance : Std.Antisymm Ascends where
  antisymm p q hpq hqp := by
    rcases hpq with rfl | hlt
    · rfl
    · exact (hqp.resolve_right (order_asymm hlt)).symm

end Path

/-! ## Component files -/

namespace Collect

variable {d d' : Disk} {p q root : Path} {paths paths' : List Path} {exclude : List String}

theorem isComponent_iff : p.isComponent = true ↔ p.extension? = some "tsx" ∨ p.extension? = some "jsx" := by
  rw [Path.isComponent, Path.hasExtension]
  cases p.extension? with
  | none => simp
  | some ext => simp [Extension.components]

/-- Paths in strict order are told by what is among them. -/
theorem eq_of_mem_iff (h : paths.Pairwise fun p q => p.order q = .lt) (h' : paths'.Pairwise fun p q => p.order q = .lt)
    (hmem : ∀ p, p ∈ paths ↔ p ∈ paths') : paths = paths' := by
  have hnodup : ∀ {paths : List Path}, (paths.Pairwise fun p q => p.order q = .lt) → paths.Nodup :=
    fun h => (Path.nodup_steps h).of_map _
  refine ((List.perm_ext_iff_of_nodup (hnodup h) (hnodup h')).2 hmem).eq_of_pairwise ?_ h h'
  exact fun p q _ _ hpq hqp => absurd hqp (Path.order_asymm hpq)

/-- Plain paths that are sorted repeat a place only by repeating the path. -/
theorem ascends_mergeSort (hplain : ∀ p ∈ paths, p.IsPlain) : (paths.mergeSort Path.le).Pairwise Path.Ascends := by
  have hsorted := @List.pairwise_mergeSort Path Path.le (fun _ _ _ => Path.le_trans) Path.le_total paths
  refine hsorted.imp_of_mem fun {p q} hp hq hpq => ?_
  cases horder : p.order q with
  | lt => exact .inr horder
  | eq =>
    have hp := hplain p (List.mem_mergeSort.1 hp)
    exact .inl (hp.eq_of_steps (hplain q (List.mem_mergeSort.1 hq)) (Path.order_eq_eq_iff.1 horder))
  | gt => simp [Path.le, horder] at hpq

/-- **Sorting plain paths and leaving out each that repeats the one before** gives them in order, each once. -/
theorem sorted_eq_destutter (hplain : ∀ p ∈ paths, p.IsPlain) :
    sorted paths = (paths.mergeSort Path.le).destutter (· ≠ ·) := by
  have hascends := ascends_mergeSort hplain
  rw [hascends.destutter_eq_dedup]
  refine eq_of_mem_iff (pairwise_sorted paths) ?_ fun p => ?_
  · exact (hascends.sublist (List.dedup_sublist _)).imp₂ (fun p q h hne => h.resolve_left hne) (List.nodup_dedup _)
  · rw [mem_sorted_iff hplain, List.mem_dedup, List.mem_mergeSort]

/-- **Component files do not depend on the order of the walk**, nor on how often it lists a path. -/
theorem ofPaths_congr (h : ∀ p, p ∈ paths' ↔ p ∈ paths) : ofPaths d paths' = ofPaths d paths := by
  refine eq_of_mem_iff (pairwise_sorted _) (pairwise_sorted _) fun p => ⟨fun hp => ?_, fun hp => ?_⟩
  · exact mem_ofPaths (fun q => (h q).1) hp
  · exact mem_ofPaths (fun q => (h q).2) hp

theorem ofPaths_alike (h : d.Alike d') (paths : List Path) : ofPaths d paths = ofPaths d' paths := by
  refine eq_of_mem_iff (pairwise_sorted _) (pairwise_sorted _) fun q => ?_
  simp only [mem_ofPaths_iff, h.isFile, h.canonical]

/-- **Component files do not depend on the order of listings.** -/
theorem components_relisted (hwell : d.tree.WellFormed) (htree : d.tree.Relisted d'.tree) (hcwd : d.cwd = d'.cwd) :
    components d root exclude = components d' root exclude := by
  obtain ⟨hwell', halike⟩ := htree.alike hwell
  have h : d.Alike d' := ⟨halike, hcwd⟩
  rw [components, components]
  obtain ⟨e, he, he'⟩ | ⟨listed, listed', hlisted, hlisted', hmem⟩ := Walk.paths_alike h hwell hwell' root
  · rw [he, he']
    rfl
  · rw [hlisted, hlisted']
    exact congrArg Except.ok ((ofPaths_alike h listed).trans (ofPaths_congr hmem).symm)

/-- **Collection in any order.** Whatever paths a walk lists, the component files among them are in strict order, each once,
and they are exactly the link-free paths of those that lead to a regular file and have the extension of a component: what is
left when these are sorted and each that repeats the one before is left out. They are the same for all lists of the same
paths. So they are collected at the root of the walk whatever order the directories of the disk list their entries in. -/
theorem components_any_order (d : Disk) (paths : List Path) :
    ((ofPaths d paths).Pairwise fun p q => p.order q = .lt) ∧ (ofPaths d paths).Nodup ∧
      (∀ q, q ∈ ofPaths d paths ↔ ∃ p ∈ paths, d.isFile p = true ∧
        (p.extension? = some "tsx" ∨ p.extension? = some "jsx") ∧ d.canonical p = .ok q) ∧
      ofPaths d paths =
        (((paths.filter (isComponentFile d)).map d.canonicalOr).mergeSort Path.le).destutter (· ≠ ·) ∧
      (∀ paths', (∀ p, p ∈ paths' ↔ p ∈ paths) → ofPaths d paths' = ofPaths d paths) ∧
      ∀ root exclude, Walk.paths ⟨d, exclude⟩ root = .ok paths →
        components d root exclude = .ok (ofPaths d paths) ∧
          (d.tree.WellFormed → ∀ d' : Disk, d.tree.Relisted d'.tree → d.cwd = d'.cwd →
            components d' root exclude = .ok (ofPaths d paths)) := by
  have hordered : (ofPaths d paths).Pairwise fun p q => p.order q = .lt := pairwise_sorted _
  refine ⟨hordered, (Path.nodup_steps hordered).of_map _, fun q => ?_, ?_, fun paths' => ofPaths_congr, ?_⟩
  · simp only [mem_ofPaths_iff, isComponent_iff]
  · exact sorted_eq_destutter fun q => isPlain_of_mem_map
  · intro root exclude hwalk
    have hcomponents : components d root exclude = .ok (ofPaths d paths) := by
      rw [components, hwalk]
      rfl
    refine ⟨hcomponents, fun hwell d' htree hcwd => ?_⟩
    rw [← components_relisted hwell htree hcwd, hcomponents]

/-- The directory `a` of `drawer`: a component and a link to one. -/
def drawerCorner : List (Bytes × Node) := [("z.tsx", .file (.ofText "")), ("y.jsx", .link "../a.tsx")]

/-- What `drawer` holds besides. -/
def drawerRest : List (Bytes × Node) :=
  [("a b", .dir [("x.jsx", .file (.ofText ""))]), ("a.tsx", .file (.ofText "")), ("b.tsx", .link "a.tsx")]

/-- What `drawer` holds, with what its directory `a` lists. -/
def drawerEntries (corner : List (Bytes × Node)) : List (Bytes × Node) := ("a", .dir corner) :: drawerRest

/-- A project with names that bytes and steps order differently, and with two links to a file. -/
def drawer : Disk := ⟨.dir [("w", .dir (drawerEntries drawerCorner))], ["w"]⟩

/-- The same project, both directories listed backwards. -/
def drawerTurned : Disk := ⟨.dir [("w", .dir (drawerEntries drawerCorner.reverse).reverse)], ["w"]⟩

theorem wellFormed_drawer : drawer.tree.WellFormed := by
  have hcorner : Node.WellFormed (.dir drawerCorner) := by
    refine .dir (by decide) (by decide +kernel) ?_
    simp only [drawerCorner, List.forall_mem_cons]
    exact ⟨.file _, .link _, List.forall_mem_nil _⟩
  have hproject : Node.WellFormed (.dir (drawerEntries drawerCorner)) := by
    refine .dir (by decide) (by decide +kernel) ?_
    simp only [drawerEntries, drawerRest, List.forall_mem_cons]
    exact ⟨hcorner, .dir (by decide) (by decide +kernel) (List.forall_mem_singleton.2 (.file _)), .file _, .link _,
      List.forall_mem_nil _⟩
  exact .dir (by decide) (by decide +kernel) (List.forall_mem_singleton.2 hproject)

theorem relisted_drawer : drawer.tree.Relisted drawerTurned.tree := by
  have hcorner : Node.Relisted (.dir drawerCorner) (.dir drawerCorner.reverse) := .perm (List.reverse_perm _).symm
  exact .entry [] [] "w" (.trans (.entry [] drawerRest "a" hcorner) (.perm (List.reverse_perm _).symm))

/-- The component files of the project. -/
def drawerFiles : List Path := [⟨"/w/a/z.tsx"⟩, ⟨"/w/a b/x.jsx"⟩, ⟨"/w/a.tsx"⟩]

theorem components_any_order_drawer :
    components drawer ⟨"/w"⟩ [] = .ok drawerFiles ∧ components drawerTurned ⟨"/w"⟩ [] = .ok drawerFiles ∧
      Walk.paths ⟨drawer, []⟩ ⟨"/w"⟩ ≠ Walk.paths ⟨drawerTurned, []⟩ ⟨"/w"⟩ := by
  have hfiles : components drawer ⟨"/w"⟩ [] = .ok drawerFiles := by decide +kernel
  obtain ⟨paths, hwalk, hpaths⟩ := components_eq hfiles
  obtain ⟨-, -, -, -, -, hall⟩ := components_any_order drawer paths
  have hturned := (hall ⟨"/w"⟩ [] hwalk).2 wellFormed_drawer drawerTurned relisted_drawer rfl
  rw [← hpaths] at hturned
  exact ⟨hfiles, hturned, by decide +kernel⟩

end Collect

end ClientBoundary
