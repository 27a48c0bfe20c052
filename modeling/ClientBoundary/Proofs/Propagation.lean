import Mathlib.Data.Finset.Card
import ClientBoundary.Propagation
import ClientBoundary.Proofs.Ledger
import ClientBoundary.Proofs.Resolve

/-!
# Runs of propagation

What one file contributes is told without the state of a run: the files that its edges lead to
(`targets`) and the edges that are passed over (`passed`). Following the edges of a file adds just
these (`followEdges_eq`); only targets that are not **open** any more are left out.

A run works on the front from its first file on. `Settles` tells what happens to that file, one rule for
each case, and `propagate_runs` says that propagation does run to the end: each file that is entered is one
that the tree lists, or one that the memo named before, and none is entered twice, so the bound on entered
files is never reached. With a memo that can be relied on, `propagate_settles` says where the run begins.
-/

namespace ClientBoundary

namespace Wave

/-- Whether a target is still to be visited. -/
def isOpen (w : Wave) (p : Path) : Bool := !w.hasVisited p && w.ledger.get p != .client

/-- A state with another memo and more edges that were passed over. -/
def noting (w : Wave) (memo : Memo) (skipped : List SkippedEdge) : Wave :=
  { w with memo, done := { w.done with skipped := w.done.skipped ++ skipped } }

theorem isOpen_noting (w : Wave) (memo : Memo) (skipped : List SkippedEdge) :
    (w.noting memo skipped).isOpen = w.isOpen := rfl

theorem noting_noting (w : Wave) (memo memo' : Memo) (skipped skipped' : List SkippedEdge) :
    (w.noting memo skipped).noting memo' skipped' = w.noting memo' (skipped ++ skipped') := by
  simp [noting, List.append_assoc]

theorem hasVisited_iff {w : Wave} {p : Path} : w.hasVisited p = true ↔ p.steps ∈ w.visited :=
  List.contains_iff_mem

theorem isOpen_iff {w : Wave} {p : Path} :
    w.isOpen p = true ↔ p.steps ∉ w.visited ∧ w.ledger.get p ≠ .client := by
  rw [isOpen, Bool.and_eq_true, Bool.not_eq_true', ← Bool.not_eq_true, hasVisited_iff, bne_iff_ne]

theorem visited_or_client_or_isOpen (w : Wave) (p : Path) :
    p.steps ∈ w.visited ∨ w.ledger.get p = .client ∨ w.isOpen p = true := by
  rw [isOpen_iff]
  tauto

end Wave

namespace Terrain

variable (t : Terrain)

/-! ## The edges of a file -/

/-- The file that an edge leads to, if it is followed and names one. -/
def target? (x : Path) (e : Edge) : Option Path :=
  match t.skipReason? e with
  | some _ => none
  | none => Resolve.target? t.disk t.project x e.specifier

/-- The files that edges of a file lead to, in order. -/
def targets (x : Path) (edges : List Edge) : List Path := edges.filterMap (t.target? x)

/-- Why an edge is passed over, if it is. -/
def passReason? (x : Path) (e : Edge) : Option SkipReason :=
  match t.skipReason? e with
  | some reason => some reason
  | none =>
    match Resolve.target? t.disk t.project x e.specifier with
    | some _ => none
    | none => some .external

/-- The note about an edge that is passed over. -/
def pass? (x : Path) (e : Edge) : Option SkippedEdge :=
  (t.passReason? x e).map fun reason => ⟨x, e.specifier, reason⟩

/-- The edges of a file that are passed over, in order. -/
def passed (x : Path) (edges : List Edge) : List SkippedEdge := edges.filterMap (t.pass? x)

variable {t} {x y : Path} {w w' : Wave} {edges : List Edge}

/-- A target is the answer to some import. -/
theorem exists_resolve_of_mem_targets (h : y ∈ t.targets x edges) :
    ∃ e ∈ edges, t.skipReason? e = none ∧
      Resolve.target? t.disk t.project x e.specifier = some y := by
  obtain ⟨e, he, hy⟩ := List.mem_filterMap.1 h
  rw [target?] at hy
  split at hy
  · cases hy
  · rename_i hskip
    exact ⟨e, he, hskip, hy⟩

theorem isPlain_of_mem_targets (h : y ∈ t.targets x edges) : y.IsPlain := by
  obtain ⟨e, -, -, hy⟩ := exists_resolve_of_mem_targets h
  exact Resolve.isPlain_of_target? hy

/-- What can be read at any spelling of a target's place can be read at the target. -/
theorem ofFile_of_mem_targets {z : Path} {m : Module} (hy : y ∈ t.targets x edges)
    (hsteps : z.steps = y.steps) (hz : Module.ofFile t.disk z = .ok m) :
    Module.ofFile t.disk y = .ok m := by
  have hplain := Module.ofFile_plain hz
  rwa [Path.plain, hsteps, ← Path.plain, isPlain_of_mem_targets hy] at hplain

/-- One edge: it is noted if it is passed over, and its target is answered if it is open. -/
theorem followEdge_eq (hmemo : w.memo.Sound t.disk t.project) (x : Path) (e : Edge) :
    ∃ memo : Memo, memo.Sound t.disk t.project ∧
      t.followEdge x w e =
        (w.noting memo (t.pass? x e).toList, (t.target? x e).filter w.isOpen) := by
  rw [followEdge, pass?, passReason?, target?]
  cases t.skipReason? e with
  | some reason => exact ⟨w.memo, hmemo, rfl⟩
  | none =>
    -- hit or miss, the answer is the one that resolution gives
    obtain ⟨hanswer, hsound⟩ := hmemo.resolve x e.specifier
    refine ⟨_, hsound, ?_⟩
    simp only [hanswer]
    cases Resolve.target? t.disk t.project x e.specifier with
    | none => rfl
    | some y =>
      rw [Option.filter_some]
      rcases w.visited_or_client_or_isOpen y with hseen | hclient | hopen
      · simp [Wave.noting, Wave.isOpen, Wave.hasVisited, hseen]
      · simp [Wave.noting, Wave.isOpen, hclient]
      · obtain ⟨hseen, hclient⟩ := Wave.isOpen_iff.1 hopen
        simp [Wave.noting, Wave.hasVisited, hopen, hseen, hclient]

/-- All edges of a file: those that are passed over are noted, and the open targets answered. -/
theorem followEdges_eq (hmemo : w.memo.Sound t.disk t.project) (x : Path) (edges : List Edge) :
    ∃ memo : Memo, memo.Sound t.disk t.project ∧
      t.followEdges x w edges =
        (w.noting memo (t.passed x edges), (t.targets x edges).filter w.isOpen) := by
  induction edges generalizing w with
  | nil => exact ⟨w.memo, hmemo, by simp [followEdges, passed, targets, Wave.noting]⟩
  | cons e rest ih =>
    obtain ⟨memo, hsound, hone⟩ := followEdge_eq hmemo x e
    obtain ⟨memo', hsound', hrest⟩ := ih (w := w.noting memo (t.pass? x e).toList) hsound
    refine ⟨memo', hsound', ?_⟩
    rw [Wave.noting_noting, Wave.isOpen_noting] at hrest
    simp only [followEdges, hone, hrest]
    have htargets : t.targets x (e :: rest) = (t.target? x e).toList ++ t.targets x rest := by
      rw [targets, List.filterMap_cons]
      cases t.target? x e <;> rfl
    have hpassed : t.passed x (e :: rest) = (t.pass? x e).toList ++ t.passed x rest := by
      rw [passed, List.filterMap_cons]
      cases t.pass? x e <;> rfl
    rw [htargets, hpassed, List.filter_append, Option.toList_filter]

/-- Entering a file marks it, notes the edges that are passed over and answers the open targets. -/
theorem enter_eq (hmemo : w.memo.Sound t.disk t.project) (x : Path) (edges : List Edge) :
    ∃ memo : Memo, memo.Sound t.disk t.project ∧
      t.enter w x edges =
        ((w.mark x).noting memo (t.passed x edges), (t.targets x edges).filter (w.mark x).isOpen) :=
  followEdges_eq (w := w.mark x) hmemo x edges

/-! ## Runs -/

/-- How a front is worked off, one rule for each thing that can happen to its first file: it was
visited before, it cannot be used, or it is entered and its open targets come next. -/
inductive Settles (t : Terrain) : Wave → List Path → Wave → Prop
  | done {w : Wave} : Settles t w [] w
  | seen {w w' : Wave} {p : Path} {rest : List Path} :
      p.steps ∈ w.visited → Settles t w rest w' → Settles t w (p :: rest) w'
  | failed {w w' : Wave} {p : Path} {f : Failure} {rest : List Path} :
      p.steps ∉ w.visited → Module.ofFile t.disk p = .error f →
      Settles t ((w.visit p).fail f) rest w' → Settles t w (p :: rest) w'
  | entered {w w' : Wave} {p : Path} {m : Module} {rest : List Path} :
      p.steps ∉ w.visited → Module.ofFile t.disk p = .ok m →
      Settles t (t.enter (w.visit p) p m.edges).1 ((t.enter (w.visit p) p m.edges).2 ++ rest) w' →
      Settles t w (p :: rest) w'

/-! ## Places -/

/-- The places of the files that the tree lists. -/
def places (t : Terrain) : List (List Step) :=
  t.disk.tree.files.map fun place => (Disk.pathOf place).steps

/-- Places on the ground that were not visited. -/
def unvisited (ground : List (List Step)) (w : Wave) : Finset (List Step) :=
  ground.toFinset \ w.visited.toFinset

theorem unvisited_visit (ground : List (List Step)) (w : Wave) (p : Path) :
    unvisited ground (w.visit p) = (unvisited ground w).erase p.steps := by
  rw [unvisited, Wave.visit, List.toFinset_cons, Finset.sdiff_insert]
  rfl

/-- Only files on the ground can be entered: this holds of all that stands on a front. -/
def Grounded (t : Terrain) (ground : List (List Step)) (front : List Path) : Prop :=
  ∀ p ∈ front, ∀ m, Module.ofFile t.disk p = .ok m → p.steps ∈ ground

/-- The same holds of all that a memo answers. -/
def MemoGrounded (t : Terrain) (ground : List (List Step)) (memo : Memo) : Prop :=
  ∀ (x : Path) (specifier : String) (y : Path), memo.find? x specifier = some (some y) →
    t.Grounded ground [y]

variable {ground : List (List Step)}

/-- What drains a front works it off if the given continuation does so from the next file that is
entered. -/
theorem drain_settles {expand : Wave → Path → List Edge → List Path → Wave} {n : Nat}
    {front : List Path}
    (hexpand : ∀ {w : Wave} {p : Path} {m : Module} {rest : List Path},
      t.MemoGrounded ground w.memo → t.Grounded ground rest → (unvisited ground w).card ≤ n →
      p.steps ∈ unvisited ground w →
      t.Settles (t.enter (w.visit p) p m.edges).1 ((t.enter (w.visit p) p m.edges).2 ++ rest)
        (expand (w.visit p) p m.edges rest))
    (hmemo : t.MemoGrounded ground w.memo) (hfront : t.Grounded ground front)
    (hn : (unvisited ground w).card ≤ n) : t.Settles w front (t.drain expand w front) := by
  induction front generalizing w with
  | nil => exact .done
  | cons p rest ih =>
    obtain ⟨hp, hrest⟩ := List.forall_mem_cons.1 hfront
    rw [drain]
    split
    · rename_i hvisited
      exact .seen (Wave.hasVisited_iff.1 hvisited) (ih hmemo hrest hn)
    · rename_i hvisited
      rw [Wave.hasVisited_iff] at hvisited
      split
      · rename_i f hf
        refine .failed hvisited hf (ih hmemo hrest ?_)
        calc (unvisited ground (w.visit p)).card
            = ((unvisited ground w).erase p.steps).card := by rw [unvisited_visit]
          _ ≤ (unvisited ground w).card := Finset.card_erase_le
          _ ≤ n := hn
      · rename_i m hm
        have hmem : p.steps ∈ unvisited ground w := by
          rw [unvisited, Finset.mem_sdiff, List.mem_toFinset, List.mem_toFinset]
          exact ⟨hp m hm, hvisited⟩
        exact .entered hvisited hm (hexpand hmemo hrest hn hmem)

section

variable (hground : t.places ⊆ ground)
include hground

/-- Where an import leads is on the ground if it can be entered. -/
theorem grounded_target? {specifier : String}
    (h : Resolve.target? t.disk t.project x specifier = some y) : t.Grounded ground [y] := by
  intro p hp m hm
  rw [List.mem_singleton.1 hp] at hm ⊢
  obtain ⟨place, hplace, rfl, -⟩ := (Resolve.isLinkFree_of_target? h hm).mem_files
  exact hground (List.mem_map_of_mem hplace)

/-- Hit or miss, answers stay on the ground, whether or not they can be relied on. -/
theorem MemoGrounded.resolve {memo : Memo} (h : t.MemoGrounded ground memo) (x : Path)
    (specifier : String) :
    (∀ y, (memo.resolve t.disk t.project x specifier).1 = some y → t.Grounded ground [y]) ∧
      t.MemoGrounded ground (memo.resolve t.disk t.project x specifier).2 := by
  rw [Memo.resolve]
  cases hfind : memo.find? x specifier with
  | some answer =>
    refine ⟨fun y hy => h x specifier y ?_, h⟩
    rw [hfind]
    exact congrArg some hy
  | none =>
    refine ⟨fun y hy => grounded_target? hground hy, fun x' specifier' y hy => ?_⟩
    simp only [Memo.find?, Memo.add, List.lookup_cons] at hy
    split at hy
    · exact grounded_target? hground (Option.some.inj hy)
    · exact h x' specifier' y hy

/-- Following an edge visits nothing and stays on the ground. -/
theorem followEdge_grounded (hmemo : t.MemoGrounded ground w.memo) (x : Path) (e : Edge) :
    (t.followEdge x w e).1.visited = w.visited ∧
      t.MemoGrounded ground (t.followEdge x w e).1.memo ∧
      t.Grounded ground (t.followEdge x w e).2.toList := by
  rw [followEdge]
  cases t.skipReason? e with
  | some reason => exact ⟨rfl, hmemo, List.forall_mem_nil _⟩
  | none =>
    obtain ⟨hanswer, hmemo'⟩ := hmemo.resolve hground x e.specifier
    dsimp only
    split
    · exact ⟨rfl, hmemo', List.forall_mem_nil _⟩
    · rename_i y hy
      split
      · exact ⟨rfl, hmemo', List.forall_mem_nil _⟩
      · exact ⟨rfl, hmemo', hanswer y hy⟩

theorem followEdges_grounded (hmemo : t.MemoGrounded ground w.memo) (x : Path) (edges : List Edge) :
    (t.followEdges x w edges).1.visited = w.visited ∧
      t.MemoGrounded ground (t.followEdges x w edges).1.memo ∧
      t.Grounded ground (t.followEdges x w edges).2 := by
  induction edges generalizing w with
  | nil => exact ⟨rfl, hmemo, List.forall_mem_nil _⟩
  | cons e rest ih =>
    obtain ⟨hvisited, hmemo', hnext⟩ := followEdge_grounded hground hmemo x e
    obtain ⟨hvisited', hmemo'', hnext'⟩ := ih hmemo'
    exact ⟨hvisited'.trans hvisited, hmemo'', List.forall_mem_append.2 ⟨hnext, hnext'⟩⟩

theorem enter_grounded (hmemo : t.MemoGrounded ground w.memo) (x : Path) (edges : List Edge) :
    (t.enter w x edges).1.visited = w.visited ∧
      t.MemoGrounded ground (t.enter w x edges).1.memo ∧
      t.Grounded ground (t.enter w x edges).2 :=
  followEdges_grounded (w := w.mark x) hground hmemo x edges

/-- A sweep that may enter as many files as are left works its front off. -/
theorem sweep_settles {n : Nat} {front : List Path} (hmemo : t.MemoGrounded ground w.memo)
    (hfront : t.Grounded ground front) (hn : (unvisited ground w).card ≤ n) :
    t.Settles w front (t.sweep n w front) := by
  induction n generalizing w front with
  | zero =>
    -- no place is left, so nothing on the front can be entered
    refine drain_settles ?_ hmemo hfront hn
    intro w p m rest _ _ hn hp
    rw [Nat.le_zero, Finset.card_eq_zero] at hn
    rw [hn] at hp
    cases hp
  | succ n ih =>
    refine drain_settles ?_ hmemo hfront hn
    intro w p m rest hmemo hrest hn hp
    obtain ⟨hvisited, hmemo', hnext⟩ := enter_grounded (w := w.visit p) hground hmemo p m.edges
    apply ih hmemo' (List.forall_mem_append.2 ⟨hnext, hrest⟩)
    have hless := Finset.card_erase_lt_of_mem hp
    rw [← unvisited_visit] at hless
    rw [unvisited, hvisited, ← unvisited]
    omega

end

/-- The places that a memo's answers name. -/
def answered (memo : Memo) : List (List Step) := memo.entries.filterMap fun e => e.2.map Path.steps

theorem memoGrounded_answered {memo : Memo} (h : answered memo ⊆ ground) :
    t.MemoGrounded ground memo := by
  intro x specifier y hy p hp m _
  rw [List.mem_singleton.1 hp]
  obtain ⟨before, after, hentries, -⟩ := List.lookup_eq_some_iff.1 hy
  refine h (List.mem_filterMap.2 ⟨((x.steps, specifier), some y), ?_, rfl⟩)
  rw [hentries]
  exact List.mem_append_right _ (List.mem_cons_self ..)

/-- Propagation from a file enters it and works off what comes next, whatever the memo answers. -/
theorem propagate_runs (t : Terrain) (l : Ledger) (memo : Memo) (p : Path) (edges : List Edge) :
    let entered := t.enter ((⟨l, memo, [], .empty⟩ : Wave).visit p) p edges
    t.Settles entered.1 entered.2 (t.propagate l memo p edges) := by
  have hground : t.places ⊆ t.places ++ answered memo := List.subset_append_left _ _
  obtain ⟨-, hmemo, hnext⟩ := enter_grounded (w := (⟨l, memo, [], .empty⟩ : Wave).visit p) hground
    (memoGrounded_answered (List.subset_append_right _ _)) p edges
  refine sweep_settles hground hmemo hnext ?_
  calc (unvisited (t.places ++ answered memo) _).card
      ≤ (t.places ++ answered memo).toFinset.card := Finset.card_le_card Finset.sdiff_subset
    _ ≤ (t.places ++ answered memo).length := List.toFinset_card_le _
    _ = t.disk.tree.files.length + (answered memo).length := by
      rw [List.length_append, places, List.length_map]
    _ ≤ t.reach memo := Nat.add_le_add_left (List.length_filterMap_le ..) _

/-- With a memo that can be relied on, what comes next are the open targets of the file. -/
theorem propagate_settles {memo : Memo} (hmemo : memo.Sound t.disk t.project) (l : Ledger)
    (p : Path) (edges : List Edge) :
    ∃ memo' : Memo, memo'.Sound t.disk t.project ∧
      let w := (((⟨l, memo, [], .empty⟩ : Wave).visit p).mark p).noting memo' (t.passed p edges)
      t.Settles w ((t.targets p edges).filter w.isOpen) (t.propagate l memo p edges) := by
  obtain ⟨memo', hsound, henter⟩ :=
    enter_eq (w := (⟨l, memo, [], .empty⟩ : Wave).visit p) hmemo p edges
  refine ⟨memo', hsound, ?_⟩
  have hrun := propagate_runs t l memo p edges
  rw [henter] at hrun
  exact hrun

end Terrain

end ClientBoundary
