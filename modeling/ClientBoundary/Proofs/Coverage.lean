import Mathlib.Logic.Function.Basic
import ClientBoundary.Proofs.Propagation

/-!
# What one propagation covers

While a front is worked off, the state accounts for everything that was seen: which files are marked,
which cannot be used, and which targets are still to come. `Covers` says so, and is kept by each rule of
a run.

At the end of a run nothing is to come, so each target of a marked file was a client component before,
or is marked, or cannot be used (`propagate_covers`). The ledger has changed at the marked places and at
no other.
-/

namespace ClientBoundary

namespace Propagation

/-- The places of marked files. -/
def markedSteps (done : Propagation) : List (List Step) := done.marked.map Path.steps

/-- The places of imported files that cannot be used. -/
def failedSteps (done : Propagation) : List (List Step) := done.failures.map (·.path.steps)

theorem steps_mem_markedSteps {done : Propagation} {p : Path} (h : p ∈ done.marked) :
    p.steps ∈ done.markedSteps :=
  List.mem_map_of_mem h

end Propagation

namespace Terrain

/-- The edges of a file; one that cannot be used has none. -/
def edgesOf (t : Terrain) (p : Path) : List Edge :=
  match Module.ofFile t.disk p with
  | .ok m => m.edges
  | .error _ => []

theorem edgesOf_eq {t : Terrain} {p : Path} {m : Module} (h : Module.ofFile t.disk p = .ok m) :
    t.edgesOf p = m.edges := by
  rw [edgesOf, h]

/-- Where the edges of one file are given, those of every other file are the ones that are read. -/
theorem update_edgesOf {t : Terrain} {p q : Path} {m : Module} {edges : List Edge} (hne : q ≠ p)
    (h : Module.ofFile t.disk q = .ok m) : Function.update t.edgesOf p edges q = m.edges := by
  rw [Function.update_of_ne hne, edgesOf_eq h]

/-- A property that passes from a file to those of its targets that it makes client components. -/
def Passes (t : Terrain) (edges : Path → List Edge) (l : Ledger) (S : Path → Prop) : Prop :=
  ∀ x y, S x → y ∈ t.targets x (edges x) → l.get y ≠ .client →
    (∃ m, Module.ofFile t.disk y = .ok m) → S y

/-- What holds of a propagation from `start` that began with the ledger `l`, with `front` still to
come. Each file `x` has the edges `edges x`. -/
structure Covers (t : Terrain) (edges : Path → List Edge) (l : Ledger) (start : Path) (w : Wave)
    (front : List Path) : Prop where
  /-- the memo can be relied on -/
  sound : w.memo.Sound t.disk t.project
  /-- marked files are client components, and all else is as it was -/
  extend : w.ledger.Extends l w.done.markedSteps
  /-- what is written in the ledger was written there, or is marked -/
  paths : ∀ q ∈ w.ledger.paths, q ∈ l.paths ∨ q ∈ w.done.marked
  /-- a place was visited if its file is marked or cannot be used -/
  visited : ∀ σ, σ ∈ w.visited ↔ σ ∈ w.done.markedSteps ∨ σ ∈ w.done.failedSteps
  /-- no place is accounted for twice -/
  nodup : (w.done.markedSteps ++ w.done.failedSteps).Nodup
  /-- the first file that is marked is the start -/
  head : w.done.marked.head? = some start
  /-- the edges that are passed over are those of the marked files -/
  skipped : w.done.skipped = w.done.marked.flatMap fun x => t.passed x (edges x)
  /-- every other marked file can be used and was no client component -/
  usable : ∀ y ∈ w.done.marked, y ≠ start →
    l.get y ≠ .client ∧ ∃ m, Module.ofFile t.disk y = .ok m
  /-- files are marked only where the start leads -/
  least : ∀ S : Path → Prop, S start → t.Passes edges l S → ∀ y ∈ w.done.marked, S y
  /-- what is to come is a target of a marked file, and was no client component -/
  pending : ∀ y ∈ front, l.get y ≠ .client ∧ ∃ x ∈ w.done.marked, y ∈ t.targets x (edges x)
  /-- so is what cannot be used -/
  failed : ∀ f ∈ w.done.failures, Module.ofFile t.disk f.path = .error f ∧
    l.get f.path ≠ .client ∧ ∃ x ∈ w.done.marked, f.path ∈ t.targets x (edges x)
  /-- targets of marked files were client components, were visited or are to come -/
  followed : ∀ x ∈ w.done.marked, ∀ y ∈ t.targets x (edges x),
    l.get y = .client ∨ y.steps ∈ w.visited ∨ y ∈ front

namespace Covers

variable {t : Terrain} {edges : Path → List Edge} {l : Ledger} {start p : Path} {w w' : Wave}
  {front rest : List Path}

theorem start_mem (h : t.Covers edges l start w front) : start ∈ w.done.marked :=
  List.mem_of_head? h.head

/-- A file at a place that was not visited is accounted for nowhere. -/
theorem fresh (h : t.Covers edges l start w front) (hp : p.steps ∉ w.visited) :
    p.steps ∉ w.done.markedSteps ++ w.done.failedSteps := by
  rwa [List.mem_append, ← h.visited]

/-- The start was visited at the very beginning, so it is not visited again. -/
theorem ne_start (h : t.Covers edges l start w front) (hp : p.steps ∉ w.visited) : p ≠ start := by
  rintro rfl
  exact hp ((h.visited _).2 (.inl (Propagation.steps_mem_markedSteps h.start_mem)))

/-- A file was a client component, was visited, or is open. -/
theorem ahead_cases {places : List (List Step)} (hextend : w.ledger.Extends l places)
    (hplaces : ∀ σ ∈ places, σ ∈ w.visited) (y : Path) :
    l.get y = .client ∨ y.steps ∈ w.visited ∨ w.isOpen y = true := by
  rcases w.visited_or_client_or_isOpen y with hseen | hclient | hopen
  · exact .inr (.inl hseen)
  · rcases (hextend.client_iff y).1 hclient with hy | hl
    · exact .inr (.inl (hplaces _ hy))
    · exact .inl hl
  · exact .inr (.inr hopen)

/-! ## Steps -/

theorem seen (h : t.Covers edges l start w (p :: rest)) (hp : p.steps ∈ w.visited) :
    t.Covers edges l start w rest where
  __ := h
  pending := fun y hy => h.pending y (List.mem_cons_of_mem _ hy)
  followed := by
    intro x hx y hy
    rcases h.followed x hx y hy with hclient | hvisited | hfront
    · exact .inl hclient
    · exact .inr (.inl hvisited)
    · rcases List.mem_cons.1 hfront with rfl | hrest
      · exact .inr (.inl hp)
      · exact .inr (.inr hrest)

theorem fail {f : Failure} (h : t.Covers edges l start w (p :: rest)) (hp : p.steps ∉ w.visited)
    (hf : Module.ofFile t.disk p = .error f) :
    t.Covers edges l start ((w.visit p).fail f) rest := by
  have hpath : f.path = p := Module.path_of_ofFile hf
  have hfailed : ((w.visit p).fail f).done.failedSteps = w.done.failedSteps ++ [p.steps] := by
    rw [← hpath]
    exact List.map_append
  obtain ⟨hfront, hrest⟩ := List.forall_mem_cons.1 h.pending
  exact
    { sound := h.sound
      extend := h.extend
      paths := h.paths
      visited := by
        intro σ
        rw [hfailed, List.mem_append, List.mem_singleton]
        have hσ := h.visited σ
        change σ ∈ p.steps :: w.visited ↔ σ ∈ w.done.markedSteps ∨ _
        rw [List.mem_cons, hσ]
        tauto
      nodup := by
        rw [hfailed, ← List.append_assoc, List.nodup_middle, List.append_nil]
        exact List.nodup_cons.2 ⟨h.fresh hp, h.nodup⟩
      head := h.head
      skipped := h.skipped
      usable := h.usable
      least := h.least
      pending := hrest
      failed := by
        intro g hg
        rcases List.mem_append.1 hg with hg | hg
        · exact h.failed g hg
        · rw [List.mem_singleton.1 hg, hpath]
          exact ⟨hf, hfront⟩
      followed := by
        intro x hx y hy
        rcases h.followed x hx y hy with hclient | hvisited | hfront
        · exact .inl hclient
        · exact .inr (.inl (List.mem_cons_of_mem _ hvisited))
        · rcases List.mem_cons.1 hfront with rfl | hrest
          · exact .inr (.inl (List.mem_cons_self ..))
          · exact .inr (.inr hrest) }

theorem enter {m : Module} {memo : Memo} (h : t.Covers edges l start w (p :: rest))
    (hp : p.steps ∉ w.visited) (hm : Module.ofFile t.disk p = .ok m) (hedges : edges p = m.edges)
    (hmemo : memo.Sound t.disk t.project) :
    t.Covers edges l start (((w.visit p).mark p).noting memo (t.passed p m.edges))
      ((t.targets p m.edges).filter ((w.visit p).mark p).isOpen ++ rest) := by
  rw [← hedges]
  obtain ⟨⟨hclient, x, hx, hpx⟩, hrest⟩ := List.forall_mem_cons.1 h.pending
  have hextend : ((w.visit p).mark p).ledger.Extends l (w.done.markedSteps ++ [p.steps]) :=
    h.extend.setClient p
  have hvisited : ∀ σ, σ ∈ p.steps :: w.visited ↔
      σ ∈ w.done.markedSteps ++ [p.steps] ∨ σ ∈ w.done.failedSteps := by
    intro σ
    rw [List.mem_cons, h.visited, List.mem_append, List.mem_singleton]
    tauto
  have hmarked : (((w.visit p).mark p).noting memo (t.passed p (edges p))).done.markedSteps =
      w.done.markedSteps ++ [p.steps] := List.map_append
  exact
    { sound := hmemo
      extend := by rwa [hmarked]
      paths := by
        intro q hq
        rcases Ledger.mem_paths_setClient hq with rfl | hq
        · exact .inr (List.mem_append_right _ (List.mem_singleton_self _))
        · exact (h.paths q hq).imp_right (List.mem_append_left _)
      visited := by rwa [hmarked]
      nodup := by
        rw [hmarked, List.append_assoc]
        exact List.nodup_middle.2 (List.nodup_cons.2 ⟨h.fresh hp, h.nodup⟩)
      head := by
        change (w.done.marked ++ [p]).head? = some start
        rw [List.head?_append, h.head]
        rfl
      skipped := by
        change w.done.skipped ++ t.passed p (edges p) = (w.done.marked ++ [p]).flatMap _
        rw [List.flatMap_append, ← h.skipped, List.flatMap_singleton]
      usable := by
        intro y hy hne
        rcases List.mem_append.1 hy with hy | hy
        · exact h.usable y hy hne
        · rw [List.mem_singleton.1 hy]
          exact ⟨hclient, m, hm⟩
      least := by
        -- `p` was on the front, so a marked file leads to it
        intro S hstart hpasses y hy
        rcases List.mem_append.1 hy with hy | hy
        · exact h.least S hstart hpasses y hy
        · rw [List.mem_singleton.1 hy]
          exact hpasses x p (h.least S hstart hpasses x hx) hpx hclient ⟨m, hm⟩
      pending := by
        intro y hy
        rcases List.mem_append.1 hy with hnew | hold
        · obtain ⟨htarget, hopen⟩ := List.mem_filter.1 hnew
          refine ⟨fun hl => ?_, p, List.mem_append_right _ (List.mem_singleton_self p), htarget⟩
          exact (Wave.isOpen_iff.1 hopen).2 ((hextend.client_iff y).2 (.inr hl))
        · obtain ⟨hl, z, hz, hyz⟩ := hrest y hold
          exact ⟨hl, z, List.mem_append_left _ hz, hyz⟩
      failed := by
        intro f hf
        obtain ⟨herror, hl, z, hz, hfz⟩ := h.failed f hf
        exact ⟨herror, hl, z, List.mem_append_left _ hz, hfz⟩
      followed := by
        -- what was to come is visited now or still to come; new targets are open or need no visit
        intro z hz y hy
        rcases List.mem_append.1 hz with hz | hz
        · rcases h.followed z hz y hy with hl | hseen | hfront
          · exact .inl hl
          · exact .inr (.inl (List.mem_cons_of_mem _ hseen))
          · rcases List.mem_cons.1 hfront with rfl | hrest
            · exact .inr (.inl (List.mem_cons_self ..))
            · exact .inr (.inr (List.mem_append_right _ hrest))
        · rw [List.mem_singleton.1 hz] at hy
          rcases ahead_cases hextend (fun σ hσ => (hvisited σ).2 (.inl hσ)) y with hl | hseen | hopen
          · exact .inl hl
          · exact .inr (.inl hseen)
          · exact .inr (.inr (List.mem_append_left _ (List.mem_filter.2 ⟨hy, hopen⟩))) }

/-- A propagation covers what it has to from the start on. -/
theorem init (edges : Path → List Edge) (l : Ledger) (p : Path) (memo' : Memo) {memo : Memo}
    (hmemo : memo.Sound t.disk t.project) :
    let w := ((⟨l, memo', [], .empty⟩ : Wave).visit p).mark p
    t.Covers edges l p (w.noting memo (t.passed p (edges p)))
      ((t.targets p (edges p)).filter w.isOpen) := by
  intro w
  have hextend : w.ledger.Extends l [p.steps] := l.extends_nil.setClient p
  exact
    { sound := hmemo
      extend := hextend
      paths := by
        intro q hq
        rcases Ledger.mem_paths_setClient hq with rfl | hq
        · exact .inr (List.mem_singleton_self _)
        · exact .inl hq
      visited := by
        intro σ
        change σ ∈ [p.steps] ↔ σ ∈ [p.steps] ∨ σ ∈ []
        simp
      nodup := List.nodup_singleton _
      head := rfl
      skipped := (List.flatMap_singleton _ _).symm
      usable := fun y hy hne => absurd (List.mem_singleton.1 hy) hne
      least := by
        intro S hstart _ y hy
        rwa [List.mem_singleton.1 hy]
      pending := by
        intro y hy
        obtain ⟨htarget, hopen⟩ := List.mem_filter.1 hy
        refine ⟨fun hl => ?_, p, List.mem_singleton_self p, htarget⟩
        exact (Wave.isOpen_iff.1 hopen).2 ((hextend.client_iff y).2 (.inr hl))
      failed := fun f hf => absurd hf List.not_mem_nil
      followed := by
        intro x hx y hy
        rw [List.mem_singleton.1 hx] at hy
        rcases ahead_cases hextend (fun σ hσ => hσ) y with hl | hseen | hopen
        · exact .inl hl
        · exact .inr (.inl hseen)
        · exact .inr (.inr (List.mem_filter.2 ⟨hy, hopen⟩)) }

/-! ## Runs -/

/-- **A run keeps the account.** What holds when a front is taken up holds when it is worked off. -/
theorem settles (hrun : t.Settles w front w') (h : t.Covers edges l start w front)
    (hedges : ∀ q m, q ≠ start → Module.ofFile t.disk q = .ok m → edges q = m.edges) :
    t.Covers edges l start w' [] := by
  induction hrun with
  | done => exact h
  | seen hp _ ih => exact ih (h.seen hp)
  | failed hp hf _ ih => exact ih (h.fail hp hf)
  | @entered w w' p m rest hp hm _ ih =>
    obtain ⟨memo, hmemo, henter⟩ := enter_eq (w := w.visit p) h.sound p m.edges
    rw [henter] at ih
    exact ih (h.enter hp hm (hedges p m (h.ne_start hp) hm) hmemo)

end Covers

/-- **Coverage.** A propagation accounts for all that its start leads to. -/
theorem propagate_covers {t : Terrain} {memo : Memo} (hmemo : memo.Sound t.disk t.project)
    (l : Ledger) (p : Path) (edges : List Edge) :
    t.Covers (Function.update t.edgesOf p edges) l p (t.propagate l memo p edges) [] := by
  obtain ⟨memo', hmemo', hrun⟩ := propagate_settles hmemo l p edges
  have hinit := Covers.init (Function.update t.edgesOf p edges) l p memo hmemo'
  rw [Function.update_self] at hinit
  exact Covers.settles hrun hinit fun q m => update_edgesOf

end Terrain

end ClientBoundary
