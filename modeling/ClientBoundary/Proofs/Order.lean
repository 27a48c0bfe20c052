import ClientBoundary.Proofs.Scan

/-!
# The order of commits

What the directive spreads to does not depend on an order, so neither does what a session leaves behind.
Commits in another order find other files known already and enter files from other starts, and a place may
be spelt differently; but **by places** the ledger is the same, the same files are marked, the same edges
are passed over, and the same imports fail (`commitAll_perm`).
-/

namespace ClientBoundary

/-- An edge that was passed over, with the place of its importer. -/
def SkippedEdge.atPlace (e : SkippedEdge) : List Step × String × SkipReason :=
  (e.importer.steps, e.specifier, e.reason)

namespace Terrain

variable {t : Terrain} {l : Ledger} {files files' : List Path} {x y : Path} {m : Module}

/-- Whether an edge is passed over, and why, is told by the place of its importer. -/
theorem passReason?_congr (h : x.steps = y.steps) (e : Edge) :
    t.passReason? x e = t.passReason? y e := by
  rw [passReason?, passReason?, Resolve.target?_congr h]

/-- The edges that are passed over are told by the place of their importer. -/
theorem atPlace_passed (h : x.steps = y.steps) (edges : List Edge) :
    (t.passed x edges).map SkippedEdge.atPlace = (t.passed y edges).map SkippedEdge.atPlace := by
  have hnote : ∀ e : Edge, (t.pass? x e).map SkippedEdge.atPlace =
      (t.pass? y e).map SkippedEdge.atPlace := by
    intro e
    rw [pass?, pass?, passReason?_congr h, Option.map_map, Option.map_map]
    congr 1
    funext reason
    exact congrArg (·, e.specifier, reason) h
  rw [passed, passed, List.map_filterMap, List.map_filterMap]
  simp only [hnote]

/-- The edges that are passed over at a place. -/
def passedAt (t : Terrain) (σ : List Step) : List (List Step × String × SkipReason) :=
  (t.passed (Path.ofSteps σ) (t.edgesOf (Path.ofSteps σ))).map SkippedEdge.atPlace

/-- What is passed over in a file that can be used is what is passed over at its place, where the file is spelt
plainly. -/
theorem atPlace_passed_edgesOf (hx : Module.ofFile t.disk x = .ok m) :
    (t.passed x (t.edgesOf x)).map SkippedEdge.atPlace = t.passedAt x.steps := by
  rw [edgesOf_eq hx, passedAt, ← Path.plain, edgesOf_eq (Module.ofFile_plain hx)]
  exact atPlace_passed x.steps_plain.symm m.edges

/-- The directive spreads from a set of files. -/
theorem spread_perm (h : files.Perm files') : t.Spread l files = t.Spread l files' := by
  funext x
  exact propext ⟨.mono fun _ => h.mem_iff.1, .mono fun _ => h.mem_iff.2⟩

/-- Whether a place is left to the server is told by the set of files as well. -/
theorem serves_perm (h : files.Perm files') : t.Serves files = t.Serves files' := by
  funext x
  simp only [Serves, h.mem_iff]

end Terrain

namespace Session

open Terrain

variable {t : Terrain} {l c c' : Ledger} {files files' : List Path} {s s' : Session}

namespace Tally

/-- **Skipped edges are told by the marked places**, taken in the order in which they were marked. So nothing is
left of the order but the order of these. -/
theorem atPlace_skipped (h : Tally t l files s c) :
    s.log.skipped.map SkippedEdge.atPlace = s.log.markedSteps.flatMap t.passedAt := by
  rw [h.skipped, List.map_flatMap, Propagation.markedSteps, List.flatMap_map]
  -- marked files can be used, so their places tell their edges
  refine List.flatMap_congr fun x hx => ?_
  obtain ⟨m, hm⟩ := (h.least x hx).usable
  exact atPlace_passed_edgesOf hm

section perm

variable (h : Tally t l files s c) (h' : Tally t l files' s' c') (hfiles : files.Perm files')

include h h' hfiles

/-- Marked places are all different and the same as a set, so they are a permutation. -/
theorem markedSteps_perm : s.log.markedSteps.Perm s'.log.markedSteps := by
  refine (List.perm_ext_iff_of_nodup h.nodup h'.nodup).2 fun σ => ?_
  rw [h.mem_markedSteps, h'.mem_markedSteps, spread_perm hfiles]

/-- All answers of the ledgers are the same, since each one is told by what the directive spreads to. -/
theorem side?_perm (q : Path) : c.side? q = c'.side? q := by
  rw [h.side?_eq, h'.side?_eq, spread_perm hfiles, serves_perm hfiles]

/-- Each marked place brings its own edges, in whatever order it comes. -/
theorem skipped_perm :
    (s.log.skipped.map SkippedEdge.atPlace).Perm (s'.log.skipped.map SkippedEdge.atPlace) := by
  rw [h.atPlace_skipped, h'.atPlace_skipped]
  exact (h.markedSteps_perm h' hfiles).flatMap_right t.passedAt

/-- Failing places are the same as a set only: one import may fail more often in one order than in another. -/
theorem failedSteps_perm (σ : List Step) : σ ∈ s.log.failedSteps ↔ σ ∈ s'.log.failedSteps := by
  rw [h.mem_failedSteps, h'.mem_failedSteps, spread_perm hfiles]

end perm

end Tally

/-- **Commits in any order.** New sessions that commit the same files in different orders end with the
same entries, the same marked files and the same edges passed over, each as often, and with the same
failing imports. -/
theorem commitAll_perm {d : Disk} {project : Project} {followDynamic : Bool} {l : Ledger}
    {files files' : List Path} (hfiles : files.Perm files') :
    let one := commitAll d (.new project followDynamic) l (Scan.probes d files)
    let other := commitAll d (.new project followDynamic) l (Scan.probes d files')
    one.2.1.snapshot.map (fun e => (e.1.steps, e.2)) =
        other.2.1.snapshot.map (fun e => (e.1.steps, e.2)) ∧
      (one.1.log.marked.map Path.steps).Perm (other.1.log.marked.map Path.steps) ∧
      (one.1.log.skipped.map SkippedEdge.atPlace).Perm
        (other.1.log.skipped.map SkippedEdge.atPlace) ∧
      ∀ σ, (∃ f ∈ one.1.log.failures, f.path.steps = σ) ↔
        ∃ f ∈ other.1.log.failures, f.path.steps = σ := by
  intro one other
  have hone : Tally ⟨d, project, followDynamic⟩ l files one.1 one.2.1 :=
    Scan.tally_probes d project followDynamic l files
  have hother : Tally ⟨d, project, followDynamic⟩ l files' other.1 other.2.1 :=
    Scan.tally_probes d project followDynamic l files'
  refine ⟨?_, hone.markedSteps_perm hother hfiles, hone.skipped_perm hother hfiles, fun σ => ?_⟩
  · rw [Ledger.snapshot_keys, Ledger.snapshot_keys,
      Ledger.keys_eq_of_side? (hone.side?_perm hother hfiles)]
  · rw [← List.mem_map, ← List.mem_map]
    exact hone.failedSteps_perm hother hfiles σ

/-- The first file has the directive and imports the second. -/
def ringFiles : List Path := [⟨"/w/a.tsx"⟩, ⟨"/w/b.tsx"⟩, ⟨"/w/d.tsx"⟩, ⟨"/w/e.tsx"⟩]

theorem commitAll_perm_ring : ringFiles.Perm ringFiles.reverse ∧
    (let one := commitAll Scan.ring (.new ⟨⟨"/w"⟩, .empty⟩ true) .empty
      (Scan.probes Scan.ring ringFiles)
    let other := commitAll Scan.ring (.new ⟨⟨"/w"⟩, .empty⟩ true) .empty
      (Scan.probes Scan.ring ringFiles.reverse)
    one.2.1.snapshot.map (fun e => (e.1.steps, e.2)) =
        other.2.1.snapshot.map (fun e => (e.1.steps, e.2)) ∧
      (one.1.log.marked.map Path.steps).Perm (other.1.log.marked.map Path.steps) ∧
      (one.1.log.skipped.map SkippedEdge.atPlace).Perm
        (other.1.log.skipped.map SkippedEdge.atPlace) ∧
      ∀ σ, (∃ f ∈ one.1.log.failures, f.path.steps = σ) ↔
        ∃ f ∈ other.1.log.failures, f.path.steps = σ) := by
  have hperm : ringFiles.Perm ringFiles.reverse := (List.reverse_perm ringFiles).symm
  have hcommits := @commitAll_perm Scan.ring ⟨⟨"/w"⟩, .empty⟩ true .empty _ _ hperm
  exact ⟨hperm, hcommits⟩

end Session

end ClientBoundary
