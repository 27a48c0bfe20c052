import Mathlib.Data.List.Lattice
import ClientBoundary.Proofs.Scan

/-!
# The account of one propagation

A session on a disk that does not change can rely on its memo, whatever it was called for before and
whatever ledgers it was given (`Arises.sound`). So each call that makes a file a client component
accounts for every edge it has met: the edge is **dropped**, with the first of three reasons that applies,
or its target is a client component from then on, or a failure names it. The ledger is written at the
marked paths, in their order, and nowhere else (`markClient_accounts`).
-/

namespace ClientBoundary

/-! ## Edges -/

namespace Terrain

variable {t : Terrain} {l : Ledger} {w w' : Wave} {front : List Path}

/-- Why an edge makes no file a client component, if it does not: it is for types only, or else it is a
call where these are not followed, or else it names no file. -/
def dropReason? (t : Terrain) (x : Path) (e : Edge) : Option SkipReason :=
  if e.typeOnly then some .typeOnly
  else if !e.kind.isStatic && !t.followDynamic then some .dynamicImport
  else if (Resolve.target? t.disk t.project x e.specifier).isNone then some .external
  else none

theorem passReason?_eq (t : Terrain) (x : Path) (e : Edge) : t.passReason? x e = t.dropReason? x e := by
  rw [passReason?, skipReason?, dropReason?]
  by_cases htype : e.typeOnly = true
  · rw [if_pos htype, if_pos htype]
  · rw [if_neg htype, if_neg htype]
    by_cases hcall : (!e.kind.isStatic && !t.followDynamic) = true
    · rw [if_pos hcall, if_pos hcall]
    · rw [if_neg hcall, if_neg hcall]
      cases Resolve.target? t.disk t.project x e.specifier <;> rfl

/-- The edges of a file that are passed over are those that are dropped. -/
theorem passed_eq (t : Terrain) (x : Path) (edges : List Edge) :
    t.passed x edges = edges.filterMap fun e =>
      (t.dropReason? x e).map fun reason => ⟨x, e.specifier, reason⟩ := by
  refine List.filterMap_congr fun e _ => ?_
  rw [pass?, passReason?_eq]

/-- An edge that is not dropped leads to a file. -/
theorem exists_target_of_dropReason? {x : Path} {e : Edge} {edges : List Edge} (he : e ∈ edges)
    (h : t.dropReason? x e = none) :
    ∃ y, Resolve.target? t.disk t.project x e.specifier = some y ∧ y ∈ t.targets x edges := by
  rw [← passReason?_eq, passReason?] at h
  cases hskip : t.skipReason? e with
  | some reason =>
    rw [hskip] at h
    cases h
  | none =>
    rw [hskip] at h
    cases htarget : Resolve.target? t.disk t.project x e.specifier with
    | none =>
      rw [htarget] at h
      cases h
    | some y =>
      refine ⟨y, rfl, List.mem_filterMap.2 ⟨e, he, ?_⟩⟩
      rw [target?, hskip]
      exact htarget

/-! ## Writes -/

/-- A run writes the ledger at the files that it marks, in their order. -/
theorem Settles.ledger_eq (hrun : t.Settles w front w') (hmemo : w.memo.Sound t.disk t.project)
    (h : w.ledger = w.done.marked.foldl Ledger.setClient l) :
    w'.ledger = w'.done.marked.foldl Ledger.setClient l := by
  induction hrun with
  | done => exact h
  | seen _ _ ih => exact ih hmemo h
  | failed _ _ _ ih => exact ih hmemo h
  | @entered w w' p m rest _ _ _ ih =>
    obtain ⟨memo, hsound, henter⟩ := enter_eq (w := w.visit p) hmemo p m.edges
    rw [henter] at ih
    refine ih hsound ?_
    change w.ledger.setClient p = (w.done.marked ++ [p]).foldl Ledger.setClient l
    rw [List.foldl_append, ← h]
    rfl

theorem propagate_ledger_eq {memo : Memo} (hmemo : memo.Sound t.disk t.project) (l : Ledger) (p : Path)
    (edges : List Edge) :
    (t.propagate l memo p edges).ledger =
      (t.propagate l memo p edges).done.marked.foldl Ledger.setClient l := by
  obtain ⟨memo', hsound, hrun⟩ := propagate_settles hmemo l p edges
  exact hrun.ledger_eq hsound rfl

namespace Covers

variable {edges : Path → List Edge} {start : Path}

/-- At the end of a run each target of a marked file is a client component, or a failure names it. -/
theorem client_or_failed (h : t.Covers edges l start w []) {x y : Path} (hx : x ∈ w.done.marked)
    (hy : y ∈ t.targets x (edges x)) :
    w.ledger.get y = .client ∨ ∃ f ∈ w.done.failures, f.path = y := by
  rcases h.followed x hx y hy with hclient | hvisited | hfront
  · exact .inl ((h.extend.client_iff y).2 (.inr hclient))
  · rcases (h.visited _).1 hvisited with hmarked | hfailed
    · exact .inl ((h.extend.client_iff y).2 (.inl hmarked))
    · -- a failure at the same place is about the same path, since both are plain
      obtain ⟨f, hf, hsteps⟩ := List.mem_map.1 hfailed
      obtain ⟨-, -, z, -, hfz⟩ := h.failed f hf
      exact .inr ⟨f, hf, (isPlain_of_mem_targets hfz).eq_of_steps (isPlain_of_mem_targets hy) hsteps⟩
  · exact absurd hfront List.not_mem_nil

end Covers

end Terrain

/-! ## Sessions on one disk -/

namespace Session

variable {d : Disk} {s : Session}

/-- What a new session may have become by calls on one disk. Each call may have been given another
ledger, and the log may have been taken away. -/
inductive Arises (d : Disk) : Session → Prop
  | new (project : Project) (followDynamic : Bool) : Arises d (.new project followDynamic)
  | markClient {s : Session} (l : Ledger) (p : Path) (edges : List Edge) :
      Arises d s → Arises d (s.markClient d l p edges).1
  | commit {s : Session} (l : Ledger) (p : Path) (probe : Probe) :
      Arises d s → Arises d (s.commit d l p probe).1
  | classify {s : Session} (l : Ledger) (p : Path) : Arises d s → Arises d (s.classify d l p).1
  | takeLog {s : Session} (log : Propagation) : Arises d s → Arises d { s with log }

theorem sound_markClient (h : s.memo.Sound d s.project) (l : Ledger) (p : Path) (edges : List Edge) :
    (s.markClient d l p edges).1.memo.Sound d s.project :=
  (Terrain.propagate_covers (t := s.terrain d) h l p edges).sound

theorem sound_commit (h : s.memo.Sound d s.project) (l : Ledger) (p : Path) (probe : Probe) :
    (s.commit d l p probe).1.memo.Sound d (s.commit d l p probe).1.project := by
  cases hside : l.side? p with
  | some side =>
    rw [commit_of_known hside]
    exact h
  | none =>
    cases probe with
    | failed f =>
      rw [commit_of_failed hside]
      exact h
    | server =>
      rw [commit_of_server hside]
      exact h
    | client edges =>
      rw [commit_of_client hside]
      exact sound_markClient h l p edges

/-- A session on one disk can rely on its memo. -/
theorem Arises.sound (h : s.Arises d) : s.memo.Sound d s.project := by
  induction h with
  | new => exact Memo.sound_empty
  | markClient l p edges _ ih => exact sound_markClient ih l p edges
  | commit l p probe _ ih => exact sound_commit ih l p probe
  | classify l p _ ih =>
    rw [Session.classify]
    split
    · exact ih
    · split
      · exact ih
      · exact sound_commit ih l p _
  | takeLog log _ ih => exact ih

/-- **Nothing is lost.** A call that makes a file a client component marks each place once, the file
first, and each failure is about a place of its own. The ledger changes at the marked paths only. The
edges that are passed over are those of the marked files that are dropped, each with the first reason that
applies. Every other edge of a marked file leads to a client component, or to a path that a failure names. -/
theorem markClient_accounts (h : s.Arises d) (l : Ledger) (p : Path) (edges : List Edge) :
    let t := s.terrain d
    let after := (s.markClient d l p edges).2.1
    let done := (s.markClient d l p edges).2.2
    let edgesOf := Function.update t.edgesOf p edges
    (done.marked.map Path.steps).Nodup ∧ done.marked.head? = some p ∧
      (done.failures.map (·.path.steps)).Nodup ∧
      (done.marked.map Path.steps).Disjoint (done.failures.map (·.path.steps)) ∧
      after = done.marked.foldl Ledger.setClient l ∧
      (∀ q, after.get q = if q.steps ∈ done.marked.map Path.steps then .client else l.get q) ∧
      (∀ n ∈ done.marked, n ≠ p → ∃ m, Module.ofFile d n = .ok m ∧ edgesOf n = m.edges) ∧
      done.skipped.Perm (done.marked.flatMap fun n => (edgesOf n).filterMap fun e =>
        (t.dropReason? n e).map fun reason => ⟨n, e.specifier, reason⟩) ∧
      ∀ n ∈ done.marked, ∀ e ∈ edgesOf n, t.dropReason? n e = none →
        ∃ y, Resolve.target? d s.project n e.specifier = some y ∧
          (after.get y = .client ∨ ∃ f ∈ done.failures, f.path = y) := by
  intro t after done edgesOf
  have hmemo : s.memo.Sound t.disk t.project := h.sound
  have hcovers : t.Covers edgesOf l p (t.propagate l s.memo p edges) [] :=
    Terrain.propagate_covers hmemo l p edges
  obtain ⟨hmarked, hfailed, hdisjoint⟩ := List.nodup_append'.1 hcovers.nodup
  refine ⟨hmarked, hcovers.head, hfailed, hdisjoint, Terrain.propagate_ledger_eq hmemo l p edges,
    ?_, ?_, ?_, ?_⟩
  · exact hcovers.extend.get_eq
  · intro n hn hne
    obtain ⟨-, m, hm⟩ := hcovers.usable n hn hne
    exact ⟨m, hm, Terrain.update_edgesOf hne hm⟩
  · -- the edges are even noted in this order
    refine .of_eq (hcovers.skipped.trans ?_)
    simp only [Terrain.passed_eq]
    rfl
  · intro n hn e he hdrop
    obtain ⟨y, htarget, hy⟩ := Terrain.exists_target_of_dropReason? he hdrop
    exact ⟨y, htarget, hcovers.client_or_failed hn hy⟩

/-- Files that import each other crosswise. The last one is not well formed. -/
def diamond : Disk where
  tree := .dir [("w", .dir [
    ("a.tsx", .file (.ofText "")),
    ("b.tsx", .file (.ofText "import'./d'")),
    ("c.tsx", .file (.ofText "import'./d'")),
    ("d.tsx", .file (.ofText "import'./c'")),
    ("e.tsx", .file (.ofText "")),
    ("f.tsx", .file (.ofText "("))])]
  cwd := ["w"]

/-- Edges of the first file: some are for types or calls, one names a package and one names nothing. -/
def diamondEdges : List Edge :=
  [⟨"./b", .importFrom, false⟩, ⟨"./c", .importFrom, true⟩, ⟨"./c", .importFrom, false⟩,
    ⟨"./a", .exportFrom, false⟩, ⟨"./e", .requireCall, false⟩, ⟨"react", .importFrom, false⟩,
    ⟨"./e", .importFrom, false⟩, ⟨"./f", .importFrom, false⟩, ⟨"./gone", .importFrom, false⟩]

/-- One file is a client component already, and one a server component. -/
def diamondLedger : Ledger := (Ledger.empty.setClient ⟨"/w/e.tsx"⟩).setServerIfUnknown ⟨"/w/d.tsx"⟩

/-- A session that was called before, with an empty ledger. -/
def diamondSession : Session :=
  ((new ⟨⟨"/w"⟩, .empty⟩ false).markClient diamond .empty ⟨"/w/c.tsx"⟩ [⟨"./d", .importFrom, false⟩]).1

theorem arises_diamond : diamondSession.Arises diamond := .markClient _ _ _ (.new _ _)

/-- The third file is marked last: it is reached through the second and the fourth before its own turn
comes. -/
def diamondDone : Propagation where
  marked := [⟨"/w//a.tsx"⟩, ⟨"/w/b.tsx"⟩, ⟨"/w/d.tsx"⟩, ⟨"/w/c.tsx"⟩]
  skipped := [⟨⟨"/w//a.tsx"⟩, "./c", .typeOnly⟩, ⟨⟨"/w//a.tsx"⟩, "./e", .dynamicImport⟩,
    ⟨⟨"/w//a.tsx"⟩, "react", .external⟩]
  failures := [.malformed ⟨"/w/f.tsx"⟩ Failure.badSource,
    .unreadable ⟨"/w/gone.tsx"⟩ "No such file or directory (os error 2)"]

theorem markClient_diamond :
    (diamondSession.markClient diamond diamondLedger ⟨"/w//a.tsx"⟩ diamondEdges).2.2 = diamondDone := by
  decide +kernel

theorem markClient_accounts_diamond :
    diamondSession.Arises diamond ∧
      let out := (diamondSession.markClient diamond diamondLedger ⟨"/w//a.tsx"⟩ diamondEdges).2
      out.2 = diamondDone ∧ out.1 = out.2.marked.foldl Ledger.setClient diamondLedger ∧
      ∀ n ∈ out.2.marked,
        ∀ e ∈ Function.update (diamondSession.terrain diamond).edgesOf ⟨"/w//a.tsx"⟩ diamondEdges n,
        (diamondSession.terrain diamond).dropReason? n e = none →
          ∃ y, Resolve.target? diamond diamondSession.project n e.specifier = some y ∧
            (out.1.get y = .client ∨ ∃ f ∈ out.2.failures, f.path = y) := by
  obtain ⟨-, -, -, -, hledger, -, -, -, hedges⟩ :=
    markClient_accounts arises_diamond diamondLedger ⟨"/w//a.tsx"⟩ diamondEdges
  exact ⟨arises_diamond, markClient_diamond, hledger, hedges⟩

end Session

end ClientBoundary
