import ClientBoundary.Proofs.Coverage
import ClientBoundary.Session

/-!
# What a session classifies

A file **leads** to another if it can be used and has an edge to it that is followed. The files that a
session makes client components are told without any order: `Spread` holds the files with the directive
about which nothing was known, and whatever they lead to that can be used and was no client component.

`Tally` is what holds of a session after some files were committed. Each commit keeps it, so it holds of
every session (`Tally.commitAll`), and from it the log can be read off: `Spread` is what is marked
(`Tally.mem_markedSteps`), and what it leads to and cannot be used is what has failed
(`Tally.mem_failedSteps`).
-/

namespace ClientBoundary

namespace Terrain

variable {t : Terrain} {l : Ledger} {files files' : List Path} {x y : Path} {m : Module}

/-! ## The graph of imports -/

/-- `x` can be used and has an edge to `y` that is followed: it is not for types only, and it is a
declaration unless calls are followed too. -/
def Leads (t : Terrain) (x y : Path) : Prop :=
  ∃ m, Module.ofFile t.disk x = .ok m ∧ ∃ e ∈ m.edges, e.typeOnly = false ∧
    (e.kind.isStatic = true ∨ t.followDynamic = true) ∧
    Resolve.target? t.disk t.project x e.specifier = some y

theorem skipReason?_eq_none {e : Edge} : t.skipReason? e = none ↔
    e.typeOnly = false ∧ (e.kind.isStatic = true ∨ t.followDynamic = true) := by
  rw [skipReason?]
  cases e.typeOnly <;> cases e.kind.isStatic <;> cases t.followDynamic <;> simp

theorem leads_iff (h : Module.ofFile t.disk x = .ok m) : t.Leads x y ↔ y ∈ t.targets x m.edges := by
  constructor
  · rintro ⟨m', hm', e, he, htype, hkind, htarget⟩
    obtain rfl : m' = m := Except.ok.inj (hm'.symm.trans h)
    refine List.mem_filterMap.2 ⟨e, he, ?_⟩
    rw [target?, skipReason?_eq_none.2 ⟨htype, hkind⟩]
    exact htarget
  · intro hy
    obtain ⟨e, he, hskip, htarget⟩ := exists_resolve_of_mem_targets hy
    obtain ⟨htype, hkind⟩ := skipReason?_eq_none.1 hskip
    exact ⟨m, h, e, he, htype, hkind, htarget⟩

/-- Where a file leads is told by its place, as long as it can be used. -/
theorem Leads.congr (h : t.Leads x y) {z : Path} (hsteps : x.steps = z.steps)
    (hz : Module.ofFile t.disk z = .ok m) : t.Leads z y := by
  obtain ⟨m', hm', e, he, htype, hkind, htarget⟩ := h
  obtain rfl := Module.ofFile_eq_of_steps hsteps hm' hz
  rw [Resolve.target?_congr hsteps] at htarget
  exact ⟨m', hz, e, he, htype, hkind, htarget⟩

/-- What can be read at some spelling of a place can be read at the one that files lead to. -/
theorem Leads.ofFile (h : t.Leads x y) {z : Path} (hsteps : z.steps = y.steps)
    (hz : Module.ofFile t.disk z = .ok m) : Module.ofFile t.disk y = .ok m := by
  obtain ⟨m', hm', hedge⟩ := h
  exact ofFile_of_mem_targets ((leads_iff hm').1 ⟨m', hm', hedge⟩) hsteps hz

/-! ## The files that become client components -/

/-- A file has the directive, and nothing is known about it. -/
def IsSeed (t : Terrain) (l : Ledger) (files : List Path) (p : Path) : Prop :=
  p ∈ files ∧ l.get p = .unknown ∧ ∃ m, Module.ofFile t.disk p = .ok m ∧ m.isClient = true

theorem IsSeed.append_cases {p q : Path} (h : t.IsSeed l (files ++ [p]) q) :
    t.IsSeed l files q ∨ q = p ∧ t.IsSeed l [p] p := by
  obtain ⟨hmem, hseed⟩ := h
  rcases List.mem_append.1 hmem with hmem | hmem
  · exact .inl ⟨hmem, hseed⟩
  · obtain rfl := List.mem_singleton.1 hmem
    exact .inr ⟨rfl, hmem, hseed⟩

/-- The least set that holds the seeds and all files they lead to that can be used and are no client
components. -/
inductive Spread (t : Terrain) (l : Ledger) (files : List Path) : Path → Prop
  | seed {p : Path} : t.IsSeed l files p → Spread t l files p
  | step {x y : Path} : Spread t l files x → t.Leads x y → l.get y ≠ .client →
      (∃ m, Module.ofFile t.disk y = .ok m) → Spread t l files y

namespace Spread

theorem usable (h : t.Spread l files x) : ∃ m, Module.ofFile t.disk x = .ok m := by
  cases h with
  | seed hseed =>
    obtain ⟨-, -, m, hm, -⟩ := hseed
    exact ⟨m, hm⟩
  | step _ _ _ husable => exact husable

theorem mono (hfiles : ∀ p ∈ files, p ∈ files') (h : t.Spread l files x) : t.Spread l files' x := by
  induction h with
  | seed hseed => exact .seed ⟨hfiles _ hseed.1, hseed.2⟩
  | step _ hleads hclient husable ih => exact .step ih hleads hclient husable

end Spread

/-- Some spelling of the place is among the files, can be used and has no directive. -/
def Serves (t : Terrain) (files : List Path) (p : Path) : Prop :=
  ∃ f ∈ files, f.steps = p.steps ∧ ∃ m, Module.ofFile t.disk f = .ok m ∧ m.isClient = false

/-- Then no file at the place has the directive. -/
theorem Serves.isClient {p : Path} (h : t.Serves files p) (hm : Module.ofFile t.disk p = .ok m) :
    m.isClient = false := by
  obtain ⟨f, -, hsteps, m', hm', hserver⟩ := h
  obtain rfl := Module.ofFile_eq_of_steps hsteps hm' hm
  exact hserver

theorem serves_append {p : Path} : t.Serves (files ++ files') p ↔ t.Serves files p ∨ t.Serves files' p := by
  simp only [Serves, List.mem_append, or_and_right, exists_or]

theorem serves_singleton {p q : Path} : t.Serves [p] q ↔
    p.steps = q.steps ∧ ∃ m, Module.ofFile t.disk p = .ok m ∧ m.isClient = false := by
  simp only [Serves, List.mem_singleton, exists_eq_left]

end Terrain

namespace Probe

variable {d : Disk} {p : Path} {m : Module} {f : Failure}

theorem ofFile_of_error (h : Module.ofFile d p = .error f) : ofFile d p = .failed f := by
  rw [ofFile, h]

theorem ofFile_of_server (h : Module.ofFile d p = .ok m) (hclient : m.isClient = false) :
    ofFile d p = .server := by
  simp only [ofFile, h, hclient]
  rfl

theorem ofFile_of_client (h : Module.ofFile d p = .ok m) (hclient : m.isClient = true) :
    ofFile d p = .client m.edges := by
  simp only [ofFile, h, hclient]
  rfl

end Probe

namespace Session

open Terrain

/-! ## One commit -/

section commit

variable {s : Session} {d : Disk} {c : Ledger} {p : Path}

theorem commit_of_known {side : Side} (h : c.side? p = some side) (probe : Probe) :
    s.commit d c p probe = (s, c, .classified side.classification) := by
  simp only [commit, h]

theorem commit_of_failed (h : c.side? p = none) (f : Failure) :
    s.commit d c p (.failed f) = (s, c, .failed f) := by
  simp only [commit, h]

theorem commit_of_server (h : c.side? p = none) : s.commit d c p .server =
    (s, c.setServerIfUnknown p, .classified ((c.setServerIfUnknown p).get p)) := by
  simp only [commit, h]

theorem commit_of_client (h : c.side? p = none) (edges : List Edge) :
    s.commit d c p (.client edges) =
      let w := (s.terrain d).propagate c s.memo p edges
      ({ s with memo := w.memo, log := s.log.merge w.done }, w.ledger, .classified .client) := by
  simp only [commit, h]
  rfl

end commit

/-- What holds of a session and its ledger `c` after files were committed, beginning with the ledger
`l`. -/
structure Tally (t : Terrain) (l : Ledger) (files : List Path) (s : Session) (c : Ledger) : Prop where
  /-- the session works where it did -/
  terrain : s.terrain t.disk = t
  /-- the memo can be relied on -/
  sound : s.memo.Sound t.disk t.project
  /-- client components are the marked files and those of the beginning -/
  client : ∀ q : Path, c.get q = .client ↔ q.steps ∈ s.log.markedSteps ∨ l.get q = .client
  /-- server components are those of the beginning and the files that say so, unless marked -/
  server : ∀ q : Path, c.get q = .server ↔ q.steps ∉ s.log.markedSteps ∧
    (l.get q = .server ∨ l.get q = .unknown ∧ t.Serves files q)
  /-- what is written in the ledger was written there, is marked, or is a file that can be used -/
  paths : ∀ q ∈ c.paths, q ∈ l.paths ∨ q ∈ s.log.marked ∨
    q ∈ files ∧ ∃ m, Module.ofFile t.disk q = .ok m
  /-- seeds are marked -/
  seeds : ∀ p, t.IsSeed l files p → p.steps ∈ s.log.markedSteps
  /-- nothing is marked that need not be -/
  least : ∀ x ∈ s.log.marked, t.Spread l files x
  /-- where marked files lead is marked, has failed or was a client component -/
  closed : ∀ x ∈ s.log.marked, ∀ y, t.Leads x y →
    l.get y = .client ∨ y.steps ∈ s.log.markedSteps ∨ y.steps ∈ s.log.failedSteps
  /-- what has failed is where some marked file leads -/
  failed : ∀ f ∈ s.log.failures, Module.ofFile t.disk f.path = .error f ∧
    l.get f.path ≠ .client ∧ ∃ x ∈ s.log.marked, t.Leads x f.path
  /-- no place is marked twice -/
  nodup : s.log.markedSteps.Nodup
  /-- the edges that are passed over are those of the marked files -/
  skipped : s.log.skipped = s.log.marked.flatMap fun x => t.passed x (t.edgesOf x)

namespace Tally

variable {t : Terrain} {l c : Ledger} {files : List Path} {s : Session} {p q : Path}

theorem init (d : Disk) (project : Project) (followDynamic : Bool) (l : Ledger) :
    Tally ⟨d, project, followDynamic⟩ l [] (.new project followDynamic) l where
  terrain := rfl
  sound := Memo.sound_empty
  client q := by simp [new, Propagation.empty, Propagation.markedSteps]
  server q := by simp [new, Propagation.empty, Propagation.markedSteps, Serves]
  paths q hq := .inl hq
  seeds p hp := absurd hp.1 List.not_mem_nil
  least x hx := absurd hx List.not_mem_nil
  closed x hx := absurd hx List.not_mem_nil
  failed f hf := absurd hf List.not_mem_nil
  nodup := List.nodup_nil
  skipped := rfl

/-- What is not known now was not known at the beginning, and is not marked. -/
theorem unknown (h : Tally t l files s c) (hp : c.side? p = none) :
    l.get p = .unknown ∧ p.steps ∉ s.log.markedSteps ∧ ¬ t.Serves files p := by
  have hclient : ¬ c.get p = .client := by simp [hp]
  have hserver : ¬ c.get p = .server := by simp [hp]
  rw [h.client, not_or] at hclient
  rw [h.server] at hserver
  cases hl : l.get p with
  | client => exact absurd hl hclient.2
  | server => exact absurd ⟨hclient.1, .inl hl⟩ hserver
  | unknown => exact ⟨rfl, hclient.1, fun hserves => hserver ⟨hclient.1, .inr ⟨hl, hserves⟩⟩⟩

/-- What is known now, is not marked and was not known at the beginning is a server component. -/
theorem server_of_known (h : Tally t l files s c) (hq : c.side? q ≠ none)
    (hmarked : q.steps ∉ s.log.markedSteps) (hl : l.get q = .unknown) : c.get q = .server := by
  cases hc : c.get q with
  | unknown => exact absurd (Ledger.get_eq_unknown.1 hc) hq
  | server => rfl
  | client =>
    rcases (h.client q).1 hc with hq' | hl'
    · exact absurd hq' hmarked
    · rw [hl] at hl'
      cases hl'

theorem paths_append (h : Tally t l files s c) (hq : q ∈ c.paths) (rest : List Path) :
    q ∈ l.paths ∨ q ∈ s.log.marked ∨ q ∈ files ++ rest ∧ ∃ m, Module.ofFile t.disk q = .ok m := by
  rcases h.paths q hq with hl | hmarked | ⟨hfile, hm⟩
  · exact .inl hl
  · exact .inr (.inl hmarked)
  · exact .inr (.inr ⟨List.mem_append_left _ hfile, hm⟩)

/-! ## Commits -/

/-- Nothing has to be done about a file that is no seed, or marked, and no server component, or known
as one. -/
theorem keep (h : Tally t l files s c) (hseed : t.IsSeed l [p] p → p.steps ∈ s.log.markedSteps)
    (hserve : t.Serves [p] p → c.side? p ≠ none) : Tally t l (files ++ [p]) s c where
  __ := h
  server q := by
    rw [serves_append, h.server]
    refine and_congr_right fun hq => ⟨?_, ?_⟩
    · rintro (hl | ⟨hl, hserves⟩)
      · exact .inl hl
      · exact .inr ⟨hl, .inl hserves⟩
    · rintro (hl | ⟨hl, hserves | hserves⟩)
      · exact .inl hl
      · exact .inr ⟨hl, hserves⟩
      · -- the file is known, and not as a client component
        obtain ⟨hsteps, hm⟩ := serves_singleton.1 hserves
        have hknown : c.side? q ≠ none := by
          rw [← c.side?_congr hsteps]
          exact hserve (serves_singleton.2 ⟨rfl, hm⟩)
        exact ((h.server q).1 (h.server_of_known hknown hq hl)).2
  paths q hq := h.paths_append hq [p]
  seeds q hq := by
    rcases hq.append_cases with hq | ⟨rfl, hq⟩
    · exact h.seeds q hq
    · exact hseed hq
  least x hx := (h.least x hx).mono fun p => List.mem_append_left _

/-- A file that is known already. -/
theorem commit_known (h : Tally t l files s c) (hp : c.side? p ≠ none) :
    Tally t l (files ++ [p]) s c := by
  refine h.keep ?_ fun _ => hp
  rintro ⟨-, hl, m, hm, hclient⟩
  by_contra hmarked
  -- so it is a server component, and a file at its place has no directive
  obtain ⟨-, hserver | ⟨-, hserves⟩⟩ := (h.server p).1 (h.server_of_known hp hmarked hl)
  · rw [hl] at hserver
    cases hserver
  · rw [hserves.isClient hm] at hclient
    cases hclient

/-- A file that cannot be used. -/
theorem commit_failed {f : Failure} (h : Tally t l files s c)
    (hf : Module.ofFile t.disk p = .error f) : Tally t l (files ++ [p]) s c := by
  refine h.keep ?_ ?_
  · rintro ⟨-, -, m, hm, -⟩
    rw [hf] at hm
    cases hm
  · intro hserves
    obtain ⟨-, m, hm, -⟩ := serves_singleton.1 hserves
    rw [hf] at hm
    cases hm

/-- A file without the directive. -/
theorem commit_server {m : Module} (h : Tally t l files s c) (hp : c.side? p = none)
    (hm : Module.ofFile t.disk p = .ok m) (hclient : m.isClient = false) :
    Tally t l (files ++ [p]) s (c.setServerIfUnknown p) := by
  obtain ⟨hl, hmarked, -⟩ := h.unknown hp
  have hside : ∀ q : Path, (c.setServerIfUnknown p).side? q =
      if p.steps = q.steps then some .server else c.side? q := by
    intro q
    rw [Ledger.side?_setServerIfUnknown, hp]
    rfl
  exact
    { h with
      client := by
        intro q
        rw [← h.client q, Ledger.get_eq_client, Ledger.get_eq_client, hside]
        by_cases hsteps : p.steps = q.steps
        · rw [if_pos hsteps, ← c.side?_congr hsteps, hp]
          simp
        · rw [if_neg hsteps]
      server := by
        intro q
        rw [Ledger.get_eq_server, hside, serves_append, serves_singleton]
        by_cases hsteps : p.steps = q.steps
        · rw [if_pos hsteps, ← hsteps, ← l.get_congr hsteps]
          exact iff_of_true rfl ⟨hmarked, .inr ⟨hl, .inr ⟨rfl, m, hm, hclient⟩⟩⟩
        · rw [if_neg hsteps, ← Ledger.get_eq_server, h.server q]
          simp only [hsteps, false_and, or_false]
      paths := by
        intro q hq
        rcases Ledger.mem_paths_setServerIfUnknown hq with rfl | hq
        · exact .inr (.inr ⟨List.mem_append_right _ (List.mem_singleton_self _), m, hm⟩)
        · exact h.paths_append hq [p]
      seeds := by
        intro q hq
        rcases hq.append_cases with hq | ⟨rfl, -, -, m', hm', hclient'⟩
        · exact h.seeds q hq
        · rw [(serves_singleton.2 ⟨rfl, m, hm, hclient⟩).isClient hm'] at hclient'
          cases hclient'
      least := fun x hx => (h.least x hx).mono fun p => List.mem_append_left _ }

/-- A file with the directive, from which propagation starts. -/
theorem commit_client {m : Module} (h : Tally t l files s c) (hp : c.side? p = none)
    (hm : Module.ofFile t.disk p = .ok m) (hclient : m.isClient = true) {w : Wave}
    (hw : t.Covers t.edgesOf c p w []) :
    Tally t l (files ++ [p]) { s with memo := w.memo, log := s.log.merge w.done } w.ledger := by
  obtain ⟨hl, hmarked, -⟩ := h.unknown hp
  have hsteps : (s.log.merge w.done).markedSteps = s.log.markedSteps ++ w.done.markedSteps :=
    List.map_append
  have hfails : (s.log.merge w.done).failedSteps = s.log.failedSteps ++ w.done.failedSteps :=
    List.map_append
  -- a client component of the beginning is still one, so propagation goes no further than `Spread`
  have hspread : ∀ x ∈ w.done.marked, t.Spread l (files ++ [p]) x := by
    refine hw.least _ (.seed ⟨List.mem_append_right _ (List.mem_singleton_self p), hl, m, hm, hclient⟩) ?_
    intro x y hx hy hc husable
    obtain ⟨mx, hmx⟩ := hx.usable
    rw [edgesOf_eq hmx] at hy
    exact .step hx ((leads_iff hmx).2 hy) (fun hly => hc ((h.client y).2 (.inr hly))) husable
  exact
    { terrain := h.terrain
      sound := hw.sound
      client := by
        intro q
        rw [hw.extend.client_iff, h.client, hsteps, List.mem_append]
        tauto
      server := by
        intro q
        have hnot : ¬ t.Serves [p] q := by
          intro hserves
          obtain ⟨-, hserver⟩ := serves_singleton.1 hserves
          rw [(serves_singleton.2 ⟨rfl, hserver⟩).isClient hm] at hclient
          cases hclient
        rw [hw.extend.server_iff, h.server, hsteps, List.mem_append, serves_append]
        tauto
      paths := by
        intro q hq
        rcases hw.paths q hq with hq | hmarked
        · rcases h.paths_append hq [p] with hl | hmarked | hfile
          · exact .inl hl
          · exact .inr (.inl (List.mem_append_left _ hmarked))
          · exact .inr (.inr hfile)
        · exact .inr (.inl (List.mem_append_right _ hmarked))
      seeds := by
        intro q hq
        rw [hsteps]
        rcases hq.append_cases with hq | ⟨rfl, -⟩
        · exact List.mem_append_left _ (h.seeds q hq)
        · exact List.mem_append_right _ (Propagation.steps_mem_markedSteps hw.start_mem)
      least := by
        intro x hx
        rcases List.mem_append.1 hx with hx | hx
        · exact (h.least x hx).mono fun p => List.mem_append_left _
        · exact hspread x hx
      closed := by
        intro x hx y hy
        rw [hsteps, hfails, List.mem_append, List.mem_append]
        rcases List.mem_append.1 hx with hx | hx
        · rcases h.closed x hx y hy with hly | hmark | hfail
          · exact .inl hly
          · exact .inr (.inl (.inl hmark))
          · exact .inr (.inr (.inl hfail))
        · obtain ⟨mx, hmx⟩ := (hspread x hx).usable
          rw [leads_iff hmx, ← edgesOf_eq hmx] at hy
          rcases hw.followed x hx y hy with hcy | hvisited | hnil
          · rcases (h.client y).1 hcy with hmark | hly
            · exact .inr (.inl (.inl hmark))
            · exact .inl hly
          · rcases (hw.visited _).1 hvisited with hmark | hfail
            · exact .inr (.inl (.inr hmark))
            · exact .inr (.inr (.inr hfail))
          · exact absurd hnil List.not_mem_nil
      failed := by
        intro f hf
        rcases List.mem_append.1 hf with hf | hf
        · obtain ⟨herror, hlf, x, hx, hleads⟩ := h.failed f hf
          exact ⟨herror, hlf, x, List.mem_append_left _ hx, hleads⟩
        · obtain ⟨herror, hcf, x, hx, htarget⟩ := hw.failed f hf
          obtain ⟨mx, hmx⟩ := (hspread x hx).usable
          rw [edgesOf_eq hmx] at htarget
          refine ⟨herror, fun hlf => hcf ((h.client _).2 (.inr hlf)), x, ?_, (leads_iff hmx).2 htarget⟩
          exact List.mem_append_right _ hx
      nodup := by
        rw [hsteps]
        refine h.nodup.append (List.Nodup.of_append_left hw.nodup) ?_
        -- a place that was marked before is a client component, and is not entered again
        intro σ hold hnew
        obtain ⟨y, hy, rfl⟩ := List.mem_map.1 hnew
        by_cases hyp : y = p
        · rw [hyp] at hold
          exact hmarked hold
        · exact (hw.usable y hy hyp).1 ((h.client y).2 (.inl hold))
      skipped := by
        change s.log.skipped ++ w.done.skipped = (s.log.marked ++ w.done.marked).flatMap _
        rw [h.skipped, hw.skipped, List.flatMap_append] }

/-- **One commit keeps the tally**, whatever the file says about itself. -/
theorem commit (h : Tally t l files s c) (p : Path) :
    Tally t l (files ++ [p]) (s.commit t.disk c p (Probe.ofFile t.disk p)).1
      (s.commit t.disk c p (Probe.ofFile t.disk p)).2.1 := by
  cases hp : c.side? p with
  | some side =>
    rw [commit_of_known hp]
    refine h.commit_known ?_
    rw [hp]
    exact nofun
  | none =>
    cases hm : Module.ofFile t.disk p with
    | error f =>
      rw [Probe.ofFile_of_error hm, commit_of_failed hp]
      exact h.commit_failed hm
    | ok m =>
      cases hclient : m.isClient with
      | false =>
        rw [Probe.ofFile_of_server hm hclient, commit_of_server hp]
        exact h.commit_server hp hm hclient
      | true =>
        have hw := propagate_covers h.sound c p m.edges
        rw [← edgesOf_eq hm, Function.update_eq_self, edgesOf_eq hm] at hw
        rw [Probe.ofFile_of_client hm hclient, commit_of_client hp, h.terrain]
        exact h.commit_client hp hm hclient hw

/-- **All commits keep the tally.** -/
theorem commitAll (h : Tally t l files s c) (rest : List Path) :
    let last := Session.commitAll t.disk s c (rest.map fun p => (p, Probe.ofFile t.disk p))
    Tally t l (files ++ rest) last.1 last.2.1 := by
  induction rest generalizing files s c with
  | nil =>
    rw [List.append_nil]
    exact h
  | cons p rest ih =>
    have hrest := ih (h.commit p)
    rwa [List.append_assoc] at hrest

/-! ## Reading the log -/

/-- **What is marked** is what the directive spreads to. -/
theorem mem_markedSteps (h : Tally t l files s c) {σ : List Step} :
    σ ∈ s.log.markedSteps ↔ ∃ x, t.Spread l files x ∧ x.steps = σ := by
  constructor
  · intro hσ
    obtain ⟨x, hx, rfl⟩ := List.mem_map.1 hσ
    exact ⟨x, h.least x hx, rfl⟩
  · rintro ⟨x, hx, rfl⟩
    induction hx with
    | seed hseed => exact h.seeds _ hseed
    | @step x y _ hleads hclient husable ih =>
      -- the marked spelling of the place leads where `x` does
      obtain ⟨z, hz, hsteps⟩ := List.mem_map.1 ih
      obtain ⟨mz, hmz⟩ := (h.least z hz).usable
      rcases h.closed z hz y (hleads.congr hsteps.symm hmz) with hl | hmarked | hfailed
      · exact absurd hl hclient
      · exact hmarked
      · -- a target that can be used does not fail
        obtain ⟨f, hf, hfsteps⟩ := List.mem_map.1 hfailed
        obtain ⟨herror, -, w, -, hw⟩ := h.failed f hf
        obtain ⟨m, hm⟩ := husable
        rw [hw.ofFile hfsteps.symm hm] at herror
        cases herror

/-- **What has failed** is where the directive would spread to if it could be used. -/
theorem mem_failedSteps (h : Tally t l files s c) {σ : List Step} :
    σ ∈ s.log.failedSteps ↔ ∃ x y, t.Spread l files x ∧ t.Leads x y ∧ l.get y ≠ .client ∧
      (∃ f, Module.ofFile t.disk y = .error f) ∧ y.steps = σ := by
  constructor
  · intro hσ
    obtain ⟨f, hf, rfl⟩ := List.mem_map.1 hσ
    obtain ⟨herror, hl, x, hx, hleads⟩ := h.failed f hf
    exact ⟨x, f.path, h.least x hx, hleads, hl, ⟨f, herror⟩, rfl⟩
  · rintro ⟨x, y, hx, hleads, hl, ⟨f, hf⟩, rfl⟩
    obtain ⟨z, hz, hsteps⟩ := List.mem_map.1 (h.mem_markedSteps.2 ⟨x, hx, rfl⟩)
    obtain ⟨mz, hmz⟩ := (h.least z hz).usable
    rcases h.closed z hz y (hleads.congr hsteps.symm hmz) with hclient | hmarked | hfailed
    · exact absurd hclient hl
    · -- a marked file can be used, and so can the target at its place
      obtain ⟨v, hv, hvsteps⟩ := List.mem_map.1 hmarked
      obtain ⟨mv, hmv⟩ := (h.least v hv).usable
      rw [hleads.ofFile hvsteps hmv] at hf
      cases hf
    · exact hfailed

open Classical in
/-- **What is known in the end**, place by place. -/
theorem side?_eq (h : Tally t l files s c) (q : Path) : c.side? q =
    if l.get q = .client ∨ ∃ x, t.Spread l files x ∧ x.steps = q.steps then some .client
    else if l.get q ≠ .unknown then l.side? q
    else if t.Serves files q then some .server
    else none := by
  have hclient := h.client q
  have hserver := h.server q
  rw [h.mem_markedSteps] at hclient hserver
  split
  · rename_i hc
    exact Ledger.get_eq_client.1 (hclient.2 hc.symm)
  · rename_i hc
    rw [not_or] at hc
    split
    · rename_i hl
      cases hlq : l.get q with
      | unknown => exact absurd hlq hl
      | client => exact absurd hlq hc.1
      | server =>
        rw [Ledger.get_eq_server.1 hlq]
        exact Ledger.get_eq_server.1 (hserver.2 ⟨hc.2, .inl hlq⟩)
    · rename_i hl
      rw [not_not] at hl
      split
      · rename_i hserves
        exact Ledger.get_eq_server.1 (hserver.2 ⟨hc.2, .inr ⟨hl, hserves⟩⟩)
      · rename_i hserves
        cases hcq : c.get q with
        | unknown => exact Ledger.get_eq_unknown.1 hcq
        | client => exact absurd (hclient.1 hcq).symm (not_or.2 hc)
        | server =>
          rcases (hserver.1 hcq).2 with hlq | ⟨-, hserves'⟩
          · rw [hl] at hlq
            cases hlq
          · exact absurd hserves' hserves

end Tally

end Session

end ClientBoundary
