import ClientBoundary.Proofs.Session
import ClientBoundary.Scan

/-!
# What a scan classifies

A scan commits its component files one after the other in a new session, so what holds of sessions holds
of scans (`tally_of_run`). Component files are written without links, hence **plain**: for them and for
all they lead to, a place is spelt in one way only, and the log lists the files themselves.

`run_exact` puts this together: a scan leaves behind exactly what the directive spreads to, what was known
before, and the component files that are left over.
-/

namespace ClientBoundary

namespace Collect

variable {d : Disk} {p q : Path} {paths : List Path}

theorem mem_of_mem_insert (h : q ∈ insert p paths) : q = p ∨ q ∈ paths := by
  induction paths with
  | nil => exact .inl (List.mem_singleton.1 h)
  | cons r rest ih =>
    rw [insert] at h
    split at h
    · exact List.mem_cons.1 h
    · exact .inr h
    · rcases List.mem_cons.1 h with rfl | h
      · exact .inr (List.mem_cons_self ..)
      · exact (ih h).imp_right (List.mem_cons_of_mem r)

theorem mem_of_mem_sorted (h : q ∈ sorted paths) : q ∈ paths := by
  have hfold : ∀ (rest done : List Path), q ∈ rest.foldl (fun done p => insert p done) done →
      q ∈ rest ∨ q ∈ done := by
    intro rest
    induction rest with
    | nil => exact fun done h => .inr h
    | cons r rest ih =>
      intro done h
      rcases ih _ h with hrest | hinsert
      · exact .inl (List.mem_cons_of_mem r hrest)
      · rcases mem_of_mem_insert hinsert with rfl | hdone
        · exact .inl (List.mem_cons_self ..)
        · exact .inr hdone
  exact (hfold paths [] h).resolve_right List.not_mem_nil

/-- Inserting a path keeps the order. -/
theorem pairwise_insert (h : paths.Pairwise fun p q => p.order q = .lt) (p : Path) :
    (insert p paths).Pairwise fun p q => p.order q = .lt := by
  induction paths with
  | nil => exact List.pairwise_singleton _ _
  | cons r rest ih =>
    obtain ⟨hr, hrest⟩ := List.pairwise_cons.1 h
    rw [insert]
    split
    · rename_i hlt
      refine List.pairwise_cons.2 ⟨List.forall_mem_cons.2 ⟨hlt, ?_⟩, h⟩
      intro q hq
      exact Std.TransCmp.lt_trans hlt (hr q hq)
    · exact h
    · rename_i hgt
      refine List.pairwise_cons.2 ⟨?_, ih hrest⟩
      intro q hq
      rcases mem_of_mem_insert hq with rfl | hq
      · exact Std.OrientedCmp.lt_of_gt hgt
      · exact hr q hq

theorem pairwise_sorted (paths : List Path) :
    (sorted paths).Pairwise fun p q => p.order q = .lt := by
  have hfold : ∀ (rest done : List Path), (done.Pairwise fun p q => p.order q = .lt) →
      (rest.foldl (fun done p => insert p done) done).Pairwise fun p q => p.order q = .lt := by
    intro rest
    induction rest with
    | nil => exact fun done h => h
    | cons p rest ih => exact fun done h => ih _ (pairwise_insert h p)
  exact hfold paths [] .nil

/-- What is listed is what the walk finds, in order. -/
theorem components_eq {root : Path} {exclude : List String} {files : List Path}
    (h : components d root exclude = .ok files) :
    ∃ paths, Walk.paths ⟨d, exclude⟩ root = .ok paths ∧ files = ofPaths d paths := by
  rw [components] at h
  cases hwalk : Walk.paths ⟨d, exclude⟩ root with
  | error e =>
    rw [hwalk] at h
    cases h
  | ok paths =>
    rw [hwalk] at h
    cases h
    exact ⟨paths, rfl, rfl⟩

/-- Component files are written without links. -/
theorem isLinkFree_of_mem_ofPaths (hp : p ∈ ofPaths d paths) : d.IsLinkFree p := by
  obtain ⟨q, hq, rfl⟩ := List.mem_map.1 (mem_of_mem_sorted hp)
  exact Disk.isLinkFree_canonicalOr (Bool.and_eq_true_iff.1 (List.mem_filter.1 hq).2).1

end Collect

namespace Scan

open Terrain Session

variable {d : Disk} {o : Options} {l l' : Ledger} {r : ScanResult} {project : Project}
  {files : List Path}

/-- What comes before the last step of a successful computation succeeds too. -/
theorem ok_of_bind {ε α β : Type} {x : Except ε α} {f : α → Except ε β} {b : β}
    (h : x >>= f = .ok b) : ∃ a, x = .ok a ∧ f a = .ok b := by
  cases x with
  | error e => cases h
  | ok a => exact ⟨a, rfl, h⟩

/-- What a scan works on, part by part. -/
theorem survey_iff : survey d o = .ok (project, files) ↔
    ∃ root, Config.chooseRoot { options := o } d = .ok root ∧ checkProject d o root = .ok () ∧
      Collect.components d root o.exclude = .ok files ∧ project = ⟨root, .ofProject d root⟩ := by
  constructor
  · intro h
    obtain ⟨c, hsettle, h⟩ := ok_of_bind h
    obtain ⟨chosen, hchosen, hsettle⟩ := ok_of_bind hsettle
    cases hsettle
    obtain ⟨root, hroot, h⟩ := ok_of_bind h
    cases hroot
    obtain ⟨⟨⟩, hcheck, h⟩ := ok_of_bind h
    obtain ⟨found, hfound, h⟩ := ok_of_bind h
    cases h
    exact ⟨chosen, hchosen, hcheck, hfound, rfl⟩
  · rintro ⟨root, hroot, hcheck, hfiles, rfl⟩
    have hsettle : Config.settle { options := o } d =
        .ok { options := { o with root := some root }, aliases := .ofProject d root } := by
      rw [Config.settle, hroot]
      rfl
    simp only [survey, hsettle, Config.root, bind, Except.bind, hcheck, hfiles]
    rfl

theorem components_of_survey (h : survey d o = .ok (project, files)) :
    Collect.components d project.root o.exclude = .ok files := by
  obtain ⟨root, -, -, hfiles, rfl⟩ := survey_iff.1 h
  exact hfiles

theorem isLinkFree_of_survey (h : survey d o = .ok (project, files)) : ∀ p ∈ files, d.IsLinkFree p := by
  obtain ⟨paths, -, rfl⟩ := Collect.components_eq (components_of_survey h)
  exact fun p => Collect.isLinkFree_of_mem_ofPaths

theorem isPlain_of_survey (h : survey d o = .ok (project, files)) : ∀ p ∈ files, p.IsPlain :=
  fun p hp => (isLinkFree_of_survey h p hp).isPlain

/-- No place is among the component files twice. -/
theorem nodup_of_survey (h : survey d o = .ok (project, files)) : (files.map Path.steps).Nodup := by
  obtain ⟨paths, -, rfl⟩ := Collect.components_eq (components_of_survey h)
  exact Path.nodup_steps (Collect.pairwise_sorted _)

/-- The result of a scan is put together from the log and the reports of its session. -/
theorem classifyAll_eq {followDynamic : Bool} {s : Session} {reports : List (Path × Outcome)}
    (h : commitAll d (.new project followDynamic) l (probes d files) = (s, l', reports)) :
    classifyAll d project followDynamic l files =
      ({ root := project.root
         files := reports
         entryPoints := entryPoints (probes d files)
         marked := s.log.marked.filter fun p => !isAmong (entryPoints (probes d files)) p
         warnings := s.log.failures
         skippedEdges := s.log.skipped
         filesAnalyzed := files.length }, l') := by
  simp only [classifyAll, h]

/-- A scan classifies what it works on. -/
theorem run_of_survey (h : survey d o = .ok (project, files)) :
    run d o l = .ok (classifyAll d project o.followDynamic l files) := by
  rw [run, h]
  rfl

theorem survey_of_run (h : run d o l = .ok (r, l')) :
    ∃ project files, survey d o = .ok (project, files) ∧
      classifyAll d project o.followDynamic l files = (r, l') := by
  obtain ⟨⟨project, files⟩, hsurvey, h⟩ := ok_of_bind h
  exact ⟨project, files, hsurvey, Except.ok.inj h⟩

/-- The tally of a new session that commits files. -/
theorem tally_probes (d : Disk) (project : Project) (followDynamic : Bool) (l : Ledger)
    (files : List Path) :
    Tally ⟨d, project, followDynamic⟩ l files
      (commitAll d (.new project followDynamic) l (probes d files)).1
      (commitAll d (.new project followDynamic) l (probes d files)).2.1 :=
  (Tally.init d project followDynamic l).commitAll files

/-- **The tally of a scan.** -/
theorem tally_of_run (h : run d o l = .ok (r, l')) :
    ∃ project files s, survey d o = .ok (project, files) ∧
      commitAll d (.new project o.followDynamic) l (probes d files) = (s, l', r.files) ∧
      Tally ⟨d, project, o.followDynamic⟩ l files s l' := by
  obtain ⟨project, files, hsurvey, hall⟩ := survey_of_run h
  cases hall
  exact ⟨project, files, _, hsurvey, rfl, tally_probes d project o.followDynamic l files⟩

end Scan

namespace Terrain

variable {t : Terrain} {l : Ledger} {files : List Path} {x y : Path}

theorem Leads.isPlain (h : t.Leads x y) : y.IsPlain := by
  obtain ⟨m, -, e, -, -, -, htarget⟩ := h
  exact Resolve.isPlain_of_target? htarget

theorem Spread.isPlain (hfiles : ∀ p ∈ files, p.IsPlain) (h : t.Spread l files x) : x.IsPlain := by
  cases h with
  | seed hseed => exact hfiles x hseed.1
  | step _ hleads _ _ => exact hleads.isPlain

end Terrain

namespace Session

/-- Among plain files the log lists exactly what the directive spreads to. -/
theorem Tally.mem_marked {t : Terrain} {l c : Ledger} {files : List Path} {s : Session}
    (h : Tally t l files s c) (hfiles : ∀ p ∈ files, p.IsPlain) {x : Path} :
    x ∈ s.log.marked ↔ t.Spread l files x := by
  refine ⟨h.least x, fun hx => ?_⟩
  -- some spelling of the place is marked, and the plain one is the only plain one
  obtain ⟨z, hz, hsteps⟩ := List.mem_map.1 (h.mem_markedSteps.2 ⟨x, hx, rfl⟩)
  have hzx : z = x := ((h.least z hz).isPlain hfiles).eq_of_steps (hx.isPlain hfiles) hsteps
  rwa [← hzx]

end Session

namespace Scan

variable {d : Disk} {o : Options} {l l' : Ledger} {r : ScanResult}

open Classical in
/-- **Exactness of a scan.** Each place ends as a client component if it was one or the directive
spreads to it, else as what it was if it was known, else as a server component if a component file
without the directive is there, and else unknown. The log lists what the directive spreads to, each file
once. -/
theorem run_exact (h : run d o l = .ok (r, l')) :
    ∃ project files, survey d o = .ok (project, files) ∧
      Collect.components d project.root o.exclude = .ok files ∧
      let t : Terrain := ⟨d, project, o.followDynamic⟩
      let log := (Session.commitAll d (.new project o.followDynamic) l (probes d files)).1.log
      (∀ p : Path, l'.side? p =
        if l.get p = .client ∨ ∃ x, t.Spread l files x ∧ x.steps = p.steps then some .client
        else if l.get p ≠ .unknown then l.side? p
        else if t.Serves files p then some .server
        else none) ∧
      (log.marked.map Path.steps).Nodup ∧ ∀ x, x ∈ log.marked ↔ t.Spread l files x := by
  obtain ⟨project, files, s, hsurvey, hcommit, htally⟩ := tally_of_run h
  refine ⟨project, files, hsurvey, components_of_survey hsurvey, htally.side?_eq, ?_⟩
  rw [hcommit]
  exact ⟨htally.nodup, fun x => htally.mem_marked (isPlain_of_survey hsurvey)⟩

/-- Two files that import each other, one of them with the directive. One of their imports is missing,
and one is made by a call. Another file is not well formed. -/
def ring : Disk where
  tree := .dir [("w", .dir [
    ("a.tsx", .file (.ofText "'use client'; import './b'; import './gone'; import 'react'")),
    ("b.tsx", .file (.ofText "import './a'; import('./c')")),
    ("c.tsx", .file (.ofText "")),
    ("d.tsx", .file (.ofText "import './a'")),
    ("e.tsx", .file (.ofText "import \x7b"))])]
  cwd := ["w"]

/-- Scans the project at `/w`, following calls. -/
def ringOptions : Options :=
  { root := some ⟨"/w"⟩, followDynamic := true, skipProjectCheck := true }

/-- Knows that the file that is imported by a call is a client component. -/
def ringLedger : Ledger := Ledger.empty.setClient ⟨"/w/c.tsx"⟩

theorem run_ring : ∃ r l', run ring ringOptions ringLedger = .ok (r, l') := by
  have hok : (run ring ringOptions ringLedger).isOk = true := by decide +kernel
  cases hrun : run ring ringOptions ringLedger with
  | error e =>
    rw [hrun] at hok
    cases hok
  | ok out => exact ⟨out.1, out.2, rfl⟩

theorem run_exact_ring : ∃ r l', run ring ringOptions ringLedger = .ok (r, l') ∧
    ∃ project files, survey ring ringOptions = .ok (project, files) ∧
      ∀ x, x ∈ (Session.commitAll ring (.new project true) ringLedger (probes ring files)).1.log.marked ↔
        Terrain.Spread ⟨ring, project, true⟩ ringLedger files x := by
  obtain ⟨r, l', hrun⟩ := run_ring
  obtain ⟨project, files, hsurvey, -, -, -, hmarked⟩ := run_exact hrun
  exact ⟨r, l', hrun, project, files, hsurvey, hmarked⟩

end Scan

end ClientBoundary
