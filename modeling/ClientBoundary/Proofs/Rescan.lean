import ClientBoundary.Proofs.Scan

/-!
# Scanning again

A scan keeps what it finds in the ledger. On an **unchanged** disk nothing is left to do after a scan:
each component file is known or cannot be used, so the next scan commits nothing and reports the same
failures (`run_again`).

On a **changed** disk what is kept gets in the way. The directive spreads along ways of imports; a way is
cut where its first file is known already, or where it enters a client component. What only cut ways lead
to is missed (`not_refreshed`), and a scan finds all that some other way leads to (`client_run_iff_way`).
-/

namespace ClientBoundary

/-! ## An unchanged disk -/

namespace Session

open Terrain

variable {t : Terrain} {l c : Ledger} {files rest : List Path} {s : Session} {p : Path}

/-- A report about a file that could not be used. -/
def failure? : Path × Outcome → Option (Path × Failure)
  | (p, .failed f) => some (p, f)
  | _ => none

/-- The failure that is reported about a file: it cannot be used, and nothing is known about it. -/
def failing? (d : Disk) (c : Ledger) (p : Path) : Option (Path × Failure) :=
  match c.side? p, Module.ofFile d p with
  | none, .error f => some (p, f)
  | _, _ => none

/-- A commit reports a failure just then. -/
theorem failure?_commit (s : Session) (d : Disk) (c : Ledger) (p : Path) :
    failure? (p, (s.commit d c p (Probe.ofFile d p)).2.2) = failing? d c p := by
  cases hp : c.side? p with
  | some side =>
    rw [commit_of_known hp]
    simp [failure?, failing?, hp]
  | none =>
    cases hm : Module.ofFile d p with
    | error f =>
      rw [Probe.ofFile_of_error hm, commit_of_failed hp]
      simp [failure?, failing?, hp, hm]
    | ok m =>
      cases hclient : m.isClient with
      | false =>
        rw [Probe.ofFile_of_server hm hclient, commit_of_server hp]
        simp [failure?, failing?, hp, hm]
      | true =>
        rw [Probe.ofFile_of_client hm hclient, commit_of_client hp]
        simp [failure?, failing?, hp, hm]

namespace Tally

/-- A file that cannot be used does not become known. -/
theorem side?_of_error {f : Failure} (h : Tally t l files s c) (hfiles : ∀ q ∈ files, q.IsPlain)
    (hp : p.IsPlain) (hf : Module.ofFile t.disk p = .error f) : c.side? p = l.side? p := by
  -- whatever is plain and stands at its place is the file itself
  have hunusable : ∀ q : Path, q.IsPlain → q.steps = p.steps → ¬ ∃ m,
      Module.ofFile t.disk q = .ok m := by
    rintro q hq hsteps ⟨m, hm⟩
    rw [hq.eq_of_steps hp hsteps, hf] at hm
    cases hm
  have hspread : ¬ ∃ x, t.Spread l files x ∧ x.steps = p.steps := by
    rintro ⟨x, hx, hsteps⟩
    exact hunusable x (hx.isPlain hfiles) hsteps hx.usable
  have hserves : ¬ t.Serves files p := by
    rintro ⟨q, hq, hsteps, m, hm, -⟩
    exact hunusable q (hfiles q hq) hsteps ⟨m, hm⟩
  rw [h.side?_eq]
  simp only [hspread, or_false]
  split
  · rename_i hl
    exact (Ledger.get_eq_client.1 hl).symm
  · split
    · rfl
    · rename_i hl
      exact (Ledger.get_eq_unknown.1 (not_not.1 hl)).symm

/-- So what is reported about it is the same at all times. -/
theorem failing?_eq (h : Tally t l files s c) (hfiles : ∀ q ∈ files, q.IsPlain) (hp : p.IsPlain) :
    failing? t.disk c p = failing? t.disk l p := by
  cases hm : Module.ofFile t.disk p with
  | ok m => simp [failing?, hm]
  | error f => simp [failing?, hm, h.side?_of_error hfiles hp hm]

/-- The failures that are reported on are those of the beginning. -/
theorem failures_commitAll (h : Tally t l files s c) (hfiles : ∀ q ∈ files ++ rest, q.IsPlain) :
    (Session.commitAll t.disk s c (rest.map fun p => (p, Probe.ofFile t.disk p))).2.2.filterMap
      failure? = rest.filterMap (failing? t.disk l) := by
  induction rest generalizing files s c with
  | nil => rfl
  | cons p rest ih =>
    obtain ⟨hold, hnew⟩ := List.forall_mem_append.1 hfiles
    have hrest := ih (h.commit p) (by rwa [List.append_assoc])
    rw [List.filterMap_cons, ← h.failing?_eq hold (hnew p (List.mem_cons_self ..)),
      ← failure?_commit s]
    simp only [List.map_cons, Session.commitAll, List.filterMap_cons, hrest]

/-- Afterwards each file is known or cannot be used. -/
theorem known_or_error (h : Tally t l files s c) (hp : p ∈ files) :
    c.side? p ≠ none ∨ ∃ f, Module.ofFile t.disk p = .error f := by
  cases hm : Module.ofFile t.disk p with
  | error f => exact .inr ⟨f, rfl⟩
  | ok m =>
    refine .inl fun hnone => ?_
    obtain ⟨hl, hmarked, hserves⟩ := h.unknown hnone
    cases hclient : m.isClient with
    | true => exact hmarked (h.seeds p ⟨hp, hl, m, hm, hclient⟩)
    | false => exact hserves ⟨p, hp, rfl, m, hm, hclient⟩

end Tally

/-- Nothing is done about files that are known or cannot be used. -/
theorem commitAll_idle {d : Disk} (s : Session)
    (h : ∀ p ∈ files, c.side? p ≠ none ∨ ∃ f, Module.ofFile d p = .error f) :
    ∃ reports, commitAll d s c (Scan.probes d files) = (s, c, reports) := by
  induction files with
  | nil => exact ⟨[], rfl⟩
  | cons p rest ih =>
    obtain ⟨hp, hrest⟩ := List.forall_mem_cons.1 h
    obtain ⟨reports, hreports⟩ := ih hrest
    have hidle : ∃ outcome, s.commit d c p (Probe.ofFile d p) = (s, c, outcome) := by
      cases hside : c.side? p with
      | some side => exact ⟨_, commit_of_known hside _⟩
      | none =>
        obtain ⟨f, hf⟩ := hp.resolve_left (not_not.2 hside)
        rw [Probe.ofFile_of_error hf]
        exact ⟨_, commit_of_failed hside f⟩
    obtain ⟨outcome, houtcome⟩ := hidle
    refine ⟨(p, outcome) :: reports, ?_⟩
    simp only [Scan.probes] at hreports
    simp only [Scan.probes, List.map_cons, commitAll, houtcome, hreports]

end Session

namespace Scan

variable {d : Disk} {o : Options} {l l₁ : Ledger} {r : ScanResult}

/-- The failures that a scan reports are those of the beginning. -/
theorem failures_of_run {project : Project} {files : List Path}
    (hsurvey : survey d o = .ok (project, files)) (h : run d o l = .ok (r, l₁)) :
    r.failures = files.filterMap (Session.failing? d l) := by
  rw [run_of_survey hsurvey] at h
  cases h
  have hinit := Session.Tally.init d project o.followDynamic l
  exact hinit.failures_commitAll (isPlain_of_survey hsurvey)

/-- **Scanning an unchanged disk.** After a scan, the same scan succeeds again and leaves the ledger as
it is. It reports the same number of files, the same files with the directive and the same failures, and
nothing that propagation would do. -/
theorem run_again (h : run d o l = .ok (r, l₁)) :
    ∃ r₂, run d o l₁ = .ok (r₂, l₁) ∧ r₂.filesAnalyzed = r.filesAnalyzed ∧
      r₂.entryPoints = r.entryPoints ∧ r₂.failures = r.failures ∧
      r₂.marked = [] ∧ r₂.warnings = [] ∧ r₂.skippedEdges = [] := by
  obtain ⟨project, files, s, hsurvey, hcommit, htally⟩ := tally_of_run h
  -- the first scan leaves nothing to commit
  obtain ⟨reports, hidle⟩ := Session.commitAll_idle (d := d) (.new project o.followDynamic)
    fun p hp => htally.known_or_error hp
  have hagain := run_of_survey (l := l₁) hsurvey
  rw [classifyAll_eq hidle] at hagain
  refine ⟨_, hagain, ?_⟩
  have hfailures := failures_of_run hsurvey hagain
  have hsame : files.filterMap (Session.failing? d l₁) = files.filterMap (Session.failing? d l) := by
    have hplain := isPlain_of_survey hsurvey
    exact List.filterMap_congr fun p hp => htally.failing?_eq hplain (hplain p hp)
  rw [hsame, ← failures_of_run hsurvey h] at hfailures
  rw [run_of_survey hsurvey, classifyAll_eq hcommit] at h
  obtain ⟨hresult, -⟩ := Prod.mk.inj (Except.ok.inj h)
  have hanalyzed : files.length = r.filesAnalyzed := congrArg (·.filesAnalyzed) hresult
  have hentries : entryPoints (probes d files) = r.entryPoints := congrArg (·.entryPoints) hresult
  exact ⟨hanalyzed, hentries, hfailures, rfl, rfl, rfl⟩

theorem run_again_ring : ∃ r l₁ r₂, run ring ringOptions ringLedger = .ok (r, l₁) ∧
    run ring ringOptions l₁ = .ok (r₂, l₁) ∧ r₂.failures = r.failures ∧ r₂.marked = [] := by
  obtain ⟨r, l₁, hrun⟩ := run_ring
  obtain ⟨r₂, hagain, -, -, hfailures, hmarked, -⟩ := run_again hrun
  exact ⟨r, l₁, r₂, hrun, hagain, hfailures, hmarked⟩

end Scan


/-! ## Ways of imports -/

namespace Terrain

variable {t : Terrain} {l : Ledger} {files via : List Path} {f p : Path}

/-- From a component file `f` with the directive one comes to `p` by way of the files `via`, of which `p`
is the last. -/
inductive Way (t : Terrain) (files : List Path) (f : Path) : List Path → Path → Prop
  | start : f ∈ files → (∃ m, Module.ofFile t.disk f = .ok m ∧ m.isClient = true) → Way t files f [] f
  | follow {via : List Path} {x y : Path} : Way t files f via x → t.Leads x y →
      (∃ m, Module.ofFile t.disk y = .ok m) → Way t files f (via ++ [y]) y

/-- A way is open if nothing is known about its first file and it enters no client component. -/
def IsOpenWay (t : Terrain) (l : Ledger) (files : List Path) (f : Path) (via : List Path)
    (p : Path) : Prop :=
  t.Way files f via p ∧ l.get f = .unknown ∧ ∀ y ∈ via, l.get y ≠ .client

/-- The directive spreads along the open ways. -/
theorem spread_iff_openWay : t.Spread l files p ↔ ∃ f via, t.IsOpenWay l files f via p := by
  constructor
  · intro h
    induction h with
    | seed hseed => exact ⟨_, [], .start hseed.1 hseed.2.2, hseed.2.1, List.forall_mem_nil _⟩
    | step _ hleads hclient husable ih =>
      obtain ⟨f, via, hway, hf, hvia⟩ := ih
      refine ⟨f, via ++ [_], .follow hway hleads husable, hf, ?_⟩
      rintro y hy
      rcases List.mem_append.1 hy with hy | hy
      · exact hvia y hy
      · rwa [List.mem_singleton.1 hy]
  · rintro ⟨f, via, hway, hf, hvia⟩
    induction hway with
    | start hfiles hdirective => exact .seed ⟨hfiles, hf, hdirective⟩
    | follow _ hleads husable ih =>
      have hlast := hvia _ (List.mem_append_right _ (List.mem_singleton_self _))
      exact .step (ih fun y hy => hvia y (List.mem_append_left _ hy)) hleads hlast husable

/-- Where nothing is known, every way is open. -/
theorem isOpenWay_empty : t.IsOpenWay .empty files f via p ↔ t.Way files f via p :=
  ⟨And.left, fun hway => ⟨hway, rfl, fun _ _ => nofun⟩⟩

end Terrain

namespace Scan

variable {d : Disk} {o : Options} {l l₁ l₂ : Ledger} {r r₁ r₂ : ScanResult}

/-- **What a scan finds.** A scan that begins with a ledger makes client components of what open ways
lead to, beside those of the ledger. -/
theorem client_of_run (h : run d o l₁ = .ok (r₂, l₂)) :
    ∃ project files, survey d o = .ok (project, files) ∧ ∀ p : Path, l₂.get p = .client ↔
      l₁.get p = .client ∨ ∃ f via x,
        Terrain.IsOpenWay ⟨d, project, o.followDynamic⟩ l₁ files f via x ∧ x.steps = p.steps := by
  obtain ⟨project, files, s, hsurvey, -, htally⟩ := tally_of_run h
  refine ⟨project, files, hsurvey, fun p => ?_⟩
  rw [htally.client, htally.mem_markedSteps, or_comm]
  refine or_congr_right ⟨?_, ?_⟩
  · rintro ⟨x, hx, hsteps⟩
    obtain ⟨f, via, hway⟩ := Terrain.spread_iff_openWay.1 hx
    exact ⟨f, via, x, hway, hsteps⟩
  · rintro ⟨f, via, x, hway, hsteps⟩
    exact ⟨x, Terrain.spread_iff_openWay.2 ⟨f, via, hway⟩, hsteps⟩

/-! ## A changed disk -/

/-- A project with one component file and no directive. -/
def before : Disk where
  tree := .dir [("w", .dir [("a.tsx", .file (.ofText ""))])]
  cwd := ["w"]

/-- The same project after the directive was written into its file and two files were added. -/
def after : Disk where
  tree := .dir [("w", .dir [
    ("a.tsx", .file (.ofText "'use client'")),
    ("b.tsx", .file (.ofText "'use client'; import './c'")),
    ("c.tsx", .file (.ofText ""))])]
  cwd := ["w"]

/-- Scans the project at `/w`. -/
def plainOptions : Options := { root := some ⟨"/w"⟩, skipProjectCheck := true }

/-- A scan before the change and one after it, and one after it that begins with nothing. -/
theorem runs_before_after : ∃ r₁ l₁ r₂ l₂ r l, run before plainOptions .empty = .ok (r₁, l₁) ∧
    run after plainOptions l₁ = .ok (r₂, l₂) ∧ run after plainOptions .empty = .ok (r, l) ∧
    l₂.get ⟨"/w/a.tsx"⟩ = .server ∧ l.get ⟨"/w/a.tsx"⟩ = .client := by
  have hruns : (do
      let (_, l₁) ← run before plainOptions .empty
      let (_, l₂) ← run after plainOptions l₁
      let (_, l) ← run after plainOptions .empty
      return (l₂.get ⟨"/w/a.tsx"⟩, l.get ⟨"/w/a.tsx"⟩)) = .ok (.server, .client) := by
    decide +kernel
  obtain ⟨⟨r₁, l₁⟩, h₁, hruns⟩ := ok_of_bind hruns
  obtain ⟨⟨r₂, l₂⟩, h₂, hruns⟩ := ok_of_bind hruns
  obtain ⟨⟨r, l⟩, h, hruns⟩ := ok_of_bind hruns
  obtain ⟨hshared, hfresh⟩ := Prod.mk.inj (Except.ok.inj hruns)
  exact ⟨r₁, l₁, r₂, l₂, r, l, h₁, h₂, h, hshared, hfresh⟩

/-- **A scan does not refresh what is known.** A file that has got the directive since an earlier scan
stays a server component. -/
theorem not_refreshed : ¬ ∀ (d₁ d₂ : Disk) (o₁ o₂ : Options) (r₁ r₂ r : ScanResult) (l₁ l₂ l : Ledger),
    run d₁ o₁ .empty = .ok (r₁, l₁) → run d₂ o₂ l₁ = .ok (r₂, l₂) → run d₂ o₂ .empty = .ok (r, l) →
      ∀ p : Path, l.get p = .client → l₂.get p = .client := by
  intro hrefresh
  obtain ⟨r₁, l₁, r₂, l₂, r, l, h₁, h₂, h, hshared, hfresh⟩ := runs_before_after
  have hclient := hrefresh _ _ _ _ r₁ r₂ r l₁ l₂ l h₁ h₂ h _ hfresh
  rw [hshared] at hclient
  cases hclient

/-- **Scanning a changed disk.** With nothing known, a scan makes client components of all that ways lead
to. With a ledger `l₁` of earlier scans it keeps those of the ledger and adds what is led to by a way whose
first file is not known and that enters no client component of the ledger. -/
theorem client_run_iff_way (h₂ : run d o l₁ = .ok (r₂, l₂)) (h : run d o .empty = .ok (r, l)) :
    ∃ project files, survey d o = .ok (project, files) ∧
      let t : Terrain := ⟨d, project, o.followDynamic⟩
      ∀ p : Path,
        (l.get p = .client ↔ ∃ f via x, t.Way files f via x ∧ x.steps = p.steps) ∧
        (l₂.get p = .client ↔ l₁.get p = .client ∨ ∃ f via x, t.Way files f via x ∧
          x.steps = p.steps ∧ l₁.get f = .unknown ∧ ∀ y ∈ via, l₁.get y ≠ .client) := by
  obtain ⟨project, files, hsurvey, hshared⟩ := client_of_run h₂
  obtain ⟨project', files', hsurvey', hfresh⟩ := client_of_run h
  obtain ⟨rfl, rfl⟩ := Prod.mk.inj (Except.ok.inj (hsurvey.symm.trans hsurvey'))
  refine ⟨project, files, hsurvey, fun p => ⟨?_, ?_⟩⟩
  · -- nothing is known at the start, so no way is cut
    rw [hfresh]
    simp only [Terrain.isOpenWay_empty]
    exact or_iff_right nofun
  · rw [hshared]
    refine or_congr_right ⟨?_, ?_⟩
    · rintro ⟨f, via, x, ⟨hway, hf, hvia⟩, hsteps⟩
      exact ⟨f, via, x, hway, hsteps, hf, hvia⟩
    · rintro ⟨f, via, x, hway, hsteps, hf, hvia⟩
      exact ⟨f, via, x, ⟨hway, hf, hvia⟩, hsteps⟩

theorem client_run_iff_way_after : ∃ r₁ l₁ r₂ l₂ r l,
    run before plainOptions .empty = .ok (r₁, l₁) ∧ run after plainOptions l₁ = .ok (r₂, l₂) ∧
    run after plainOptions .empty = .ok (r, l) ∧
    ∃ project files, survey after plainOptions = .ok (project, files) ∧ ∀ p : Path,
      l₂.get p = .client ↔ l₁.get p = .client ∨ ∃ f via x,
        Terrain.Way ⟨after, project, false⟩ files f via x ∧
        x.steps = p.steps ∧ l₁.get f = .unknown ∧ ∀ y ∈ via, l₁.get y ≠ .client := by
  obtain ⟨r₁, l₁, r₂, l₂, r, l, h₁, h₂, h, -, -⟩ := runs_before_after
  obtain ⟨project, files, hsurvey, hclient⟩ := client_run_iff_way h₂ h
  exact ⟨r₁, l₁, r₂, l₂, r, l, h₁, h₂, h, project, files, hsurvey, fun p => (hclient p).2⟩

end Scan

end ClientBoundary
