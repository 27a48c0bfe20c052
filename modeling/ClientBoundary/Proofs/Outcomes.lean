import ClientBoundary.Command
import ClientBoundary.Proofs.Rescan
import ClientBoundary.Proofs.Widening

/-!
# What is reported about files

A scan reports on each component file at the moment when it is committed. Two things can be said wrongly then.

A file that **cannot be used** is reported as a failure only if nothing is known about it. With an empty ledger
that is always so; after an earlier scan it is not, and a file that has been spoilt since is passed over.

A **classification** is the one of the ledger after the commit. Later commits may still make the file a client
component, so what is reported as a server component may be a client component in the end; nothing else changes.
-/

namespace ClientBoundary

/-! ## Failures -/

namespace Session

theorem isSome_failing?_iff {d : Disk} {c : Ledger} {p : Path} :
    (failing? d c p).isSome = true ↔ c.get p = .unknown ∧ ∃ f, Module.ofFile d p = .error f := by
  rw [Ledger.get_eq_unknown]
  cases hside : c.side? p <;> cases hm : Module.ofFile d p <;> simp [failing?, hside, hm]

end Session

namespace Scan

variable {d : Disk} {o : Options} {l l' : Ledger} {r : ScanResult}

/-- **When a scan fails.** A scan has failures, and ends with an exit code that says so, just if some component
file cannot be used and nothing was known about it. -/
theorem hasFailures_run (h : run d o l = .ok (r, l')) :
    ∃ project files, survey d o = .ok (project, files) ∧
      Collect.components d project.root o.exclude = .ok files ∧
      (r.hasFailures = true ↔ ∃ p ∈ files, l.get p = .unknown ∧ ∃ f, Module.ofFile d p = .error f) ∧
      (Command.exitCode r = 1 ↔ r.hasFailures = true) := by
  obtain ⟨project, files, hsurvey, -⟩ := survey_of_run h
  refine ⟨project, files, hsurvey, components_of_survey hsurvey, ?_, ?_⟩
  · have hreported : r.hasFailures = true ↔ ∃ p ∈ files, (Session.failing? d l p).isSome = true := by
      rw [ScanResult.hasFailures, failures_of_run hsurvey h]
      simp [Option.isSome_iff_ne_none]
    simp only [hreported, Session.isSome_failing?_iff]
  · rw [Command.exitCode]
    cases r.hasFailures <;> simp

/-- The project with one component file, after the file was spoilt. -/
def spoilt : Disk where
  tree := .dir [("w", .dir [("a.tsx", .file (.ofText "import \x7b"))])]
  cwd := ["w"]

/-- A scan before the file is spoilt, and one after it. -/
theorem runs_before_spoilt : ∃ r₁ l₁ r₂ l₂ project, run before plainOptions .empty = .ok (r₁, l₁) ∧
    run spoilt plainOptions l₁ = .ok (r₂, l₂) ∧ survey spoilt plainOptions = .ok (project, [⟨"/w/a.tsx"⟩]) ∧
    r₂.hasFailures = false ∧ ∃ f, Module.ofFile spoilt ⟨"/w/a.tsx"⟩ = .error f := by
  have hruns : (do
      let first ← run before plainOptions .empty
      let second ← run spoilt plainOptions first.2
      let work ← survey spoilt plainOptions
      return (work.2, second.1.hasFailures)) = .ok ([⟨"/w/a.tsx"⟩], false) := by
    decide +kernel
  obtain ⟨⟨r₁, l₁⟩, h₁, hruns⟩ := ok_of_bind hruns
  obtain ⟨⟨r₂, l₂⟩, h₂, hruns⟩ := ok_of_bind hruns
  obtain ⟨⟨project, files⟩, hsurvey, hruns⟩ := ok_of_bind hruns
  obtain ⟨rfl, hfailures⟩ := Prod.mk.inj (Except.ok.inj hruns)
  have herror : Module.ofFile spoilt ⟨"/w/a.tsx"⟩ =
      .error (.malformed ⟨"/w/a.tsx"⟩ Failure.badSource) := by
    decide +kernel
  exact ⟨r₁, l₁, r₂, l₂, project, h₁, h₂, hsurvey, hfailures, _, herror⟩

/-- **A scan overlooks failures of known files.** A file that was spoilt since an earlier scan is not reported. -/
theorem failure_overlooked : ¬ ∀ (d₁ d₂ : Disk) (o : Options) (r₁ r₂ : ScanResult) (l₁ l₂ : Ledger),
    run d₁ o .empty = .ok (r₁, l₁) → run d₂ o l₁ = .ok (r₂, l₂) →
      ∀ project files, survey d₂ o = .ok (project, files) →
        (r₂.hasFailures = true ↔ ∃ p ∈ files, ∃ f, Module.ofFile d₂ p = .error f) := by
  intro hreported
  obtain ⟨r₁, l₁, r₂, l₂, project, h₁, h₂, hsurvey, hfailures, f, herror⟩ := runs_before_spoilt
  have hiff := hreported _ _ _ r₁ r₂ l₁ l₂ h₁ h₂ project _ hsurvey
  rw [hiff.2 ⟨_, List.mem_singleton_self _, f, herror⟩] at hfailures
  cases hfailures

theorem hasFailures_run_spoilt : ∃ r l', run spoilt plainOptions .empty = .ok (r, l') ∧
    r.hasFailures = true ∧ Command.exitCode r = 1 := by
  obtain ⟨-, -, -, -, project, -, -, hsurvey, -, f, herror⟩ := runs_before_spoilt
  have hrun := run_of_survey (l := .empty) hsurvey
  obtain ⟨project', files, hsurvey', -, hfailures, hcode⟩ := hasFailures_run hrun
  obtain ⟨rfl, rfl⟩ := Prod.mk.inj (Except.ok.inj (hsurvey.symm.trans hsurvey'))
  have hfailed := hfailures.2 ⟨_, List.mem_singleton_self _, rfl, f, herror⟩
  exact ⟨_, _, hrun, hfailed, hcode.2 hfailed⟩

end Scan

/-! ## Classifications -/

/-- What is known moves on in one way only. -/
theorem Classification.server_client_of_ne {a b : Classification} (hrank : a.rank ≤ b.rank)
    (ha : a ≠ .unknown) (hne : a ≠ b) : a = .server ∧ b = .client := by
  cases a with
  | unknown => exact absurd rfl ha
  | server => cases b <;> simp_all [rank]
  | client => cases b <;> simp_all [rank]

namespace Terrain

/-- The directive spreads to no client component of the beginning. -/
theorem Spread.not_client {t : Terrain} {l : Ledger} {files : List Path} {p : Path}
    (h : t.Spread l files p) : l.get p ≠ .client := by
  cases h with
  | seed hseed =>
    rw [hseed.2.1]
    exact nofun
  | step _ _ hclient _ => exact hclient

end Terrain

namespace Session

open Terrain

variable {t : Terrain} {l c : Ledger} {files rest : List Path} {s : Session} {p : Path}

namespace Tally

/-- Among plain files, client components are those that the directive spreads to and those of the beginning. -/
theorem client_iff_spread (h : Tally t l files s c) (hfiles : ∀ q ∈ files, q.IsPlain) (hp : p.IsPlain) :
    c.get p = .client ↔ t.Spread l files p ∨ l.get p = .client := by
  rw [h.client, h.mem_markedSteps]
  refine or_congr_left ⟨?_, fun hspread => ⟨p, hspread, rfl⟩⟩
  rintro ⟨x, hx, hsteps⟩
  rwa [← (hx.isPlain hfiles).eq_of_steps hp hsteps]

/-- Among plain files, what is known about a file changes between two states only if it becomes a client component.
It does if the directive spreads to it from the files of the later state and not from those of the earlier one. -/
theorem ne_iff_spread {files' : List Path} {s' : Session} {c' : Ledger} (h : Tally t l files s c)
    (h' : Tally t l files' s' c') (hsub : ∀ q ∈ files, q ∈ files') (hplain : ∀ q ∈ files', q.IsPlain)
    (hp : p.IsPlain) (hknown : c.get p ≠ .unknown) :
    (c.get p ≠ c'.get p → c.get p = .server ∧ c'.get p = .client) ∧
      (c.get p ≠ c'.get p ↔ t.Spread l files' p ∧ ¬ t.Spread l files p) := by
  have hclient := h.client_iff_spread (fun q hq => hplain q (hsub q hq)) hp
  have hclient' := h'.client_iff_spread hplain hp
  have hlater : c.get p ≠ c'.get p → c.get p = .server ∧ c'.get p = .client :=
    Classification.server_client_of_ne (h.rank_le h' (fun hb => hb) hsub p) hknown
  refine ⟨hlater, fun hne => ?_, ?_⟩
  · obtain ⟨hserver, hc'⟩ := hlater hne
    have hnot : ¬ (t.Spread l files p ∨ l.get p = .client) := by
      rw [← hclient, hserver]
      exact nofun
    rw [not_or] at hnot
    exact ⟨(hclient'.1 hc').resolve_right hnot.2, hnot.1⟩
  · rintro ⟨hspread, hnot⟩ heq
    have hc' : c'.get p = .client := hclient'.2 (.inl hspread)
    rcases hclient.1 (heq.trans hc') with hearly | hl
    · exact hnot hearly
    · exact hspread.not_client hl

/-- **What a commit reports** as a classification is what is known afterwards. -/
theorem commit_classified (h : Tally t l files s c) {k : Classification}
    (hk : (s.commit t.disk c p (Probe.ofFile t.disk p)).2.2 = .classified k) :
    (s.commit t.disk c p (Probe.ofFile t.disk p)).2.1.get p = k ∧ k ≠ .unknown := by
  have hcommit := h.commit p
  cases hp : c.side? p with
  | some side =>
    rw [commit_of_known hp] at hk ⊢
    cases hk
    rw [Ledger.get, hp]
    refine ⟨rfl, ?_⟩
    cases side <;> decide
  | none =>
    cases hm : Module.ofFile t.disk p with
    | error f =>
      rw [Probe.ofFile_of_error hm, commit_of_failed hp] at hk
      cases hk
    | ok m =>
      cases hclient : m.isClient with
      | false =>
        rw [Probe.ofFile_of_server hm hclient, commit_of_server hp] at hk ⊢
        cases hk
        refine ⟨rfl, ?_⟩
        rw [Ne, Ledger.get_eq_unknown, Ledger.side?_setServerIfUnknown, if_pos rfl]
        exact Option.some_ne_none _
      | true =>
        -- the file is a seed of what was known at the beginning, so it is marked
        have hseed : t.IsSeed l (files ++ [p]) p :=
          ⟨List.mem_append_right _ (List.mem_singleton_self p), (h.unknown hp).1, m, hm, hclient⟩
        have hget := (hcommit.client p).2 (.inl (hcommit.seeds p hseed))
        rw [hget]
        rw [Probe.ofFile_of_client hm hclient, commit_of_client hp] at hk
        cases hk
        exact ⟨rfl, by decide⟩

/-- Each classification that is reported is the one after the commits up to that of the file. -/
theorem classified_commitAll (h : Tally t l files s c) {earlier later : List (Path × Outcome)}
    {k : Classification}
    (hreports : (Session.commitAll t.disk s c (rest.map fun p => (p, Probe.ofFile t.disk p))).2.2 =
      earlier ++ (p, .classified k) :: later) :
    ∃ s' c', Tally t l (files ++ earlier.map (·.1) ++ [p]) s' c' ∧ c'.get p = k ∧ k ≠ .unknown := by
  induction rest generalizing files s c earlier with
  | nil => exact absurd hreports.symm (List.append_ne_nil_of_right_ne_nil _ (List.cons_ne_nil _ _))
  | cons q rest ih =>
    simp only [List.map_cons, Session.commitAll] at hreports
    cases earlier with
    | nil =>
      obtain ⟨hhead, -⟩ := List.cons.inj hreports
      obtain ⟨rfl, hk⟩ := Prod.mk.inj hhead
      rw [List.map_nil, List.append_nil]
      exact ⟨_, _, h.commit q, h.commit_classified hk⟩
    | cons report earlier =>
      obtain ⟨rfl, htail⟩ := List.cons.inj hreports
      obtain ⟨s', c', htally, hk⟩ := ih (h.commit q) htail
      refine ⟨s', c', ?_, hk⟩
      rwa [List.append_assoc files] at htally

end Tally

end Session

namespace Scan

variable {d : Disk} {o : Options} {l l' : Ledger} {r : ScanResult}

/-- The reports of a scan are about its component files, in their order. -/
theorem map_fst_commitAll (d : Disk) (s : Session) (l : Ledger) (files : List Path) :
    (Session.commitAll d s l (probes d files)).2.2.map (·.1) = files := by
  induction files generalizing s l with
  | nil => rfl
  | cons p rest ih => exact congrArg (p :: ·) (ih _ _)

/-- **What is reported and what is known in the end.** A classification that is reported is the one in the end,
unless a file that is reported as a server component becomes a client component later. That happens just if the
directive spreads to the file from the component files, and does not from those up to the file itself. -/
theorem classified_run (h : run d o l = .ok (r, l')) :
    ∃ project files, survey d o = .ok (project, files) ∧ r.files.map (·.1) = files ∧
      let t : Terrain := ⟨d, project, o.followDynamic⟩
      ∀ earlier p k later, r.files = earlier ++ (p, .classified k) :: later →
        (k ≠ l'.get p → k = .server ∧ l'.get p = .client) ∧
        (k ≠ l'.get p ↔ t.Spread l files p ∧ ¬ t.Spread l (earlier.map (·.1) ++ [p]) p) := by
  obtain ⟨project, files, s, hsurvey, hcommit, htally⟩ := tally_of_run h
  have hfiles : r.files.map (·.1) = files := by
    have hnames := map_fst_commitAll d (.new project o.followDynamic) l files
    rwa [hcommit] at hnames
  refine ⟨project, files, hsurvey, hfiles, ?_⟩
  intro t earlier p k later hreports
  have hsplit : files = earlier.map (·.1) ++ [p] ++ later.map (·.1) := by
    rw [← hfiles, hreports]
    simp
  have hplain := isPlain_of_survey hsurvey
  have hsub : ∀ q ∈ earlier.map (·.1) ++ [p], q ∈ files := by
    intro q hq
    rw [hsplit]
    exact List.mem_append_left _ hq
  have hp : p.IsPlain := hplain p (hsub p (List.mem_append_right _ (List.mem_singleton_self p)))
  -- the state after the commit of `p`
  have hcommitted : (Session.commitAll d (.new project o.followDynamic) l (probes d files)).2.2 =
      earlier ++ (p, .classified k) :: later := by
    rw [hcommit]
    exact hreports
  have hinit := Session.Tally.init d project o.followDynamic l
  obtain ⟨s', c', htally', hk, hknown⟩ := hinit.classified_commitAll hcommitted
  rw [List.nil_append] at htally'
  subst hk
  exact htally'.ne_iff_spread htally hsub hplain hp hknown

/-- A file is imported by one that comes after it in the order of paths. -/
def belated : Disk where
  tree := .dir [("w", .dir [
    ("a.tsx", .file (.ofText "")),
    ("z.tsx", .file (.ofText "'use client'; import './a'"))])]
  cwd := ["w"]

theorem run_belated : ∃ r l', run belated plainOptions .empty = .ok (r, l') ∧
    r.files = [(⟨"/w/a.tsx"⟩, .classified .server), (⟨"/w/z.tsx"⟩, .classified .client)] ∧
    l'.get ⟨"/w/a.tsx"⟩ = .client := by
  have hrun : (do
      let out ← run belated plainOptions .empty
      return (out.1.files, out.2.get ⟨"/w/a.tsx"⟩)) =
      .ok ([(⟨"/w/a.tsx"⟩, .classified .server), (⟨"/w/z.tsx"⟩, .classified .client)], .client) := by
    decide +kernel
  obtain ⟨⟨r, l'⟩, h, hrun⟩ := ok_of_bind hrun
  obtain ⟨hfiles, hget⟩ := Prod.mk.inj (Except.ok.inj hrun)
  exact ⟨r, l', h, hfiles, hget⟩

/-- **Reports are not revised.** A file is reported as a server component and ends as a client component. -/
theorem classified_not_final : ¬ ∀ (d : Disk) (o : Options) (l l' : Ledger) (r : ScanResult),
    run d o l = .ok (r, l') → ∀ p k, (p, .classified k) ∈ r.files → k = l'.get p := by
  intro hfinal
  obtain ⟨r, l', h, hfiles, hget⟩ := run_belated
  have hserver := hfinal _ _ _ l' r h ⟨"/w/a.tsx"⟩ .server (hfiles ▸ List.mem_cons_self ..)
  rw [hget] at hserver
  cases hserver

theorem classified_run_belated : ∃ r l', run belated plainOptions .empty = .ok (r, l') ∧
    ∃ project files, survey belated plainOptions = .ok (project, files) ∧
      Terrain.Spread ⟨belated, project, false⟩ .empty files ⟨"/w/a.tsx"⟩ ∧
      ¬ Terrain.Spread ⟨belated, project, false⟩ .empty [⟨"/w/a.tsx"⟩] ⟨"/w/a.tsx"⟩ := by
  obtain ⟨r, l', h, hfiles, hget⟩ := run_belated
  obtain ⟨project, files, hsurvey, -, hreports⟩ := classified_run h
  obtain ⟨-, hdiffers⟩ := hreports [] _ _ _ hfiles
  have hne : Classification.server ≠ l'.get ⟨"/w/a.tsx"⟩ := by
    rw [hget]
    exact nofun
  exact ⟨r, l', h, project, files, hsurvey, hdiffers.1 hne⟩

end Scan

end ClientBoundary
