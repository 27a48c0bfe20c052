import ClientBoundary.Report.Summary
import ClientBoundary.Proofs.Keys

/-!
# Counts that add up

The summary of a scan takes its numbers from three places: the ledger has the client components, the probes
have the files with the directive, and the log of the session has the files that were marked. After a scan
that begins with nothing they fit: the files with the directive and the other marked files are **apart**, and
together they are the client components (`Accounts`).

So the summary can be checked by counting its lines. As many client components are listed as it says, and as
many of each tag (`run_counts`).
-/

namespace ClientBoundary

/-! ## The result and the ledger -/

/-- The files with the directive and the marked files of a result are the client components of a ledger,
each once. -/
structure ScanResult.Accounts (r : ScanResult) (l : Ledger) : Prop where
  /-- no place has the directive twice -/
  nodup_entryPoints : (r.entryPoints.map Path.steps).Nodup
  /-- no place is marked twice -/
  nodup_marked : (r.marked.map Path.steps).Nodup
  /-- a file with the directive is not counted as marked -/
  disjoint : ∀ p ∈ r.entryPoints, ∀ q ∈ r.marked, p.steps ≠ q.steps
  /-- together they are the client components -/
  mem_clients : ∀ p, p ∈ l.clients ↔ p ∈ r.entryPoints ∨ p ∈ r.marked

namespace Scan

variable {d : Disk} {o : Options} {l : Ledger} {r : ScanResult} {files : List Path} {p : Path}

theorem isAmong_iff {paths : List Path} : isAmong paths p = true ↔ ∃ q ∈ paths, q.steps = p.steps := by
  rw [isAmong, List.any_eq_true]
  exact exists_congr fun q => and_congr_right fun _ => Path.same_iff

/-- The files with the directive are among the files that are probed, in the same order. -/
theorem entryPoints_sublist (d : Disk) (files : List Path) :
    (entryPoints (probes d files)).Sublist files := by
  induction files with
  | nil => exact .slnil
  | cons p files ih =>
    rw [probes, List.map_cons, ← probes, entryPoints]
    cases hprobe : Probe.ofFile d p with
    | client edges => exact ih.cons_cons p
    | server => exact ih.cons p
    | failed f => exact ih.cons p

theorem isClient_of_mem_entryPoints (hp : p ∈ entryPoints (probes d files)) :
    p ∈ files ∧ ∃ m, Module.ofFile d p = .ok m ∧ m.isClient = true := by
  refine ⟨(entryPoints_sublist d files).subset hp, ?_⟩
  obtain ⟨⟨q, probe⟩, hq, hclient⟩ := List.mem_filterMap.1 hp
  obtain ⟨q, -, heq⟩ := List.mem_map.1 hq
  cases heq
  rw [Probe.ofFile] at hclient
  cases hm : Module.ofFile d q with
  | error f =>
    rw [hm] at hclient
    cases hclient
  | ok m =>
    rw [hm] at hclient
    cases hclient' : m.isClient with
    | false =>
      simp only [hclient'] at hclient
      cases hclient
    | true =>
      simp only [hclient'] at hclient
      cases hclient
      exact ⟨m, hm, hclient'⟩

/-- The client components of a scan that begins with nothing are the files that its session marked. -/
theorem mem_clients_iff {project : Project} {s : Session} (h : run d o .empty = .ok (r, l))
    (hfiles : ∀ p ∈ files, p.IsPlain)
    (htally : Session.Tally ⟨d, project, o.followDynamic⟩ .empty files s l) :
    p ∈ l.clients ↔ p ∈ s.log.marked := by
  have hplain : ∀ q ∈ l.paths, q.IsPlain := fun q hq => (isLinkFree_of_mem_paths h hq).1.isPlain
  have hclient : ∀ q : Path, l.side? q = some .client ↔ q.steps ∈ s.log.markedSteps := by
    intro q
    rw [← Ledger.get_eq_client, htally.client]
    exact or_iff_left nofun
  have hmarked : ∀ q ∈ s.log.marked, q.IsPlain := fun q hq => (htally.least q hq).isPlain hfiles
  rw [Ledger.mem_clients]
  constructor
  · rintro ⟨hpath, hside⟩
    obtain ⟨q, hq, hsteps⟩ := List.mem_map.1 ((hclient p).1 hside)
    rwa [← (hmarked q hq).eq_of_steps (hplain p hpath) hsteps]
  · intro hp
    have hside := (hclient p).2 (Propagation.steps_mem_markedSteps hp)
    -- the entry at the place of the file is written as the file is
    obtain ⟨e, he, hsteps, -⟩ := Ledger.exists_entry hside
    have hpath : e.1 ∈ l.paths := List.mem_map_of_mem he
    rw [← (hplain e.1 hpath).eq_of_steps (hmarked p hp) hsteps] at hside ⊢
    exact ⟨hpath, hside⟩

/-- A scan that begins with nothing accounts for its client components. -/
theorem accounts_of_run (h : run d o .empty = .ok (r, l)) : r.Accounts l := by
  obtain ⟨project, files, s, hsurvey, hcommit, htally⟩ := tally_of_run h
  have hresult := Except.ok.inj (h.symm.trans (run_of_survey hsurvey))
  rw [classifyAll_eq hcommit] at hresult
  have hentries : r.entryPoints = entryPoints (probes d files) :=
    congrArg (fun out => out.1.entryPoints) hresult
  have hmarked : r.marked = s.log.marked.filter fun p => !isAmong (entryPoints (probes d files)) p :=
    congrArg (fun out => out.1.marked) hresult
  have hfiles := isPlain_of_survey hsurvey
  constructor
  case nodup_entryPoints =>
    rw [hentries]
    exact (nodup_of_survey hsurvey).sublist ((entryPoints_sublist d files).map _)
  case nodup_marked =>
    rw [hmarked]
    exact htally.nodup.sublist (List.filter_sublist.map _)
  case disjoint =>
    rw [hentries, hmarked]
    intro p hp q hq hsteps
    have hnot := (List.mem_filter.1 hq).2
    rw [isAmong_iff.2 ⟨p, hp, hsteps⟩] at hnot
    cases hnot
  case mem_clients =>
    intro p
    rw [mem_clients_iff h hfiles htally, hentries, hmarked, List.mem_filter]
    constructor
    · intro hp
      by_cases hamong : isAmong (entryPoints (probes d files)) p = true
      · obtain ⟨q, hq, hsteps⟩ := isAmong_iff.1 hamong
        have hq' := hfiles q (isClient_of_mem_entryPoints hq).1
        left
        rwa [← hq'.eq_of_steps ((htally.least p hp).isPlain hfiles) hsteps]
      · exact .inr ⟨hp, by simpa using hamong⟩
    · rintro (hp | ⟨hp, -⟩)
      · -- a file with the directive is a seed, since nothing was known
        obtain ⟨hfile, hm⟩ := isClient_of_mem_entryPoints hp
        exact (htally.mem_marked hfiles).2 (.seed ⟨hfile, rfl, hm⟩)
      · exact hp

end Scan

namespace ScanResult.Accounts

variable {r : ScanResult} {l : Ledger}

theorem perm (h : r.Accounts l) : l.clients.Perm (r.entryPoints ++ r.marked) := by
  have hnodup : ((r.entryPoints ++ r.marked).map Path.steps).Nodup := by
    rw [List.map_append]
    refine List.nodup_append.2 ⟨h.nodup_entryPoints, h.nodup_marked, ?_⟩
    intro σ hσ τ hτ
    obtain ⟨p, hp, rfl⟩ := List.mem_map.1 hσ
    obtain ⟨q, hq, rfl⟩ := List.mem_map.1 hτ
    exact h.disjoint p hp q hq
  refine (List.perm_ext_iff_of_nodup (.of_map _ l.nodup_clients) (.of_map _ hnodup)).2 fun p => ?_
  rw [h.mem_clients, List.mem_append]

/-- The tags that are shown are one for each file with the directive and one for each marked file. -/
theorem tags_perm (h : r.Accounts l) :
    ((Display.tagged r l.clients).map (·.2)).Perm
      (List.replicate r.entryPoints.length .directive ++ List.replicate r.marked.length .imported) := by
  rw [Display.tagged, List.map_map]
  refine (h.perm.map _).trans (.of_eq ?_)
  rw [List.map_append]
  congr 1
  · rw [← List.map_const', List.map_inj_left]
    intro p hp
    have hany : (r.entryPoints.any fun q => q.same p) = true :=
      List.any_eq_true.2 ⟨p, hp, Path.same_iff.2 rfl⟩
    exact if_pos hany
  · rw [← List.map_const', List.map_inj_left]
    intro q hq
    refine if_neg fun hany => ?_
    obtain ⟨p, hp, hsame⟩ := List.any_eq_true.1 hany
    exact h.disjoint p hp q hq (Path.same_iff.1 hsame)

theorem count_directive (h : r.Accounts l) :
    ((Display.tagged r l.clients).map (·.2)).count .directive = r.entryPoints.length := by
  rw [h.tags_perm.count_eq]
  simp [List.count_replicate]

theorem count_imported (h : r.Accounts l) :
    ((Display.tagged r l.clients).map (·.2)).count .imported = r.marked.length := by
  rw [h.tags_perm.count_eq]
  simp [List.count_replicate]

end ScanResult.Accounts

/-! ## The lines of a summary -/

namespace Display

variable (v : Display)

/-- How a line with a tag ends. -/
def tagEnd (t : ClientTag) : String := " (" ++ v.tag t ++ ")"

/-- Whether a line has a tag. -/
def isTagged (t : ClientTag) (line : String) : Bool := (v.tagEnd t).toList.isSuffixOf line.toList

/-- The line with the counts of client components. -/
def countLine (total directive imported : Nat) : String :=
  "  Client components: " ++ v.paint (.heavy .yellow) (toString total) ++
    " (" ++ toString directive ++ " with directive, " ++ toString imported ++ " imported)"

/-- What stands above the client components that are listed. -/
def heading (listed : List String) : List String :=
  if listed.isEmpty then [v.paint (.heavy .green) "✓" ++ " No client components found"]
  else
    [v.paint (.heavy .yellow) "●" ++ " " ++ v.paint (.ink .yellow) (toString listed.length) ++
      " client components", ""]

/-- No tag ends in another one. -/
theorem eq_of_tagEnd_suffix {t t' : ClientTag} (h : (v.tagEnd t).toList <:+ (v.tagEnd t').toList) :
    t = t' := by
  have hstyled : ∀ t, v.tagEnd t = tagEnd ⟨v.styled, ⟨""⟩⟩ t := by
    intro t
    cases t <;> rfl
  have hends : ∀ styled : Bool,
      ¬ (tagEnd ⟨styled, ⟨""⟩⟩ .directive).toList <:+ (tagEnd ⟨styled, ⟨""⟩⟩ .imported).toList ∧
      ¬ (tagEnd ⟨styled, ⟨""⟩⟩ .imported).toList <:+ (tagEnd ⟨styled, ⟨""⟩⟩ .directive).toList := by
    decide +kernel
  rw [hstyled t, hstyled t'] at h
  cases t with
  | directive =>
    cases t' with
    | directive => rfl
    | imported => exact absurd h (hends v.styled).1
  | imported =>
    cases t' with
    | directive => exact absurd h (hends v.styled).2
    | imported => rfl

/-- The line of a client component has its tag and no other one. -/
theorem isTagged_clientLine (t t' : ClientTag) (isLast : Bool) (p : Path) :
    v.isTagged t (v.clientLine isLast p t') = (t' == t) := by
  have hline : (v.tagEnd t').toList <:+ (v.clientLine isLast p t').toList := by
    have hend : v.clientLine isLast p t' =
        v.paint .faint (if isLast then "└──" else "├──") ++ "  " ++ v.path p ++ v.tagEnd t' := by
      simp only [clientLine, tagEnd, String.append_assoc]
    rw [hend, String.toList_append]
    exact List.suffix_append _ _
  rw [Bool.eq_iff_iff, isTagged, List.isSuffixOf_iff_suffix, beq_iff_eq]
  constructor
  · intro hsuffix
    rcases List.suffix_or_suffix_of_suffix hsuffix hline with h | h
    · exact (v.eq_of_tagEnd_suffix h).symm
    · exact v.eq_of_tagEnd_suffix h
  · rintro rfl
    exact hline

theorem length_clientLines (ts : List (Path × ClientTag)) : (v.clientLines ts).length = ts.length := by
  fun_induction clientLines v ts with
  | case1 => rfl
  | case2 p t => rfl
  | case3 p t rest _ ih => rw [List.length_cons, List.length_cons, ih]

/-- The lines with a tag are as many as the client components with it. -/
theorem countP_clientLines (t : ClientTag) (ts : List (Path × ClientTag)) :
    (v.clientLines ts).countP (v.isTagged t) = (ts.map (·.2)).count t := by
  fun_induction clientLines v ts with
  | case1 => rfl
  | case2 p t' => simp [List.countP_cons, isTagged_clientLine, List.count_cons]
  | case3 p t' rest _ ih => rw [List.countP_cons, ih, isTagged_clientLine, List.map_cons, List.count_cons]

/-- A summary begins with the client components that it lists, and has their counts further down. -/
theorem summary_eq (r : ScanResult) (l : Ledger) :
    ∃ between after, v.summary r l =
      unlines (v.heading (v.clientLines (tagged r l.clients)) ++ v.clientLines (tagged r l.clients) ++
        between ++ v.countLine l.clients.length r.entryPoints.length r.marked.length :: after) := by
  have hpart : ∃ rest, v.clientPart r l =
      v.heading (v.clientLines (tagged r l.clients)) ++ v.clientLines (tagged r l.clients) ++ rest := by
    rw [clientPart]
    cases l.clients with
    | nil => exact ⟨[], rfl⟩
    | cons p clients =>
      have hlength := v.length_clientLines (tagged r (p :: clients))
      rw [tagged, List.length_map, ← tagged] at hlength
      have hsome : (v.clientLines (tagged r (p :: clients))).isEmpty = false := by
        rw [List.isEmpty_eq_false_iff, ← List.length_pos_iff, hlength]
        exact Nat.succ_pos _
      refine ⟨[""], ?_⟩
      rw [heading, hsome, hlength]
      rfl
  obtain ⟨rest, hrest⟩ := hpart
  refine ⟨rest ++ v.failurePart r ++ v.warningPart r ++ (v.countPart r l).take 2,
    (v.countPart r l).drop 3, ?_⟩
  rw [summary, hrest]
  simp only [List.append_assoc]
  rfl

end Display

/-! ## Counts -/

namespace Scan

variable {d : Disk} {o : Options} {l : Ledger} {r : ScanResult}

/-- **The counts add up.** A scan that begins with nothing accounts for its client components. Its summary
lists them all under a heading with their number, and the counts further down are the number of the lines
listed, of those with the tag for the directive and of those with the tag for imports, and the last two add
up to the first. -/
theorem run_counts (h : run d o .empty = .ok (r, l)) :
    r.Accounts l ∧ ∀ v : Display, ∃ listed between after : List String,
      listed = v.clientLines (Display.tagged r l.clients) ∧
      v.summary r l = Display.unlines (v.heading listed ++ listed ++ between ++
        v.countLine listed.length (listed.countP (v.isTagged .directive))
          (listed.countP (v.isTagged .imported)) :: after) ∧
      listed.length = l.clients.length ∧
      listed.countP (v.isTagged .directive) = r.entryPoints.length ∧
      listed.countP (v.isTagged .imported) = r.marked.length ∧
      listed.countP (v.isTagged .directive) + listed.countP (v.isTagged .imported) = listed.length := by
  have haccounts := accounts_of_run h
  refine ⟨haccounts, fun v => ?_⟩
  obtain ⟨between, after, hsummary⟩ := v.summary_eq r l
  have hlength : (v.clientLines (Display.tagged r l.clients)).length = l.clients.length := by
    rw [v.length_clientLines, Display.tagged, List.length_map]
  have hdirective := (v.countP_clientLines .directive _).trans haccounts.count_directive
  have himported := (v.countP_clientLines .imported _).trans haccounts.count_imported
  refine ⟨_, between, after, rfl, ?_, hlength, hdirective, himported, ?_⟩
  · rw [hlength, hdirective, himported, hsummary]
  · rw [hlength, hdirective, himported, haccounts.perm.length_eq, List.length_append]

/-- Two files with the directive import each other. One of them imports a file with the directive that is no
component file, the other one a file without it. -/
def crossed : Disk where
  tree := .dir [("w", .dir [
    ("a.tsx", .file (.ofText "'use client'; import './b'; import './x'")),
    ("b.tsx", .file (.ofText "'use client'; import './a'; import './c'")),
    ("c.tsx", .file (.ofText "")),
    ("x.ts", .file (.ofText "'use client'"))])]
  cwd := ["w"]

theorem run_counts_crossed : ∃ r l, run crossed ringOptions .empty = .ok (r, l) ∧ r.Accounts l ∧
    ∃ listed between after : List String,
      Display.summary ⟨false, ⟨"/w"⟩⟩ r l = Display.unlines
        (Display.heading ⟨false, ⟨"/w"⟩⟩ listed ++ listed ++ between ++
          "  Client components: 4 (2 with directive, 2 imported)" :: after) ∧
      listed.length = 4 := by
  have hlists : (run crossed ringOptions .empty).map (fun out => (out.1.entryPoints, out.1.marked)) =
      .ok ([⟨"/w/a.tsx"⟩, ⟨"/w/b.tsx"⟩], [⟨"/w/c.tsx"⟩, ⟨"/w/x.ts"⟩]) := by
    decide +kernel
  cases hrun : run crossed ringOptions .empty with
  | error e =>
    rw [hrun] at hlists
    cases hlists
  | ok out =>
    obtain ⟨r, l⟩ := out
    rw [hrun] at hlists
    obtain ⟨hentries, hmarked⟩ := Prod.mk.inj (Except.ok.inj hlists)
    obtain ⟨haccounts, hcounts⟩ := run_counts hrun
    obtain ⟨listed, between, after, -, hsummary, -, hdirective, himported, hlength⟩ :=
      hcounts ⟨false, ⟨"/w"⟩⟩
    rw [hentries] at hdirective
    rw [hmarked] at himported
    rw [hdirective, himported] at hlength
    rw [← hlength, hdirective, himported] at hsummary
    exact ⟨r, l, rfl, haccounts, listed, between, after, hsummary, hlength.symm⟩

end Scan

end ClientBoundary
