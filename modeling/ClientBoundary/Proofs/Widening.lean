import ClientBoundary.Proofs.Scan

/-!
# Scans that see more

A scan sees more if it passes over fewer directories, or follows calls too. It then finds all that a scan
finds that sees less, and no file gets less far on the way from unknown to server to client component.

This is told step by step: a **walk** that passes over fewer directories lists more paths, **component files**
stay among more component files, and the directive **spreads** further from more files along more edges.
-/

namespace ClientBoundary

/-! ## Walks -/

namespace Walk

variable {d : Disk} {exclude exclude' : List String}

theorem passes_of_passes (h : ∀ name ∈ exclude', name ∈ exclude) {layers : List Layer} {name : Bytes}
    {e : Entry} (hpasses : passes ⟨d, exclude'⟩ layers name e = true) :
    passes ⟨d, exclude⟩ layers name e = true := by
  rw [passes, Bool.or_eq_true, Bool.and_eq_true, List.contains_iff_mem] at hpasses ⊢
  exact hpasses.imp_right (And.imp_right (h name.shown))

mutual

/-- Below a node more paths are listed. -/
theorem mem_below (h : ∀ name ∈ exclude', name ∈ exclude) (layers : List Layer) (path place p : Path) :
    (n : Node) → p ∈ below ⟨d, exclude⟩ layers path place n → p ∈ below ⟨d, exclude'⟩ layers path place n
  | .dir entries, hp => by
    rw [below] at hp ⊢
    exact mem_among h _ path place p entries hp
  | .file _, hp => by
    rw [below] at hp
    exact absurd hp List.not_mem_nil
  | .link _, hp => by
    rw [below] at hp
    exact absurd hp List.not_mem_nil

/-- Among the entries of a directory more paths are listed. -/
theorem mem_among (h : ∀ name ∈ exclude', name ∈ exclude) (layers : List Layer) (path place p : Path) :
    (entries : List (Bytes × Node)) → p ∈ among ⟨d, exclude⟩ layers path place entries →
      p ∈ among ⟨d, exclude'⟩ layers path place entries
  | [], hp => by
    rw [among] at hp
    exact absurd hp List.not_mem_nil
  | (name, node) :: rest, hp => by
    rw [among] at hp ⊢
    rcases List.mem_append.1 hp with hhere | hrest
    · refine List.mem_append_left _ ?_
      -- an entry that is listed is not passed over, and is not either by the other walk
      split at hhere
      · exact absurd hhere List.not_mem_nil
      · rename_i hpasses
        rw [if_neg (mt (passes_of_passes h) hpasses)]
        rcases List.mem_cons.1 hhere with rfl | hbelow
        · exact List.mem_cons_self ..
        · exact List.mem_cons_of_mem _ (mem_below h layers _ _ p node hbelow)
    · exact List.mem_append_right _ (mem_among h layers path place p rest hrest)

end

/-- A walk that passes over less fails no more often, and lists more. -/
theorem paths_widen (h : ∀ name ∈ exclude', name ∈ exclude) {root : Path} {listed : List Path}
    (hpaths : paths ⟨d, exclude⟩ root = .ok listed) :
    ∃ listed', paths ⟨d, exclude'⟩ root = .ok listed' ∧ ∀ p ∈ listed, p ∈ listed' := by
  -- both walks fail alike; they differ in what they list below a directory
  have habove : layersAbove ⟨d, exclude'⟩ = layersAbove ⟨d, exclude⟩ := rfl
  by_cases hdash : root.same ⟨"-"⟩ = true
  · rw [paths, if_pos hdash] at hpaths ⊢
    exact ⟨listed, hpaths, fun p hp => hp⟩
  rw [paths, if_neg hdash] at hpaths ⊢
  cases hlocate : d.locate root with
  | error e =>
    simp only [hlocate] at hpaths
    cases hpaths
  | ok found =>
    simp only [hlocate, habove] at hpaths ⊢
    by_cases hdir : (!found.node.isDir) = true
    · rw [if_pos hdir] at hpaths ⊢
      exact ⟨listed, hpaths, fun p hp => hp⟩
    rw [if_neg hdir] at hpaths ⊢
    split at hpaths
    · cases hpaths
    · rename_i herrors
      cases hpaths
      rw [if_neg herrors]
      refine ⟨_, rfl, fun p hp => ?_⟩
      rcases List.mem_cons.1 hp with rfl | hp
      · exact List.mem_cons_self ..
      · exact List.mem_cons_of_mem _ (mem_below h _ _ _ p found.node hp)

end Walk

/-! ## Component files -/

namespace Collect

variable {d : Disk} {p q : Path} {paths paths' : List Path}

/-- After a path is inserted its place is taken, and so is each place that was. -/
theorem exists_mem_insert (h : q = p ∨ q ∈ paths) : ∃ r ∈ insert p paths, r.steps = q.steps := by
  induction paths with
  | nil =>
    obtain rfl := h.resolve_right List.not_mem_nil
    exact ⟨q, List.mem_singleton_self q, rfl⟩
  | cons head rest ih =>
    rw [insert]
    split
    · exact ⟨q, List.mem_cons.2 h, rfl⟩
    · rename_i heq
      rcases h with rfl | h
      · exact ⟨head, List.mem_cons_self .., (Path.order_eq_eq_iff.1 heq).symm⟩
      · exact ⟨q, h, rfl⟩
    · have hcases : q = head ∨ q = p ∨ q ∈ rest := by
        rw [List.mem_cons] at h
        tauto
      rcases hcases with rfl | hrest
      · exact ⟨q, List.mem_cons_self .., rfl⟩
      · obtain ⟨r, hr, hsteps⟩ := ih hrest
        exact ⟨r, List.mem_cons_of_mem _ hr, hsteps⟩

/-- Each place of paths is among them in order. -/
theorem exists_mem_sorted (h : q ∈ paths) : ∃ r ∈ sorted paths, r.steps = q.steps := by
  have hfold : ∀ (rest done : List Path), (q ∈ rest ∨ ∃ r ∈ done, r.steps = q.steps) →
      ∃ r ∈ rest.foldl (fun done p => insert p done) done, r.steps = q.steps := by
    intro rest
    induction rest with
    | nil => exact fun done h => h.resolve_left List.not_mem_nil
    | cons p rest ih =>
      intro done h
      refine ih _ ?_
      rcases h with h | ⟨r, hr, hsteps⟩
      · rcases List.mem_cons.1 h with rfl | h
        · exact .inr (exists_mem_insert (.inl rfl))
        · exact .inl h
      · obtain ⟨r', hr', hsteps'⟩ := exists_mem_insert (.inr hr)
        exact .inr ⟨r', hr', hsteps'.trans hsteps⟩
  exact hfold paths [] (.inl h)

/-- Plain paths are all among them in order, since no two of them share a place. -/
theorem mem_sorted_iff (hplain : ∀ p ∈ paths, p.IsPlain) : q ∈ sorted paths ↔ q ∈ paths := by
  refine ⟨mem_of_mem_sorted, fun hq => ?_⟩
  obtain ⟨r, hr, hsteps⟩ := exists_mem_sorted hq
  rwa [← (hplain r (mem_of_mem_sorted hr)).eq_of_steps (hplain q hq) hsteps]

/-- What is put in order to list the component files is plain. -/
theorem isPlain_of_mem_map (hq : q ∈ (paths.filter (isComponentFile d)).map d.canonicalOr) : q.IsPlain := by
  obtain ⟨p, hp, rfl⟩ := List.mem_map.1 hq
  exact (Disk.isLinkFree_canonicalOr (Bool.and_eq_true_iff.1 (List.mem_filter.1 hp).2).1).isPlain

/-- **The component files** are the link-free paths of what the walk lists, as far as a regular file is there and the name
is that of a component. -/
theorem mem_ofPaths_iff : q ∈ ofPaths d paths ↔
    ∃ p ∈ paths, d.isFile p = true ∧ p.isComponent = true ∧ d.canonical p = .ok q := by
  rw [ofPaths, mem_sorted_iff fun _ => isPlain_of_mem_map, List.mem_map]
  constructor
  · rintro ⟨p, hp, rfl⟩
    obtain ⟨hmem, hkept⟩ := List.mem_filter.1 hp
    obtain ⟨hfile, hcomponent⟩ := Bool.and_eq_true_iff.1 hkept
    exact ⟨p, hmem, hfile, hcomponent, Disk.canonical_eq_canonicalOr hfile⟩
  · rintro ⟨p, hmem, hfile, hcomponent, hq⟩
    refine ⟨p, List.mem_filter.2 ⟨hmem, Bool.and_eq_true_iff.2 ⟨hfile, hcomponent⟩⟩, ?_⟩
    exact Except.ok.inj ((Disk.canonical_eq_canonicalOr hfile).symm.trans hq)

/-- More paths of a walk give more component files. -/
theorem mem_ofPaths (h : ∀ q ∈ paths, q ∈ paths') (hp : p ∈ ofPaths d paths) : p ∈ ofPaths d paths' := by
  obtain ⟨q, hq, hkept⟩ := mem_ofPaths_iff.1 hp
  exact mem_ofPaths_iff.2 ⟨q, h q hq, hkept⟩

theorem components_widen {root : Path} {exclude exclude' : List String} {files : List Path}
    (h : ∀ name ∈ exclude', name ∈ exclude) (hfiles : components d root exclude = .ok files) :
    ∃ files', components d root exclude' = .ok files' ∧ ∀ p ∈ files, p ∈ files' := by
  obtain ⟨paths, hpaths, rfl⟩ := components_eq hfiles
  obtain ⟨paths', hpaths', hmem⟩ := Walk.paths_widen h hpaths
  refine ⟨ofPaths d paths', ?_, fun p => mem_ofPaths hmem⟩
  rw [components, hpaths']
  rfl

end Collect

/-! ## The directive -/

namespace Terrain

variable {d : Disk} {project : Project} {b b' : Bool} {l : Ledger} {files files' : List Path} {x y : Path}

theorem Leads.widen (hb : b = true → b' = true) (h : Leads ⟨d, project, b⟩ x y) :
    Leads ⟨d, project, b'⟩ x y := by
  obtain ⟨m, hm, e, he, htype, hkind, htarget⟩ := h
  exact ⟨m, hm, e, he, htype, hkind.imp_right hb, htarget⟩

theorem Spread.widen (hb : b = true → b' = true) (hfiles : ∀ p ∈ files, p ∈ files')
    (h : Spread ⟨d, project, b⟩ l files x) : Spread ⟨d, project, b'⟩ l files' x := by
  induction h with
  | seed hseed => exact .seed ⟨hfiles _ hseed.1, hseed.2⟩
  | step _ hleads hclient husable ih => exact .step ih (hleads.widen hb) hclient husable

theorem Serves.widen (hfiles : ∀ p ∈ files, p ∈ files') (h : Serves ⟨d, project, b⟩ files x) :
    Serves ⟨d, project, b'⟩ files' x := by
  obtain ⟨f, hf, hsteps, hserver⟩ := h
  exact ⟨f, hfiles f hf, hsteps, hserver⟩

end Terrain

namespace Session

variable {d : Disk} {project : Project} {b b' : Bool} {l c c' : Ledger} {files files' : List Path}
  {s s' : Session}

/-- A session that commits more files and follows more edges gets every place at least as far. -/
theorem Tally.rank_le (h : Tally ⟨d, project, b⟩ l files s c) (h' : Tally ⟨d, project, b'⟩ l files' s' c')
    (hb : b = true → b' = true) (hfiles : ∀ p ∈ files, p ∈ files') (p : Path) :
    (c.get p).rank ≤ (c'.get p).rank := by
  cases hc : c.get p with
  | unknown => exact Nat.zero_le _
  | client =>
    have hc' : c'.get p = .client := by
      refine (h'.client p).2 (((h.client p).1 hc).imp_left fun hmarked => ?_)
      obtain ⟨x, hx, hsteps⟩ := h.mem_markedSteps.1 hmarked
      exact h'.mem_markedSteps.2 ⟨x, hx.widen hb hfiles, hsteps⟩
    rw [hc']
  | server =>
    -- nothing more is needed than that the place is known
    cases hc' : c'.get p with
    | client => exact Nat.le_succ _
    | server => exact Nat.le_refl _
    | unknown =>
      obtain ⟨hl, -, hserves⟩ := h'.unknown (Ledger.get_eq_unknown.1 hc')
      rcases ((h.server p).1 hc).2 with hserver | ⟨-, hserver⟩
      · rw [hl] at hserver
        cases hserver
      · exact absurd (hserver.widen hfiles) hserves

end Session

/-! ## Scans -/

namespace Scan

variable {d : Disk} {o o' : Options} {l l₁ : Ledger} {r : ScanResult} {project : Project} {files : List Path}

/-- Options that ask for the same project and pass over less. -/
theorem survey_widen (hroot : o.root = o'.root) (hcheck : o.skipProjectCheck = o'.skipProjectCheck)
    (hexclude : ∀ name ∈ o'.exclude, name ∈ o.exclude) (h : survey d o = .ok (project, files)) :
    ∃ files', survey d o' = .ok (project, files') ∧ ∀ p ∈ files, p ∈ files' := by
  obtain ⟨root, hchosen, hchecked, hfiles, hproject⟩ := survey_iff.1 h
  obtain ⟨files', hfiles', hmem⟩ := Collect.components_widen hexclude hfiles
  refine ⟨files', survey_iff.2 ⟨root, ?_, ?_, hfiles', hproject⟩, hmem⟩
  · rwa [Config.chooseRoot, ← hroot]
  · rwa [checkProject, ← hcheck]

/-- **A scan that sees more finds more.** Let two scans of a disk begin with the same ledger. If the second
one follows calls whenever the first one does, and passes over no directory that the first one enters, then
it succeeds too, and gets every file at least as far. -/
theorem run_widen (hroot : o.root = o'.root) (hcheck : o.skipProjectCheck = o'.skipProjectCheck)
    (hdynamic : o.followDynamic = true → o'.followDynamic = true)
    (hexclude : ∀ name ∈ o'.exclude, name ∈ o.exclude) (h : run d o l = .ok (r, l₁)) :
    ∃ r' l₁', run d o' l = .ok (r', l₁') ∧ ∀ p : Path, (l₁.get p).rank ≤ (l₁'.get p).rank := by
  obtain ⟨project, files, s, hsurvey, -, htally⟩ := tally_of_run h
  obtain ⟨files', hsurvey', hmem⟩ := survey_widen hroot hcheck hexclude hsurvey
  refine ⟨_, _, run_of_survey hsurvey', fun p => ?_⟩
  exact htally.rank_le (tally_probes d project o'.followDynamic l files') hdynamic hmem p

/-- A file with the directive lies in a directory that can be passed over, and one makes its import by a
call. -/
def secluded : Disk where
  tree := .dir [("w", .dir [
    ("a.tsx", .file (.ofText "'use client'; import('./b')")),
    ("b.tsx", .file (.ofText "")),
    ("d.tsx", .file (.ofText "")),
    ("lib", .dir [("c.tsx", .file (.ofText "'use client'; import '../d'"))])])]
  cwd := ["w"]

/-- Passes over two directories. -/
def narrowOptions : Options :=
  { root := some ⟨"/w"⟩, exclude := ["lib", "old"], skipProjectCheck := true }

/-- Passes over one of them, and follows calls. -/
def broadOptions : Options :=
  { root := some ⟨"/w"⟩, exclude := ["old"], followDynamic := true, skipProjectCheck := true }

theorem run_widen_secluded : ∃ r l₁ r' l₁', run secluded narrowOptions .empty = .ok (r, l₁) ∧
    run secluded broadOptions .empty = .ok (r', l₁') ∧
    l₁.get ⟨"/w/b.tsx"⟩ = .server ∧ l₁.get ⟨"/w/lib/c.tsx"⟩ = .unknown ∧ l₁.get ⟨"/w/d.tsx"⟩ = .server ∧
    ∀ p : Path, (l₁.get p).rank ≤ (l₁'.get p).rank := by
  have hknown : (do
      let out ← run secluded narrowOptions .empty
      return (out.2.get ⟨"/w/b.tsx"⟩, out.2.get ⟨"/w/lib/c.tsx"⟩, out.2.get ⟨"/w/d.tsx"⟩)) =
      .ok (.server, .unknown, .server) := by
    decide +kernel
  obtain ⟨⟨r, l₁⟩, hrun, hknown⟩ := ok_of_bind hknown
  obtain ⟨hb, hknown⟩ := Prod.mk.inj (Except.ok.inj hknown)
  obtain ⟨hc, hd⟩ := Prod.mk.inj hknown
  have hroot : narrowOptions.root = broadOptions.root := rfl
  have hcheck : narrowOptions.skipProjectCheck = broadOptions.skipProjectCheck := rfl
  have hexclude : ∀ name ∈ broadOptions.exclude, name ∈ narrowOptions.exclude := by decide
  obtain ⟨r', l₁', hrun', hrank⟩ := run_widen hroot hcheck (fun _ => rfl) hexclude hrun
  exact ⟨r, l₁, r', l₁', hrun, hrun', hb, hc, hd, hrank⟩

end Scan

end ClientBoundary
