import ClientBoundary.Proofs.Canonical
import ClientBoundary.Resolve

/-!
# Where imports lead

The answer to an import depends on the importing file by its steps only (`target?_congr`), so a memo
by steps can give it again.

An answer is the **link-free** path of a regular file, or else a path where **no file is**: the one that
should have been there. Both are plain, and only the first kind can be read (`target?_cases`). So the
files that imports can lead to are among the finitely many that the tree lists.
-/

namespace ClientBoundary

namespace Resolve

variable {d : Disk} {project : Project} {base p x y : Path} {specifier : String}

/-- Where an import starts shows in the steps of the importing file. -/
theorem steps_start_congr (h : x.steps = y.steps) (root : Path) :
    (x.parent?.getD root).steps = (y.parent?.getD root).steps := by
  have hparent := Path.steps_parent?_congr h
  cases hx : x.parent? with
  | none =>
    cases hy : y.parent? with
    | none => rfl
    | some q => simp [hx, hy] at hparent
  | some p =>
    cases hy : y.parent? with
    | none => simp [hx, hy] at hparent
    | some q => simpa [hx, hy] using hparent

theorem target?_congr (h : x.steps = y.steps) (specifier : String) :
    target? d project x specifier = target? d project y specifier := by
  have hstart := steps_start_congr h project.root
  have hbase := Path.clean_congr (Path.steps_join_congr hstart (Bytes.ofText specifier))
  rw [target?, target?, bases?, bases?, hbase]

/-! ## Candidates -/

/-- A script that is found is written without links. -/
theorem isLinkFree_of_probe (h : probe d base = .script p) : d.IsLinkFree p := by
  rw [probe] at h
  split at h
  · rename_i hfile
    split at h
    · cases h
      exact Disk.isLinkFree_canonicalOr hfile
    · cases h
  · split at h
    · rename_i q hfind
      cases h
      exact Disk.isLinkFree_canonicalOr (List.find?_some hfind)
    · cases h

theorem fallback_mem_candidates (base : Path) : fallback base ∈ candidates base := by
  refine List.mem_append_left _ (List.mem_append_right _ ?_)
  exact List.mem_map_of_mem (by decide)

/-- Where nothing is found, the file that should have been there is not. -/
theorem isFile_fallback_of_probe (h : probe d base = .missing) : d.isFile (fallback base) = false := by
  rw [probe] at h
  split at h
  · split at h <;> cases h
  · split at h
    · cases h
    · rename_i hfind
      have hnone := List.find?_eq_none.1 hfind _ (fallback_mem_candidates base)
      simpa using hnone

/-- Going through bases ends at a script, or finds nothing at any of them. -/
theorem firstOf_cases {otherwise : Option Path} {bases : List Path}
    (h : firstOf d otherwise bases = some y) :
    (∃ base ∈ bases, probe d base = .script y) ∨
      (otherwise = some y ∧ ∀ base ∈ bases, probe d base = .missing) := by
  induction bases with
  | nil => exact .inr ⟨h, List.forall_mem_nil _⟩
  | cons base rest ih =>
    rw [firstOf] at h
    split at h
    · rename_i p hprobe
      cases h
      exact .inl ⟨base, List.mem_cons_self .., hprobe⟩
    · cases h
    · rename_i hprobe
      rcases ih h with ⟨b, hb, hb'⟩ | ⟨hy, hrest⟩
      · exact .inl ⟨b, List.mem_cons_of_mem _ hb, hb'⟩
      · exact .inr ⟨hy, List.forall_mem_cons.2 ⟨hprobe, hrest⟩⟩

/-! ## Base paths -/

/-- Base paths are cleaned. -/
theorem bases?_clean {bases : List Path} (h : bases? project x specifier = some bases) :
    ∀ base ∈ bases, ∃ p : Path, base = p.clean := by
  rw [bases?] at h
  split at h
  · cases h
    intro base hbase
    rw [List.mem_singleton.1 hbase]
    exact ⟨_, rfl⟩
  · split at h
    · cases h
      intro base hbase
      rw [List.mem_singleton.1 hbase]
      exact ⟨_, rfl⟩
    · obtain ⟨⟨rule, rest⟩, -, hbases⟩ := Option.map_eq_some_iff.1 h
      intro base hbase
      rw [← hbases] at hbase
      obtain ⟨target, -, rfl⟩ := List.mem_map.1 hbase
      rw [aliasBase]
      split
      · exact ⟨_, rfl⟩
      · exact ⟨_, rfl⟩

theorem isPlain_fallback_clean (p : Path) : (fallback p.clean).IsPlain :=
  Path.isPlain_clean_appendShown p (by decide) (by decide)

/-! ## Answers -/

/-- **Where an import leads**: to a file, by its link-free path, or to a plain path where no file is. -/
theorem target?_cases (h : target? d project x specifier = some y) :
    d.IsLinkFree y ∨ y.IsPlain ∧ d.isFile y = false := by
  rw [target?] at h
  split at h
  · rename_i bases hbases
    rcases firstOf_cases h with ⟨base, -, hprobe⟩ | ⟨hfallback, hmissing⟩
    · exact .inl (isLinkFree_of_probe hprobe)
    · -- nothing was found at any base, so the answer is made up from the first
      obtain ⟨base, hhead, rfl⟩ := Option.map_eq_some_iff.1 hfallback
      have hmem := List.mem_of_head? hhead
      obtain ⟨p, rfl⟩ := bases?_clean hbases base hmem
      exact .inr ⟨isPlain_fallback_clean p, isFile_fallback_of_probe (hmissing _ hmem)⟩
  · cases h

theorem isPlain_of_target? (h : target? d project x specifier = some y) : y.IsPlain := by
  rcases target?_cases h with hfree | ⟨hplain, -⟩
  · exact hfree.isPlain
  · exact hplain

/-- An import that leads to a file that can be read leads to it by its link-free path. -/
theorem isLinkFree_of_target? {m : Module} (h : target? d project x specifier = some y)
    (hm : Module.ofFile d y = .ok m) : d.IsLinkFree y := by
  rcases target?_cases h with hfree | ⟨-, hfile⟩
  · exact hfree
  · rw [Module.isFile_of_ofFile hm] at hfile
    cases hfile

end Resolve

namespace Memo

variable {d : Disk} {project : Project} {m : Memo}

/-- Every answer is the one that would be given anew. -/
def Sound (d : Disk) (project : Project) (m : Memo) : Prop :=
  ∀ (x : Path) (specifier : String) (answer : Option Path),
    m.find? x specifier = some answer → answer = Resolve.target? d project x specifier

theorem sound_empty : empty.Sound d project := fun _ _ _ h => nomatch h

/-- **Hit and miss.** A sound memo answers as if there were none, and stays sound. -/
theorem Sound.resolve (h : m.Sound d project) (x : Path) (specifier : String) :
    (m.resolve d project x specifier).1 = Resolve.target? d project x specifier ∧
      (m.resolve d project x specifier).2.Sound d project := by
  rw [Memo.resolve]
  cases hfind : m.find? x specifier with
  | some answer => exact ⟨h x specifier answer hfind, h⟩
  | none =>
    -- what is found in the memo now is the new answer or was there before
    refine ⟨rfl, fun x' specifier' answer hanswer => ?_⟩
    simp only [find?, add, List.lookup_cons] at hanswer
    split at hanswer
    · rename_i hkey
      obtain ⟨hsteps, hspecifier⟩ := Prod.mk.inj (beq_iff_eq.1 hkey)
      cases hanswer
      rw [hspecifier]
      exact Resolve.target?_congr hsteps.symm specifier
    · exact h x' specifier' answer hanswer

end Memo

end ClientBoundary
