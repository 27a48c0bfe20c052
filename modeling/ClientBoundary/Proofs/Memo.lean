import Mathlib.Data.List.Dedup
import ClientBoundary.Proofs.Resolve

/-!
# One memo for many imports

A memo remembers answers by the **place** of the importing file, which many spellings have in common.

* **hit**: an import that was asked for before, at any spelling of its place, is answered from the memo, and the
  memo stays as it is;
* **miss**: any other import is answered anew, and the memo gets one entry more.

Either way the answer is the one that an empty memo leads to, down to its spelling, and each import that was asked
for has one entry (`resolve_after`).
-/

namespace ClientBoundary

namespace Memo

variable {d : Disk} {project : Project} {m : Memo} {asks : List (Path × String)}

/-- What an import is remembered by: the place of the importing file, and the specifier. -/
def key (ask : Path × String) : List Step × String := (ask.1.steps, ask.2)

/-- What a memo remembers, last first. -/
def keys (m : Memo) : List (List Step × String) := m.entries.map (·.1)

/-- The memo that is left when imports were asked for one after the other, beginning with an empty one. -/
def after (d : Disk) (project : Project) (asks : List (Path × String)) : Memo :=
  asks.foldl (fun m ask => (m.resolve d project ask.1 ask.2).2) empty

theorem find?_eq_none {x : Path} {specifier : String} :
    m.find? x specifier = none ↔ key (x, specifier) ∉ m.keys := by
  rw [find?, List.lookup_eq_none_iff, keys, List.mem_map, not_exists]
  simp only [not_and, bne_iff_ne, key]
  exact forall₂_congr fun _ _ => ne_comm

/-! ## Hit and miss -/

theorem resolve_hit {x : Path} {specifier : String} (h : key (x, specifier) ∈ m.keys) :
    (m.resolve d project x specifier).2 = m := by
  cases hfind : m.find? x specifier with
  | none => exact absurd h (find?_eq_none.1 hfind)
  | some answer => rw [resolve, hfind]

theorem resolve_miss {x : Path} {specifier : String} (h : key (x, specifier) ∉ m.keys) :
    (m.resolve d project x specifier).2.keys = key (x, specifier) :: m.keys := by
  rw [resolve, find?_eq_none.2 h]
  rfl

/-- A memo that knows the answers to some imports and to no others, each by one entry. -/
structure Answers (d : Disk) (project : Project) (asks : List (Path × String)) (m : Memo) : Prop where
  /-- the answers can be relied on -/
  sound : m.Sound d project
  /-- no import is remembered twice -/
  nodup : m.keys.Nodup
  /-- what is remembered was asked for -/
  mem_keys : ∀ k, k ∈ m.keys ↔ k ∈ asks.map key

namespace Answers

theorem init : Answers d project [] empty where
  sound := sound_empty
  nodup := List.nodup_nil
  mem_keys _ := Iff.rfl

/-- **One import.** Whether it hits or misses, it is remembered once from then on. -/
theorem resolve (h : Answers d project asks m) (ask : Path × String) :
    Answers d project (asks ++ [ask]) (m.resolve d project ask.1 ask.2).2 := by
  have hsound := (h.sound.resolve ask.1 ask.2).2
  by_cases hkey : key ask ∈ m.keys
  · rw [resolve_hit hkey] at hsound ⊢
    refine ⟨hsound, h.nodup, fun k => ?_⟩
    rw [h.mem_keys, List.map_append, List.mem_append, List.map_singleton, List.mem_singleton]
    refine ⟨.inl, ?_⟩
    rintro (hk | rfl)
    · exact hk
    · exact (h.mem_keys _).1 hkey
  · have hkeys : (m.resolve d project ask.1 ask.2).2.keys = key ask :: m.keys := resolve_miss hkey
    refine ⟨hsound, ?_, fun k => ?_⟩
    · rw [hkeys]
      exact List.nodup_cons.2 ⟨hkey, h.nodup⟩
    · rw [hkeys, List.mem_cons, h.mem_keys, List.map_append, List.mem_append, List.map_singleton,
        List.mem_singleton]
      exact or_comm

/-- **Many imports.** -/
theorem resolveAll (h : Answers d project asks m) (rest : List (Path × String)) :
    Answers d project (asks ++ rest)
      (rest.foldl (fun m ask => (m.resolve d project ask.1 ask.2).2) m) := by
  induction rest generalizing asks m with
  | nil =>
    rw [List.append_nil]
    exact h
  | cons ask rest ih =>
    have hrest := ih (h.resolve ask)
    rwa [List.append_assoc] at hrest

/-- There are as many entries as different imports. -/
theorem size_eq (h : Answers d project asks m) : m.size = (asks.map key).dedup.length := by
  have hperm : m.keys.Perm (asks.map key).dedup := by
    refine (List.perm_ext_iff_of_nodup h.nodup (List.nodup_dedup _)).2 fun k => ?_
    rw [h.mem_keys, List.mem_dedup]
  rw [size, ← hperm.length_eq, keys, List.length_map]

end Answers

theorem answers_after (d : Disk) (project : Project) (asks : List (Path × String)) :
    Answers d project asks (after d project asks) :=
  Answers.init.resolveAll asks

/-- **A memo does not show.** After any imports, the next one gets the answer that it gets from an empty memo,
the spelling of the path included. The memo remembers each import that was asked for once, where files at the same
place count as one, and nothing else. -/
theorem resolve_after (d : Disk) (project : Project) (asks : List (Path × String)) (importer : Path)
    (specifier : String) :
    let m := after d project asks
    (m.resolve d project importer specifier).1 = (empty.resolve d project importer specifier).1 ∧
      (m.entries.map (·.1)).Nodup ∧
      (∀ k, k ∈ m.entries.map (·.1) ↔ ∃ ask ∈ asks, (ask.1.steps, ask.2) = k) ∧
      m.size = (asks.map fun ask => (ask.1.steps, ask.2)).dedup.length := by
  intro m
  have hanswers := answers_after d project asks
  refine ⟨?_, hanswers.nodup, ?_, hanswers.size_eq⟩
  · calc (m.resolve d project importer specifier).1
        = Resolve.target? d project importer specifier := (hanswers.sound.resolve importer specifier).1
      _ = (empty.resolve d project importer specifier).1 := (sound_empty.resolve importer specifier).1.symm
  · intro k
    rw [← List.mem_map]
    exact hanswers.mem_keys k

end Memo

end ClientBoundary
