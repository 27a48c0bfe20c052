import Mathlib.Data.List.Perm.Basic
import ClientBoundary.Ledger

/-!
# What a ledger knows

A ledger is read by `side?`, which depends on the steps of a path only. The two writers change it at
one place and leave every other place as it was, and a ledger is determined by what it knows: two
ledgers that answer alike have the same entries, up to the spelling of their paths
(`keys_eq_of_side?`).
-/

namespace ClientBoundary

theorem Path.same_iff {p q : Path} : p.same q = true ↔ p.steps = q.steps := beq_iff_eq

/-- Paths in strict order name different places. -/
theorem Path.nodup_steps {paths : List Path} (h : paths.Pairwise fun p q => p.order q = .lt) :
    (paths.map Path.steps).Nodup := by
  refine List.pairwise_map.2 (h.imp ?_)
  intro p q hlt heq
  rw [Path.order_eq_eq_iff.2 heq] at hlt
  cases hlt

namespace Ledger

variable {l l' : Ledger} {p q : Path}

/-! ## Reading -/

theorem side?_congr (l : Ledger) (h : p.steps = q.steps) : l.side? p = l.side? q := by
  have hsame : (fun e : Path × Side => e.1.same p) = fun e => e.1.same q := by
    funext e
    rw [Path.same, Path.same, h]
  rw [side?, side?, hsame]

theorem get_congr (l : Ledger) (h : p.steps = q.steps) : l.get p = l.get q := by
  rw [get, get, side?_congr l h]

@[simp] theorem get_eq_client : l.get p = .client ↔ l.side? p = some .client := by
  rw [get]
  cases l.side? p with
  | none => simp
  | some side => cases side <;> simp [Side.classification]

@[simp] theorem get_eq_server : l.get p = .server ↔ l.side? p = some .server := by
  rw [get]
  cases l.side? p with
  | none => simp
  | some side => cases side <;> simp [Side.classification]

@[simp] theorem get_eq_unknown : l.get p = .unknown ↔ l.side? p = none := by
  rw [get]
  cases l.side? p with
  | none => simp
  | some side => cases side <;> simp [Side.classification]

@[simp] theorem side?_empty (p : Path) : empty.side? p = none := rfl

/-! ## Entries -/

/-- What entries say about a path. -/
def sideIn (entries : List (Path × Side)) (p : Path) : Option Side :=
  (entries.find? (·.1.same p)).map (·.2)

theorem sideIn_cons (r : Path) (side : Side) (rest : List (Path × Side)) (p : Path) :
    sideIn ((r, side) :: rest) p = if r.steps = p.steps then some side else sideIn rest p := by
  rw [sideIn, List.find?_cons]
  by_cases h : r.steps = p.steps
  · rw [if_pos h, Path.same_iff.2 h]
    rfl
  · rw [if_neg h, Bool.eq_false_iff.2 (mt Path.same_iff.1 h)]
    rfl

/-- A path that precedes all entries is not among them. -/
theorem sideIn_eq_none_of_lt {entries : List (Path × Side)}
    (h : ∀ e ∈ entries, p.order e.1 = .lt) : sideIn entries p = none := by
  rw [sideIn, Option.map_eq_none_iff]
  refine List.find?_eq_none.2 fun e he hsame => ?_
  have heq := Path.order_eq_eq_iff.2 (Path.same_iff.1 hsame).symm
  rw [h e he] at heq
  cases heq

/-- An entry is what is said about its path. -/
theorem sideIn_of_mem {entries : List (Path × Side)} (h : Ordered entries) {e : Path × Side}
    (he : e ∈ entries) : sideIn entries e.1 = some e.2 := by
  induction entries with
  | nil => exact absurd he List.not_mem_nil
  | cons head rest ih =>
    obtain ⟨r, side⟩ := head
    obtain ⟨hhead, hrest⟩ := List.pairwise_cons.1 h
    rw [sideIn_cons]
    rcases List.mem_cons.1 he with rfl | he
    · exact if_pos rfl
    · have hne : r.steps ≠ e.1.steps := by
        intro heq
        have hlt := hhead e he
        rw [Path.order_eq_eq_iff.2 heq] at hlt
        cases hlt
      rw [if_neg hne]
      exact ih hrest he

/-- What is said about a path is said in an entry at its place. -/
theorem exists_entry {side : Side} (h : l.side? p = some side) :
    ∃ e ∈ l.entries, e.1.steps = p.steps ∧ e.2 = side := by
  obtain ⟨e, hfind, rfl⟩ := Option.map_eq_some_iff.1 h
  have hsame := List.find?_some hfind
  simp only [Path.same_iff] at hsame
  exact ⟨e, List.mem_of_find?_eq_some hfind, hsame, rfl⟩

theorem sideIn_enter {entries : List (Path × Side)} (h : Ordered entries)
    (change : Option Side → Side) (p q : Path) :
    sideIn (enter p change entries) q =
      if p.steps = q.steps then some (change (sideIn entries p)) else sideIn entries q := by
  induction entries with
  | nil =>
    rw [enter, sideIn_cons]
    rfl
  | cons head rest ih =>
    obtain ⟨r, side⟩ := head
    obtain ⟨hhead, hrest⟩ := List.pairwise_cons.1 h
    rw [enter]
    split
    · -- `p` precedes all entries, so it is not among them
      rename_i hlt
      have hnone : sideIn ((r, side) :: rest) p = none := by
        refine sideIn_eq_none_of_lt (List.forall_mem_cons.2 ⟨hlt, fun e he => ?_⟩)
        exact Std.TransCmp.lt_trans hlt (hhead e he)
      rw [sideIn_cons, hnone]
    · rename_i heq
      have hr := Path.order_eq_eq_iff.1 heq
      rw [sideIn_cons, sideIn_cons, sideIn_cons, if_pos hr.symm, hr]
      split
      · rfl
      · rfl
    · rename_i hgt
      have hpr : r.steps ≠ p.steps := by
        intro hrp
        rw [Path.order_eq_eq_iff.2 hrp.symm] at hgt
        cases hgt
      rw [sideIn_cons, sideIn_cons, sideIn_cons, if_neg hpr, ih hrest]
      by_cases hrq : r.steps = q.steps
      · rw [if_pos hrq, if_pos hrq, if_neg fun hpq => hpr (hrq.trans hpq.symm)]
      · rw [if_neg hrq, if_neg hrq]

/-! ## Writing -/

/-- Making a file a client component changes nothing else. -/
theorem side?_setClient (l : Ledger) (p q : Path) :
    (l.setClient p).side? q = if p.steps = q.steps then some .client else l.side? q :=
  sideIn_enter l.ordered _ p q

/-- A file that nothing is known about becomes a server component; nothing else changes. -/
theorem side?_setServerIfUnknown (l : Ledger) (p q : Path) :
    (l.setServerIfUnknown p).side? q =
      if p.steps = q.steps then some ((l.side? p).getD .server) else l.side? q :=
  sideIn_enter l.ordered _ p q

/-- `l'` is `l` with the files at the given places made client components. -/
def Extends (l' l : Ledger) (places : List (List Step)) : Prop :=
  ∀ q : Path, l'.side? q = if q.steps ∈ places then some .client else l.side? q

theorem extends_nil (l : Ledger) : l.Extends l [] := fun _ => rfl

theorem Extends.setClient {places : List (List Step)} (h : l'.Extends l places) (p : Path) :
    (l'.setClient p).Extends l (places ++ [p.steps]) := by
  intro q
  rw [side?_setClient, h q]
  by_cases hq : p.steps = q.steps
  · rw [if_pos hq, if_pos (List.mem_append_right _ (List.mem_singleton.2 hq.symm))]
  · rw [if_neg hq]
    simp [Ne.symm hq]

theorem Extends.get_eq {places : List (List Step)} (h : l'.Extends l places) (q : Path) :
    l'.get q = if q.steps ∈ places then .client else l.get q := by
  rw [get, h q]
  by_cases hq : q.steps ∈ places
  · rw [if_pos hq, if_pos hq]
    rfl
  · rw [if_neg hq, if_neg hq]
    rfl

/-- A client component stands at one of the places, or was one before. -/
theorem Extends.client_iff {places : List (List Step)} (h : l'.Extends l places) (q : Path) :
    l'.get q = .client ↔ q.steps ∈ places ∨ l.get q = .client := by
  rw [get_eq_client, get_eq_client, h q]
  by_cases hq : q.steps ∈ places <;> simp [hq]

/-- A server component was one before and stands elsewhere. -/
theorem Extends.server_iff {places : List (List Step)} (h : l'.Extends l places) (q : Path) :
    l'.get q = .server ↔ q.steps ∉ places ∧ l.get q = .server := by
  rw [get_eq_server, get_eq_server, h q]
  by_cases hq : q.steps ∈ places <;> simp [hq]

/-! ## Spelling -/

/-- The paths of the entries, as they are written there. -/
def paths (l : Ledger) : List Path := l.entries.map (·.1)

theorem fst_of_mem_enter {change : Option Side → Side} {entries : List (Path × Side)} {e : Path × Side}
    (h : e ∈ enter p change entries) : e.1 = p ∨ e.1 ∈ entries.map (·.1) := by
  induction entries with
  | nil =>
    rw [List.mem_singleton.1 h]
    exact .inl rfl
  | cons head rest ih =>
    obtain ⟨r, side⟩ := head
    rw [enter] at h
    split at h
    · rcases List.mem_cons.1 h with rfl | h
      · exact .inl rfl
      · exact .inr (List.mem_map_of_mem h)
    · -- the entry is changed and keeps its path as it is spelt
      rcases List.mem_cons.1 h with rfl | h
      · exact .inr (List.mem_cons_self ..)
      · exact .inr (List.mem_cons_of_mem _ (List.mem_map_of_mem h))
    · rcases List.mem_cons.1 h with rfl | h
      · exact .inr (List.mem_cons_self ..)
      · exact (ih h).imp_right (List.mem_cons_of_mem _)

/-- A path that is written in the ledger was written there before, or is the new one. -/
theorem mem_paths_setClient (h : q ∈ (l.setClient p).paths) : q = p ∨ q ∈ l.paths := by
  obtain ⟨e, he, rfl⟩ := List.mem_map.1 h
  exact fst_of_mem_enter he

theorem mem_paths_setServerIfUnknown (h : q ∈ (l.setServerIfUnknown p).paths) : q = p ∨ q ∈ l.paths := by
  obtain ⟨e, he, rfl⟩ := List.mem_map.1 h
  exact fst_of_mem_enter he

/-! ## Client components -/

/-- The client components are the paths that are written with that side. -/
theorem mem_clients : p ∈ l.clients ↔ p ∈ l.paths ∧ l.side? p = some .client := by
  rw [clients, onSide, List.mem_map]
  constructor
  · rintro ⟨e, he, rfl⟩
    obtain ⟨he, hside⟩ := List.mem_filter.1 he
    rw [beq_iff_eq] at hside
    exact ⟨List.mem_map_of_mem he, hside ▸ sideIn_of_mem l.ordered he⟩
  · rintro ⟨hp, hside⟩
    obtain ⟨e, he, rfl⟩ := List.mem_map.1 hp
    have hsome := (sideIn_of_mem l.ordered he).symm.trans hside
    exact ⟨e, List.mem_filter.2 ⟨he, beq_iff_eq.2 (Option.some.inj hsome)⟩, rfl⟩

/-- No place is among the client components twice. -/
theorem nodup_clients (l : Ledger) : (l.clients.map Path.steps).Nodup :=
  Path.nodup_steps (List.pairwise_map.2 (l.ordered.filter _))

/-! ## Extensionality -/

/-- Entries by the steps of their paths. -/
def keys (l : Ledger) : List (List Step × Side) := l.entries.map fun e => (e.1.steps, e.2)

/-- The keys are what is read at their places. -/
theorem mem_keys {σ : List Step} {side : Side} :
    (σ, side) ∈ l.keys ↔ ∃ p : Path, p.steps = σ ∧ l.side? p = some side := by
  constructor
  · intro h
    obtain ⟨e, he, heq⟩ := List.mem_map.1 h
    cases heq
    exact ⟨e.1, rfl, sideIn_of_mem l.ordered he⟩
  · rintro ⟨p, rfl, hp⟩
    obtain ⟨e, he, hsteps, rfl⟩ := exists_entry hp
    exact List.mem_map.2 ⟨e, he, by rw [hsteps]⟩

theorem pairwise_keys (l : Ledger) :
    l.keys.Pairwise fun a b => a.1.compareLex Step.order b.1 = .lt := by
  refine List.pairwise_map.2 (l.ordered.imp ?_)
  intro a b h
  rwa [Path.order_eq] at h

/-- **A ledger is what it knows.** Ledgers that answer alike have the same entries, up to the spelling of
their paths. -/
theorem keys_eq_of_side? (h : ∀ p, l.side? p = l'.side? p) : l.keys = l'.keys := by
  have hnodup : ∀ l : Ledger, l.keys.Nodup := by
    intro l
    refine l.pairwise_keys.imp ?_
    rintro a b hlt rfl
    have heq : a.1.compareLex Step.order a.1 = .eq := Std.ReflCmp.compare_self
    rw [heq] at hlt
    cases hlt
  have hperm : l.keys.Perm l'.keys := by
    refine (List.perm_ext_iff_of_nodup (hnodup l) (hnodup l')).2 ?_
    rintro ⟨σ, side⟩
    rw [mem_keys, mem_keys]
    simp only [h]
  -- the same keys in the same strict order
  refine hperm.eq_of_pairwise ?_ l.pairwise_keys l'.pairwise_keys
  intro a b _ _ hab hba
  have hgt := Std.OrientedCmp.gt_of_lt hba
  rw [hab] at hgt
  cases hgt

@[simp] theorem map_fst_snapshot (l : Ledger) : l.snapshot.map (·.1) = l.paths := by
  rw [snapshot, paths, List.map_map]
  rfl

theorem snapshot_keys (l : Ledger) :
    l.snapshot.map (fun e => (e.1.steps, e.2)) = l.keys.map fun k => (k.1, k.2.classification) := by
  rw [snapshot, keys, List.map_map, List.map_map]
  rfl

end Ledger

end ClientBoundary
