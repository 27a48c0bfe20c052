import Mathlib.Data.List.Induction
import ClientBoundary.Proofs.Ledger

/-!
# A ledger and its history

A ledger is asked to **write** and to **answer**, in any order. Answers change nothing, so what a ledger
knows is told by its writes (`told`): a file is a client component if one of them made it one, a server
component if it was only ever made that, and unknown if no write names it.

The order of the writes does not matter, and the histories that begin with others know no less
(`served_agrees`).
-/

namespace ClientBoundary

namespace Ledger

/-- What is asked of a ledger. -/
inductive Request where
  | setClient (p : Path)
  | setServerIfUnknown (p : Path)
  | get (p : Path)
  | contains (p : Path)
  | snapshot
  | clients
  | servers
  | size
deriving DecidableEq

/-- What a ledger answers. -/
inductive Answer where
  /-- it was written -/
  | written
  | classification (c : Classification)
  | truth (b : Bool)
  | entries (es : List (Path × Classification))
  | paths (ps : List Path)
  | count (n : Nat)
deriving DecidableEq

/-- Serves one request. -/
def serve (l : Ledger) : Request → Ledger × Answer
  | .setClient p => (l.setClient p, .written)
  | .setServerIfUnknown p => (l.setServerIfUnknown p, .written)
  | .get p => (l, .classification (l.get p))
  | .contains p => (l, .truth (l.contains p))
  | .snapshot => (l, .entries l.snapshot)
  | .clients => (l, .paths l.clients)
  | .servers => (l, .paths l.servers)
  | .size => (l, .count l.size)

/-- Serves requests one after the other. -/
def serveAll : Ledger → List Request → Ledger × List Answer
  | l, [] => (l, [])
  | l, r :: rest =>
    let (l, answer) := l.serve r
    let (l, answers) := serveAll l rest
    (l, answer :: answers)

/-- The ledger that requests leave behind, beginning with an empty one. -/
def served (rs : List Request) : Ledger := (empty.serveAll rs).1

/-- The path that a request writes, and the side that it makes it. -/
def Request.write? : Request → Option (Path × Side)
  | .setClient p => some (p, .client)
  | .setServerIfUnknown p => some (p, .server)
  | _ => none

/-- What requests write, in order. -/
def writes (rs : List Request) : List (Path × Side) := rs.filterMap Request.write?

/-- Whether writes make a file a component of a side. Spellings of one place count as one file. -/
def Names (ws : List (Path × Side)) (p : Path) (side : Side) : Prop :=
  ∃ w ∈ ws, w.1.steps = p.steps ∧ w.2 = side

instance (ws : List (Path × Side)) (p : Path) (side : Side) : Decidable (Names ws p side) :=
  inferInstanceAs (Decidable (∃ w ∈ ws, _))

/-- What writes tell about a file, in whatever order they were made. -/
def told (ws : List (Path × Side)) (p : Path) : Classification :=
  if Names ws p .client then .client
  else if Names ws p .server then .server
  else .unknown

/-- A ledger that agrees with a history of writes. -/
structure Agrees (ws : List (Path × Side)) (l : Ledger) : Prop where
  /-- it knows what the writes tell -/
  get : ∀ p, l.get p = told ws p
  /-- what is entered was written -/
  contains : ∀ p, l.contains p = true ↔ ∃ w ∈ ws, w.1.steps = p.steps
  /-- something is known about each entry -/
  known : ∀ e ∈ l.snapshot, e.2 ≠ .unknown
  /-- entries stand in the strict order of their paths -/
  snapshot : l.snapshot.Pairwise fun a b => a.1.order b.1 = .lt
  /-- so do the client components -/
  clients : l.clients.Pairwise fun p q => p.order q = .lt
  /-- and the server components -/
  servers : l.servers.Pairwise fun p q => p.order q = .lt
  /-- the client components are known as such -/
  client : ∀ p ∈ l.clients, l.get p = .client
  /-- and the server components are -/
  server : ∀ p ∈ l.servers, l.get p = .server
  /-- no place is on both sides -/
  apart : (l.clients.map Path.steps).Disjoint (l.servers.map Path.steps)
  /-- each entry is on one of them -/
  parts : (l.clients ++ l.servers).Perm (l.snapshot.map (·.1))
  /-- so their numbers add up -/
  size : l.clients.length + l.servers.length = l.size

variable {l : Ledger} {p q : Path} {ws ws' : List (Path × Side)}

/-! ## Writes -/

/-- What a write makes of what was known: a client component stays one. -/
def join (old : Option Side) (new : Side) : Side :=
  match old with
  | some .client => .client
  | _ => new

/-- **One request.** A write changes what is known about one place, and a question changes nothing. -/
theorem side?_serve (l : Ledger) (r : Request) (q : Path) :
    (l.serve r).1.side? q =
      match r.write? with
      | some w => if w.1.steps = q.steps then some (join (l.side? q) w.2) else l.side? q
      | none => l.side? q := by
  cases r with
  | setClient p =>
    have hjoin : join (l.side? q) .client = .client := by
      cases l.side? q with
      | none => rfl
      | some side => cases side <;> rfl
    simp only [serve, Request.write?, side?_setClient, hjoin]
  | setServerIfUnknown p =>
    have hjoin : join (l.side? q) .server = (l.side? q).getD .server := by
      cases l.side? q with
      | none => rfl
      | some side => cases side <;> rfl
    simp only [serve, Request.write?, side?_setServerIfUnknown, hjoin]
    split
    · rename_i hsteps
      rw [l.side?_congr hsteps]
    · rfl
  | _ => rfl

theorem serveAll_append (l : Ledger) (rs rs' : List Request) :
    (l.serveAll (rs ++ rs')).1 = ((l.serveAll rs).1.serveAll rs').1 := by
  induction rs generalizing l with
  | nil => rfl
  | cons r rest ih => exact ih (l.serve r).1

theorem served_append (rs : List Request) (r : Request) :
    served (rs ++ [r]) = ((served rs).serve r).1 :=
  serveAll_append empty rs [r]

theorem names_append {side : Side} :
    Names (ws ++ ws') p side ↔ Names ws p side ∨ Names ws' p side := by
  simp only [Names, List.mem_append, or_and_right, exists_or]

theorem names_singleton {w : Path × Side} {side : Side} :
    Names [w] p side ↔ w.1.steps = p.steps ∧ w.2 = side := by
  simp only [Names, List.mem_singleton, exists_eq_left]

/-- A side that writes leave behind: the last word is the client's. -/
def lastSide? (ws : List (Path × Side)) (p : Path) : Option Side :=
  if Names ws p .client then some .client
  else if Names ws p .server then some .server
  else none

/-- One write more. -/
theorem lastSide?_append (ws : List (Path × Side)) (w : Path × Side) (p : Path) :
    lastSide? (ws ++ [w]) p =
      if w.1.steps = p.steps then some (join (lastSide? ws p) w.2) else lastSide? ws p := by
  obtain ⟨r, side⟩ := w
  simp only [lastSide?, names_append, names_singleton]
  by_cases hsteps : r.steps = p.steps
  · by_cases hclient : Names ws p .client
    · simp [hsteps, hclient, join]
    · by_cases hserver : Names ws p .server <;> cases side <;> simp [hsteps, hclient, hserver, join]
  · simp [hsteps]

/-- **Many requests.** What is known about a place is told by the writes that name it. -/
theorem side?_served (rs : List Request) (p : Path) :
    (served rs).side? p = lastSide? (writes rs) p := by
  induction rs using List.reverseRecOn with
  | nil => rfl
  | append_singleton rs r ih =>
    rw [served_append, side?_serve, writes, List.filterMap_append]
    cases hr : r.write? with
    | none =>
      have hnone : [r].filterMap Request.write? = [] := by simp [hr]
      rw [hnone, List.append_nil]
      exact ih
    | some w =>
      have hsome : [r].filterMap Request.write? = [w] := by simp [hr]
      rw [hsome, lastSide?_append, ih]
      rfl

theorem get_served (rs : List Request) (p : Path) : (served rs).get p = told (writes rs) p := by
  rw [get, side?_served, lastSide?, told]
  by_cases hclient : Names (writes rs) p .client
  · rw [if_pos hclient, if_pos hclient]
    rfl
  · rw [if_neg hclient, if_neg hclient]
    by_cases hserver : Names (writes rs) p .server
    · rw [if_pos hserver, if_pos hserver]
      rfl
    · rw [if_neg hserver, if_neg hserver]

/-- A write makes its file a component of one of the two sides. -/
theorem exists_write_iff : (∃ w ∈ ws, w.1.steps = p.steps) ↔ Names ws p .client ∨ Names ws p .server := by
  constructor
  · rintro ⟨⟨r, side⟩, hw, hsteps⟩
    cases side with
    | client => exact .inl ⟨_, hw, hsteps, rfl⟩
    | server => exact .inr ⟨_, hw, hsteps, rfl⟩
  · rintro (⟨w, hw, hsteps, -⟩ | ⟨w, hw, hsteps, -⟩)
    · exact ⟨w, hw, hsteps⟩
    · exact ⟨w, hw, hsteps⟩

theorem contains_served (rs : List Request) (p : Path) :
    (served rs).contains p = true ↔ ∃ w ∈ writes rs, w.1.steps = p.steps := by
  rw [contains, side?_served, lastSide?, exists_write_iff]
  by_cases hclient : Names (writes rs) p .client
  · simp [hclient]
  · by_cases hserver : Names (writes rs) p .server <;> simp [hclient, hserver]

/-- More writes tell no less. -/
theorem rank_told_le (h : ws ⊆ ws') (p : Path) : (told ws p).rank ≤ (told ws' p).rank := by
  have hnames : ∀ side, Names ws p side → Names ws' p side := by
    rintro side ⟨w, hw, hwp⟩
    exact ⟨w, h hw, hwp⟩
  rw [told]
  split
  · rename_i hclient
    have htold : told ws' p = .client := if_pos (hnames _ hclient)
    exact Nat.le_of_eq (congrArg Classification.rank htold.symm)
  · split
    · rename_i hserver
      rw [told, if_pos (hnames _ hserver)]
      split
      · decide
      · exact Nat.le_refl _
    · exact Nat.zero_le _

/-- What writes leave behind does not depend on their order. -/
theorem lastSide?_perm (h : ws.Perm ws') (p : Path) : lastSide? ws p = lastSide? ws' p := by
  have hnames : ∀ side, Names ws p side ↔ Names ws' p side := by
    intro side
    simp only [Names, h.mem_iff]
  simp only [lastSide?, hnames]

/-! ## Answers -/

/-- A request is answered from what the requests before it have left. -/
theorem answer_serveAll (l : Ledger) (rs : List Request) (i : Nat) :
    (l.serveAll rs).2[i]? = rs[i]?.map fun r => ((l.serveAll (rs.take i)).1.serve r).2 := by
  induction rs generalizing l i with
  | nil => rfl
  | cons r rest ih =>
    cases i with
    | zero => rfl
    | succ i => exact ih (l.serve r).1 i

/-! ## Sides -/

theorem side?_of_mem_onSide {side : Side} (h : p ∈ l.onSide side) : l.side? p = some side := by
  obtain ⟨e, he, rfl⟩ := List.mem_map.1 h
  obtain ⟨he, hside⟩ := List.mem_filter.1 he
  rw [← beq_iff_eq.1 hside]
  exact sideIn_of_mem l.ordered he

theorem pairwise_onSide (l : Ledger) (side : Side) :
    (l.onSide side).Pairwise fun p q => p.order q = .lt :=
  List.pairwise_map.2 (l.ordered.filter _)

/-- Each entry is on one of the two sides. -/
theorem clients_append_servers (l : Ledger) : (l.clients ++ l.servers).Perm l.paths := by
  have hserver : l.entries.filter (·.2 == .server) = l.entries.filter fun e => !(e.2 == .client) := by
    refine List.filter_congr fun e _ => ?_
    cases e.2 <;> rfl
  rw [clients, servers, onSide, onSide, hserver, ← List.map_append]
  exact (List.filter_append_perm _ _).map _

theorem steps_ne_of_sides (hp : p ∈ l.clients) (hq : q ∈ l.servers) : p.steps ≠ q.steps := by
  intro hsteps
  have hclient := side?_of_mem_onSide hp
  rw [l.side?_congr hsteps, side?_of_mem_onSide hq] at hclient
  cases hclient

/-! ## Histories -/

theorem agrees_served (rs : List Request) : Agrees (writes rs) (served rs) where
  get := get_served rs
  contains := contains_served rs
  known := by
    intro e he
    obtain ⟨⟨q, side⟩, -, rfl⟩ := List.mem_map.1 he
    change side.classification ≠ .unknown
    cases side <;> decide
  snapshot := List.pairwise_map.2 (served rs).ordered
  clients := pairwise_onSide _ _
  servers := pairwise_onSide _ _
  client p hp := get_eq_client.2 (side?_of_mem_onSide hp)
  server p hp := get_eq_server.2 (side?_of_mem_onSide hp)
  apart := by
    intro σ hclient hserver
    obtain ⟨p, hp, rfl⟩ := List.mem_map.1 hclient
    obtain ⟨q, hq, hsteps⟩ := List.mem_map.1 hserver
    exact steps_ne_of_sides hp hq hsteps.symm
  parts := by
    rw [map_fst_snapshot]
    exact clients_append_servers _
  size := by
    rw [← List.length_append, (clients_append_servers _).length_eq, paths, List.length_map, Ledger.size]

/-- **A ledger is the join of its writes.** Whatever was asked of a ledger that began empty, it agrees with
what was written so far, and each question was answered from the writes before it. What is known about a file
never moves back, and requests that write the same in another order leave the same entries, up to the spelling of
their paths. -/
theorem served_agrees (rs : List Request) :
    Agrees (writes rs) (served rs) ∧
      (∀ i, (empty.serveAll rs).2[i]? = rs[i]?.map fun r => ((served (rs.take i)).serve r).2) ∧
      (∀ p i j, i ≤ j → ((served (rs.take i)).get p).rank ≤ ((served (rs.take j)).get p).rank) ∧
      ∀ rs', (writes rs').Perm (writes rs) →
        (served rs').snapshot.map (fun e => (e.1.steps, e.2)) =
          (served rs).snapshot.map fun e => (e.1.steps, e.2) := by
  refine ⟨agrees_served rs, answer_serveAll empty rs, ?_, ?_⟩
  · intro p i j hij
    rw [get_served, get_served]
    refine rank_told_le ?_ p
    exact ((List.take_sublist_take_left hij).filterMap _).subset
  · intro rs' hperm
    rw [snapshot_keys, snapshot_keys]
    congr 1
    refine keys_eq_of_side? fun p => ?_
    rw [side?_served, side?_served, lastSide?_perm hperm]

/-- A file that is made a server component first, and one that is made a client component first, by different
spellings of its path. -/
theorem served_agrees_twice :
    let slow : List Request :=
      [.setServerIfUnknown ⟨"/p//a.tsx"⟩, .get ⟨"/p/a.tsx/"⟩, .setClient ⟨"/p/a.tsx"⟩]
    let fast : List Request :=
      [.setClient ⟨"/p/a.tsx"⟩, .clients, .setServerIfUnknown ⟨"/p//a.tsx"⟩]
    (writes fast).Perm (writes slow) ∧
      (empty.serveAll slow).2 = [.written, .classification .server, .written] ∧
      (served slow).snapshot = [(⟨"/p//a.tsx"⟩, .client)] ∧
      (served fast).snapshot = [(⟨"/p/a.tsx"⟩, .client)] ∧
      (served fast).snapshot.map (fun e => (e.1.steps, e.2)) =
        (served slow).snapshot.map fun e => (e.1.steps, e.2) := by
  intro slow fast
  have hperm : (writes fast).Perm (writes slow) := by decide
  exact ⟨hperm, by decide, by decide, by decide, (served_agrees slow).2.2.2 fast hperm⟩

end Ledger

end ClientBoundary
