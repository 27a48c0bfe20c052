import ClientBoundary.Proofs.Account

/-!
# The worklist

Propagation keeps the files that are still to visit on a stack, and bounds the files that it enters in advance.
It can be told in two other ways:

* as a **loop**: `pass` takes one file from the stack, and `work` goes on until the stack is empty, by recursion
  over the states from which it cannot go on for ever. The state at the beginning is one of them, whatever
  the tree, the memo and the start are (`propagate_ends`);
* as a **recursion**: `explore` visits a file and then, one after the other, the files that it imports, with no
  stack at all. It may come to a file again and again, where the loop leaves out files that need no visit, yet
  both do the same in the same order, once the calls may go deep enough (`markClient_explores`).
-/

namespace ClientBoundary

namespace Terrain

variable {t : Terrain} {l : Ledger} {w w' : Wave} {p : Path} {front rest : List Path}

/-- The edges of a file: those that are given, or else those that are read. -/
def edgesAt (t : Terrain) (p : Path) : Option (List Edge) → Except Failure (List Edge)
  | some edges => .ok edges
  | none => (Module.ofFile t.disk p).map Module.edges

theorem edgesAt_of_error {f : Failure} (h : Module.ofFile t.disk p = .error f) :
    t.edgesAt p none = .error f := by
  rw [edgesAt, h]
  rfl

theorem edgesAt_of_ok {m : Module} (h : Module.ofFile t.disk p = .ok m) :
    t.edgesAt p none = .ok m.edges := by
  rw [edgesAt, h]
  rfl

/-! ## The loop -/

/-- A state of the loop: what was done, and the stack of files to visit, with their edges if these are
given. -/
abbrev LoopState := Wave × List (Path × Option (List Edge))

/-- One turn of the loop; there is none when the stack is empty. -/
def pass (t : Terrain) : LoopState → Option LoopState
  | (_, []) => none
  | (w, (p, given) :: rest) =>
    if w.hasVisited p then some (w, rest)
    else
      match t.edgesAt p given with
      | .error f => some ((w.visit p).fail f, rest)
      | .ok edges =>
        let (w, next) := t.enter (w.visit p) p edges
        some (w, next.map (·, none) ++ rest)

/-- The state `b` comes right after `a`. -/
def Follows (t : Terrain) (b a : LoopState) : Prop := t.pass a = some b

/-- Turns the loop until the stack is empty, from a state where each sequence of turns is finite. -/
def work (t : Terrain) (a : {a : LoopState // Acc t.Follows a}) : Wave :=
  match h : t.pass a.1 with
  | none => a.1.1
  | some b => work t ⟨b, a.2.inv h⟩
termination_by a
decreasing_by exact h

/-- The loop ends, and leaves `w`. -/
def Ends (t : Terrain) (a : LoopState) (w : Wave) : Prop := ∃ h : Acc t.Follows a, t.work ⟨a, h⟩ = w

theorem Ends.stop (w : Wave) : t.Ends (w, []) w := by
  have hacc : Acc t.Follows (w, []) := by
    constructor
    intro b hb
    cases hb
  refine ⟨hacc, ?_⟩
  rw [work]
  rfl

/-- One turn more: there is only one state that comes next. -/
theorem Ends.turn {a b : LoopState} (hpass : t.pass a = some b) (h : t.Ends b w) : t.Ends a w := by
  obtain ⟨hacc, hwork⟩ := h
  have hacc' : Acc t.Follows a := by
    constructor
    intro c hc
    rw [Follows, hpass] at hc
    cases hc
    exact hacc
  refine ⟨hacc', ?_⟩
  rw [work]
  split
  · rename_i hnone
    rw [hpass] at hnone
    cases hnone
  · rename_i c hc
    rw [hpass] at hc
    cases hc
    exact hwork

theorem pass_seen {given : Option (List Edge)} {rest : List (Path × Option (List Edge))}
    (h : p.steps ∈ w.visited) : t.pass (w, (p, given) :: rest) = some (w, rest) := by
  rw [pass, if_pos (Wave.hasVisited_iff.2 h)]

theorem pass_failed {given : Option (List Edge)} {rest : List (Path × Option (List Edge))} {f : Failure}
    (h : p.steps ∉ w.visited) (hf : t.edgesAt p given = .error f) :
    t.pass (w, (p, given) :: rest) = some ((w.visit p).fail f, rest) := by
  rw [pass, if_neg (mt Wave.hasVisited_iff.1 h), hf]

theorem pass_entered {given : Option (List Edge)} {rest : List (Path × Option (List Edge))}
    {edges : List Edge} (h : p.steps ∉ w.visited) (hedges : t.edgesAt p given = .ok edges) :
    t.pass (w, (p, given) :: rest) =
      some ((t.enter (w.visit p) p edges).1,
        (t.enter (w.visit p) p edges).2.map (·, none) ++ rest) := by
  rw [pass, if_neg (mt Wave.hasVisited_iff.1 h), hedges]

/-- Each thing that can happen to the first file of a front is one turn. -/
theorem Settles.ends (hrun : t.Settles w front w') : t.Ends (w, front.map (·, none)) w' := by
  induction hrun with
  | done => exact .stop _
  | seen hp _ ih => exact .turn (pass_seen hp) ih
  | failed hp hf _ ih => exact .turn (pass_failed hp (edgesAt_of_error hf)) ih
  | entered hp hm _ ih =>
    rw [List.map_append] at ih
    exact .turn (pass_entered hp (edgesAt_of_ok hm)) ih

/-- **Propagation terminates.** From any file, with any edges, on any tree, with any ledger and whatever a memo
answers, each sequence of turns of the loop is finite, and the loop leaves what propagation leaves. -/
theorem propagate_ends (t : Terrain) (l : Ledger) (memo : Memo) (p : Path) (edges : List Edge) :
    ∃ h : Acc t.Follows (⟨l, memo, [], .empty⟩, [(p, some edges)]),
      t.work ⟨(⟨l, memo, [], .empty⟩, [(p, some edges)]), h⟩ = t.propagate l memo p edges := by
  have hrest := (propagate_runs t l memo p edges).ends
  refine Ends.turn (pass_entered List.not_mem_nil rfl) ?_
  rw [List.append_nil]
  exact hrest

/-! ## The recursion -/

/-- What the recursion carries along. -/
structure Trail where
  /-- what is known about files -/
  ledger : Ledger
  /-- places that were visited -/
  visited : List (List Step)
  /-- what was done -/
  done : Propagation

/-- Visits a file that cannot be used. -/
def Trail.fail (s : Trail) (p : Path) (f : Failure) : Trail where
  ledger := s.ledger
  visited := p.steps :: s.visited
  done := { s.done with failures := s.done.failures ++ [f] }

/-- Visits a file and makes it a client component; some of its edges are passed over. -/
def Trail.mark (s : Trail) (p : Path) (skipped : List SkippedEdge) : Trail where
  ledger := s.ledger.setClient p
  visited := p.steps :: s.visited
  done := { s.done with marked := s.done.marked ++ [p], skipped := s.done.skipped ++ skipped }

/-- The files that edges of a file lead to and that were no client components at the beginning, in
order. -/
def onward (t : Terrain) (began : Ledger) (p : Path) (edges : List Edge) : List Path :=
  (t.targets p edges).filter fun y => began.get y != .client

/-- Visits a file, and then the files that it imports one after the other. `none` stands for calls that go
deeper than allowed. -/
def explore (t : Terrain) (began : Ledger) : Nat → Trail → Path → Option (List Edge) → Option Trail
  | 0, _, _, _ => none
  | depth + 1, s, p, given =>
    if s.visited.contains p.steps then some s
    else
      match t.edgesAt p given with
      | .error f => some (s.fail p f)
      | .ok edges =>
        (t.onward began p edges).foldlM (fun s y => explore t began depth s y none)
          (s.mark p (t.passed p edges))

/-- Visits files one after the other. -/
def exploreAll (t : Terrain) (began : Ledger) (depth : Nat) (s : Trail) (ps : List Path) : Option Trail :=
  ps.foldlM (fun s y => t.explore began depth s y none) s

variable {s s' : Trail} {ps : List Path} {given : Option (List Edge)} {depth depth' : Nat}

theorem explore_seen (h : p.steps ∈ s.visited) : t.explore l (depth + 1) s p given = some s := by
  rw [explore, if_pos (List.contains_iff_mem.2 h)]

theorem explore_failed {f : Failure} (h : p.steps ∉ s.visited) (hf : t.edgesAt p given = .error f) :
    t.explore l (depth + 1) s p given = some (s.fail p f) := by
  rw [explore, if_neg (mt List.contains_iff_mem.1 h), hf]

theorem explore_entered {edges : List Edge} (h : p.steps ∉ s.visited)
    (hedges : t.edgesAt p given = .ok edges) :
    t.explore l (depth + 1) s p given =
      t.exploreAll l depth (s.mark p (t.passed p edges)) (t.onward l p edges) := by
  rw [explore, if_neg (mt List.contains_iff_mem.1 h), hedges]
  rfl

theorem exploreAll_cons (depth : Nat) (s : Trail) (p : Path) (ps : List Path) :
    t.exploreAll l depth s (p :: ps) =
      (t.explore l depth s p none).bind fun s => t.exploreAll l depth s ps :=
  List.foldlM_cons

theorem exploreAll_append (depth : Nat) (s : Trail) (ps ps' : List Path) :
    t.exploreAll l depth s (ps ++ ps') =
      (t.exploreAll l depth s ps).bind fun s => t.exploreAll l depth s ps' :=
  List.foldlM_append

/-- If each single visit ends as before at another depth, so do visits one after the other. -/
theorem exploreAll_of_explore
    (hexplore : ∀ s p s', t.explore l depth s p none = some s' → t.explore l depth' s p none = some s')
    (h : t.exploreAll l depth s ps = some s') : t.exploreAll l depth' s ps = some s' := by
  induction ps generalizing s with
  | nil => exact h
  | cons p ps ih =>
    rw [exploreAll_cons] at h ⊢
    obtain ⟨s₁, hp, hps⟩ := Option.bind_eq_some_iff.1 h
    rw [hexplore s p s₁ hp]
    exact ih hps

theorem explore_succ (h : t.explore l depth s p given = some s') :
    t.explore l (depth + 1) s p given = some s' := by
  induction depth generalizing s p given s' with
  | zero => cases h
  | succ depth ih =>
    by_cases hp : p.steps ∈ s.visited
    · rw [explore_seen hp] at h ⊢
      exact h
    · cases hedges : t.edgesAt p given with
      | error f =>
        rw [explore_failed hp hedges] at h ⊢
        exact h
      | ok edges =>
        rw [explore_entered hp hedges] at h ⊢
        exact exploreAll_of_explore (fun _ _ _ => ih) h

/-- A recursion that ends within some depth ends in the same way when it may go deeper. -/
theorem explore_mono (hle : depth ≤ depth') (h : t.explore l depth s p given = some s') :
    t.explore l depth' s p given = some s' := by
  induction hle with
  | refl => exact h
  | step _ ih => exact explore_succ ih

theorem exploreAll_succ (h : t.exploreAll l depth s ps = some s') :
    t.exploreAll l (depth + 1) s ps = some s' :=
  exploreAll_of_explore (fun _ _ _ => explore_succ) h

/-! ## The stack and the files that the recursion has still to visit -/

/-- A front that has come of files by leaving out some of those that were visited. -/
inductive Trims (visited : List (List Step)) : List Path → List Path → Prop
  | nil : Trims visited [] []
  | keep {p : Path} {ps front : List Path} : Trims visited ps front → Trims visited (p :: ps) (p :: front)
  | drop {p : Path} {ps front : List Path} :
      p.steps ∈ visited → Trims visited ps front → Trims visited (p :: ps) front

namespace Trims

variable {visited visited' : List (List Step)} {ps' front' : List Path}

theorem mono (h : Trims visited ps front) (hvisited : visited ⊆ visited') :
    Trims visited' ps front := by
  induction h with
  | nil => exact .nil
  | keep _ ih => exact .keep ih
  | drop hp _ ih => exact .drop (hvisited hp) ih

theorem append (h : Trims visited ps front) (h' : Trims visited ps' front') :
    Trims visited (ps ++ ps') (front ++ front') := by
  induction h with
  | nil => exact h'
  | keep _ ih => exact .keep ih
  | drop hp _ ih => exact .drop hp ih

theorem filter {keep : Path → Bool} (h : ∀ p ∈ ps, keep p = true ∨ p.steps ∈ visited) :
    Trims visited ps (ps.filter keep) := by
  induction ps with
  | nil => exact .nil
  | cons p ps ih =>
    obtain ⟨hp, hps⟩ := List.forall_mem_cons.1 h
    rw [List.filter_cons]
    split
    · exact .keep (ih hps)
    · rename_i hkeep
      exact .drop (hp.resolve_left hkeep) (ih hps)

/-- Where nothing is left on the front, the recursion has nothing to do either. -/
theorem exploreAll_nil (h : Trims s.visited ps []) : t.exploreAll l (depth + 1) s ps = some s := by
  induction ps with
  | nil => rfl
  | cons p ps ih =>
    cases h with
    | drop hp h =>
      rw [exploreAll_cons, explore_seen hp]
      exact ih h

/-- The next file on the front is the next one that the recursion does not return from at once. -/
theorem exploreAll_next (h : Trims s.visited ps (p :: rest)) :
    ∃ later, Trims s.visited later rest ∧ ∀ depth, t.exploreAll l (depth + 1) s ps =
      (t.explore l (depth + 1) s p none).bind fun s => t.exploreAll l (depth + 1) s later := by
  induction ps with
  | nil => cases h
  | cons q ps ih =>
    cases h with
    | keep h => exact ⟨ps, h, fun depth => exploreAll_cons (depth + 1) s p ps⟩
    | drop hq h =>
      obtain ⟨later, hlater, heq⟩ := ih h
      refine ⟨later, hlater, fun depth => ?_⟩
      rw [exploreAll_cons, explore_seen hq]
      exact heq depth

end Trims

/-! ## The loop does what the recursion does -/

/-- A state without its memo. -/
def trail (w : Wave) : Trail := ⟨w.ledger, w.visited, w.done⟩

/-- The open targets of a file that is entered are those that it leads on to, except for visited ones: what
became a client component since the beginning was visited. -/
theorem trims_onward {places : List (List Step)} (hextend : w.ledger.Extends l places)
    (hplaces : ∀ σ ∈ places, σ ∈ w.visited) (p : Path) (edges : List Edge) :
    Trims w.visited (t.onward l p edges) ((t.targets p edges).filter w.isOpen) := by
  have hopen : (t.targets p edges).filter w.isOpen = (t.onward l p edges).filter w.isOpen := by
    rw [onward, List.filter_filter]
    refine List.filter_congr fun y _ => ?_
    cases hy : w.isOpen y with
    | false => rfl
    | true =>
      have hclient : l.get y ≠ .client := fun hl =>
        (Wave.isOpen_iff.1 hy).2 ((hextend.client_iff y).2 (.inr hl))
      rw [Bool.true_and, bne_iff_ne.2 hclient]
  rw [hopen]
  refine Trims.filter fun y hy => ?_
  have hclient : l.get y ≠ .client := bne_iff_ne.1 (List.mem_filter.1 hy).2
  rcases Covers.ahead_cases hextend hplaces y with hl | hseen | hopen
  · exact absurd hl hclient
  · exact .inr hseen
  · exact .inl hopen

/-- **A run is a recursion.** While a front is worked off, the recursion visits the files of which the front
was left, and ends in the same state. -/
theorem Covers.explores {edges : Path → List Edge} {start : Path} (hrun : t.Settles w front w')
    (h : t.Covers edges l start w front) (htrims : Trims w.visited ps front)
    (hedges : ∀ q m, q ≠ start → Module.ofFile t.disk q = .ok m → edges q = m.edges) :
    ∃ depth, t.exploreAll l depth (trail w) ps = some (trail w') := by
  induction hrun generalizing ps with
  | done => exact ⟨1, Trims.exploreAll_nil (s := trail _) htrims⟩
  | @seen w w' p rest hp _ ih =>
    obtain ⟨later, hlater, hnext⟩ := Trims.exploreAll_next (t := t) (l := l) (s := trail w) htrims
    obtain ⟨depth, hall⟩ := ih (h.seen hp) hlater
    refine ⟨depth + 1, ?_⟩
    rw [hnext, explore_seen hp]
    exact exploreAll_succ hall
  | @failed w w' p f rest hp hf _ ih =>
    obtain ⟨later, hlater, hnext⟩ := Trims.exploreAll_next (t := t) (l := l) (s := trail w) htrims
    obtain ⟨depth, hall⟩ := ih (h.fail hp hf) (hlater.mono (List.subset_cons_self ..))
    refine ⟨depth + 1, ?_⟩
    rw [hnext, explore_failed hp (edgesAt_of_error hf)]
    exact exploreAll_succ hall
  | @entered w w' p m rest hp hm _ ih =>
    obtain ⟨later, hlater, hnext⟩ := Trims.exploreAll_next (t := t) (l := l) (s := trail w) htrims
    obtain ⟨memo, hmemo, henter⟩ := enter_eq (w := w.visit p) h.sound p m.edges
    rw [henter] at ih
    have hcovers := h.enter hp hm (hedges p m (h.ne_start hp) hm) hmemo
    -- what the file leads on to comes before what was left, on the stack as in the recursion
    have honward : Trims (p.steps :: w.visited) (t.onward l p m.edges)
        ((t.targets p m.edges).filter ((w.visit p).mark p).isOpen) :=
      trims_onward (w := (w.visit p).mark p) hcovers.extend
        (fun σ hσ => (hcovers.visited σ).2 (.inl hσ)) p m.edges
    obtain ⟨depth, hall⟩ := ih hcovers (honward.append (hlater.mono (List.subset_cons_self ..)))
    rw [exploreAll_append] at hall
    obtain ⟨s, hinner, houter⟩ := Option.bind_eq_some_iff.1 hall
    -- the file itself is one call above those that it leads on to
    refine ⟨depth + 1, ?_⟩
    rw [hnext, explore_entered hp (edgesAt_of_ok hm)]
    exact Option.bind_eq_some_iff.2 ⟨s, hinner, exploreAll_succ houter⟩

/-- Propagation is the recursion from its start. -/
theorem propagate_explores {memo : Memo} (hmemo : memo.Sound t.disk t.project) (l : Ledger) (p : Path)
    (edges : List Edge) :
    ∃ depth, t.explore l depth ⟨l, [], .empty⟩ p (some edges) =
      some (trail (t.propagate l memo p edges)) := by
  obtain ⟨memo', hmemo', hrun⟩ := propagate_settles hmemo l p edges
  have hinit := Covers.init (Function.update t.edgesOf p edges) l p memo hmemo'
  rw [Function.update_self] at hinit
  have honward := trims_onward (t := t) hinit.extend (fun σ hσ => (hinit.visited σ).2 (.inl hσ)) p edges
  obtain ⟨depth, hall⟩ := Covers.explores hrun hinit honward fun q m => update_edgesOf
  refine ⟨depth + 1, ?_⟩
  rw [explore_entered List.not_mem_nil rfl]
  exact hall

end Terrain

namespace Session

/-- **The worklist is depth-first search.** A call that makes a file a client component marks the same files,
passes over the same edges and meets the same failures as the recursion, in the same order, and leaves the
same ledger. The recursion ends: from some depth on it makes no difference how deep it may go. -/
theorem markClient_explores {s : Session} {d : Disk} (h : s.Arises d) (l : Ledger) (p : Path)
    (edges : List Edge) :
    ∃ enough, ∀ depth ≥ enough,
      ((s.terrain d).explore l depth ⟨l, [], .empty⟩ p (some edges)).map
          (fun left => (left.ledger, left.done)) =
        some (s.markClient d l p edges).2 := by
  have hmemo : s.memo.Sound (s.terrain d).disk (s.terrain d).project := h.sound
  obtain ⟨enough, hexplores⟩ := Terrain.propagate_explores hmemo l p edges
  refine ⟨enough, fun depth hle => ?_⟩
  rw [Terrain.explore_mono hle hexplores]
  rfl

theorem markClient_explores_diamond :
    diamondSession.Arises diamond ∧
      ∃ depth, ((diamondSession.terrain diamond).explore diamondLedger depth ⟨diamondLedger, [], .empty⟩
          ⟨"/w//a.tsx"⟩ (some diamondEdges)).map (fun left => left.done) = some diamondDone := by
  obtain ⟨enough, hexplores⟩ := markClient_explores arises_diamond diamondLedger ⟨"/w//a.tsx"⟩ diamondEdges
  obtain ⟨left, hleft, hout⟩ := Option.map_eq_some_iff.1 (hexplores enough (Nat.le_refl enough))
  have hdone : left.done = diamondDone := by
    rw [← markClient_diamond, ← hout]
  exact ⟨arises_diamond, enough, Option.map_eq_some_iff.2 ⟨left, hleft, hdone⟩⟩

end Session

end ClientBoundary
