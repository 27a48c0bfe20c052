import Mathlib.Data.List.Nodup
import Mathlib.Data.List.Forall2
import ClientBoundary.Proofs.Arrangement
import ClientBoundary.Script.Module

/-!
# Call sites

The search for calls goes from statements to expressions and from expressions to parts. A **way** tells the turns that
it takes, so a way leads to one expression at most (`Expr.at?`), and two calls that look alike are told apart by their
ways. With the spot that it starts from, a way is a **site** of the program.

Some expressions name a module (`Expr.names?`): an `import()` of a string, and a call of the variable `require` with a
string in front. The edges of an expression are the one that it names and those of its parts, turn by turn
(`Expr.edges_eq`). So the edges that are found are those that are named, one for each site (`Yields`), and edges of
calls and sites that name a module correspond one to one (`Module.edges_calls`).
-/

namespace ClientBoundary

/-! ## Ways -/

/-- The place of an expression in a list of statements: that of its statement, and its own in there. -/
structure Spot where
  /-- which statement -/
  statement : Nat
  /-- which of its expressions -/
  expression : Nat
deriving DecidableEq

/-- A turn of the search, from an expression to a part. -/
inductive Turn where
  /-- what is called -/
  | callee
  /-- an argument -/
  | argument (i : Nat)
  /-- an expression in the body of an arrow function -/
  | body (spot : Spot)
  /-- what is awaited -/
  | awaited
  /-- the object of a member -/
  | object
  /-- an element -/
  | element (i : Nat)
  /-- the value of a property -/
  | property (i : Nat)
  /-- what a choice depends on -/
  | test
  /-- what is chosen if so -/
  | yes
  /-- what is chosen if not -/
  | no
  /-- what is assigned -/
  | assigned
  /-- what stands in parentheses -/
  | paren
deriving DecidableEq

/-- The expression of an element or argument, unless it is spread. -/
def Item.value? : Item → Option Expr
  | value e => some e
  | _ => none

/-- The value of a property. -/
def Member.value? : Member → Option Expr
  | property _ e => some e
  | _ => none

/-- The initial value of a variable. -/
def Declarator.value? : Declarator → Option Expr
  | mk _ init => init

/-- The expressions of a statement that are searched, with gaps where a variable has no initial value. -/
def Stmt.held : Stmt → List (Option Expr)
  | expr e => [some e]
  | declare ds => ds.map Declarator.value?
  | ret value => [value]
  | _ => []

/-- The expression at a spot of statements. -/
def heldAt? (stmts : List Stmt) (spot : Spot) : Option Expr :=
  stmts[spot.statement]?.bind fun stmt => stmt.held[spot.expression]?.join

/-- The spots of statements in order. -/
def spots (stmts : List Stmt) : List Spot :=
  (List.range stmts.length).flatMap fun i =>
    (List.range ((stmts[i]?.map Stmt.held).getD []).length).map (Spot.mk i)

namespace Expr

/-- The part that a turn leads to. -/
def part? : Expr → Turn → Option Expr
  | call _ callee _, .callee => some callee
  | call _ _ args, .argument i => args[i]?.bind Item.value?
  | arrow _ body, .body spot => heldAt? body spot
  | awaited e, .awaited => some e
  | member e, .object => some e
  | array items _, .element i => items[i]?.bind Item.value?
  | object members _, .property i => members[i]?.bind Member.value?
  | conditional test _ _, .test => some test
  | conditional _ yes _, .yes => some yes
  | conditional _ _ no, .no => some no
  | assign _ _ value, .assigned => some value
  | paren e, .paren => some e
  | _, _ => none

/-- The turns from an expression in the order of the search. -/
def turns : Expr → List Turn
  | call _ _ args => (List.range args.length).map .argument ++ [.callee]
  | arrow _ body => (spots body).map .body
  | awaited _ => [.awaited]
  | member _ => [.object]
  | array items _ => (List.range items.length).map .element
  | object members _ => (List.range members.length).map .property
  | conditional _ _ _ => [.test, .yes, .no]
  | assign _ _ _ => [.assigned]
  | paren _ => [.paren]
  | _ => []

/-- The expression that a way leads to. -/
def at? : Expr → List Turn → Option Expr
  | e, [] => some e
  | e, turn :: way => (e.part? turn).bind (at? · way)

/-- The edge that an expression names by itself: `import()` of a string, or a call of `require` with a string in
front. -/
def names? : Expr → Option PlacedEdge
  | importCall start (string s) _ => some ⟨start, s, .importCall, false⟩
  | call start (name "require") (.value (string s) :: _) => some ⟨start, s, .requireCall, false⟩
  | _ => none

end Expr

/-- Where the search through a program may come to: a spot, and a way from there. -/
abbrev Site := Spot × List Turn

/-- The expression at a site. -/
def Program.at? (p : Program) (site : Site) : Option Expr := (heldAt? p.body site.1).bind (·.at? site.2)

/-! ## Edges by their sites -/

/-- **One edge for each site.** `edgeAt?` tells at which sites there are edges; `es` are these, each site once. -/
def Yields {α β : Type} (edgeAt? : α → Option β) (es : List β) : Prop :=
  ∃ sites : List α, sites.Nodup ∧ sites.map edgeAt? = es.map some ∧ ∀ a b, edgeAt? a = some b → a ∈ sites

namespace Yields

variable {ι κ β : Type} {turns : List ι} {edgesOf : ι → List β}

/-- Pairs are distinct if their first parts are, and the second ones for each of them. -/
theorem nodup_pairs {γ : Type} {pair : ι → κ → γ} {sitesOf : ι → List κ}
    (hpair : ∀ t t' k k', pair t k = pair t' k' → t = t' ∧ k = k') (hnodup : turns.Nodup)
    (h : ∀ t ∈ turns, (sitesOf t).Nodup) : (turns.flatMap fun t => (sitesOf t).map (pair t)).Nodup := by
  refine List.nodup_flatMap.2 ⟨fun t ht => (h t ht).map fun k k' heq => (hpair t t k k' heq).2, ?_⟩
  refine hnodup.imp fun hne => ?_
  intro a ha ha'
  obtain ⟨k, -, rfl⟩ := List.mem_map.1 ha
  obtain ⟨k', -, heq⟩ := List.mem_map.1 ha'
  exact hne (hpair _ _ k' k heq).1.symm

/-- Each edge has a site. -/
theorem exists_site {edgeAt? : κ → Option β} {es : List β} (h : Yields edgeAt? es) {b : β} (hb : b ∈ es) :
    ∃ a, edgeAt? a = some b := by
  obtain ⟨sites, -, hmap, -⟩ := h
  obtain ⟨a, -, ha⟩ := List.mem_map.1 (hmap ▸ List.mem_map_of_mem hb)
  exact ⟨a, ha⟩

/-- What is at a site is among the edges. -/
theorem mem {edgeAt? : κ → Option β} {es : List β} (h : Yields edgeAt? es) {a : κ} {b : β}
    (hab : edgeAt? a = some b) : b ∈ es := by
  obtain ⟨sites, -, hmap, hall⟩ := h
  have hmem : some b ∈ es.map some := hmap ▸ hab ▸ List.mem_map_of_mem (hall a b hab)
  simpa using hmem

/-- Edges are found turn by turn. -/
theorem family {edgeAt? : ι × κ → Option β} (hnodup : turns.Nodup)
    (h : ∀ t ∈ turns, Yields (fun k => edgeAt? (t, k)) (edgesOf t))
    (hnone : ∀ t k, t ∉ turns → edgeAt? (t, k) = none) : Yields edgeAt? (turns.flatMap edgesOf) := by
  choose! sitesOf hsites using h
  refine ⟨turns.flatMap fun t => (sitesOf t).map (Prod.mk t), ?_, ?_, ?_⟩
  · exact nodup_pairs (fun _ _ _ _ => Prod.mk.inj) hnodup fun t ht => (hsites t ht).1
  · rw [List.map_flatMap, List.map_flatMap]
    refine List.flatMap_congr fun t ht => ?_
    rw [List.map_map]
    exact (hsites t ht).2.1
  · rintro ⟨t, k⟩ b hb
    by_cases ht : t ∈ turns
    · exact List.mem_flatMap.2 ⟨t, ht, List.mem_map_of_mem ((hsites t ht).2.2 k b hb)⟩
    · rw [hnone t k ht] at hb
      cases hb

/-- Edges of ways: what is at the start, and what is found behind each turn. -/
theorem branch {edgeAt? : List ι → Option β} (hnodup : turns.Nodup)
    (h : ∀ t ∈ turns, Yields (fun way => edgeAt? (t :: way)) (edgesOf t))
    (hnone : ∀ t way, t ∉ turns → edgeAt? (t :: way) = none) :
    Yields edgeAt? ((edgeAt? []).toList ++ turns.flatMap edgesOf) := by
  obtain ⟨sites, hsites, hmap, hall⟩ := @family ι (List ι) β turns edgesOf (fun a => edgeAt? (a.1 :: a.2)) hnodup h
    hnone
  have hcons : Function.Injective fun a : ι × List ι => a.1 :: a.2 := by
    rintro ⟨t, way⟩ ⟨t', way'⟩ heq
    exact Prod.ext (List.cons.inj heq).1 (List.cons.inj heq).2
  have hways := hsites.map hcons
  cases hnil : edgeAt? [] with
  | none =>
    refine ⟨sites.map fun a => a.1 :: a.2, hways, ?_, ?_⟩
    · rw [List.map_map]
      exact hmap
    · intro way b hb
      cases way with
      | nil =>
        rw [hnil] at hb
        cases hb
      | cons t way => exact List.mem_map_of_mem (f := fun a : ι × List ι => a.1 :: a.2) (hall (t, way) b hb)
  | some b₀ =>
    refine ⟨[] :: sites.map fun a => a.1 :: a.2, List.nodup_cons.2 ⟨by simp, hways⟩, ?_, ?_⟩
    · rw [List.map_cons, List.map_map, hnil]
      exact congrArg (some b₀ :: ·) hmap
    · intro way b hb
      cases way with
      | nil => exact List.mem_cons_self ..
      | cons t way =>
        refine List.mem_cons_of_mem _ ?_
        exact List.mem_map_of_mem (f := fun a : ι × List ι => a.1 :: a.2) (hall (t, way) b hb)

end Yields

/-! ## Spots -/

variable {stmts : List Stmt} {spot : Spot} {e e' : Expr} {turn : Turn}

/-- The edges of an expression, if there is one. -/
def edgesOf? (e : Option Expr) : List PlacedEdge := e.elim [] Expr.edges

/-- A list is gone through by its places. -/
theorem flatMap_range {α : Type} {xs : List α} {edgesOf : α → List PlacedEdge} {edgesAt : Nat → List PlacedEdge}
    (h : ∀ i x, xs[i]? = some x → edgesAt i = edgesOf x) :
    (List.range xs.length).flatMap edgesAt = xs.flatMap edgesOf := by
  induction xs generalizing edgesAt with
  | nil => rfl
  | cons x xs ih =>
    rw [List.length_cons, List.range_succ_eq_map, List.flatMap_cons, List.flatMap_map, List.flatMap_cons,
      h 0 x List.getElem?_cons_zero, ih fun i y hy => h (i + 1) y (List.getElem?_cons_succ.trans hy)]

theorem flatMap_spots (stmts : List Stmt) :
    (spots stmts).flatMap (fun spot => edgesOf? (heldAt? stmts spot)) = bodyEdges stmts := by
  have hstmt : ∀ stmt : Stmt, stmt.callEdges = stmt.held.flatMap edgesOf? := by
    intro stmt
    cases stmt with
    | expr e => simp [Stmt.callEdges, Stmt.held, edgesOf?]
    | declare ds =>
      rw [Stmt.callEdges, declaratorEdges_eq, Stmt.held, List.flatMap_map]
      refine List.flatMap_congr fun d _ => ?_
      obtain ⟨parts, init⟩ := d
      cases init <;> rfl
    | ret value => cases value <;> simp [Stmt.callEdges, Stmt.held, edgesOf?]
    | _ => rfl
  rw [bodyEdges_eq, spots, List.flatMap_assoc]
  refine flatMap_range fun i stmt hi => ?_
  rw [List.flatMap_map, hstmt, hi, Option.map_some, Option.getD_some]
  refine flatMap_range fun j o hj => ?_
  simp only [heldAt?, hi, Option.bind_some, hj, Option.join_some]

theorem nodup_spots (stmts : List Stmt) : (spots stmts).Nodup :=
  Yields.nodup_pairs (fun _ _ _ _ => Spot.mk.inj) List.nodup_range fun _ _ => List.nodup_range

theorem mem_spots (h : heldAt? stmts spot = some e) : spot ∈ spots stmts := by
  obtain ⟨stmt, hstmt, hheld⟩ := Option.bind_eq_some_iff.1 h
  obtain ⟨hi, -⟩ := List.getElem?_eq_some_iff.1 hstmt
  obtain ⟨hj, -⟩ := List.getElem?_eq_some_iff.1 (Option.join_eq_some_iff.1 hheld)
  refine List.mem_flatMap.2 ⟨spot.statement, List.mem_range.2 hi, List.mem_map.2 ⟨spot.expression, ?_, rfl⟩⟩
  rw [hstmt]
  exact List.mem_range.2 hj

theorem exists_place {α : Type} {xs : List α} {value? : α → Option Expr} :
    (∃ i : Nat, xs[i]?.bind value? = some e) ↔ ∃ x ∈ xs, value? x = some e := by
  constructor
  · rintro ⟨i, hi⟩
    obtain ⟨x, hx, hvalue⟩ := Option.bind_eq_some_iff.1 hi
    exact ⟨x, List.mem_of_getElem? hx, hvalue⟩
  · rintro ⟨x, hx, hvalue⟩
    obtain ⟨i, hi⟩ := List.mem_iff_getElem?.1 hx
    exact ⟨i, by rw [hi, Option.bind_some, hvalue]⟩

theorem Item.value?_eq_some {item : Item} : item.value? = some e ↔ item = .value e := by
  cases item <;> simp [value?]

theorem Member.value?_eq_some {m : Member} : m.value? = some e ↔ ∃ key, m = .property key e := by
  cases m <;> simp [value?]

theorem Stmt.holds_iff {stmt : Stmt} : stmt.Holds e ↔ ∃ j : Nat, stmt.held[j]?.join = some e := by
  have hplace : (∃ j : Nat, stmt.held[j]?.join = some e) ↔ some e ∈ stmt.held := by
    simp only [Option.join_eq_some_iff, List.mem_iff_getElem?]
  rw [hplace]
  constructor
  · rintro (_ | hmem | _)
    · exact List.mem_singleton_self _
    · exact List.mem_map_of_mem (f := Declarator.value?) hmem
    · exact List.mem_singleton_self _
  · intro h
    cases stmt with
    | expr e' =>
      cases Option.some.inj (List.mem_singleton.1 h)
      exact .expr e
    | declare ds =>
      obtain ⟨⟨parts, init⟩, hmem, rfl⟩ := List.mem_map.1 h
      exact .declare hmem
    | ret value =>
      cases List.mem_singleton.1 h
      exact .ret e
    | _ => cases h

theorem Stmt.Holds.sizeOf_lt {stmt : Stmt} (h : stmt.Holds e) : sizeOf e < sizeOf stmt := by
  cases h with
  | expr => simp only [Stmt.expr.sizeOf_spec]; omega
  | declare hmem =>
    have hlt := List.sizeOf_lt_of_mem hmem
    simp only [Stmt.declare.sizeOf_spec, Declarator.mk.sizeOf_spec, Option.some.sizeOf_spec] at hlt ⊢
    omega
  | ret => simp only [Stmt.ret.sizeOf_spec, Option.some.sizeOf_spec]; omega

theorem exists_spot : (∃ spot, heldAt? stmts spot = some e) ↔ ∃ stmt ∈ stmts, stmt.Holds e := by
  constructor
  · rintro ⟨spot, hspot⟩
    obtain ⟨stmt, hstmt, hheld⟩ := exists_place.1 ⟨spot.statement, hspot⟩
    exact ⟨stmt, hstmt, Stmt.holds_iff.2 ⟨spot.expression, hheld⟩⟩
  · rintro ⟨stmt, hstmt, hholds⟩
    obtain ⟨j, hj⟩ := Stmt.holds_iff.1 hholds
    obtain ⟨i, hi⟩ := List.mem_iff_getElem?.1 hstmt
    refine ⟨⟨i, j⟩, ?_⟩
    rw [heldAt?, hi, Option.bind_some, hj]

/-! ## Turns -/

namespace Expr

/-- Elements and arguments are gone through by their places. -/
theorem flatMap_items (items : List Item) :
    (List.range items.length).flatMap (fun i => edgesOf? (items[i]?.bind Item.value?)) = itemEdges items := by
  rw [itemEdges_eq]
  refine flatMap_range fun i item hi => ?_
  rw [hi]
  cases item <;> rfl

theorem flatMap_members (members : List Member) :
    (List.range members.length).flatMap (fun i => edgesOf? (members[i]?.bind Member.value?)) =
      memberEdges members := by
  rw [memberEdges_eq]
  refine flatMap_range fun i m hi => ?_
  rw [hi]
  cases m <;> rfl

/-- A call names what its edge says. -/
theorem toList_names?_call (start : Nat) (callee : Expr) (args : List Item) :
    (call start callee args).names?.toList = requireEdge start callee args := by
  fun_cases requireEdge start callee args with
  | case1 => rfl
  | case2 =>
    unfold names?
    split
    · rename_i heq
      cases heq
    · rename_i heq
      cases heq
      rename_i hother
      exact (hother _ _ rfl rfl).elim
    · rfl

/-- **The edges of an expression**: the one that it names, and those of its parts, turn by turn. -/
theorem edges_eq (e : Expr) :
    e.edges = e.names?.toList ++ e.turns.flatMap fun turn => edgesOf? (e.part? turn) := by
  cases e with
  | call start callee args =>
    rw [Expr.edges, turns, List.flatMap_append, List.flatMap_map, ← toList_names?_call, List.append_assoc,
      ← flatMap_items args]
    simp [part?, edgesOf?]
  | importCall start source options => cases source <;> rfl
  | arrow params body =>
    rw [Expr.edges, turns, List.flatMap_map]
    exact (flatMap_spots body).symm
  | array items trailing =>
    rw [Expr.edges, turns, List.flatMap_map]
    exact (flatMap_items items).symm
  | object members trailing =>
    rw [Expr.edges, turns, List.flatMap_map]
    exact (flatMap_members members).symm
  | conditional test yes no => simp [Expr.edges, turns, names?, part?, edgesOf?]
  | awaited e => simp [Expr.edges, turns, names?, part?, edgesOf?]
  | member e => simp [Expr.edges, turns, names?, part?, edgesOf?]
  | assign plain target value => simp [Expr.edges, turns, names?, part?, edgesOf?]
  | paren e => simp [Expr.edges, turns, names?, part?, edgesOf?]
  | _ => rfl

theorem nodup_turns (e : Expr) : e.turns.Nodup := by
  have hrange : ∀ n {turn : Nat → Turn}, Function.Injective turn → ((List.range n).map turn).Nodup :=
    fun n _ h => List.nodup_range.map h
  cases e with
  | call start callee args =>
    refine (hrange args.length fun _ _ heq => Turn.argument.inj heq).append (List.nodup_singleton _) ?_
    simp [List.disjoint_singleton]
  | arrow params body => exact (nodup_spots body).map fun _ _ heq => Turn.body.inj heq
  | array items trailing => exact hrange items.length fun _ _ heq => Turn.element.inj heq
  | object members trailing => exact hrange members.length fun _ _ heq => Turn.property.inj heq
  | _ => simp [turns]

/-- A turn that leads somewhere leads to a part, and is among those that are taken. -/
theorem of_part? (h : e.part? turn = some e') : e.Part e' ∧ turn ∈ e.turns := by
  have hplace : ∀ {α : Type} {xs : List α} {value? : α → Option Expr} {i : Nat},
      xs[i]?.bind value? = some e' → i ∈ List.range xs.length := by
    intro α xs value? i hi
    obtain ⟨x, hx, -⟩ := Option.bind_eq_some_iff.1 hi
    exact List.mem_range.2 (List.getElem?_eq_some_iff.1 hx).1
  fun_cases part? e turn with
  | case2 start callee args i =>
    obtain ⟨item, hmem, hvalue⟩ := exists_place.1 ⟨i, h⟩
    refine ⟨.argument (Item.value?_eq_some.1 hvalue ▸ hmem), ?_⟩
    exact List.mem_append_left _ (List.mem_map_of_mem (hplace h))
  | case3 params body spot =>
    obtain ⟨stmt, hmem, hholds⟩ := exists_spot.1 ⟨spot, h⟩
    exact ⟨.body hmem hholds, List.mem_map_of_mem (mem_spots h)⟩
  | case6 items trailing i =>
    obtain ⟨item, hmem, hvalue⟩ := exists_place.1 ⟨i, h⟩
    exact ⟨.element (Item.value?_eq_some.1 hvalue ▸ hmem), List.mem_map_of_mem (hplace h)⟩
  | case7 members trailing i =>
    obtain ⟨m, hmem, hvalue⟩ := exists_place.1 ⟨i, h⟩
    obtain ⟨key, rfl⟩ := Member.value?_eq_some.1 hvalue
    exact ⟨.property hmem, List.mem_map_of_mem (hplace h)⟩
  | case13 =>
    rw [part?] at h
    · cases h
    all_goals assumption
  | _ =>
    cases h
    exact ⟨by constructor, by simp [turns]⟩

theorem part_iff : e.Part e' ↔ ∃ turn, e.part? turn = some e' := by
  refine ⟨fun h => ?_, fun ⟨turn, h⟩ => (of_part? h).1⟩
  cases h with
  | callee => exact ⟨.callee, rfl⟩
  | argument hmem =>
    obtain ⟨i, hi⟩ := exists_place.2 ⟨_, hmem, Item.value?_eq_some.2 rfl⟩
    exact ⟨.argument i, hi⟩
  | body hmem hholds =>
    obtain ⟨spot, hspot⟩ := exists_spot.2 ⟨_, hmem, hholds⟩
    exact ⟨.body spot, hspot⟩
  | awaited => exact ⟨.awaited, rfl⟩
  | object => exact ⟨.object, rfl⟩
  | element hmem =>
    obtain ⟨i, hi⟩ := exists_place.2 ⟨_, hmem, Item.value?_eq_some.2 rfl⟩
    exact ⟨.element i, hi⟩
  | property hmem =>
    obtain ⟨i, hi⟩ := exists_place.2 ⟨_, hmem, Member.value?_eq_some.2 ⟨_, rfl⟩⟩
    exact ⟨.property i, hi⟩
  | test => exact ⟨.test, rfl⟩
  | yes => exact ⟨.yes, rfl⟩
  | no => exact ⟨.no, rfl⟩
  | assigned => exact ⟨.assigned, rfl⟩
  | paren => exact ⟨.paren, rfl⟩

/-- Ways lead to what is reached. -/
theorem reaches_iff : e.Reaches e' ↔ ∃ way, e.at? way = some e' := by
  constructor
  · intro h
    induction h using Relation.ReflTransGen.head_induction_on with
    | refl => exact ⟨[], rfl⟩
    | head hpart _ ih =>
      obtain ⟨turn, hturn⟩ := part_iff.1 hpart
      obtain ⟨way, hway⟩ := ih
      exact ⟨turn :: way, by rw [at?, hturn, Option.bind_some, hway]⟩
  · rintro ⟨way, h⟩
    induction way generalizing e with
    | nil =>
      cases h
      exact .refl
    | cons turn way ih =>
      obtain ⟨part, hpart, hway⟩ := Option.bind_eq_some_iff.1 h
      exact .head (part_iff.2 ⟨turn, hpart⟩) (ih hway)

/-- Parts are smaller. -/
theorem Part.sizeOf_lt (h : e.Part e') : sizeOf e' < sizeOf e := by
  cases h with
  | argument hmem =>
    have hlt := List.sizeOf_lt_of_mem hmem
    simp only [call.sizeOf_spec, Item.value.sizeOf_spec] at hlt ⊢
    omega
  | body hmem hholds =>
    have hstmt := List.sizeOf_lt_of_mem hmem
    have hlt := hholds.sizeOf_lt
    simp only [arrow.sizeOf_spec]
    omega
  | element hmem =>
    have hlt := List.sizeOf_lt_of_mem hmem
    simp only [array.sizeOf_spec, Item.value.sizeOf_spec] at hlt ⊢
    omega
  | property hmem =>
    have hlt := List.sizeOf_lt_of_mem hmem
    simp only [object.sizeOf_spec, Member.property.sizeOf_spec] at hlt ⊢
    omega
  | callee => simp only [call.sizeOf_spec]; omega
  | awaited => simp only [awaited.sizeOf_spec]; omega
  | object => simp only [member.sizeOf_spec]; omega
  | test => simp only [conditional.sizeOf_spec]; omega
  | yes => simp only [conditional.sizeOf_spec]; omega
  | no => simp only [conditional.sizeOf_spec]; omega
  | assigned => simp only [assign.sizeOf_spec]; omega
  | paren => simp only [paren.sizeOf_spec]; omega

/-- **The edges that are found in an expression**, one for each way that leads to an expression that names one. -/
theorem yields (e : Expr) : Yields (fun way => (e.at? way).bind names?) e.edges := by
  rw [edges_eq]
  refine Yields.branch e.nodup_turns ?_ ?_
  · intro turn hturn
    cases hpart : e.part? turn with
    | none => exact ⟨[], List.nodup_nil, rfl, by simp [at?, hpart]⟩
    | some part =>
      have hsmaller : sizeOf part < sizeOf e := (part_iff.2 ⟨turn, hpart⟩).sizeOf_lt
      simpa [at?, hpart, edgesOf?] using part.yields
  · intro turn way hturn
    cases hpart : e.part? turn with
    | none => simp [at?, hpart]
    | some part => exact absurd (of_part? hpart).2 hturn
termination_by sizeOf e

/-- The edge that an expression names: that of an `import()` of a string, or that of a call of the variable `require`
with a string as first argument. -/
inductive Names : Expr → Edge → Prop where
  /-- `import()` -/
  | importCall (start : Nat) (s : String) (options : List Expr) :
    Names (.importCall start (.string s) options) ⟨s, .importCall, false⟩
  /-- `require()` -/
  | requireCall (start : Nat) (s : String) (rest : List Item) :
    Names (.call start (.name "require") (.value (.string s) :: rest)) ⟨s, .requireCall, false⟩

theorem exists_of_names {edge : Edge} (h : e.Names edge) : ∃ start, e.names? = some ⟨start, edge⟩ := by
  cases h with
  | importCall start => exact ⟨start, rfl⟩
  | requireCall start => exact ⟨start, rfl⟩

theorem names_of_names? {a : PlacedEdge} (h : e.names? = some a) : e.Names a.edge := by
  unfold names? at h
  split at h
  · cases h
    exact .importCall ..
  · cases h
    exact .requireCall ..
  · cases h

theorem Names.isStatic {edge : Edge} (h : e.Names edge) : edge.kind.isStatic = false := by
  cases h <;> rfl

end Expr

/-! ## Programs -/

/-- The edges that are found in statements, one for each site of an expression that names one. -/
theorem yields_bodyEdges (stmts : List Stmt) :
    Yields (fun site : Site => ((heldAt? stmts site.1).bind (·.at? site.2)).bind Expr.names?) (bodyEdges stmts) := by
  rw [← flatMap_spots]
  refine Yields.family (nodup_spots stmts) ?_ ?_
  · intro spot _
    cases hspot : heldAt? stmts spot with
    | none => exact ⟨[], List.nodup_nil, rfl, by simp [hspot]⟩
    | some e => simpa [hspot, edgesOf?] using e.yields
  · intro spot way hspot
    cases hheld : heldAt? stmts spot with
    | none => simp
    | some e => exact absurd (mem_spots hheld) hspot

theorem exists_names_of_mem {a : PlacedEdge} (h : a ∈ bodyEdges stmts) : ∃ node : Expr, node.Names a.edge := by
  obtain ⟨site, hsite⟩ := (yields_bodyEdges stmts).exists_site h
  obtain ⟨node, -, hnames⟩ := Option.bind_eq_some_iff.1 hsite
  exact ⟨node, Expr.names_of_names? hnames⟩

/-- What is left of the edges of a statement without those of declarations. -/
theorem Stmt.filter_edges (stmt : Stmt) :
    stmt.edges.filter (fun a => !a.edge.kind.isStatic) = stmt.callEdges := by
  have hcalls : stmt.callEdges.filter (fun a => !a.edge.kind.isStatic) = stmt.callEdges := by
    refine List.filter_eq_self.2 fun a ha => ?_
    have hbody : a ∈ bodyEdges [stmt] := by simpa [bodyEdges] using ha
    obtain ⟨node, hnames⟩ := exists_names_of_mem hbody
    rw [hnames.isStatic]
    rfl
  cases stmt with
  | importFrom => rfl
  | exportNames start typeOnly marks source => cases source <;> rfl
  | exportAll => rfl
  | _ => exact hcalls

theorem Program.filter_placedEdges (p : Program) :
    p.placedEdges.filter (fun a => !a.edge.kind.isStatic) = bodyEdges p.body := by
  rw [placedEdges, List.filter_flatMap, bodyEdges_eq]
  exact List.flatMap_congr fun stmt _ => stmt.filter_edges

/-- Sites lead to what is reached. -/
theorem Program.reaches_iff {p : Program} : p.Reaches e ↔ ∃ site, p.at? site = some e := by
  constructor
  · rintro ⟨stmt, hstmt, e₀, hholds, hreaches⟩
    obtain ⟨spot, hspot⟩ := exists_spot.2 ⟨stmt, hstmt, hholds⟩
    obtain ⟨way, hway⟩ := Expr.reaches_iff.1 hreaches
    exact ⟨(spot, way), by rw [at?, hspot, Option.bind_some, hway]⟩
  · rintro ⟨site, hsite⟩
    obtain ⟨e₀, hspot, hway⟩ := Option.bind_eq_some_iff.1 hsite
    obtain ⟨stmt, hstmt, hholds⟩ := exists_spot.1 ⟨site.1, hspot⟩
    exact ⟨stmt, hstmt, e₀, hholds, Expr.reaches_iff.2 ⟨site.2, hway⟩⟩

/-- **Calls and their sites.** The edges of a program that come from calls correspond one to one to its sites with an
expression that names a module: each such site has one edge, the one that is named there, and no other site has any.
The sites are those that the search comes to. -/
theorem Module.edges_calls (p : Program) :
    (∀ node, p.Reaches node ↔ ∃ site, p.at? site = some node) ∧
      ∃ sites : List Site, sites.Nodup ∧
        (∀ site, site ∈ sites ↔ ∃ node, p.at? site = some node ∧ ∃ edge, node.Names edge) ∧
        List.Forall₂ (fun site edge => ∃ node, p.at? site = some node ∧ node.Names edge) sites
          ((ofProgram p).edges.filter (!·.kind.isStatic)) := by
  refine ⟨fun node => Program.reaches_iff, ?_⟩
  obtain ⟨sites, hnodup, hmap, hall⟩ := yields_bodyEdges p.body
  have hedges : (ofProgram p).edges.filter (!·.kind.isStatic) = (bodyEdges p.body).map (·.edge) := by
    rw [ofProgram, Program.edges, List.filter_map, ← p.filter_placedEdges]
    rfl
  have hpairs : List.Forall₂ (fun site a => (p.at? site).bind Expr.names? = some a) sites (bodyEdges p.body) := by
    rw [← List.forall₂_map_right_iff, ← List.forall₂_map_left_iff, List.forall₂_eq_eq_eq]
    exact hmap
  have hnamed : ∀ site a, (p.at? site).bind Expr.names? = some a →
      ∃ node, p.at? site = some node ∧ node.Names a.edge := by
    intro site a hsite
    obtain ⟨node, hnode, hnames⟩ := Option.bind_eq_some_iff.1 hsite
    exact ⟨node, hnode, Expr.names_of_names? hnames⟩
  refine ⟨sites, hnodup, fun site => ⟨fun hsite => ?_, ?_⟩, ?_⟩
  · obtain ⟨a, -, ha⟩ := List.mem_map.1 (hmap ▸ List.mem_map_of_mem hsite)
    obtain ⟨node, hnode, hnames⟩ := hnamed site a ha.symm
    exact ⟨node, hnode, a.edge, hnames⟩
  · rintro ⟨node, hnode, edge, hnames⟩
    obtain ⟨start, hstart⟩ := Expr.exists_of_names hnames
    exact hall site ⟨start, edge⟩ (Option.bind_eq_some_iff.2 ⟨node, hnode, hstart⟩)
  · rw [hedges, List.forall₂_map_right_iff]
    exact hpairs.imp hnamed

end ClientBoundary
