import ClientBoundary.Proofs.StatementRules
import ClientBoundary.Script.Module

/-!
# The order of edges

The edges of a program come in the order of the text, with one exception: of a call, the edges in the arguments come
before those in the callee, although the callee stands first. Two such edges are **crossed** (`Program.Crosses`).

Every rule keeps what its goal promises if the rules that it asks do (`keep_serve`), so all of them do, whatever the
depth (`keep_serveTo`). Hence the statements of a program stand one behind the other, and their edges are arranged
(`program?_arranged`): they rise exactly if none are crossed (`Arranged.pairwise_start_le_iff`).
-/

namespace ClientBoundary

namespace Grammar

open ClientBoundary.Parser

variable {s s' : ParseState}

/-- **Each rule keeps what its goal promises**, if the rules that it asks do. -/
theorem keep_serve {rules : Rules} (hrules : rules.Keep) : Rules.Keep ⟨serve rules⟩ := by
  intro α goal s
  cases goal with
  | expr => exact keeps_expression hrules
  | assign returnTypes => exact keeps_assignment hrules returnTypes
  | binary level => exact keeps_binary hrules level
  | unary => exact keeps_unary hrules
  | simpleUnary => exact keeps_simpleUnary hrules
  | access => exact keeps_access hrules
  | primary => exact keeps_primary hrules (plainMembers rules)
  | object => exact keeps_objectLiteral hrules
  | element inner => exact keeps_elementForm rules inner
  | classTail => exact keeps_classTail rules
  | pattern => exact fun _ _ _ => trivial
  | type => exact fun _ _ _ => trivial
  | typeOperator => exact fun _ _ _ => trivial
  | returnType => exact fun _ _ _ => trivial
  | statement place => exact keeps_statement hrules place

theorem keep_serveTo (depth : Nat) : Rules.Keep ⟨serveTo depth⟩ := by
  induction depth with
  | zero => exact fun _ _ => keeps_failure
  | succ depth ih => exact keep_serve ih

theorem keeps_statements {rules : Rules} (hrules : rules.Keep) :
    (statements rules).Keeps s fun stmts s' => Row Stmt.Stands stmts s s' := by
  refine .loop (fun done s' => Row Stmt.Stands done.reverse s s') (.nil (.refl s)) fun done s₁ hdone => ?_
  refine .token (.ite (fun _ => .pure hdone) fun _ => ?_)
  exact (hrules (.statement .listed) s₁).bind fun stmt s₂ _ hstmt => .pure (hdone.snoc_reverse hstmt)

/-- Directives are passed over. -/
theorem row_splitDirectives {stmts : List Stmt} (h : Row Stmt.Stands stmts s s') :
    Row Stmt.Stands (splitDirectives stmts).2 s s' := by
  induction h with
  | nil h => exact .nil h
  | cons h hstmt hrest ih =>
    unfold splitDirectives
    split
    · rename_i heq
      cases heq
      exact ih.of_leads (h.trans hstmt.leads)
    · exact .cons h hstmt hrest

theorem follows_initial (dialect : Dialect) (text : List Char) (h : (initial dialect text).faulty = false) :
    (initial dialect text).token.Follows text :=
  .first dialect (by simpa [initial] using h)

/-- **The edges of a program are arranged** between the start of the text and its end. -/
theorem program?_arranged {dialect : Dialect} {text : List Char} {p : Program} (h : program? dialect text = some p) :
    ∃ s', s'.faulty = false ∧ Arranged p.placedEdges p.Crosses (initial dialect text) s' := by
  unfold program? at h
  extract_lets size setting at h
  split at h
  · rename_i r hr
    split at h
    · cases h
    · rename_i hfaults
      cases h
      obtain ⟨hfaulty, -⟩ := Bool.or_eq_false_iff.1 (Bool.eq_false_iff.2 hfaults)
      have hrow := row_splitDirectives (keeps_statements (keep_serveTo _) setting r hr)
      exact ⟨r.next, hfaulty, (Arranged.flatMap hrow).congr fun a b => Program.crosses_iff⟩
  · cases h

end Grammar

/-- At the start of the edge, the text has the word that its declaration or call starts with. -/
def PlacedEdge.StartsIn (a : PlacedEdge) (text : List Char) : Prop :=
  ∃ escaped, (Lexer.kindAt (text.drop a.start)).1 = .word a.edge.kind.word escaped

theorem PlacedEdge.Between.startsIn {a : PlacedEdge} {s s' : ParseState} {text : List Char} (h : a.Between s s')
    (hs : s.faulty = false → s.token.Follows text) (hs' : s'.faulty = false) : a.StartsIn text := by
  obtain ⟨t, ht, hpasses, hstart⟩ := h
  obtain ⟨escaped, hkind⟩ := Parser.Token.word?_eq_some (beq_iff_eq.1 hpasses.word)
  have hfollows := ht.follows hs (hpasses.leads.faulty_eq_false hs')
  refine ⟨escaped, ?_⟩
  rw [hstart, ParseState.pos, ← hfollows.source, (t.sound.word _ _ hkind).2, hkind]

namespace Arranged

variable {es : List PlacedEdge} {crosses : PlacedEdge → PlacedEdge → Prop} {s s' : ParseState}

/-- Arranged edges rise exactly if none are crossed. -/
theorem pairwise_start_le_iff (h : Arranged es crosses s s') :
    es.Pairwise (fun a b => a.start ≤ b.start) ↔ ∀ a b, ¬ crosses a b := by
  constructor
  · intro hrise a b hab
    obtain ⟨hsublist, hlt⟩ := h.crossed a b hab
    have hle := List.pairwise_pair.1 (hrise.sublist hsublist)
    exact Nat.not_le_of_lt hlt hle
  · intro hnone
    exact h.order.imp fun hab => Nat.le_of_lt (hab.resolve_right (hnone _ _))

end Arranged

namespace Module

/-- **The order of edges.** They are those of the program in the text, and each starts with its word. They rise in the
text but for those that are crossed, which fall; so they come in the order of the text exactly if none are crossed. -/
theorem edges_order {file : Path} {source : String} {m : Module} (h : parse? file source = some m) :
    ∃ p, Grammar.program? (.ofPath file) source.toList = some p ∧ m.edges = p.placedEdges.map (·.edge) ∧
      (∀ a ∈ p.placedEdges, a.StartsIn source.toList) ∧
      p.placedEdges.Pairwise (fun a b => a.start < b.start ∨ p.Crosses a b) ∧
      (∀ a b, p.Crosses a b → [a, b].Sublist p.placedEdges ∧ b.start < a.start) ∧
      (p.placedEdges.Pairwise (fun a b => a.start ≤ b.start) ↔ ∀ a b, ¬ p.Crosses a b) := by
  obtain ⟨p, hp, rfl⟩ := Option.map_eq_some_iff.1 h
  obtain ⟨s', hfaulty, harranged⟩ := Grammar.program?_arranged hp
  have hstarts : ∀ a ∈ p.placedEdges, a.StartsIn source.toList :=
    fun a ha => (harranged.between a ha).startsIn (Grammar.follows_initial _ _) hfaulty
  exact ⟨p, hp, rfl, hstarts, harranged.order, harranged.crossed, harranged.pairwise_start_le_iff⟩

/-- A declaration, and a call whose callee and whose argument both name a module. -/
def chain : String := "import './x'; import('./a').then(() => import('./b'));"

/-- The edges of `chain`; the last two are crossed. -/
def chainEdges : List PlacedEdge :=
  [⟨0, "./x", .importFrom, false⟩, ⟨39, "./b", .importCall, false⟩, ⟨14, "./a", .importCall, false⟩]

theorem program?_chain :
    ∃ p, Grammar.program? (.ofPath ⟨"a.js"⟩) chain.toList = some p ∧ p.placedEdges = chainEdges := by
  have h : (Grammar.program? (.ofPath ⟨"a.js"⟩) chain.toList).map (·.placedEdges) = some chainEdges := by
    decide +kernel
  exact Option.map_eq_some_iff.1 h

theorem edges_order_chain :
    ∃ p, parse? ⟨"a.js"⟩ chain = some (ofProgram p) ∧ p.placedEdges = chainEdges ∧
      (∀ a ∈ chainEdges, a.StartsIn chain.toList) ∧
      p.Crosses ⟨39, "./b", .importCall, false⟩ ⟨14, "./a", .importCall, false⟩ := by
  obtain ⟨p, hp, hedges⟩ := program?_chain
  have hparse : parse? ⟨"a.js"⟩ chain = some (ofProgram p) := by rw [parse?, hp, Option.map_some]
  obtain ⟨q, hq, -, hstarts, horder, -⟩ := edges_order hparse
  cases hp.symm.trans hq
  rw [hedges] at hstarts horder
  have hlast : [⟨39, "./b", .importCall, false⟩, ⟨14, "./a", .importCall, false⟩].Sublist chainEdges :=
    .cons _ (.refl _)
  exact ⟨p, hparse, hedges, hstarts, (List.pairwise_pair.1 (horder.sublist hlast)).resolve_left (by decide)⟩

/-- A module that is named later in the text comes first. -/
theorem edges_chain_fall :
    ∃ p, parse? ⟨"a.js"⟩ chain = some (ofProgram p) ∧
      ¬ p.placedEdges.Pairwise (fun a b => a.start ≤ b.start) := by
  obtain ⟨p, hp, hedges⟩ := program?_chain
  refine ⟨p, by rw [parse?, hp, Option.map_some], ?_⟩
  rw [hedges]
  decide

end Module

end ClientBoundary
