import ClientBoundary.Proofs.Parser
import ClientBoundary.Proofs.Reach

/-!
# How edges are arranged

What is read between two states names modules there. The edges that are found in it come in the order of the
text, but for those that are crossed, which come the other way round (`Arranged`). Edges of texts that stand one
behind the other are arranged together (`Arranged.append`); for a call, the arguments come first in the list and
last in the text (`Arranged.crossing`).

Below, an expression or statement **stands** between two states if its edges are arranged there. One lemma for each
form says that it stands where its parts do.
-/

namespace ClientBoundary

/-- The word that declarations or calls of a kind start with. -/
def EdgeKind.word : EdgeKind → String
  | importFrom | importCall => "import"
  | exportFrom => "export"
  | requireCall => "require"

/-- An edge that starts with its word between two states. -/
def PlacedEdge.Between (a : PlacedEdge) (s s' : ParseState) : Prop :=
  ∃ s₁, s.Leads s₁ ∧ s₁.Passes a.edge.kind.word s' ∧ a.start = s₁.pos

/-- **Edges in order**, but for those that are crossed. -/
structure Arranged (es : List PlacedEdge) (crosses : PlacedEdge → PlacedEdge → Prop) (s s' : ParseState) :
    Prop where
  /-- the states follow each other -/
  leads : s.Leads s'
  /-- the edges start between the states -/
  between : ∀ a ∈ es, a.Between s s'
  /-- they rise, unless they are crossed -/
  order : es.Pairwise fun a b => a.start < b.start ∨ crosses a b
  /-- crossed edges fall -/
  crossed : ∀ a b, crosses a b → [a, b].Sublist es ∧ b.start < a.start

variable {s s₀ s₁ s₂ s' : ParseState} {a b : PlacedEdge} {es es' : List PlacedEdge}
  {crosses crosses' : PlacedEdge → PlacedEdge → Prop}

namespace PlacedEdge.Between

/-- An edge whose word stands at the first state is between the two once the word is passed. -/
theorem of_passes {w : String} (h : s.Passes w s') (hkind : a.edge.kind.word = w) (hstart : a.start = s.pos) :
    a.Between s s' :=
  ⟨s, .refl s, hkind ▸ h, hstart⟩

/-- An edge between two states is between any states around them. -/
theorem mono (h : a.Between s₁ s₂) (hs : s.Leads s₁) (hs' : s₂.Leads s') : a.Between s s' := by
  obtain ⟨t, ht, hpasses, hstart⟩ := h
  exact ⟨t, hs.trans ht, hpasses.leads_trans hs', hstart⟩

theorem leads (h : a.Between s s') : s.Leads s' := by
  obtain ⟨t, ht, hpasses, -⟩ := h
  exact ht.trans hpasses.leads

/-- **Edges of texts one behind the other start in this order.** The word of the first is passed when the second
text begins, so the edges of both cannot even start at the same place. -/
theorem start_lt (ha : a.Between s s₁) (hb : b.Between s₁ s') : a.start < b.start := by
  obtain ⟨t, -, hpasses, hstart⟩ := ha
  obtain ⟨u, hu, -, hstart'⟩ := hb
  rw [hstart, hstart']
  exact Nat.lt_of_lt_of_le hpasses.lt hu.pos_le

end PlacedEdge.Between

namespace Arranged

/-- Where nothing is found, nothing is out of order. -/
theorem nil (h : s.Leads s') (hcrosses : ∀ a b, ¬ crosses a b) : Arranged [] crosses s s' where
  leads := h
  between := by simp
  order := .nil
  crossed a b hab := absurd hab (hcrosses a b)

theorem single (ha : a.Between s s') (hcrosses : ∀ b c, ¬ crosses b c) : Arranged [a] crosses s s' where
  leads := ha.leads
  between := by simpa using ha
  order := List.pairwise_singleton ..
  crossed b c hbc := absurd hbc (hcrosses b c)

/-- Edges stay arranged if more is read before and behind them. -/
theorem mono (h : Arranged es crosses s₁ s₂) (hs : s.Leads s₁) (hs' : s₂.Leads s') : Arranged es crosses s s' where
  leads := hs.trans (h.leads.trans hs')
  between a ha := (h.between a ha).mono hs hs'
  order := h.order
  crossed := h.crossed

/-- Which edges are crossed may be said in another way. The lemmas below put together what their parts say, and
compare it with what the form of the tree says by this. -/
theorem congr (h : Arranged es crosses s s') (hcrosses : ∀ a b, crosses' a b ↔ crosses a b) :
    Arranged es crosses' s s' where
  leads := h.leads
  between := h.between
  order := h.order.imp fun hab => hab.imp_right (hcrosses _ _).2
  crossed a b hab := h.crossed a b ((hcrosses a b).1 hab)

/-- Edges of two texts, one behind the other. -/
theorem append (h : Arranged es crosses s s₁) (h' : Arranged es' crosses' s₁ s') :
    Arranged (es ++ es') (fun a b => crosses a b ∨ crosses' a b) s s' where
  leads := h.leads.trans h'.leads
  between a ha := by
    rcases List.mem_append.1 ha with ha | ha
    · exact (h.between a ha).mono (.refl s) h'.leads
    · exact (h'.between a ha).mono h.leads (.refl s')
  order := by
    refine List.pairwise_append.2 ⟨h.order.imp fun hab => hab.imp_right .inl,
      h'.order.imp fun hab => hab.imp_right .inr, fun a ha b hb => .inl ?_⟩
    exact (h.between a ha).start_lt (h'.between b hb)
  crossed a b hab := by
    rcases hab with hab | hab
    · exact ⟨(h.crossed a b hab).1.trans (List.sublist_append_left ..), (h.crossed a b hab).2⟩
    · exact ⟨(h'.crossed a b hab).1.trans (List.sublist_append_right ..), (h'.crossed a b hab).2⟩

/-- Edges of two texts, those of the later text first. -/
theorem crossing (h : Arranged es crosses s s₁) (h' : Arranged es' crosses' s₁ s') :
    Arranged (es' ++ es) (fun a b => (a ∈ es' ∧ b ∈ es) ∨ crosses a b ∨ crosses' a b) s s' where
  leads := h.leads.trans h'.leads
  between a ha := (h.append h').between a (List.mem_append.2 (List.mem_append.1 ha).symm)
  order := by
    refine List.pairwise_append.2 ⟨h'.order.imp fun hab => hab.imp_right fun hc => .inr (.inr hc),
      h.order.imp fun hab => hab.imp_right fun hc => .inr (.inl hc), fun a ha b hb => .inr (.inl ⟨ha, hb⟩)⟩
  crossed a b hab := by
    rcases hab with ⟨ha, hb⟩ | hab | hab
    · refine ⟨?_, (h.between b hb).start_lt (h'.between a ha)⟩
      exact (List.singleton_sublist.2 ha).append (List.singleton_sublist.2 hb)
    · exact ⟨(h.crossed a b hab).1.trans (List.sublist_append_right ..), (h.crossed a b hab).2⟩
    · exact ⟨(h'.crossed a b hab).1.trans (List.sublist_append_left ..), (h'.crossed a b hab).2⟩

/-- Edges of texts in a row. -/
theorem flatMap {α : Type} {edgesOf : α → List PlacedEdge} {crossesOf : α → PlacedEdge → PlacedEdge → Prop}
    {as : List α} (h : Parser.Row (fun x s s' => Arranged (edgesOf x) (crossesOf x) s s') as s s') :
    Arranged (as.flatMap edgesOf) (fun a b => ∃ x ∈ as, crossesOf x a b) s s' := by
  induction h with
  | nil h => exact nil h (by simp)
  | cons h hx _ ih =>
    rw [List.flatMap_cons]
    exact ((hx.mono h (.refl _)).append ih).congr (by simp)

end Arranged

/-- Edges that are arranged behind a state are so seen from any state before. -/
theorem Parser.Keeps.from_leads {α : Type} {p : Parser α} {edgesOf : α → List PlacedEdge}
    {crossesOf : α → PlacedEdge → PlacedEdge → Prop}
    (hp : p.Keeps s₁ fun x s' => Arranged (edgesOf x) (crossesOf x) s₁ s') (h : s.Leads s₁) :
    p.Keeps s₁ fun x s' => Arranged (edgesOf x) (crossesOf x) s s' :=
  hp.imp fun _ s' _ hx => hx.mono h (.refl s')

/-! ## Expressions -/

namespace Expr

variable {e e₁ e₂ : Expr}

/-- The edges of the expression are arranged between two states. -/
def Stands (e : Expr) (s s' : ParseState) : Prop := Arranged e.edges e.Crosses s s'

theorem Stands.mono (h : e.Stands s₁ s₂) (hs : s.Leads s₁) (hs' : s₂.Leads s') : e.Stands s s' :=
  Arranged.mono h hs hs'

/-- An expression in which nothing is found. -/
structure Quiet (e : Expr) : Prop where
  /-- no edge -/
  edges : e.edges = []
  /-- no part is searched -/
  parts : ∀ part, ¬ e.Part part
  /-- no call -/
  ne_call : ∀ start callee args, e ≠ call start callee args

/-- A variable names no module. Where it is `require` and is called, the edge belongs to the call. -/
theorem quiet_name (text : String) : (name text).Quiet where
  edges := rfl
  parts _ h := by cases h
  ne_call _ _ _ h := by cases h

/-- Nor does a text: as the source of a call, it is part of the edge of this call. -/
theorem quiet_string (value : String) : (string value).Quiet where
  edges := rfl
  parts _ h := by cases h
  ne_call _ _ _ h := by cases h

theorem quiet_literal : literal.Quiet where
  edges := rfl
  parts _ h := by cases h
  ne_call _ _ _ h := by cases h

/-- Forms that only the grammar tells apart are not searched, so an edge is lost in them whatever their parts are.
-/
theorem quiet_compound (form : Form) (parts : List Expr) (body : List Stmt) : (compound form parts body).Quiet where
  edges := rfl
  parts _ h := by cases h
  ne_call _ _ _ h := by cases h

/-- Edges are crossed by a call, which is the expression itself or a part that is searched, and here there is
neither. -/
theorem Quiet.not_crosses (h : e.Quiet) : ¬ e.Crosses a b := by
  intro hab
  obtain ⟨part, hpart, -⟩ := (crosses_iff_parts h.ne_call).1 hab
  exact h.parts part hpart

theorem Quiet.stands (h : e.Quiet) (hs : s.Leads s') : e.Stands s s' := by
  rw [Stands, h.edges]
  exact .nil hs fun _ _ => h.not_crosses

theorem stands_compound {form : Form} {parts : List Expr} {body : List Stmt} (h : s.Leads s') :
    (compound form parts body).Stands s s' :=
  (quiet_compound form parts body).stands h

/-- An expression with the edges of its one part. -/
theorem Stands.of_part (h : e₁.Stands s s') (hedges : e.edges = e₁.edges)
    (hcall : ∀ start callee args, e ≠ call start callee args) (hpart : e.Part e₁)
    (honly : ∀ part, e.Part part → part = e₁) : e.Stands s s' := by
  rw [Stands, hedges]
  refine h.congr fun a b => ?_
  rw [crosses_iff_parts hcall]
  constructor
  · rintro ⟨part, hpart, hab⟩
    rwa [honly part hpart] at hab
  · exact fun hab => ⟨e₁, hpart, hab⟩

/-- Parentheses, `await` and members are looked through: they have the edges of the one part that is searched. -/
theorem Stands.paren (h : e.Stands s s') : (paren e).Stands s s' :=
  h.of_part rfl (by simp) (.paren e) (by rintro _ ⟨⟩; rfl)

theorem Stands.awaited (h : e.Stands s s') : (awaited e).Stands s s' :=
  h.of_part rfl (by simp) (.awaited e) (by rintro _ ⟨⟩; rfl)

theorem Stands.member (h : e.Stands s s') : (member e).Stands s s' :=
  h.of_part rfl (by simp) (.object e) (by rintro _ ⟨⟩; rfl)

/-- Of an assignment only the right side is searched. The target is read before it, and an edge in it is not found.
-/
theorem Stands.assign (plain : Bool) (target : Expr) (h : e.Stands s s') : (assign plain target e).Stands s s' :=
  h.of_part rfl (by simp) (.assigned plain target e) (by rintro _ ⟨⟩; rfl)

/-- All three parts of a choice are searched, and in the order in which they are written. -/
theorem Stands.conditional {test yes no : Expr} (htest : test.Stands s s₁) (hyes : yes.Stands s₁ s₂)
    (hno : no.Stands s₂ s') : (conditional test yes no).Stands s s' := by
  refine ((Arranged.append htest hyes).append hno).congr fun a b => ?_
  rw [crosses_iff_parts (by simp)]
  constructor
  · rintro ⟨part, hpart, hab⟩
    cases hpart with
    | test => exact .inl (.inl hab)
    | yes => exact .inl (.inr hab)
    | no => exact .inr hab
  · rintro ((hab | hab) | hab)
    · exact ⟨test, .test test yes no, hab⟩
    · exact ⟨yes, .yes test yes no, hab⟩
    · exact ⟨no, .no test yes no, hab⟩

end Expr

/-! ## Lists of parts -/

/-- The edges of an element or argument. -/
def Item.edges : Item → List PlacedEdge
  | value e => e.edges
  | _ => []

/-- Two crossed edges in an element or argument. -/
def Item.Crosses : Item → PlacedEdge → PlacedEdge → Prop
  | value e, a, b => e.Crosses a b
  | _, _, _ => False

/-- The edges of an element or argument are arranged between two states. -/
def Item.Stands (item : Item) (s s' : ParseState) : Prop := Arranged item.edges item.Crosses s s'

/-- The edges of a member. -/
def Member.edges : Member → List PlacedEdge
  | property _ value => value.edges
  | _ => []

/-- Two crossed edges in a member. -/
def Member.Crosses : Member → PlacedEdge → PlacedEdge → Prop
  | property _ value, a, b => value.Crosses a b
  | _, _, _ => False

/-- The edges of a member are arranged between two states. -/
def Member.Stands (m : Member) (s s' : ParseState) : Prop := Arranged m.edges m.Crosses s s'

/-- The edges of an initial value. -/
def Declarator.edges : Declarator → List PlacedEdge
  | mk _ (some e) => e.edges
  | mk _ none => []

/-- Two crossed edges in an initial value. -/
def Declarator.Crosses : Declarator → PlacedEdge → PlacedEdge → Prop
  | mk _ (some e), a, b => e.Crosses a b
  | mk _ none, _, _ => False

/-- The edges of an initial value are arranged between two states. -/
def Declarator.Stands (d : Declarator) (s s' : ParseState) : Prop := Arranged d.edges d.Crosses s s'

/-- What is found in a list of elements or arguments is found one by one, so that `Arranged.flatMap` applies to it.
The same is true of members, of variables, and of statements in a body. -/
theorem itemEdges_eq (items : List Item) : itemEdges items = items.flatMap Item.edges := by
  induction items with
  | nil => rfl
  | cons item items ih => cases item <;> simp [itemEdges, Item.edges, ih]

theorem memberEdges_eq (members : List Member) : memberEdges members = members.flatMap Member.edges := by
  induction members with
  | nil => rfl
  | cons m members ih => cases m <;> simp [memberEdges, Member.edges, ih]

theorem declaratorEdges_eq (ds : List Declarator) : declaratorEdges ds = ds.flatMap Declarator.edges := by
  induction ds with
  | nil => rfl
  | cons d ds ih =>
    obtain ⟨parts, init⟩ := d
    cases init <;> simp [declaratorEdges, Declarator.edges, ih]

/-- Statements of a body count with their calls only, imports and exports do not. -/
theorem bodyEdges_eq (body : List Stmt) : bodyEdges body = body.flatMap Stmt.callEdges := by
  induction body with
  | nil => rfl
  | cons stmt body ih => simp [bodyEdges, ih]

/-- Edges are crossed in some item of a list exactly if they are crossed in an expression of it that is searched. -/
theorem exists_item {items : List Item} :
    (∃ item ∈ items, item.Crosses a b) ↔ ∃ e, .value e ∈ items ∧ e.Crosses a b := by
  constructor
  · rintro ⟨item, hmem, hab⟩
    cases item with
    | value e => exact ⟨e, hmem, hab⟩
    | spread e => exact hab.elim
    | hole => exact hab.elim
  · rintro ⟨e, hmem, hab⟩
    exact ⟨_, hmem, hab⟩

theorem exists_member {members : List Member} :
    (∃ m ∈ members, m.Crosses a b) ↔ ∃ key e, .property key e ∈ members ∧ e.Crosses a b := by
  constructor
  · rintro ⟨m, hmem, hab⟩
    cases m with
    | property key e => exact ⟨key, e, hmem, hab⟩
    | shorthand start name default => exact hab.elim
    | spread e => exact hab.elim
  · rintro ⟨key, e, hmem, hab⟩
    exact ⟨_, hmem, hab⟩

theorem exists_declarator {ds : List Declarator} :
    (∃ d ∈ ds, d.Crosses a b) ↔ ∃ parts e, .mk parts (some e) ∈ ds ∧ e.Crosses a b := by
  constructor
  · rintro ⟨⟨parts, init⟩, hmem, hab⟩
    cases init with
    | none => exact hab.elim
    | some e => exact ⟨parts, e, hmem, hab⟩
  · rintro ⟨parts, e, hmem, hab⟩
    exact ⟨_, hmem, hab⟩

/-- A call has at most one edge of its own, and only where it calls the variable `require`. This is where an edge
starts at a word that was read long before the call is known to be one. -/
theorem requireEdge_cases (start : Nat) (callee : Expr) (args : List Item) :
    requireEdge start callee args = [] ∨
      ∃ a, requireEdge start callee args = [a] ∧ a.start = start ∧ a.edge.kind = .requireCall ∧
        callee = .name "require" := by
  unfold requireEdge
  split
  · exact .inr ⟨_, rfl, rfl, rfl, rfl⟩
  · exact .inl rfl

/-- An edge of `import(…)` starts where the call does, at the word. -/
theorem mem_importEdge {start : Nat} {source : Expr} (h : a ∈ importEdge start source) :
    a.start = start ∧ a.edge.kind = .importCall := by
  unfold importEdge at h
  split at h
  · cases List.mem_singleton.1 h
    exact ⟨rfl, rfl⟩
  · cases h

namespace Expr

/-- An array stands where its elements stand one behind the other. -/
theorem stands_array {items : List Item} (trailing : Bool) (h : Parser.Row Item.Stands items s s') :
    (array items trailing).Stands s s' := by
  have hrow := Arranged.flatMap h
  rw [← itemEdges_eq] at hrow
  refine hrow.congr fun a b => ?_
  rw [crosses_iff_parts (by simp), exists_item]
  constructor
  · rintro ⟨part, hpart, hab⟩
    cases hpart with
    | element hmem => exact ⟨part, hmem, hab⟩
  · rintro ⟨part, hmem, hab⟩
    exact ⟨part, .element hmem, hab⟩

/-- So does an object with its members, of which only values behind a key are searched. -/
theorem stands_object {members : List Member} (trailing : Bool) (h : Parser.Row Member.Stands members s s') :
    (object members trailing).Stands s s' := by
  have hrow := Arranged.flatMap h
  rw [← memberEdges_eq] at hrow
  refine hrow.congr fun a b => ?_
  rw [crosses_iff_parts (by simp), exists_member]
  constructor
  · rintro ⟨part, hpart, hab⟩
    cases hpart with
    | property hmem => exact ⟨_, part, hmem, hab⟩
  · rintro ⟨key, part, hmem, hab⟩
    exact ⟨part, .property hmem, hab⟩

/-- **A call**: the arguments come before the callee, and behind it in the text. -/
theorem stands_call {start : Nat} {callee : Expr} {args : List Item} (hcallee : callee.Stands s s₁)
    (hargs : Parser.Row Item.Stands args s₁ s') (hrequire : ∀ a ∈ requireEdge start callee args, a.Between s s₁) :
    (call start callee args).Stands s s' := by
  have hrow := Arranged.flatMap hargs
  rw [← itemEdges_eq] at hrow
  have hcrosses : ∀ a b, (call start callee args).Crosses a b ↔ (a ∈ itemEdges args ∧ b ∈ callee.edges) ∨
      callee.Crosses a b ∨ ∃ item ∈ args, item.Crosses a b := by
    intro a b
    rw [crosses_call, exists_item]
  rw [Stands, Expr.edges]
  rcases requireEdge_cases start callee args with hnone | ⟨a, hsome, -, -, rfl⟩
  · rw [hnone]
    exact (Arranged.crossing hcallee hrow).congr hcrosses
  · -- a variable holds no edge, so nothing is crossed but inside the arguments
    rw [hsome, (quiet_name "require").edges, List.append_nil]
    have ha : Arranged [a] (fun _ _ => False) s s₁ := .single (hrequire a (by simp [hsome])) (by simp)
    refine (ha.append hrow).congr fun a b => ?_
    rw [hcrosses, (quiet_name "require").edges]
    simp [(quiet_name "require").not_crosses]

/-- `import(…)` has its own edge, if its source is a text, and no other: neither source nor options are searched. -/
theorem stands_importCall {start : Nat} {source : Expr} {options : List Expr} (hs : s.Leads s')
    (himport : ∀ a ∈ importEdge start source, a.Between s s') : (importCall start source options).Stands s s' := by
  have hcrosses : ∀ a b, ¬ (importCall start source options).Crosses a b := by
    intro a b hab
    rw [crosses_iff_parts (by simp)] at hab
    obtain ⟨part, hpart, -⟩ := hab
    cases hpart
  rw [Stands, Expr.edges]
  cases source with
  | string value => exact .single (himport _ (by simp [importEdge])) hcrosses
  | _ => exact .nil hs hcrosses

end Expr

/-! ## Statements -/

namespace Stmt

variable {stmt : Stmt} {e : Expr}

/-- The edges of the statement are arranged between two states. -/
def Stands (stmt : Stmt) (s s' : ParseState) : Prop := Arranged stmt.edges stmt.Crosses s s'

/-- A statement in which nothing is found. -/
structure Quiet (stmt : Stmt) : Prop where
  /-- no edge -/
  edges : stmt.edges = []
  /-- no expression is searched -/
  parts : ∀ e, ¬ stmt.Holds e

/-- Loops, branches, functions, classes and whatever else only the grammar tells apart are not searched. -/
theorem quiet_compound (exprs : List Expr) (stmts : List Stmt) : (compound exprs stmts).Quiet where
  edges := rfl
  parts _ h := by cases h

/-- Nor are declarations that are exported, even if they declare variables with initial values. -/
theorem quiet_exportDeclaration (inner : Stmt) : (exportDeclaration inner).Quiet where
  edges := rfl
  parts _ h := by cases h

/-- Nor is what is exported by default. -/
theorem quiet_exportDefault (e : Expr) : (exportDefault e).Quiet where
  edges := rfl
  parts _ h := by cases h

/-- A list of exports without a source is about names of the module itself. -/
theorem quiet_exportNames (start : Nat) (typeOnly : Bool) (marks : List Bool) :
    (exportNames start typeOnly marks none).Quiet where
  edges := rfl
  parts _ h := by cases h

theorem quiet_ret : (ret none).Quiet where
  edges := rfl
  parts _ h := by cases h

theorem Quiet.stands (h : stmt.Quiet) (hs : s.Leads s') : stmt.Stands s s' := by
  rw [Stands, h.edges]
  refine .nil hs ?_
  rintro a b ⟨e, he, -⟩
  exact h.parts e he

/-- A statement with one edge of its own. -/
theorem stands_single (hedges : stmt.edges = [a]) (hparts : ∀ e, ¬ stmt.Holds e) (ha : a.Between s s') :
    stmt.Stands s s' := by
  rw [Stands, hedges]
  refine .single ha ?_
  rintro b c ⟨e, he, -⟩
  exact hparts e he

/-- An import is one edge, which starts at its word. Whether it is about types only is noted in the edge, and does
not matter for its place. -/
theorem stands_importFrom (typeOnly : Bool) (names : List ImportName) (source : String) (h : s.Passes "import" s') :
    (importFrom s.pos typeOnly names source).Stands s s' :=
  stands_single rfl (by rintro _ ⟨⟩) (.of_passes h rfl rfl)

/-- A list of exports with a source is an edge like that of an import, at the word `export`. -/
theorem stands_exportNames (typeOnly : Bool) (marks : List Bool) (source : String) (h : s.Passes "export" s') :
    (exportNames s.pos typeOnly marks (some source)).Stands s s' :=
  stands_single rfl (by rintro _ ⟨⟩) (.of_passes h rfl rfl)

theorem stands_exportAll (typeOnly : Bool) (source : String) (h : s.Passes "export" s') :
    (exportAll s.pos typeOnly source).Stands s s' :=
  stands_single rfl (by rintro _ ⟨⟩) (.of_passes h rfl rfl)

/-- Of a statement that is an expression, or of `return`, the expression is all that is searched. -/
theorem stands_expr (h : e.Stands s s') : (expr e).Stands s s' := by
  refine Arranged.congr h fun a b => ⟨?_, fun hab => ⟨e, .expr e, hab⟩⟩
  rintro ⟨_, ⟨⟩, hab⟩
  exact hab

theorem stands_ret (h : e.Stands s s') : (ret (some e)).Stands s s' := by
  refine Arranged.congr h fun a b => ⟨?_, fun hab => ⟨e, .ret e, hab⟩⟩
  rintro ⟨_, ⟨⟩, hab⟩
  exact hab

/-- Variables stand where their initial values stand one behind the other; the patterns between them are not
searched. -/
theorem stands_declare {ds : List Declarator} (h : Parser.Row Declarator.Stands ds s s') :
    (declare ds).Stands s s' := by
  have hrow := Arranged.flatMap h
  rw [← declaratorEdges_eq] at hrow
  refine hrow.congr fun a b => ?_
  rw [exists_declarator]
  constructor
  · rintro ⟨e, he, hab⟩
    cases he with
    | declare hmem => exact ⟨_, e, hmem, hab⟩
  · rintro ⟨parts, e, hmem, hab⟩
    exact ⟨e, .declare hmem, hab⟩

/-- In the body of a function, declarations of imports and exports have no edges. -/
theorem Stands.calls (h : stmt.Stands s s') : Arranged stmt.callEdges stmt.Crosses s s' := by
  cases stmt with
  | importFrom => exact .nil h.leads (by rintro a b ⟨e, ⟨⟩, -⟩)
  | exportNames => exact .nil h.leads (by rintro a b ⟨e, ⟨⟩, -⟩)
  | exportAll => exact .nil h.leads (by rintro a b ⟨e, ⟨⟩, -⟩)
  | _ => exact h

end Stmt

/-- **An arrow function** stands where the statements of its body do. Its parameters come before the body and are
not searched, and of the statements only the calls count. -/
theorem Expr.stands_arrow {params : List Expr} {body : List Stmt} (h : Parser.Row Stmt.Stands body s s') :
    (arrow params body).Stands s s' := by
  have hcalls : Parser.Row (fun stmt s s' => Arranged stmt.callEdges stmt.Crosses s s') body s s' :=
    h.imp fun _ _ _ => Stmt.Stands.calls
  have hrow := Arranged.flatMap hcalls
  rw [← bodyEdges_eq] at hrow
  refine hrow.congr fun a b => ?_
  rw [crosses_iff_parts (by simp)]
  constructor
  · rintro ⟨part, hpart, hab⟩
    cases hpart with
    | body hmem hholds => exact ⟨_, hmem, part, hholds, hab⟩
  · rintro ⟨stmt, hmem, part, hholds, hab⟩
    exact ⟨part, .body hmem hholds, hab⟩

end ClientBoundary
