import ClientBoundary.Proofs.Arrangement
import ClientBoundary.Script.Grammar

/-!
# The rules of expressions

Each rule of the grammar answers an expression that stands where it was read, if the rules that it asks do so
(`Rules.Keep`). The proofs go through the rules step by step; a step of which nothing remains in the tree is
skipped.
-/

namespace ClientBoundary

variable {s s' : ParseState}

/-! ## What goals promise -/

/-- A form that is not searched, and that no call looks into. -/
def Expr.Closed (e : Expr) : Prop := ∃ form parts body, e = .compound form parts body ∧ form ≠ .instantiated

/-- **What may be called.** A call looks through type arguments, so what is behind them stands there too; and a
variable is read from the token where it starts. -/
structure Expr.Callable (e : Expr) (s s' : ParseState) : Prop where
  /-- it stands where it was read -/
  stands : e.Stands s s'
  /-- so does what a call finds behind type arguments -/
  bare : (Grammar.withoutTypeArguments e).Stands s s'
  /-- a variable is a word -/
  name : ∀ w, Grammar.withoutTypeArguments e = .name w → s.Passes w s'

/-- What holds of what is read for a goal. -/
def Goal.Kept : {α : Type} → Goal α → α → ParseState → ParseState → Prop
  | _, .expr, e, s, s' => e.Stands s s'
  | _, .assign _, e, s, s' => e.Stands s s'
  | _, .binary _, e, s, s' => e.Stands s s'
  | _, .unary, e, s, s' => e.Stands s s'
  | _, .simpleUnary, e, s, s' => e.Stands s s'
  | _, .access, e, s, s' => e.Stands s s'
  | _, .primary, e, s, s' => e.Callable s s'
  | _, .object, e, s, s' => e.Callable s s'
  | _, .element _, e, _, _ => e.Closed
  | _, .classTail, e, _, _ => e.Closed
  | _, .statement _, stmt, s, s' => stmt.Stands s s'
  | _, .pattern, _, _, _ => True
  | _, .type, _, _, _ => True
  | _, .typeOperator, _, _, _ => True
  | _, .returnType, _, _, _ => True

/-- Rules that keep what goals promise. -/
def Rules.Keep (rules : Rules) : Prop :=
  ∀ {α : Type} (goal : Goal α) (s : ParseState), (rules.ask goal).Keeps s fun a s' => goal.Kept a s s'

namespace Expr

variable {e : Expr}

theorem closed_compound {form : Form} {parts : List Expr} {body : List Stmt} (hform : form ≠ .instantiated) :
    (compound form parts body).Closed :=
  ⟨form, parts, body, rfl, hform⟩

theorem Closed.stands (h : e.Closed) (hs : s.Leads s') : e.Stands s s' := by
  obtain ⟨form, parts, body, rfl, -⟩ := h
  exact stands_compound hs

/-- An expression that is no variable, and has no type arguments at its end, may be called wherever it stands. -/
theorem callable_of_bare (hbare : Grammar.withoutTypeArguments e = e) (hname : ∀ w, e ≠ name w)
    (h : e.Stands s s') : e.Callable s s' where
  stands := h
  bare := by rwa [hbare]
  name w hw := absurd (hbare.symm.trans hw) (hname w)

/-- What may be called still may be if something is passed behind it that leaves nothing in the tree. -/
theorem Callable.leads_trans {s₁ : ParseState} (h : e.Callable s s₁) (hs : s₁.Leads s') : e.Callable s s' where
  stands := h.stands.mono (.refl s) hs
  bare := h.bare.mono (.refl s) hs
  name w hw := (h.name w hw).leads_trans hs

/-- Type arguments behind what may be called once more. -/
theorem Callable.instantiated (h : e.Callable s s') : (compound .instantiated [e] []).Callable s s' where
  stands := stands_compound h.stands.leads
  bare := h.stands
  name w hw := by
    subst hw
    exact h.name w rfl

/-- A member is no variable, so `a.require(…)` has no edge of its own. -/
theorem Callable.member (h : e.Callable s s') : (member e).Callable s s' :=
  callable_of_bare rfl (by simp) h.stands.member

theorem callable_literal (h : s.Leads s') : literal.Callable s s' :=
  callable_of_bare rfl (by simp) (quiet_literal.stands h)

/-- A form that is not searched has no edge that could stand at a wrong place, and as a callee it is no variable. -/
theorem Closed.callable (h : e.Closed) (hs : s.Leads s') : e.Callable s s' := by
  refine callable_of_bare ?_ ?_ (h.stands hs)
  · obtain ⟨form, parts, body, rfl, hform⟩ := h
    unfold Grammar.withoutTypeArguments
    split
    · rename_i heq
      cases heq
      exact absurd rfl hform
    · rfl
  · rintro w rfl
    obtain ⟨form, parts, body, heq, -⟩ := h
    cases heq

end Expr

theorem Parser.Keeps.callable {p : Parser Expr} (h : p.Keeps s fun e _ => e.Closed) :
    p.Keeps s fun e s' => e.Callable s s' :=
  h.imp fun _ _ hs he => he.callable hs

namespace Grammar

open ClientBoundary.Parser

variable {rules : Rules} (hrules : rules.Keep)

/-! ## Functions -/

/-- A function is not searched, with a body or without one. Its statements are read, and may fail, but what they
name is not found. -/
theorem keeps_functionTail (rules : Rules) (kind : FunctionKind) :
    (functionTail rules kind).Keeps s fun f _ => f.value.Closed := by
  refine .skip fun params s₁ => .skip fun _ s₂ => .ite (fun _ => .skip fun body s₃ => .pure ?_) fun _ => ?_
  · exact Expr.closed_compound (by decide)
  · refine .skip fun _ s₃ => .ite (fun _ => .skip fun _ s₄ => .pure ?_) fun _ => keeps_failure
    exact Expr.closed_compound (by decide)

theorem keeps_accessorTail (rules : Rules) (isGetter : Bool) :
    (accessorTail rules isGetter).Keeps s fun f _ => f.value.Closed := by
  refine (keeps_functionTail rules {}).bind fun f s₁ _ hf => ?_
  exact .ite (fun _ => .skip fun _ _ => .pure hf) fun _ => .skip fun _ _ => .pure hf

theorem keeps_functionFromKeyword (rules : Rules) (isAsync needsName isValue : Bool) :
    (functionFromKeyword rules isAsync needsName isValue).Keeps s fun out _ => out.2.value.Closed := by
  refine .skip fun _ s₁ => .skip fun _ s₂ => .skip fun t s₃ => .either (.refl s₃) fun name s₄ _ => ?_
  exact .skip fun _ _ => (keeps_functionTail rules _).bind fun f _ _ hf => .pure hf

/-- So a function leaves nothing to find where it is a value, with `async` in front or not. -/
theorem keeps_functionValue (rules : Rules) : (functionValue rules).Keeps s fun e _ => e.Closed :=
  .skip fun _ _ => (keeps_functionFromKeyword rules _ _ _).bind fun _ _ _ hf => .pure hf

/-! ## Primary expressions -/

/-- **A variable is the word at the state where it starts.** This is what a call of `require` needs later on, when
the callee is all that is left of what was read. -/
theorem keeps_variableName : variableName.Keeps s fun e s' => e.Callable s s' := by
  refine .token (keeps_read.bind ?_)
  rintro setting _ - rfl
  refine .ite (fun _ => keeps_anyWord.bind fun w s₁ h₁ hw => .pure ?_) fun _ => keeps_failure
  refine ⟨(Expr.quiet_name w).stands h₁, (Expr.quiet_name w).stands h₁, ?_⟩
  rintro _ ⟨⟩
  exact hw

/-- The expressions in a template are not searched. -/
theorem keeps_templateLiteral (rules : Rules) : (templateLiteral rules).Keeps s fun e _ => e.Closed :=
  .skip fun _ _ => .pure (Expr.closed_compound (by decide))

/-- Nor is what is made by `new`, neither the callee nor the arguments. The members of the callee are read by a
parser of which nothing has to be known. -/
theorem keeps_construct (rules : Rules) (members : Expr → Parser Expr) :
    (construct rules members).Keeps s fun e _ => e.Closed := by
  refine .skip fun _ s₁ => .skip fun _ s₂ => .ite (fun _ => .skip fun _ s₃ => .pure ?_) fun _ => ?_
  · exact Expr.closed_compound (by decide)
  refine .skip fun _ _ => .skip fun _ _ => .skip fun _ _ => .skip fun _ _ => .skip fun _ _ => .skip fun _ s₃ => ?_
  exact .either (.refl s₃) fun args _ _ => .pure (Expr.closed_compound (by decide))

/-- `import(…)`, behind the word, which stands at `s₀`. -/
theorem keeps_importArguments (rules : Rules) {s₀ : ParseState} (h : s₀.Passes "import" s) :
    (importArguments rules s₀.pos).Keeps s fun e s' => e.Callable s₀ s' := by
  have hcall : ∀ source options s', s.Leads s' → (Expr.importCall s₀.pos source options).Callable s₀ s' := by
    refine fun source options s' hs' => Expr.callable_of_bare rfl (by simp) ?_
    have h' := h.leads_trans hs'
    refine Expr.stands_importCall h'.leads fun a ha => ?_
    obtain ⟨hstart, hkind⟩ := mem_importEdge ha
    exact .of_passes h' (by rw [hkind]; rfl) hstart
  refine .step (.refl s) fun _ s₁ h₁ => .step h₁ fun source s₂ h₂ => .step h₂ fun hasMore s₃ h₃ => ?_
  refine .step h₃ fun _ s₄ h₄ => .ite (fun _ => ?_) fun _ => ?_
  · refine .step h₄ fun e s₅ h₅ => .step h₅ fun _ s₆ h₆ => .step h₆ fun _ s₇ h₇ => .step h₇ fun _ s₈ h₈ => ?_
    exact .pure (hcall _ _ s₈ h₈)
  · exact .step h₄ fun _ s₅ h₅ => .step h₅ fun _ s₆ h₆ => .pure (hcall _ _ s₆ h₆)

/-- `import.meta` is nothing to find. In `import.defer(…)` and `import.source(…)` the edge starts at the first word,
as in `import(…)`, although the call is read from a later state. -/
theorem keeps_importForm (rules : Rules) : (importForm rules).Keeps s fun e s' => e.Callable s s' := by
  refine .token ((keeps_expectWord "import").bind fun _ s₁ _ h => ?_)
  have harguments : ∀ s₂, s₁.Leads s₂ → (importArguments rules s.pos).Keeps s₂ fun e s' => e.Callable s s' :=
    fun s₂ h₂ => keeps_importArguments rules (h.leads_trans h₂)
  refine .step (.refl s₁) fun _ s₂ h₂ => .ite (fun _ => ?_) fun _ => harguments s₂ h₂
  refine .step h₂ fun _ s₃ h₃ => .ite (fun _ => .pure ?_) fun _ => ?_
  · exact (Expr.closed_compound (by decide)).callable (h.leads.trans h₃)
  refine .step h₃ fun _ s₄ h₄ => .step h₄ fun _ s₅ h₅ => .ite (fun _ => harguments s₅ h₅) fun _ => ?_
  exact .step h₅ fun _ s₆ h₆ => harguments s₆ h₆

include hrules

/-- A class is not searched, nor are its decorators. -/
theorem keeps_classValue : (classValue rules).Keeps s fun e _ => e.Closed := by
  refine .skip fun marks s₁ => .skip fun _ s₂ => (hrules .classTail s₂).bind fun e s₃ _ he => .pure ?_
  split
  · exact he
  · exact Expr.closed_compound (by decide)

/-- An argument stands where it was read; one that is spread is not searched, and counts as read. -/
theorem keeps_spreadable : (spreadable rules).Keeps s fun item s' => item.Stands s s' := by
  refine .step (.refl s) fun _ s₁ h₁ => .ite (fun _ => .step h₁ fun e s₂ h₂ => .pure ?_) fun _ => ?_
  · exact .nil h₂ (by simp [Item.Crosses])
  · exact (hrules (.assign true) s₁).bind fun e s₂ _ he => .pure (he.mono h₁ (.refl s₂))

/-- Arguments are a row between the parentheses around them. -/
theorem keeps_callArguments : (callArguments rules).Keeps s fun items s' => Row Item.Stands items s s' := by
  have hitems := fun s => keeps_commaList (fun s => keeps_spreadable (s := s) hrules) (s := s) .parenClose
  refine .step (.refl s) fun _ s₁ h₁ => (hitems s₁).withReader.bind fun out s₂ _ hout => ?_
  exact .step (.refl s₂) fun _ s₃ h₃ => .pure ((hout.of_leads h₁).leads_trans h₃)

/-- Elements are read like arguments, and a hole between two commas has no edge. -/
theorem keeps_arrayLiteral : (arrayLiteral rules).Keeps s fun e s' => e.Callable s s' := by
  have hitem : ∀ s, (do if ← isAt .comma then return .hole else spreadable rules : Parser Item).Keeps s
      fun item s' => item.Stands s s' := by
    refine fun s => .step (.refl s) fun _ s₁ h₁ => .ite (fun _ => .pure ?_) fun _ => ?_
    · exact .nil h₁ (by simp [Item.Crosses])
    · exact (keeps_spreadable hrules).from_leads h₁
  refine .step (.refl s) fun _ s₁ h₁ => ?_
  refine (keeps_commaList hitem .bracketClose).withReader.bind fun out s₂ _ hout => ?_
  refine .step (.refl s₂) fun _ s₃ h₃ => .pure (Expr.callable_of_bare rfl (by simp) ?_)
  exact Expr.stands_array _ ((hout.of_leads h₁).leads_trans h₃)

/-- A value behind a key stands where it was read. Accessors and methods are functions, which are not searched; what
is spread, and a name that is key and variable, have no value to search. -/
theorem keeps_objectMember : (objectMember rules).Keeps s fun m s' => m.Stands s s' := by
  refine .step (.refl s) fun _ s₁ h₁ => .ite (fun _ => .step h₁ fun e s₂ h₂ => .pure ?_) fun _ => ?_
  · exact .nil h₂ (by simp [Member.Crosses])
  refine .step h₁ fun _ s₂ h₂ => .either h₂ fun isAsync s₃ h₃ => .when h₃ fun s₄ h₄ => .step h₄ fun _ s₅ h₅ => ?_
  refine .ite (fun _ => ?_) fun _ => ?_
  · refine .step h₅ fun _ s₆ h₆ => .step h₆ fun _ s₇ h₇ => .step h₇ fun _ s₈ h₈ => .step h₈ fun _ s₉ h₉ => ?_
    refine (keeps_accessorTail rules _).bind fun f t₁ ht₁ hf => .step (h₉.trans ht₁) fun _ t₂ ht₂ => .pure ?_
    exact hf.stands ht₂
  refine .step h₅ fun _ s₆ h₆ => .step h₆ fun key s₇ h₇ => .step h₇ fun _ s₈ h₈ => .ite (fun _ => ?_) fun _ => ?_
  · refine (keeps_functionTail rules _).bind fun f t₁ ht₁ hf => .step (h₈.trans ht₁) fun _ t₂ ht₂ => .pure ?_
    exact hf.stands ht₂
  refine .step h₈ fun _ s₉ h₉ => .step h₉ fun _ t₁ ht₁ => .step ht₁ fun _ t₂ ht₂ => .ite (fun _ => ?_) fun _ => ?_
  · refine .step ht₂ fun default t₃ ht₃ => .when ht₃ fun t₄ ht₄ => .pure ?_
    exact .nil ht₄ (by simp [Member.Crosses])
  · refine .step ht₂ fun _ t₃ ht₃ => (hrules (.assign true) t₃).bind fun e t₄ _ he => .pure ?_
    exact he.mono ht₃ (.refl t₄)

theorem keeps_objectLiteral : (objectLiteral rules).Keeps s fun e s' => e.Callable s s' := by
  have hmembers := fun s => keeps_commaList (fun s => keeps_objectMember (s := s) hrules) (s := s) .braceClose
  refine .step (.refl s) fun _ s₁ h₁ => (hmembers s₁).withReader.bind fun out s₂ _ hout => ?_
  refine .step (.refl s₂) fun _ s₃ h₃ => .pure (Expr.callable_of_bare rfl (by simp) ?_)
  exact Expr.stands_object _ ((hout.of_leads h₁).leads_trans h₃)

/-- One expression in parentheses is looked through. Several of them are a sequence, which is not searched. -/
theorem keeps_parenthesized : (parenthesized rules).Keeps s fun e s' => e.Callable s s' := by
  refine .step (.refl s) fun _ s₁ h₁ => ?_
  refine (keeps_commaList (hrules (.assign true)) .parenClose).withReader.bind fun out s₂ h₂ hout => ?_
  refine .step (.refl s₂) fun _ s₃ h₃ => .ite (fun _ => keeps_failure) fun _ => ?_
  split
  · exact keeps_failure
  · rename_i e heq
    refine .pure (Expr.callable_of_bare rfl (by simp) ?_)
    rw [heq] at hout
    cases hout with
    | cons h he hrest =>
      cases hrest with
      | nil hrest => exact (Expr.Stands.mono he (h₁.trans h) (hrest.trans h₃)).paren
  · refine .pure (Expr.callable_of_bare rfl (by simp) (Expr.Stands.paren ?_))
    exact Expr.stands_compound (h₁.trans (h₂.trans h₃))

omit hrules in
/-- Whether `async function` comes is seen without a move, so a variable `async` is still at its start. -/
theorem keeps_atAsyncFunction : atAsyncFunction.Keeps s fun _ s' => s' = s := by
  refine (keeps_isAtWord "async").bind ?_
  rintro _ _ - ⟨rfl, rfl⟩
  exact .ite (fun _ => keeps_peek.bind fun _ _ _ h => .pure h) fun _ => .pure rfl

/-- What starts with a word is a literal, a function, a class, a form of `import` or a variable. Only the last two
may have edges. -/
theorem keeps_wordPrimary (w : String) : (wordPrimary rules w).Keeps s fun e s' => e.Callable s s' := by
  unfold wordPrimary
  split
  iterate 4 exact .step (.refl s) fun _ s₁ h₁ => .pure (Expr.callable_literal h₁)
  · refine .step (.refl s) fun _ s₁ h₁ => .step h₁ fun _ s₂ h₂ => .step h₂ fun _ s₃ h₃ => .pure ?_
    exact Expr.callable_literal h₃
  · exact (keeps_functionValue rules).callable
  · exact (keeps_classValue hrules).callable
  · exact keeps_importForm rules
  · -- looking for `function` does not move, so a variable still starts at `s`
    refine Keeps.bind keeps_atAsyncFunction ?_
    rintro _ _ - rfl
    exact .ite (fun _ => (keeps_functionValue rules).callable) fun _ => keeps_variableName
  · exact keeps_variableName

/-- **Primary expressions may be called.** A pattern between slashes is read again from its first slash, and an
object is asked from the rules, which promise that it may be called. -/
theorem keeps_primary (members : Expr → Parser Expr) :
    (primary rules members).Keeps s fun e s' => e.Callable s s' := by
  refine .token ?_
  split
  · exact (keeps_construct rules members).callable
  · exact keeps_wordPrimary hrules _
  · refine .step (.refl s) fun _ s₁ h₁ => .pure (Expr.callable_of_bare rfl (by simp) ?_)
    exact (Expr.quiet_string _).stands h₁
  · exact .step (.refl s) fun _ s₁ h₁ => .pure (Expr.callable_literal h₁)
  · exact (keeps_templateLiteral rules).callable
  · exact keeps_arrayLiteral hrules
  · exact hrules .object s
  · exact keeps_parenthesized hrules
  iterate 2 exact .step (.refl s) fun _ s₁ h₁ => .step h₁ fun _ s₂ h₂ => .pure (Expr.callable_literal h₂)
  · exact (keeps_classValue hrules).callable
  · exact keeps_failure

/-! ## Members and calls -/

omit hrules in
/-- A private member is a form that is not searched; any other is a member of what stands before the point, which is
called from the same state `s₀`. -/
theorem keeps_memberAfterDot {s₀ : ParseState} {e : Expr} (he : e.Callable s₀ s) :
    (memberAfterDot e).Keeps s fun e s' => e.Callable s₀ s' := by
  refine .token (.ite (fun _ => ?_) fun _ => ?_)
  · refine .step he.stands.leads fun _ s₁ h₁ => .pure ?_
    exact (Expr.closed_compound (by decide)).callable h₁
  · exact .step (.refl s) fun _ s₁ h₁ => .pure (he.member.leads_trans h₁)

omit hrules in
theorem keeps_taggedTemplate {s₀ : ParseState} (hs : s₀.Leads s) (tag : Access) :
    (taggedTemplate rules tag).Keeps s fun a s' => a.value.Callable s₀ s' :=
  .step hs fun _ s₁ h₁ => .step h₁ fun _ s₂ h₂ => .pure ((Expr.closed_compound (by decide)).callable h₂)

omit hrules in
/-- **One more member**, if there is one. Members by name keep what is in front of them. A computed key, a template
behind a tag and `!` close it, so nothing in front is searched any more. Type arguments are looked through by a
call, so what they stand behind may be called still. -/
theorem keeps_memberStep {s₀ : ParseState} (allowChain : Bool) {a : Access} (ha : a.value.Callable s₀ s) :
    (memberStep rules allowChain a).Keeps s fun found s' => ∀ a', found = some a' → a'.value.Callable s₀ s' := by
  have hsome : ∀ {e : Expr} {chained : Bool} {s'}, e.Callable s₀ s' →
      ∀ a', some (Access.mk e chained) = some a' → a'.value.Callable s₀ s' := by
    rintro e chained s' he _ ⟨⟩
    exact he
  have hclosed : ∀ {form parts body s'}, form ≠ Form.instantiated → s.Leads s' →
      (Expr.compound form parts body).Callable s₀ s' :=
    fun hform h => (Expr.closed_compound hform).callable (ha.stands.leads.trans h)
  refine .either (.refl s) fun chained s₁ h₁ => .when h₁ fun s₂ h₂ => .either h₂ fun isDot s₃ h₃ => .token ?_
  refine .ite (fun _ => ?_) fun _ => .step h₃ fun _ s₄ h₄ => .ite (fun _ => ?_) fun _ => .ite (fun _ => ?_) fun _ => ?_
  · exact (keeps_memberAfterDot (ha.leads_trans h₃)).bind fun e s₄ _ he => .pure (hsome he)
  · refine .step h₄ fun _ s₅ h₅ => .step h₅ fun key s₆ h₆ => .step h₆ fun _ s₇ h₇ => .pure (hsome ?_)
    exact hclosed (by decide) h₇
  · exact (keeps_taggedTemplate (ha.stands.leads.trans h₄) _).bind fun a' s₅ _ ha' => .pure (hsome ha')
  · refine .when h₄ fun s₅ h₅ => .step h₅ fun _ s₆ h₆ => .ite (fun _ => ?_) fun _ => ?_
    · exact .step h₆ fun _ s₇ h₇ => .pure (hsome (hclosed (by decide) h₇))
    · refine .step h₆ fun _ s₇ h₇ => .ite (fun _ => .pure (hsome ?_)) fun _ => .pure (by simp)
      exact (ha.leads_trans h₇).instantiated

omit hrules in
/-- However many members there are, the invariant of the loop is that the expression so far may be called from `s₀`
on. -/
theorem keeps_members {s₀ : ParseState} (allowChain : Bool) {a : Access} (ha : a.value.Callable s₀ s) :
    (members rules allowChain a).Keeps s fun a s' => a.value.Callable s₀ s' := by
  refine .loop (fun a s' => a.value.Callable s₀ s') ha fun a s₁ ha => ?_
  refine (keeps_memberStep allowChain ha).bind fun found s₂ h₂ hfound => ?_
  cases found with
  | none => exact .pure (ha.leads_trans h₂)
  | some a' => exact .pure (hfound a' rfl)

/-- **What is called stands before the arguments**, and a call of a variable starts at its name. -/
theorem keeps_calls {s₀ : ParseState} {a : Access} (ha : a.value.Callable s₀ s) :
    (calls rules s₀.pos a).Keeps s fun a s' => a.value.Callable s₀ s' := by
  refine .loop (fun a s' => a.value.Callable s₀ s') ha fun a s₁ ha => ?_
  refine (keeps_members true ha).bind fun a s₂ _ ha => ?_
  refine .step (.refl s₂) fun chained s₃ h₃ => .either h₃ fun hasTypes s₄ h₄ => .step h₄ fun _ s₅ h₅ => ?_
  refine .ite (fun _ => ?_) fun _ => .step h₅ fun _ s₆ h₆ => .ite (fun _ => ?_) fun _ => ?_
  · exact (keeps_taggedTemplate (ha.stands.leads.trans h₅) _).bind fun a' s₆ _ ha' => .pure ha'
  · -- only a call of a variable has an edge of its own, and it starts where the variable does
    have hcallee := ha.leads_trans h₆
    refine (keeps_callArguments hrules).bind fun args s₇ _ hargs => .pure (Expr.callable_of_bare rfl (by simp) ?_)
    refine Expr.stands_call hcallee.bare hargs fun b hb => ?_
    rcases requireEdge_cases s₀.pos (withoutTypeArguments a.value) args with hnone | ⟨b', hsome, hstart, hkind, hname⟩
    · rw [hnone] at hb
      cases hb
    · rw [hsome] at hb
      cases List.mem_singleton.1 hb
      exact .of_passes (hcallee.name "require" hname) (by rw [hkind]; rfl) hstart
  · exact .when h₆ fun s₇ h₇ => .pure (ha.leads_trans h₇)

/-- Members and calls behind a primary expression. If `?.` was read anywhere in them, all of them are closed at the
end, and nothing is searched. -/
theorem keeps_access : (access rules).Keeps s fun e s' => e.Stands s s' := by
  refine .token ((hrules .primary s).bind fun e s₁ _ he => ?_)
  refine (keeps_calls hrules (a := ⟨e, false⟩) he).bind fun a s₂ _ ha => .pure ?_
  split
  · exact Expr.stands_compound ha.stands.leads
  · exact ha.stands

/-! ## Operators -/

/-- `++` and `--` close their operand; without them the operand is what it was. -/
theorem keeps_update : (update rules).Keeps s fun e s' => e.Stands s s' := by
  refine .token (.ite (fun _ => ?_) fun _ => (hrules .access s).bind fun e s₁ h₁ he => .token (.ite (fun _ => ?_) ?_))
  · refine .step (.refl s) fun _ s₁ h₁ => .step h₁ fun e s₂ h₂ => .step h₂ fun _ s₃ h₃ => .pure ?_
    exact Expr.stands_compound h₃
  · refine .step h₁ fun _ s₂ h₂ => .step h₂ fun _ s₃ h₃ => .pure ?_
    exact Expr.stands_compound h₃
  · exact fun _ => .pure he

/-- `await` is looked through. -/
theorem keeps_awaitOperand : (awaitOperand rules).Keeps s fun e s' => e.Stands s s' := by
  refine .step (.refl s) fun _ s₁ h₁ => .step h₁ fun _ s₂ h₂ => .step h₂ fun _ s₃ h₃ => ?_
  refine (hrules .simpleUnary s₃).withReader.bind fun e s₄ _ he => .pure ?_
  exact Expr.Stands.awaited (Expr.Stands.mono he h₃ (.refl s₄))

/-- Other operators before an operand close it. A bracket starts an element or a type in front of an operand, and
neither is searched. -/
theorem keeps_simpleUnary : (simpleUnary rules).Keeps s fun e s' => e.Stands s s' := by
  refine .token (.ite (fun _ => ?_) fun _ => .ite (fun _ => ?_) fun _ => ?_)
  · exact .step (.refl s) fun _ s₁ h₁ => .step h₁ fun e s₂ h₂ => .pure (Expr.stands_compound h₂)
  · refine .step (.refl s) fun _ s₁ h₁ => .ite (fun _ => ?_) fun _ => .when h₁ fun s₂ h₂ => ?_
    · exact (hrules (.element false) s₁).imp fun e s₂ h₂ he => he.stands (h₁.trans h₂)
    · exact .step h₂ fun _ s₃ h₃ => .step h₃ fun _ s₄ h₄ => .step h₄ fun _ s₅ h₅ =>
        .step h₅ fun e s₆ h₆ => .pure (Expr.stands_compound h₆)
  · refine .step (.refl s) fun _ s₁ h₁ => .ite (fun _ => ?_) fun _ => ?_
    · exact (keeps_awaitOperand hrules).from_leads h₁
    · exact (keeps_update hrules).from_leads h₁

theorem keeps_unary : (unary rules).Keeps s fun e s' => e.Stands s s' :=
  .token (.ite (fun _ => keeps_update hrules) fun _ => keeps_simpleUnary hrules)

theorem keeps_firstOperand : (firstOperand rules).Keeps s fun e s' => e.Stands s s' := by
  refine .step (.refl s) fun _ s₁ h₁ => .step h₁ fun _ s₂ h₂ => .ite (fun _ => ?_) fun _ => ?_
  · refine .step h₂ fun _ s₃ h₃ => .step h₃ fun _ s₄ h₄ => .step h₄ fun e s₅ h₅ => .pure ?_
    exact Expr.stands_compound h₅
  · exact Keeps.from_leads (hrules .unary s₂) h₂

omit hrules in
/-- The first operator closes both of its operands, and with them all that is read so far. Without any operator the
left operand is the answer; in both cases the answer stands from `s₀` on. -/
theorem keeps_operations {s₀ : ParseState} (level : Nat) {lhs : Expr} (hlhs : lhs.Stands s₀ s) :
    (operations rules level lhs).Keeps s fun e s' => e.Stands s₀ s' := by
  refine .loop (fun e s' => e.Stands s₀ s') hlhs fun lhs s₁ hlhs => ?_
  have hstay : ∀ {s'}, s₁.Leads s' → lhs.Stands s₀ s' := fun h => hlhs.mono (.refl s₀) h
  have hquiet : ∀ {form parts body s'}, s₁.Leads s' → (Expr.compound form parts body).Stands s₀ s' :=
    fun h => Expr.stands_compound (hlhs.leads.trans h)
  refine .step (.refl s₁) fun _ s₂ h₂ => .step h₂ fun t s₃ h₃ => .step h₃ fun setting s₄ h₄ => ?_
  split
  · exact .pure (hstay h₄)
  refine .ite (fun _ => .pure (hstay h₄)) fun _ => .step h₄ fun _ s₅ h₅ => .ite (fun _ => ?_) fun _ => ?_
  · exact .step h₅ fun _ s₆ h₆ => .pure (hquiet h₆)
  · exact .step h₅ fun _ s₆ h₆ => .step h₆ fun rhs s₇ h₇ => .step h₇ fun _ s₈ h₈ => .pure (hquiet h₈)

theorem keeps_binary (level : Nat) : (binary rules level).Keeps s fun e s' => e.Stands s s' :=
  (keeps_firstOperand hrules).bind fun _ _ _ he => keeps_operations level he

/-! ## Arrow functions -/

/-- Statements in braces are a row between them. -/
theorem keeps_block : (block rules).Keeps s fun body s' => Row Stmt.Stands body s s' := by
  refine .step (.refl s) fun _ s₁ h₁ => (keeps_itemsUntil (hrules (.statement .listed)) .braceClose).bind ?_
  exact fun body s₂ _ hbody => .step (.refl s₂) fun _ s₃ h₃ => .pure ((hbody.of_leads h₁).leads_trans h₃)

/-- The body of an arrow function is a row of statements; a body that is an expression is a row of one. -/
theorem keeps_arrowBody (isAsync returnTypes : Bool) :
    (arrowBody rules isAsync returnTypes).Keeps s fun body s' => Row Stmt.Stands body s s' := by
  refine Keeps.withReader (.step (.refl s) fun _ s₁ h₁ => .ite (fun _ => ?_) fun _ => ?_)
  · exact (keeps_block hrules).withReader.imp fun body s₂ _ hbody => hbody.of_leads h₁
  · refine (hrules (.assign returnTypes) s₁).bind fun e s₂ _ he => .pure ?_
    exact .cons h₁ (Stmt.stands_expr he) (.nil (.refl s₂))

theorem keeps_certainArrow : (certainArrow rules).Keeps s fun e s' => e.Stands s s' := by
  refine .step (.refl s) fun head s₁ h₁ => (keeps_arrowBody hrules _ _).bind fun body s₂ _ hbody => .pure ?_
  exact Expr.stands_arrow (hbody.of_leads h₁)

/-- Where an arrow function is only possible, it is tried and given up, and nothing is said if there is none. In the
middle of a choice, one that declares what it returns is given up behind its body if no colon follows. -/
theorem keeps_possibleArrow (returnTypes : Bool) :
    (possibleArrow rules returnTypes).Keeps s fun found s' => ∀ e, found = some e → e.Stands s s' := by
  refine .ite (fun _ => .step (.refl s) fun found s₁ h₁ => ?_) fun _ => Keeps.attempt ?_
  · cases found with
    | none => exact .pure (by simp)
    | some head =>
      refine (keeps_arrowBody hrules _ _).bind fun body s₂ _ hbody => .pure ?_
      rintro _ ⟨⟩
      exact Expr.stands_arrow (hbody.of_leads h₁)
  · refine .step (.refl s) fun head s₁ h₁ => (keeps_arrowBody hrules _ _).bind fun body s₂ _ hbody => ?_
    refine .step (.refl s₂) fun _ s₃ h₃ => .when h₃ fun s₄ h₄ => .pure ?_
    exact Expr.stands_arrow ((hbody.of_leads h₁).leads_trans h₄)

/-- The guess whether an arrow function comes is made without a move, so each way to read one starts at the same
state. -/
theorem keeps_parenthesizedArrow (returnTypes : Bool) :
    (parenthesizedArrow rules returnTypes).Keeps s fun found s' => ∀ e, found = some e → e.Stands s s' := by
  refine .token (.ite (fun _ => keeps_glance.bind ?_) fun _ => .pure (by simp))
  rintro guess _ - rfl
  cases guess with
  | no => exact .pure (by simp)
  | maybe => exact keeps_possibleArrow hrules returnTypes
  | yes =>
    refine (keeps_certainArrow hrules).bind fun e s₁ _ he => .pure ?_
    rintro _ ⟨⟩
    exact he

theorem keeps_arrowAfterName (isAsync returnTypes : Bool) :
    (arrowAfterName rules isAsync returnTypes).Keeps s fun e s' => e.Stands s s' := by
  refine .step (.refl s) fun _ s₁ h₁ => .step h₁ fun _ s₂ h₂ => .step h₂ fun _ s₃ h₃ => ?_
  exact (keeps_arrowBody hrules _ _).bind fun body s₄ _ hbody => .pure (Expr.stands_arrow (hbody.of_leads h₃))

theorem keeps_asyncNameArrow (returnTypes : Bool) :
    (asyncNameArrow rules returnTypes).Keeps s fun found s' => ∀ e, found = some e → e.Stands s s' := by
  refine .step (.refl s) fun _ s₁ h₁ => .step h₁ fun _ s₂ h₂ => .ite (fun _ => ?_) fun _ => .pure (by simp)
  refine .step h₂ fun _ s₃ h₃ => .step h₃ fun _ s₄ h₄ => ?_
  refine (keeps_arrowAfterName hrules _ _).bind fun e s₅ _ he => .pure ?_
  rintro _ ⟨⟩
  exact he.mono h₄ (.refl s₅)

/-! ## Assignments and sequences -/

omit hrules in
/-- What is yielded is not searched. -/
theorem keeps_yieldOperand (rules : Rules) : (yieldOperand rules).Keeps s fun e s' => e.Stands s s' := by
  refine .step (.refl s) fun _ s₁ h₁ => .step h₁ fun t s₂ h₂ => .ite (fun _ => .pure ?_) fun _ => ?_
  · exact Expr.stands_compound h₂
  refine .step h₂ fun _ s₃ h₃ => .step h₃ fun _ s₄ h₄ => .ite (fun _ => ?_) fun _ => .pure ?_
  · exact .step h₄ fun e s₅ h₅ => .pure (Expr.stands_compound h₅)
  · exact Expr.stands_compound h₄

/-- **A choice** stands where its test and both of its sides do, one behind the other. The test was read before,
from `s₀` on; without `?` it is the answer. -/
theorem keeps_choice {s₀ : ParseState} (returnTypes : Bool) {test : Expr} (htest : test.Stands s₀ s) :
    (choice rules returnTypes test).Keeps s fun e s' => e.Stands s₀ s' := by
  refine .step (.refl s) fun _ s₁ h₁ => .ite (fun _ => ?_) fun _ => .pure (htest.mono (.refl s₀) h₁)
  refine (hrules (.assign false) s₁).withReader.bind fun yes s₂ _ hyes => .step (.refl s₂) fun _ s₃ h₃ => ?_
  refine (hrules (.assign returnTypes) s₃).bind fun no s₄ _ hno => .pure ?_
  exact htest.conditional (Expr.Stands.mono hyes h₁ (.refl s₂)) (Expr.Stands.mono hno h₃ (.refl s₄))

/-- An arrow function, an assignment, a choice, or just what could be the left side of one. Which it is shows only
behind the left side, which is therefore known to stand from `s` on when the ways part. -/
theorem keeps_assignment (returnTypes : Bool) : (assignment rules returnTypes).Keeps s fun e s' => e.Stands s s' := by
  refine .step (.refl s) fun _ s₁ h₁ => .step h₁ fun _ s₂ h₂ => .ite (fun _ => ?_) fun _ => ?_
  · exact (keeps_yieldOperand rules).from_leads h₂
  refine (keeps_parenthesizedArrow hrules returnTypes).bind fun found s₃ h₃ hfound => ?_
  have h₃ := h₂.trans h₃
  cases found with
  | some e => exact .pure ((hfound e rfl).mono h₂ (.refl s₃))
  | none => ?_
  refine (keeps_asyncNameArrow hrules returnTypes).bind fun found s₄ h₄ hfound => ?_
  have h₄ := h₃.trans h₄
  cases found with
  | some e => exact .pure ((hfound e rfl).mono h₃ (.refl s₄))
  | none =>
    refine (hrules (.binary 0) s₄).bind fun lhs s₅ h₅ hlhs => .token ?_
    have hlhs : lhs.Stands s s₅ := Expr.Stands.mono hlhs h₄ (.refl s₅)
    -- behind the left side: an assignment, or perhaps a choice
    extract_lets isPlain rest
    have hrest : (rest ()).Keeps s₅ fun e s' => e.Stands s s' := by
      refine .ite (fun _ => ?_) fun _ => keeps_choice hrules returnTypes hlhs
      refine .step hlhs.leads fun _ s₆ h₆ => .step h₆ fun _ s₇ h₇ => (hrules (.assign returnTypes) s₇).bind ?_
      exact fun e s₈ _ he => .pure ((Expr.Stands.mono he h₇ (.refl s₈)).assign _ _)
    refine .ite (fun _ => .ite (fun _ => ?_) fun _ => hrest) fun _ => hrest
    exact (keeps_arrowAfterName hrules false returnTypes).from_leads hlhs.leads

/-- One expression is the answer itself; several with commas between them are a sequence, which is not searched. -/
theorem keeps_expression : (expression rules).Keeps s fun e s' => e.Stands s s' := by
  refine Keeps.withReader ((hrules (.assign true) s).bind fun first s₁ h₁ hfirst => .step (.refl s₁) fun _ s₂ h₂ => ?_)
  refine .ite (fun _ => .step (h₁.trans h₂) fun es s₃ h₃ => .pure ?_) fun _ => .pure (hfirst.mono (.refl s) h₂)
  exact Expr.stands_compound h₃

/-! ## Classes and elements -/

omit hrules in
/-- Neither what a class extends nor its members are searched. -/
theorem keeps_classTail (rules : Rules) : (classTail rules).Keeps s fun e _ => e.Closed := by
  refine .token (.when (.refl s) fun _ _ => .skip fun _ _ => .skip fun supers _ => ?_)
  exact .skip fun _ _ => .skip fun members _ => .skip fun _ _ => .pure (Expr.closed_compound (by decide))

omit hrules in
/-- Nor are the attributes and children of an element, with all expressions in them. -/
theorem keeps_elementForm (rules : Rules) (inner : Bool) : (elementForm rules inner).Keeps s fun e _ => e.Closed := by
  have hclosed : ∀ parts, (Expr.compound .element parts []).Closed := fun _ => Expr.closed_compound (by decide)
  refine .skip fun _ _ => .skip fun _ _ => .ite (fun _ => ?_) fun _ => .skip fun name _ => .skip fun _ s₁ => ?_
  · exact .skip fun _ _ => .skip fun es _ => .skip fun _ _ => .pure (hclosed es)
  refine .when (.refl s₁) fun _ _ => .skip fun attrs _ => .skip fun _ _ => .ite (fun _ => ?_) fun _ => ?_
  · exact .skip fun _ _ => .pure (hclosed attrs)
  · exact .skip fun _ _ => .skip fun es _ => .skip fun _ _ => .pure (hclosed _)

end Grammar

end ClientBoundary
