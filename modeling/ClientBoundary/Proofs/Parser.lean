import ClientBoundary.Script.Parser

/-!
# What parsers keep

`p.Keeps s kept` says what holds of every answer that the parser `p` gives from the state `s` on, and of the state
behind it. There is one rule for each way to put parsers together, so a proof about a grammar rule goes through
the rule step by step: `Keeps.bind` takes what is known about the next step, `Keeps.step` passes a step of which
only matters that it goes forward, `Keeps.ite` splits, and `Keeps.loop` carries an invariant through a repetition.

Reading goes forward, which every answer carries with it. So the current token never moves back in the text
(`Leads.pos_le`), and as long as nothing wrong was read, it stands in the text where it says (`Leads.follows`).
-/

namespace ClientBoundary

variable {s s₀ s₁ s' s'' : ParseState} {setting : Setting}

/-! ## Going forward -/

/-- Space and comments in front of a token are passed, so it starts no earlier than where it is looked for. -/
theorem Lexer.le_start_nextFrom (dialect : Dialect) (fresh : Bool) (pos : Nat) (cs : List Char) :
    pos ≤ (nextFrom dialect fresh pos cs).start := by
  unfold nextFrom
  split
  · exact Nat.le_add_right ..
  · exact Nat.le_refl _

/-- **No move goes back.** A token that is read again keeps its start; all others are looked for where the token
ends that was there before, and a sound token does not end before it starts. -/
theorem Move.start_le (dialect : Dialect) (m : Move) {t : Token} (h : Lexer.Sound t) :
    t.start ≤ (m.target dialect t).start := by
  have hle := h.le
  have hnext : t.start ≤ (Lexer.next dialect t).start :=
    Nat.le_trans hle (Lexer.le_start_nextFrom dialect false t.stop t.rest)
  cases m with
  | next => exact hnext
  | widen =>
    simp only [target, Lexer.widen]
    split
    · split <;> exact Nat.le_refl _
    · exact Nat.le_refl _
  | narrow =>
    simp only [target, Lexer.narrow]
    split <;> exact Nat.le_refl _
  | pattern =>
    simp only [target, Lexer.pattern]
    split <;> exact Nat.le_refl _
  | templateTail => exact Nat.le_refl _
  | afterName => exact Nat.le_trans (Nat.le_trans hle (Nat.le_add_right ..)) (Lexer.le_start_nextFrom ..)
  | attributeValue =>
    simp only [target, Lexer.attributeValue]
    split
    · split
      · split <;> exact hle
      · exact hnext
    · exact hnext
  | child =>
    simp only [target, Lexer.child]
    repeat' split
    all_goals exact hle

namespace ParseState

/-- Where the current token starts. -/
def pos (s : ParseState) : Nat := s.token.start

/-- The current token never moves back in the text, however many moves lie between two states. -/
theorem Leads.pos_le (h : s.Leads s') : s.pos ≤ s'.pos := by
  induction h with
  | refl => exact Nat.le_refl _
  | move dialect m _ ih => exact Nat.le_trans ih (m.start_le dialect (ParseState.sound _))
  | note _ htoken _ ih => exact Nat.le_trans ih (Nat.le_of_eq (congrArg Token.start htoken.symm))

/-- What is wrong stays wrong, so a state in which nothing is wrong comes from states in which nothing was. -/
theorem Leads.faulty_eq_false (h : s.Leads s') (hs' : s'.faulty = false) : s.faulty = false := by
  induction h with
  | refl => exact hs'
  | move dialect m _ ih => exact ih (Bool.or_eq_false_iff.1 hs').1
  | note _ _ hfaulty ih =>
    refine ih (Bool.eq_false_iff.2 fun hbefore => ?_)
    rw [hfaulty hbefore] at hs'
    cases hs'

/-- A word that stands at `s` and is passed before `s'`. -/
structure Passes (s : ParseState) (w : String) (s' : ParseState) : Prop where
  /-- the states follow each other -/
  leads : s.Leads s'
  /-- the word -/
  word : s.token.isWord w = true
  /-- it is passed -/
  lt : s.pos < s'.pos

theorem Passes.leads_trans {w : String} (h : s.Passes w s₁) (hs : s₁.Leads s') : s.Passes w s' :=
  ⟨h.leads.trans hs, h.word, Nat.lt_of_lt_of_le h.lt hs.pos_le⟩

end ParseState

/-! ## Standing in the text -/

/-- A token that stands in a text where it says. -/
structure Token.Follows (t : Token) (text : List Char) : Prop where
  /-- its own text -/
  source : t.source = text.drop t.start
  /-- the text behind it -/
  rest : t.rest = text.drop t.stop

namespace Token.Follows

variable {t : Token} {text cs : List Char}

/-- A token that is looked for at a place of the text is found behind the gap there. Only a gap that does not end,
in an open comment, gives a token that stands nowhere, and that one is bad. -/
theorem nextFrom (dialect : Dialect) (fresh : Bool) {pos : Nat} (h : cs = text.drop pos)
    (hbad : (Lexer.nextFrom dialect fresh pos cs).kind ≠ .bad) :
    (Lexer.nextFrom dialect fresh pos cs).Follows text := by
  unfold Lexer.nextFrom at hbad ⊢
  split
  · rename_i n fresh hgap
    rw [h, List.drop_drop]
    refine ⟨rfl, ?_⟩
    change (text.drop (pos + n)).drop (Lexer.kindAt (text.drop (pos + n))).2 = _
    exact List.drop_drop
  · rename_i hnone
    rw [hnone] at hbad
    exact absurd rfl hbad

/-- The first token may come behind a line that starts with `#!`; it is looked for where this line ends. -/
theorem first (dialect : Dialect) (hbad : (Lexer.first dialect text).kind ≠ .bad) :
    (Lexer.first dialect text).Follows text := by
  revert hbad
  unfold Lexer.first
  split <;> exact nextFrom dialect true rfl

/-- Reading a token again, as something longer or shorter, moves only its end. -/
theorem reread (h : t.Follows text) (kind : TokenKind) (n : Nat) : (t.reread kind n).Follows text :=
  ⟨h.source, by
    change t.source.drop n = text.drop (t.start + n)
    rw [h.source, List.drop_drop]⟩

/-- **Moves stay in the text.** A move to a token that is not bad ends where the text says, if it started there:
each token is read from what is left behind the one before. -/
theorem target (h : t.Follows text) (dialect : Dialect) (m : Move) (hbad : (m.target dialect t).kind ≠ .bad) :
    (m.target dialect t).Follows text := by
  cases m with
  | next => exact nextFrom dialect false h.rest hbad
  | widen =>
    simp only [Move.target, Lexer.widen]
    split
    · split
      · exact h.reread _ _
      · exact h
    · exact h
  | narrow =>
    simp only [Move.target, Lexer.narrow]
    split
    · exact h.reread _ _
    · exact h
  | pattern =>
    simp only [Move.target, Lexer.pattern]
    split <;> exact h.reread _ _
  | templateTail => exact h.reread _ _
  | afterName => exact nextFrom dialect false (by rw [h.rest, List.drop_drop]) hbad
  | attributeValue =>
    simp only [Move.target, Lexer.attributeValue] at hbad ⊢
    split at hbad
    · rename_i c cs hrest
      split at hbad
      · rename_i hquote
        split at hbad
        · exact absurd rfl hbad
        · rename_i hafter
          rw [if_pos hquote, if_neg hafter]
          refine ⟨h.rest, ?_⟩
          have hdrop : text.drop t.stop = c :: cs := h.rest.symm.trans hrest
          change (cs.drop _).drop 1 = text.drop (t.stop + _ + 2)
          rw [Nat.add_assoc, ← List.drop_drop, hdrop, List.drop_drop]
          rfl
      · rename_i hquote
        rw [if_neg hquote]
        exact nextFrom dialect false h.rest hbad
    · exact nextFrom dialect false h.rest hbad
  | child =>
    have hmake : ∀ kind n, (⟨kind, t.stop, t.stop + n, false, t.rest, t.rest.drop n⟩ : Token).Follows text := by
      intro kind n
      exact ⟨h.rest, by rw [h.rest, List.drop_drop]⟩
    simp only [Move.target, Lexer.child]
    repeat' split
    all_goals exact hmake _ _

end Token.Follows

/-- **As long as nothing wrong was read**, the current token stands in the text where it says. -/
theorem ParseState.Leads.follows {text : List Char} (h : s.Leads s')
    (hs : s.faulty = false → s.token.Follows text) (hs' : s'.faulty = false) : s'.token.Follows text := by
  induction h with
  | refl => exact hs hs'
  | move dialect m _ ih =>
    obtain ⟨hbefore, hbad⟩ := Bool.or_eq_false_iff.1 hs'
    exact (ih hbefore).target dialect m (by simpa using hbad)
  | note h htoken hfaulty ih =>
    rw [htoken]
    exact ih (Leads.faulty_eq_false (.note (.refl _) htoken hfaulty) hs')

namespace Parser

variable {α β σ : Type} {p q : Parser α} {f : α → Parser β} {a : α} {kept : α → ParseState → Prop}
  {keptNext : β → ParseState → Prop}

/-! ## Steps -/

/-- What holds of each answer from the state `s` on, and of the state behind it. -/
def Keeps (p : Parser α) (s : ParseState) (kept : α → ParseState → Prop) : Prop :=
  ∀ setting r, p setting s = some r → kept r.value r.next

/-- What is kept may be replaced by what follows from it; that reading went forward may be used as well. -/
theorem Keeps.imp {kept' : α → ParseState → Prop} (h : p.Keeps s kept)
    (himp : ∀ a s', s.Leads s' → kept a s' → kept' a s') : p.Keeps s kept' :=
  fun setting r hr => himp _ _ r.leads (h setting r hr)

theorem Keeps.pure (h : kept a s) : (pure a : Parser α).Keeps s kept := by
  intro setting r hr
  cases hr
  exact h

/-- **One step after the other.** The second parser starts where the first one stopped, with what is known about its
answer and about this state. -/
theorem Keeps.bind (hp : p.Keeps s kept) (hf : ∀ a s', s.Leads s' → kept a s' → (f a).Keeps s' keptNext) :
    (p >>= f).Keeps s keptNext := by
  intro setting r hr
  obtain ⟨r₁, hp₁, hr⟩ := Option.bind_eq_some_iff.1 hr
  obtain ⟨r₂, hf₂, rfl⟩ := Option.map_eq_some_iff.1 hr
  exact hf _ _ r₁.leads (hp setting r₁ hp₁) setting r₂ hf₂

/-- A step of which nothing matters. -/
theorem Keeps.skip (hf : ∀ a s', (f a).Keeps s' keptNext) : (p >>= f).Keeps s keptNext := by
  have hany : p.Keeps s fun _ _ => True := fun _ _ _ => trivial
  exact hany.bind fun a s' _ _ => hf a s'

/-- A step of which only matters that it goes forward, seen from a state before. -/
theorem Keeps.step (h : s₀.Leads s) (hf : ∀ a s', s₀.Leads s' → (f a).Keeps s' keptNext) :
    (p >>= f).Keeps s keptNext := by
  have hany : p.Keeps s fun _ _ => True := fun _ _ _ => trivial
  exact hany.bind fun a s' h' _ => hf a s' (h.trans h')

theorem keeps_failure : (failure : Parser α).Keeps s kept := by
  intro setting r hr
  cases hr

theorem Keeps.ite {c : Prop} [Decidable c] (hp : c → p.Keeps s kept) (hq : ¬ c → q.Keeps s kept) :
    (if c then p else q).Keeps s kept := by
  split
  · exact hp ‹_›
  · exact hq ‹_›

/-- A step that is taken under a condition, of which only matters that it goes forward. -/
theorem Keeps.when {c : Prop} [Decidable c] {p : Parser Unit} {f : Unit → Parser β} (h : s₀.Leads s)
    (hf : ∀ s', s₀.Leads s' → (f ()).Keeps s' keptNext) : (if c then p >>= f else f ()).Keeps s keptNext :=
  .ite (fun _ => .step h fun _ s' h' => hf s' h') fun _ => hf s h

/-- One of two steps, of which only matters that it goes forward. -/
theorem Keeps.either {c : Prop} [Decidable c] (h : s₀.Leads s)
    (hf : ∀ a s', s₀.Leads s' → (f a).Keeps s' keptNext) : (if c then p >>= f else q >>= f).Keeps s keptNext :=
  .ite (fun _ => .step h hf) fun _ => .step h hf

/-- Settings decide what is read and what fails. What is kept holds in every setting, so a change of it does not
matter. -/
theorem Keeps.withReader {change : Setting → Setting} (h : p.Keeps s kept) :
    (withReader change p : Parser α).Keeps s kept :=
  fun setting r hr => h (change setting) r hr

/-- An attempt that fails goes back and answers nothing, so something is kept only if something was found. -/
theorem Keeps.attempt (h : p.Keeps s kept) :
    (attempt p).Keeps s fun found s' => ∀ a, found = some a → kept a s' := by
  intro setting r hr a ha
  unfold Parser.attempt at hr
  split at hr
  · rename_i r₁ hp
    cases hr
    cases ha
    exact h setting r₁ hp
  · cases hr
    cases ha

/-! ## The current token -/

theorem keeps_token : token.Keeps s fun t s' => t = s.token ∧ s' = s := by
  intro setting r hr
  cases hr
  exact ⟨rfl, rfl⟩

/-- A parser that looks at the current token goes on with this one, without a move. -/
theorem Keeps.token {f : Token → Parser β} (hf : (f s.token).Keeps s keptNext) : (token >>= f).Keeps s keptNext := by
  refine keeps_token.bind ?_
  rintro _ _ - ⟨rfl, rfl⟩
  exact hf

theorem keeps_isAtWord (w : String) : (isAtWord w).Keeps s fun b s' => b = s.token.isWord w ∧ s' = s :=
  .token (.pure ⟨rfl, rfl⟩)

theorem keeps_read : (read : Parser Setting).Keeps s fun _ s' => s' = s := by
  intro setting r hr
  cases hr
  rfl

/-- Looking at the token after the current one does not move either. -/
theorem keeps_peek : peek.Keeps s fun _ s' => s' = s := by
  intro setting r hr
  cases hr
  rfl

/-- A glance goes back to where it started, whatever it has read. -/
theorem keeps_glance {otherwise : α} : (glance otherwise p).Keeps s fun _ s' => s' = s := by
  intro setting r hr
  cases hr
  rfl

theorem Token.word?_eq_some {t : Token} {text : String} (h : t.word? = some text) :
    ∃ escaped, t.kind = .word text escaped := by
  unfold Token.word? at h
  split at h
  · rename_i hkind
    cases h
    exact ⟨_, hkind⟩
  · cases h

/-- The token behind a word starts behind the start of the word. -/
theorem keeps_pass {text : String} (hword : s.token.word? = some text) : pass.Keeps s fun _ s' => s.pos < s'.pos := by
  intro setting r hr
  cases hr
  obtain ⟨escaped, hkind⟩ := Token.word?_eq_some hword
  exact Nat.lt_of_lt_of_le (s.sound.word text escaped hkind).1 (Lexer.le_start_nextFrom ..)

/-- Something wrong is noted without a move. -/
theorem keeps_flagIf (wrong : Bool) : (flagIf wrong).Keeps s fun _ s' => s'.token = s.token := by
  intro setting r hr
  cases wrong <;> cases hr <;> rfl

/-- So does the token to which a word is passed with a check: a keyword with escapes is noted first, and then passed
all the same. -/
theorem keeps_advance {text : String} (hword : s.token.word? = some text) :
    advance.Keeps s fun _ s' => s.pos < s'.pos := by
  refine .token ?_
  have hpass : ∀ s', s'.token = s.token → pass.Keeps s' fun _ s'' => s.pos < s''.pos := by
    intro s' hs'
    rw [ParseState.pos, ← hs']
    exact keeps_pass (hs' ▸ hword)
  split
  · exact (keeps_flagIf _).bind fun _ s' _ hs' => hpass s' hs'
  · exact hpass s rfl

/-- **A word that is asked for** stands where the parser started, and is passed when it answers. -/
theorem keeps_expectWord (w : String) : (expectWord w).Keeps s fun _ s' => s.Passes w s' := by
  refine (keeps_isAtWord w).bind ?_
  rintro _ _ - ⟨rfl, rfl⟩
  refine .ite (fun hword => ?_) fun _ => keeps_failure
  exact (keeps_advance (beq_iff_eq.1 hword)).imp fun _ _ hs hlt => ⟨hs, hword, hlt⟩

/-- A word of any kind is passed as well, and the answer says which one it was. -/
theorem keeps_anyWord : anyWord.Keeps s fun w s' => s.Passes w s' := by
  refine .token ?_
  split
  · rename_i w hword
    refine (keeps_pass hword).bind fun _ s' hs hlt => .pure ⟨hs, ?_, hlt⟩
    rw [Token.isWord, hword, beq_self_eq_true]
  · exact keeps_failure

/-! ## Repetition -/

/-- **An invariant of a repetition** is there when it answers. -/
theorem Keeps.loop {start : σ} {body : σ → Parser (σ ⊕ α)} (inv : σ → ParseState → Prop) (hstart : inv start s)
    (hbody : ∀ x s, inv x s → (body x).Keeps s fun out s' =>
      match out with
      | .inl y => inv y s'
      | .inr a => kept a s') :
    (loop start body).Keeps s kept := by
  have hbounded : ∀ n x s, inv x s → (loopAtMost body n x).Keeps s kept := by
    intro n
    induction n with
    | zero => exact fun _ _ _ => keeps_failure
    | succ n ih =>
      intro x s hx
      refine (hbody x s hx).bind fun out s' _ hout => ?_
      cases out with
      | inl y => exact ih y s' hout
      | inr a => exact .pure hout
  refine keeps_read.bind ?_
  rintro setting _ - rfl
  exact hbounded _ _ _ hstart

/-- What a list that was read item by item is made of: each item from one state to another. -/
inductive Row (item : α → ParseState → ParseState → Prop) : List α → ParseState → ParseState → Prop where
  /-- no item -/
  | nil {s s' : ParseState} (h : s.Leads s') : Row item [] s s'
  /-- an item and the ones behind it -/
  | cons {a : α} {as : List α} {s s₁ s₂ s' : ParseState} (h : s.Leads s₁) (ha : item a s₁ s₂)
    (has : Row item as s₂ s') : Row item (a :: as) s s'

variable {item : α → ParseState → ParseState → Prop} {as done : List α}

theorem Row.of_leads (h : s.Leads s₁) (has : Row item as s₁ s') : Row item as s s' := by
  cases has with
  | nil h' => exact .nil (h.trans h')
  | cons h' ha has => exact .cons (h.trans h') ha has

/-- What is read behind the last item, a bracket that closes or a comma, belongs to the row. -/
theorem Row.leads_trans (has : Row item as s s₁) (h : s₁.Leads s') : Row item as s s' := by
  induction has with
  | nil h' => exact .nil (h'.trans h)
  | cons h' ha _ ih => exact .cons h' ha (ih h)

/-- A row grows at its end, where a repetition puts its next item. -/
theorem Row.snoc (has : Row item as s s₁) (ha : item a s₁ s') : Row item (as ++ [a]) s s' := by
  induction has with
  | nil h => exact .cons h ha (.nil (.refl _))
  | cons h ha' _ ih => exact .cons h ha' (ih ha)

/-- What is known about each item may be replaced by what follows from it. -/
theorem Row.imp {item' : α → ParseState → ParseState → Prop} (has : Row item as s s')
    (himp : ∀ a s s', item a s s' → item' a s s') : Row item' as s s' := by
  induction has with
  | nil h => exact .nil h
  | cons h ha _ ih => exact .cons h (himp _ _ _ ha) ih

theorem Row.map {item' : β → ParseState → ParseState → Prop} (g : α → β)
    (has : Row (fun a => item' (g a)) as s s') : Row item' (as.map g) s s' := by
  induction has with
  | nil h => exact .nil h
  | cons h ha _ ih => exact .cons h ha ih

/-- One more item in front of those that were read, last one first. -/
theorem Row.snoc_reverse (has : Row item done.reverse s s₁) (ha : item a s₁ s') :
    Row item (a :: done).reverse s s' := by
  rw [List.reverse_cons]
  exact has.snoc ha

variable (hitem : ∀ s, p.Keeps s fun a s' => item a s s')
include hitem

/-- **Items with commas between them** are a row. A repetition collects them last one first; the invariant is that
what is collected so far, turned round, is a row up to the current state. -/
theorem keeps_commaList (close : Punct) : (commaList close p).Keeps s fun out s' => Row item out.1 s s' := by
  refine .step (.refl s) fun _ s₁ h₁ => .ite (fun _ => .pure (.nil h₁)) fun _ => ?_
  refine (hitem s₁).bind fun first s₂ _ hfirst => ?_
  have hstart : Row item [first].reverse s s₂ := .cons h₁ hfirst (.nil (.refl _))
  refine .loop (fun done s' => Row item done.reverse s s') hstart fun done s₃ hdone => ?_
  refine .step (.refl s₃) fun _ s₄ h₄ => .ite (fun _ => .pure (hdone.leads_trans h₄)) fun _ => ?_
  refine .step h₄ fun _ s₅ h₅ => .step h₅ fun _ s₆ h₆ => .ite (fun _ => .pure (hdone.leads_trans h₆)) fun _ => ?_
  exact (hitem s₆).bind fun a s₇ _ ha => .pure ((hdone.leads_trans h₆).snoc_reverse ha)

/-- Items up to a bracket that closes are a row as well, with nothing between them. -/
theorem keeps_itemsUntil (close : Punct) : (itemsUntil close p).Keeps s fun as s' => Row item as s s' := by
  refine .loop (fun done s' => Row item done.reverse s s') (.nil (.refl s)) fun done s₁ hdone => ?_
  refine .step (.refl s₁) fun _ s₂ h₂ => .ite (fun _ => .pure (hdone.leads_trans h₂)) fun _ => ?_
  exact (hitem s₂).bind fun a s₃ _ ha => .pure ((hdone.leads_trans h₂).snoc_reverse ha)

end Parser

end ClientBoundary
