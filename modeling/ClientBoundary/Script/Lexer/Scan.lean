import ClientBoundary.Script.Dialect
import ClientBoundary.Script.Token
import ClientBoundary.Script.Lexer.Literal
import ClientBoundary.Script.Lexer.Word

/-!
# Scanning

`Lexer.next` reads one token behind a gap. The other readers serve places where the grammar decides
what a character means: inside elements, templates, patterns and type arguments.
-/

namespace ClientBoundary

namespace Lexer

/-- A string literal with its quotes. -/
def stringAt (quote : Char) (cs : List Char) : TokenKind × Nat :=
  match Literal.string? quote 0 cs with
  | some (codes, n) => (.string (Literal.textOfCodes codes), n + 1)
  | none => (.bad, 1)

/-- A template, from the opening backtick or closing brace on. -/
def templateAt (cs : List Char) : TokenKind × Nat :=
  match Literal.template? 0 cs with
  | some s => (.template s.closed s.valid, s.length + 1)
  | none => (.bad, 1)

/-- A name, from its first letter on. -/
def wordAt (cs : List Char) : TokenKind × Nat :=
  match Word.read 0 true cs with
  | some w =>
    if w.length = 0 then (.bad, 1) else (.word (String.ofList w.letters) w.escaped, w.length)
  | none => (.bad, 1)

/-- A name behind `#`. -/
def privateAt (cs : List Char) : TokenKind × Nat :=
  match Word.read 0 true cs with
  | some w =>
    if w.length = 0 then (.bad, 1) else (.privateName (String.ofList w.letters), w.length + 1)
  | none => (.bad, 1)

/-- A number. -/
def numberAt (cs : List Char) : TokenKind × Nat :=
  match Literal.number? cs with
  | some n => (.number, n)
  | none => (.bad, 1)

/-- The token at the start of a text that does not start with a gap, and its length. -/
def kindAt : List Char → TokenKind × Nat
  | [] => (.eof, 0)
  | c :: cs =>
    if Letter.isStart c || c == '\\' then wordAt (c :: cs)
    else if c.isDigit || (c == '.' && cs.head?.any Char.isDigit) then numberAt (c :: cs)
    else if c == '"' || c == '\'' then stringAt c cs
    else if c == '\x60' then templateAt cs
    else if c == '#' then privateAt cs
    else
      match Punct.ofChars? (c :: cs) with
      | some p => (.punct p, p.text.length)
      | none => (.bad, 1)

/-- The token behind the gap at the start of `cs`; `pos` characters stand before. -/
def nextFrom (dialect : Dialect) (fresh : Bool) (pos : Nat) (cs : List Char) : Token :=
  match Gap.measure (!dialect.isModule) 0 .between fresh 0 cs with
  | some (n, fresh) =>
    let source := cs.drop n
    let (kind, length) := kindAt source
    { kind, start := pos + n, stop := pos + n + length, fresh, source, rest := source.drop length }
  | none => { kind := .bad, start := pos, stop := pos, fresh, source := cs, rest := [] }

/-- The token behind `t`. -/
def next (dialect : Dialect) (t : Token) : Token := nextFrom dialect false t.stop t.rest

/-- The first token of a text. A first line that starts with `#!` is passed over, and a line counts
as ended before the first token. -/
def first (dialect : Dialect) (cs : List Char) : Token :=
  match cs with
  | '#' :: '!' :: _ =>
    let n := (cs.takeWhile fun c => !Gap.isLineEnd c).length
    nextFrom dialect true n (cs.drop n)
  | _ => nextFrom dialect true 0 cs

/-! ## Reading a place again -/

/-- A token that starts with `>` as the longest operator there. -/
def widen (t : Token) : Token :=
  if t.isPunct .greater then
    match Punct.widen? t.source with
    | some p => t.reread (.punct p) p.text.length
    | none => t
  else t

/-- A token that starts with `<` as that bracket alone. -/
def narrow (t : Token) : Token :=
  if t.isAnyPunct [.lessEq, .shiftLeft, .shiftLeftAssign] then t.reread (.punct .less) 1 else t

/-- A slash as the start of a pattern, which is read as a number would be: a value without parts. -/
def pattern (t : Token) : Token :=
  match Literal.pattern? t.source with
  | some n => t.reread .number n
  | none => t.reread .bad 1

/-- A closing brace as the continuation of a template. -/
def templateTail (t : Token) : Token :=
  let (kind, n) := templateAt (t.source.drop 1)
  t.reread kind n

/-! ## Inside elements -/

/-- Characters of a name behind its first one, where names of elements may hold hyphens. -/
def isNamePart (c : Char) : Bool := c == '-' || Letter.isContinue c

/-- What a word at the name of an element or attribute goes on with. -/
def nameTail (t : Token) : List Char := t.rest.takeWhile isNamePart

/-- The token behind the name of an element or attribute that starts with the word `t`. -/
def afterName (dialect : Dialect) (t : Token) : Token :=
  nextFrom dialect false (t.stop + (nameTail t).length) (t.rest.drop (nameTail t).length)

/-- The value behind the `=` of an attribute: a quote directly behind it starts a raw text that runs
to the next such quote. -/
def attributeValue (dialect : Dialect) (t : Token) : Token :=
  match t.rest with
  | c :: cs =>
    if c == '"' || c == '\'' then
      let body := cs.takeWhile (· != c)
      let after := cs.drop body.length
      let start := t.stop
      if after.isEmpty then { t with kind := .bad, start, source := t.rest, fresh := false, rest := [] }
      else
        { kind := .string (String.ofList body), start, stop := start + body.length + 2
          fresh := false, source := t.rest, rest := after.drop 1 }
    else next dialect t
  | [] => next dialect t

/-- What stands between the tags and holes of an element: `<` or `{` as they are, and a run of other
characters as a number would be. The run holds no closing bracket. -/
def child (t : Token) : Token :=
  let source := t.rest
  let start := t.stop
  let make (kind : TokenKind) (n : Nat) : Token :=
    { kind, start, stop := start + n, fresh := false, source, rest := source.drop n }
  match source with
  | [] => make .eof 0
  | c :: _ =>
    if c == '<' then make (.punct .less) 1
    else if c == '\x7b' then make (.punct .braceOpen) 1
    else
      let run := source.takeWhile fun c => c != '<' && c != '\x7b'
      if run.any fun c => c == '>' || c == '\x7d' then make .bad 1 else make .number run.length

/-! ## Sound tokens -/

/-- A token does not end before it starts, and a word is read from the text where it starts. -/
structure Sound (t : Token) : Prop where
  /-- it ends behind its start -/
  le : t.start ≤ t.stop
  /-- a word has letters, and its text says the same word -/
  word : ∀ text escaped, t.kind = .word text escaped → t.start < t.stop ∧ (kindAt t.source).1 = t.kind

variable {t : Token} {kind : TokenKind} {n : Nat}

theorem sound_of_le (hle : t.start ≤ t.stop) (hword : ∀ text escaped, t.kind ≠ .word text escaped) : Sound t :=
  ⟨hle, fun text escaped h => absurd h (hword text escaped)⟩

theorem wordAt_pos (cs : List Char) : 0 < (wordAt cs).2 := by
  unfold wordAt
  split
  · split
    · decide
    · rename_i hlength
      exact Nat.pos_of_ne_zero hlength
  · decide

theorem kindAt_pos {cs : List Char} {text : String} {escaped : Bool}
    (h : (kindAt cs).1 = .word text escaped) : 0 < (kindAt cs).2 := by
  cases cs with
  | nil => cases h
  | cons c cs =>
    rw [kindAt] at h ⊢
    by_cases hword : (Letter.isStart c || c == '\\') = true
    · rw [if_pos hword]
      exact wordAt_pos _
    -- no other token is a word
    rw [if_neg hword] at h
    split at h
    · unfold numberAt at h
      split at h <;> cases h
    split at h
    · unfold stringAt at h
      split at h <;> cases h
    split at h
    · unfold templateAt at h
      split at h <;> cases h
    split at h
    · unfold privateAt at h
      split at h
      · split at h <;> cases h
      · cases h
    · split at h <;> cases h

theorem sound_nextFrom (dialect : Dialect) (fresh : Bool) (pos : Nat) (cs : List Char) :
    Sound (nextFrom dialect fresh pos cs) := by
  unfold nextFrom
  split
  · refine ⟨Nat.le_add_right .., fun text escaped h => ⟨?_, rfl⟩⟩
    exact Nat.lt_add_of_pos_right (kindAt_pos h)
  · exact sound_of_le (Nat.le_refl _) (by simp)

theorem sound_next (dialect : Dialect) (t : Token) : Sound (next dialect t) := sound_nextFrom ..

theorem sound_first (dialect : Dialect) (cs : List Char) : Sound (first dialect cs) := by
  unfold first
  split <;> exact sound_nextFrom ..

theorem sound_reread (t : Token) (n : Nat) (hword : ∀ text escaped, kind ≠ .word text escaped) :
    Sound (t.reread kind n) :=
  sound_of_le (Nat.le_add_right ..) hword

theorem Sound.widen (h : Sound t) : Sound (Lexer.widen t) := by
  unfold Lexer.widen
  split
  · split
    · exact sound_reread t _ (by simp)
    · exact h
  · exact h

theorem Sound.narrow (h : Sound t) : Sound (Lexer.narrow t) := by
  unfold Lexer.narrow
  split
  · exact sound_reread t _ (by simp)
  · exact h

theorem sound_pattern (t : Token) : Sound (pattern t) := by
  unfold pattern
  split <;> exact sound_reread t _ (by simp)

theorem templateAt_ne_word (cs : List Char) (text : String) (escaped : Bool) :
    (templateAt cs).1 ≠ .word text escaped := by
  unfold templateAt
  split <;> simp

theorem sound_templateTail (t : Token) : Sound (templateTail t) :=
  sound_reread t _ fun text escaped => templateAt_ne_word _ text escaped

theorem sound_attributeValue (dialect : Dialect) (t : Token) : Sound (attributeValue dialect t) := by
  unfold attributeValue
  split
  · split
    · dsimp only
      split
      · exact sound_of_le (Nat.le_refl _) (by simp)
      · exact sound_of_le (Nat.le_trans (Nat.le_add_right _ _) (Nat.le_add_right _ _)) (by simp)
    · exact sound_next dialect t
  · exact sound_next dialect t

theorem sound_child (t : Token) : Sound (child t) := by
  unfold child
  dsimp only
  split
  · exact sound_of_le (Nat.le_add_right ..) (by simp)
  · split
    · exact sound_of_le (Nat.le_add_right ..) (by simp)
    · split
      · exact sound_of_le (Nat.le_add_right ..) (by simp)
      · split <;> exact sound_of_le (Nat.le_add_right ..) (by simp)

end Lexer

end ClientBoundary
