import ClientBoundary.Json.Comments
import ClientBoundary.Proofs.Lexeme

/-!
# Documents with comments

A document may be **decorated**: comments and blanks stand between its tokens, and a comma behind the last item
of an array or an object (`Decorates`). `JsonComments.strip` takes the decoration off: a comment goes or leaves a
blank (`Trivia.go_eq`), a token is written as it stands (`go_lexeme`), and a comma before a closing bracket goes
with the blanks behind it. What is left has the tokens of the plain document, and a plain document stays as it is.
-/

namespace ClientBoundary

open JsonToken

namespace JsonComments

variable {cs ds written blanks lexeme text : List Char} {c : Char} {t : JsonToken} {n : Nat}

/-! ## Decorations -/

/-- What may be put between tokens. -/
inductive Trivia : List Char → Prop where
  /-- a blank -/
  | blank {c : Char} (h : isBlank c = true) : Trivia [c]
  /-- a comment up to the end of its line -/
  | line {text : List Char} (h : '\n' ∉ text) : Trivia ('/' :: '/' :: text ++ ['\n'])
  /-- a comment in brackets -/
  | block {text : List Char} (h : ¬ ['*', '/'] <:+: text) : Trivia ('/' :: '*' :: text ++ ['*', '/'])

/-- Whether a token may be the last one of a value. -/
def endsValue : JsonToken → Bool
  | .string _ | .number _ | .word _ | .braceClose | .bracketClose => true
  | _ => false

/-- The next token closes an array or an object. -/
def Closes (cs : List Char) : Prop := ∃ t n, first? (cs.dropWhile isBlank) = some (t, n) ∧ t.isClose = true

/-- **A decorated document.** Behind the token `prev`, the text `ds` is the plain text `cs` with decorations;
`added` if a comma was put behind `prev`. -/
inductive Decorates : (prev : Option JsonToken) → (added : Bool) → (cs ds : List Char) → Prop where
  /-- nothing is left -/
  | done {prev : Option JsonToken} {added : Bool} : Decorates prev added [] []
  /-- a comment that ends with the text -/
  | remark {prev : Option JsonToken} {added : Bool} {text : List Char} (h : '\n' ∉ text) :
    Decorates prev added [] ('/' :: '/' :: text)
  /-- a blank of the plain text, which may be put back -/
  | blank {prev : Option JsonToken} {added : Bool} {c : Char} {cs ds : List Char} (hc : isBlank c = true)
    (h : Decorates prev added cs ds) : Decorates prev added (c :: cs) ds
  /-- a blank or a comment that is put in -/
  | trivia {prev : Option JsonToken} {added : Bool} {new cs ds : List Char} (hnew : Trivia new)
    (h : Decorates prev added cs ds) : Decorates prev added cs (new ++ ds)
  /-- a comma behind the last item -/
  | comma {t : JsonToken} {cs ds : List Char} (hends : endsValue t = true) (hcloses : Closes cs)
    (h : Decorates (some t) true cs ds) : Decorates (some t) false cs (',' :: ds)
  /-- a token of the plain text -/
  | token {prev : Option JsonToken} {added : Bool} {t : JsonToken} {lexeme cs ds : List Char}
    (hfirst : first? (lexeme ++ cs) = some (t, lexeme.length)) (h : Decorates (some t) false cs ds) :
    Decorates prev added (lexeme ++ cs) (lexeme ++ ds)

/-! ## Between tokens -/

theorem isBlank_cases (h : isBlank c = true) : c = ' ' ∨ c = '\t' ∨ c = '\n' ∨ c = '\r' := by
  simpa [JsonToken.isBlank, or_assoc] using h

/-- A blank is written as it stands. -/
theorem go_blank (h : isBlank c = true) (written cs : List Char) :
    go .between written (c :: cs) = go .between (c :: written) cs := by
  rcases isBlank_cases h with rfl | rfl | rfl | rfl <;> rfl

/-- A comment up to the end of its line goes, and the end of the line stays. -/
theorem go_line (h : '\n' ∉ text) (written cs : List Char) :
    go .line written (text ++ '\n' :: cs) = go .between ('\n' :: written) cs := by
  induction text with
  | nil => rfl
  | cons c text ih =>
    obtain ⟨hc, htext⟩ := not_or.1 (List.mem_cons.not.1 h)
    rw [List.cons_append, go, if_neg (by simpa using Ne.symm hc), ih htext]

/-- A comment that ends with the text goes with all of it. -/
theorem go_line_end (h : '\n' ∉ text) (written : List Char) : go .line written text = written.reverse := by
  induction text with
  | nil => rfl
  | cons c text ih =>
    obtain ⟨hc, htext⟩ := not_or.1 (List.mem_cons.not.1 h)
    rw [go, if_neg (by simpa using Ne.symm hc), ih htext]

/-- A comment in brackets ends at its first closing bracket. -/
theorem go_block (starred : Bool) (h : ¬ ['*', '/'] <:+: text)
    (hstarred : starred = true → text.head? ≠ some '/') (written cs : List Char) :
    go (.block starred) written (text ++ '*' :: '/' :: cs) = go .between written cs := by
  induction text generalizing starred with
  | nil => cases starred <;> rfl
  | cons c text ih =>
    have hopen : ¬ (starred && c == '/') = true := by
      rw [Bool.and_eq_true, beq_iff_eq]
      rintro ⟨hs, rfl⟩
      exact hstarred hs rfl
    rw [List.cons_append, go, if_neg hopen]
    refine ih _ (fun hinside => h (hinside.trans (List.suffix_cons c text).isInfix)) fun hc hhead => ?_
    obtain ⟨text', rfl⟩ := List.head?_eq_some_iff.1 hhead
    rw [beq_iff_eq] at hc
    exact h ⟨[], text', by rw [hc]; rfl⟩

/-- **Trivia leave blanks.** -/
theorem Trivia.go_eq (h : Trivia ds) :
    ∃ blanks, (∀ c ∈ blanks, isBlank c = true) ∧
      ∀ written cs, go .between written (ds ++ cs) = go .between (blanks ++ written) cs := by
  cases h with
  | @blank c h => exact ⟨[c], by simpa using h, go_blank h⟩
  | @line text h =>
    refine ⟨['\n'], by simp [JsonToken.isBlank], fun written cs => ?_⟩
    have hslash : '\n' ∉ '/' :: text := by simpa using h
    have hgo := go_line hslash written cs
    rw [List.append_assoc]
    exact hgo
  | @block text h =>
    refine ⟨[], by simp, fun written cs => ?_⟩
    have hgo := go_block false h (by simp) written cs
    rw [List.append_assoc]
    exact hgo

/-! ## Tokens -/

/-- Characters that are written as they stand. -/
def Plain (cs : List Char) : Prop := ∀ c ∈ cs, c ≠ '"' ∧ c ≠ '/' ∧ c ≠ ']' ∧ c ≠ '\x7d'

/-- Between tokens, all but quotes, slashes and closing brackets is written without a look at it. -/
theorem go_plain (h : Plain cs) (written rest : List Char) :
    go .between written (cs ++ rest) = go .between (cs.reverse ++ written) rest := by
  induction cs generalizing written with
  | nil => rfl
  | cons c cs ih =>
    obtain ⟨⟨hquote, hslash, hbracket, hbrace⟩, hcs⟩ := List.forall_mem_cons.1 h
    rw [List.cons_append, go, if_neg (by simpa using hquote), if_neg (by simpa using hslash),
      if_neg (by simp [hbracket, hbrace]), ih hcs]
    simp

/-- Digits of an escape are neither quotes nor backslashes, so they are written like other characters of a string.
-/
theorem go_hex (h : ∀ c ∈ cs, hex? c ≠ none) (written rest : List Char) :
    go .string written (cs ++ rest) = go .string (cs.reverse ++ written) rest := by
  induction cs generalizing written with
  | nil => rfl
  | cons c cs ih =>
    obtain ⟨hc, hcs⟩ := List.forall_mem_cons.1 h
    have hslash : c ≠ '\\' := by
      rintro rfl
      exact hc rfl
    have hquote : c ≠ '"' := by
      rintro rfl
      exact hc rfl
    rw [List.cons_append, go, if_neg (by simpa using hslash), if_neg (by simpa using hquote), ih hcs]
    simp

/-- An escape is written as it stands. Only its first character is skipped without a look, and the others stop
nothing. -/
theorem go_escaped (h : Escaped c cs) (written rest : List Char) :
    go .escaped written (cs ++ rest) = go .string (cs.reverse ++ written) rest := by
  cases h with
  | short h => rfl
  | @unit cs d h hlength hhex =>
    have hgo : go .escaped written ('u' :: cs ++ rest) = go .string ('u' :: written) (cs ++ rest) := rfl
    rw [hgo, go_hex hhex]
    simp
  | @pair cs ds d h hcs hds hhex =>
    obtain ⟨hhex₁, hhex₂⟩ := List.forall_mem_append.1 hhex
    have hgo : go .escaped written ('u' :: cs ++ '\\' :: 'u' :: ds ++ rest) =
        go .string ('u' :: written) (cs ++ ('\\' :: 'u' :: ds ++ rest)) := by
      rw [List.append_assoc]
      rfl
    have hgo' : ∀ written, go .string written ('\\' :: 'u' :: ds ++ rest) =
        go .string ('u' :: '\\' :: written) (ds ++ rest) := fun _ => rfl
    rw [hgo, go_hex hhex₁, hgo', go_hex hhex₂]
    simp

/-- The inside of a string stays as it is. -/
theorem go_quoted (h : Quoted text cs) (written rest : List Char) :
    go .string written (cs ++ rest) = go .between (cs.reverse ++ written) rest := by
  induction h generalizing written with
  | close => rfl
  | @plain c text cs hquote hslash hcontrol h ih =>
    rw [List.cons_append, go, hslash, hquote, if_neg Bool.false_ne_true, if_neg Bool.false_ne_true, ih]
    simp
  | @escape d escape text cs hescape h ih =>
    have hgo : go .string written ('\\' :: escape ++ cs ++ rest) =
        go .escaped ('\\' :: written) (escape ++ (cs ++ rest)) := by
      rw [List.append_assoc]
      rfl
    rw [hgo, go_escaped hescape, ih]
    simp

theorem plain_of_numeric (h : Numeral.Numeric cs) : Plain cs := by
  intro c hc
  refine ⟨?_, ?_, ?_, ?_⟩
  all_goals
    rintro rfl
    exact absurd (h.chars _ hc) (by decide)

theorem plain_of_mem_words {w : String} (h : w ∈ words) : Plain w.toList := by
  simp only [words, List.mem_cons, List.not_mem_nil, or_false] at h
  rcases h with rfl | rfl | rfl <;> simp [Plain]

/-! ### Commas -/

/-- What is written does not end in a comma. -/
def Settled (written : List Char) : Prop := (written.dropWhile Text.isBlank).head? ≠ some ','

/-- Blanks of a document are white space. The converse fails, which does no harm: other white space stands in strings
only. -/
theorem textBlank_of_isBlank (h : isBlank c = true) : Text.isBlank c = true := by
  rcases isBlank_cases h with rfl | rfl | rfl | rfl <;> rfl

/-- Blanks are passed on the way back to a comma. -/
theorem dropWhile_blanks (h : ∀ c ∈ blanks, isBlank c = true) (written : List Char) :
    (blanks ++ written).dropWhile Text.isBlank = written.dropWhile Text.isBlank :=
  List.dropWhile_append_of_pos fun c hc => textBlank_of_isBlank (h c hc)

/-- Blanks do not bring a comma to the end. -/
theorem Settled.append_blanks (h : ∀ c ∈ blanks, isBlank c = true) (hsettled : Settled written) :
    Settled (blanks ++ written) := by
  rwa [Settled, dropWhile_blanks h]

/-- Where no comma is, nothing is taken away. -/
theorem dropComma_of_settled (h : Settled written) : dropComma written = written := by
  unfold dropComma
  split
  · rename_i heq
    exact absurd (congrArg List.head? heq) h
  · rfl

/-- A comma is taken away with the blanks behind it. -/
theorem dropComma_blanks (h : ∀ c ∈ blanks, isBlank c = true) (written : List Char) :
    dropComma (blanks ++ ',' :: written) = written := by
  rw [dropComma, dropWhile_blanks h]
  rfl

theorem not_textBlank_of_isDigit (h : c.isDigit = true) : Text.isBlank c = false := by
  have hc : 48 ≤ c.toNat ∧ c.toNat ≤ 57 := by
    simpa [Char.isDigit, UInt32.le_iff_toNat_le] using h
  simp only [Text.isBlank, Text.singleBlanks, List.contains_eq_mem, List.mem_cons, List.not_mem_nil, or_false,
    Bool.or_eq_false_iff, Bool.and_eq_false_iff, decide_eq_false_iff_not]
  omega

/-- A string ends with its closing quote, even if there is an escaped one before. -/
theorem getLast?_quoted (h : Quoted text cs) : cs.getLast? = some '"' := by
  induction h with
  | close => rfl
  | plain hquote hslash hcontrol h ih => rw [List.getLast?_cons, ih]; rfl
  | escape hescape h ih => rw [List.getLast?_append, ih]; rfl

/-- A lexeme does not end in a blank, nor in a comma unless it is one. -/
theorem exists_last (h : JsonToken.Lexeme lexeme t) :
    ∃ c, lexeme.getLast? = some c ∧ Text.isBlank c = false ∧ (c = ',' → t = .comma) := by
  cases h with
  | @mark c t h =>
    refine ⟨c, rfl, ?_⟩
    simp only [marks, List.mem_cons, List.not_mem_nil, or_false, Prod.mk.injEq] at h
    rcases h with ⟨rfl, rfl⟩ | ⟨rfl, rfl⟩ | ⟨rfl, rfl⟩ | ⟨rfl, rfl⟩ | ⟨rfl, rfl⟩ | ⟨rfl, rfl⟩ <;> decide
  | string h =>
    refine ⟨'"', ?_, by decide, fun hcomma => absurd hcomma (by decide)⟩
    rw [List.getLast?_cons, getLast?_quoted h]
    rfl
  | number h hnumeric =>
    obtain ⟨⟨c, hc, -⟩, -⟩ := h
    have hne : lexeme ≠ [] := by
      rintro rfl
      cases hc
    refine ⟨lexeme.getLast hne, List.getLast?_eq_some_getLast hne, ?_, ?_⟩
    · exact not_textBlank_of_isDigit (hnumeric.last _ (List.getLast?_eq_some_getLast hne))
    · intro hcomma
      have hdigit := hnumeric.last _ (List.getLast?_eq_some_getLast hne)
      rw [hcomma] at hdigit
      cases hdigit
  | @word w h =>
    simp only [words, List.mem_cons, List.not_mem_nil, or_false] at h
    rcases h with rfl | rfl | rfl
    · exact ⟨'e', by simp, by decide, by decide⟩
    · exact ⟨'e', by simp, by decide, by decide⟩
    · exact ⟨'l', by simp, by decide, by decide⟩

/-- Behind a token that is no comma, what is written does not end in one. So a closing bracket may look back there.
-/
theorem settled_lexeme (h : JsonToken.Lexeme lexeme t) (written : List Char) (ht : some t ≠ some .comma) :
    Settled (lexeme.reverse ++ written) := by
  obtain ⟨c, hlast, hblank, hcomma⟩ := exists_last h
  obtain ⟨init, rfl⟩ := List.getLast?_eq_some_iff.1 hlast
  rw [Settled, List.reverse_append, List.reverse_singleton, List.singleton_append, List.cons_append,
    List.dropWhile_cons_of_neg (by simp [hblank])]
  rintro hc
  cases hc
  exact ht (congrArg some (hcomma rfl))

/-- What a comma that was put in has left at the end of what is written. -/
def Loose (added : Bool) (tail : List Char) : Prop :=
  if added then ∃ blanks, (∀ c ∈ blanks, isBlank c = true) ∧ tail = blanks ++ [','] else tail = []

/-- A mark closes something or is written as it stands. -/
theorem mark_cases (h : (c, t) ∈ marks) :
    (t.isClose = true ∧ (c = ']' ∨ c = '\x7d')) ∨ (t.isClose = false ∧ Plain [c]) := by
  simp only [marks, List.mem_cons, List.not_mem_nil, or_false, Prod.mk.injEq] at h
  rcases h with ⟨rfl, rfl⟩ | ⟨rfl, rfl⟩ | ⟨rfl, rfl⟩ | ⟨rfl, rfl⟩ | ⟨rfl, rfl⟩ | ⟨rfl, rfl⟩ <;>
    simp [isClose, Plain]

/-- A token that closes nothing is written as it stands, and what is written before it stays. -/
theorem go_open (h : JsonToken.Lexeme lexeme t) (hclose : t.isClose = false) (written cs : List Char) :
    go .between written (lexeme ++ cs) = go .between (lexeme.reverse ++ written) cs := by
  cases h with
  | mark h =>
    rcases mark_cases h with ⟨hclose', -⟩ | ⟨-, hplain⟩
    · rw [hclose] at hclose'
      cases hclose'
    · exact go_plain hplain written cs
  | @string text ds h =>
    have hgo : go .between written ('"' :: ds ++ cs) = go .string ('"' :: written) (ds ++ cs) := rfl
    rw [hgo, go_quoted h]
    simp
  | number h hnumeric => exact go_plain (plain_of_numeric hnumeric) written cs
  | word h => exact go_plain (plain_of_mem_words h) written cs

/-- A token that closes something looks back for a comma first. -/
theorem go_close (h : JsonToken.Lexeme lexeme t) (hclose : t.isClose = true) (written cs : List Char) :
    go .between written (lexeme ++ cs) = go .between (lexeme.reverse ++ dropComma written) cs := by
  cases h with
  | mark h =>
    rcases mark_cases h with ⟨-, rfl | rfl⟩ | ⟨hclose', -⟩
    · rfl
    · rfl
    · rw [hclose] at hclose'
      cases hclose'
  | string h => cases hclose
  | number h hnumeric => cases hclose
  | word h => cases hclose

/-- **A token is written as it stands**, and a closing bracket takes away the comma that was put before it. -/
theorem go_lexeme {added : Bool} {tail : List Char} (h : JsonToken.Lexeme lexeme t) (hloose : Loose added tail)
    (hadded : added = true → t.isClose = true) (hsettled : t.isClose = true → Settled written) (cs : List Char) :
    go .between (tail ++ written) (lexeme ++ cs) = go .between (lexeme.reverse ++ written) cs := by
  by_cases hclose : t.isClose = true
  · have hdrop : dropComma (tail ++ written) = written := by
      cases added with
      | true =>
        obtain ⟨blanks, hblanks, rfl⟩ := hloose
        rw [List.append_assoc]
        exact dropComma_blanks hblanks written
      | false =>
        cases hloose
        exact dropComma_of_settled (hsettled hclose)
    rw [go_close h hclose, hdrop]
  · cases added with
    | true => exact absurd (hadded rfl) hclose
    | false =>
      cases hloose
      exact go_open h (by simpa using hclose) written cs

/-! ## Whole documents -/

/-- Where a token is read at the start of a text, the characters that it takes are a lexeme of it. -/
theorem lexeme_of_first? (h : first? (lexeme ++ cs) = some (t, lexeme.length)) : JsonToken.Lexeme lexeme t := by
  obtain ⟨lexeme', rest, hsplit, hlength, hlexeme⟩ := exists_lexeme h
  obtain ⟨rfl, -⟩ := List.append_inj hsplit hlength.symm
  exact hlexeme

theorem first?_blank (h : isBlank c = true) (cs : List Char) : first? (c :: cs) = none := by
  rcases isBlank_cases h with rfl | rfl | rfl | rfl <;> rfl

/-- A token is taken off the front, and the others are read from what is left. -/
theorem scan?_lexeme (h : first? (lexeme ++ cs) = some (t, lexeme.length)) :
    scan? 0 (lexeme ++ cs) = (scan? 0 cs).map ([t] ++ ·) := by
  cases hlex : lexeme with
  | nil =>
    subst hlex
    obtain ⟨c, hc, -⟩ := exists_last (lexeme_of_first? h)
    cases hc
  | cons c lexeme' =>
    subst hlex
    refine scan?_first ?_ h
    by_contra hblank
    rw [List.cons_append, first?_blank (by simpa using hblank)] at h
    cases h

variable {ts : List JsonToken} {prev : Option JsonToken} {added : Bool}

theorem exists_of_scan?_lexeme (h : first? (lexeme ++ cs) = some (t, lexeme.length))
    (hscan : scan? 0 (lexeme ++ cs) = some ts) : ∃ ts', scan? 0 cs = some ts' ∧ ts = t :: ts' := by
  rw [scan?_lexeme h] at hscan
  obtain ⟨ts', hts', rfl⟩ := Option.map_eq_some_iff.1 hscan
  exact ⟨ts', hts', rfl⟩

/-- The first token of the rest is the one that closes. -/
theorem Closes.head (h : Closes cs) (hscan : scan? 0 cs = some ts) :
    ∃ t, ts.head? = some t ∧ t.isClose = true := by
  induction cs with
  | nil =>
    obtain ⟨t, n, hfirst, -⟩ := h
    cases hfirst
  | cons c cs ih =>
    by_cases hc : isBlank c = true
    · rw [scan?, if_pos hc] at hscan
      rw [Closes, List.dropWhile_cons_of_pos hc] at h
      exact ih h hscan
    · obtain ⟨t, n, hfirst, hclose⟩ := h
      rw [List.dropWhile_cons_of_neg hc] at hfirst
      obtain ⟨lexeme, rest, hsplit, rfl, -⟩ := exists_lexeme hfirst
      rw [hsplit] at hfirst hscan
      obtain ⟨ts', -, rfl⟩ := exists_of_scan?_lexeme hfirst hscan
      exact ⟨t, rfl, hclose⟩

/-- What may stand beside the token before. -/
theorem chain_cons (h : (prev.toList ++ t :: ts).IsChain Beside) :
    (∀ p ∈ prev, Beside p t) ∧ ((some t).toList ++ ts).IsChain Beside := by
  cases prev with
  | none => exact ⟨by simp, h⟩
  | some p =>
    obtain ⟨hp, hts⟩ := List.isChain_cons_cons.1 h
    exact ⟨by simpa using hp, hts⟩

/-- A closing bracket does not come behind a comma of the plain document, so there is no comma of its own to take
away. -/
theorem settled_of_beside (hbeside : ∀ p ∈ prev, Beside p t) (hsettled : prev ≠ some .comma → Settled written)
    (hclose : t.isClose = true) : Settled written := by
  refine hsettled ?_
  rintro rfl
  exact (hbeside _ rfl).2 hclose rfl

theorem apart_of_isBlank (h : isBlank c = true) : extendsNumeral c = false := by
  rcases isBlank_cases h with rfl | rfl | rfl | rfl <;> rfl

/-- A comma or a closing bracket ends a number in front of it. -/
theorem apart_lexeme (h : JsonToken.Lexeme lexeme t) (ht : t = .comma ∨ t.isClose = true) (cs : List Char) :
    Apart (lexeme ++ cs) := by
  cases h with
  | @mark c t h =>
    refine apart_cons ?_ cs
    simp only [marks, List.mem_cons, List.not_mem_nil, or_false, Prod.mk.injEq] at h
    rcases h with ⟨rfl, rfl⟩ | ⟨rfl, rfl⟩ | ⟨rfl, rfl⟩ | ⟨rfl, rfl⟩ | ⟨rfl, rfl⟩ | ⟨rfl, rfl⟩ <;> rfl
  | string h => exact apart_cons rfl _
  | number h hnumeric => simp [isClose] at ht
  | word h => simp [isClose] at ht

/-! ### Decorated ones -/

/-- The tokens `ts` behind `prev` are written behind what was written before. -/
def Writes (prev : Option JsonToken) (ts : List JsonToken) (written result : List Char) : Prop :=
  ∃ out, result = written.reverse ++ out ∧ scan? 0 out = some ts ∧ ∀ p ∈ prev, p.isNumber = true → Apart out

/-- At the end of the text no comma is left over, since a closing bracket would have to come. -/
theorem writes_end {tail : List Char} (hloose : Loose added tail)
    (hadded : added = true → ∃ t, ([] : List JsonToken).head? = some t ∧ t.isClose = true) :
    Writes prev [] written (tail ++ written).reverse := by
  cases added with
  | true =>
    obtain ⟨t, ht, -⟩ := hadded rfl
    cases ht
  | false =>
    cases hloose
    exact ⟨[], by simp, rfl, fun _ _ _ => by simp [Apart]⟩

/-- Blanks count for what follows: no token is read from them, and they end a number. -/
theorem Writes.of_blanks (hblanks : ∀ c ∈ blanks, isBlank c = true) {result : List Char}
    (h : Writes prev ts (blanks ++ written) result) : Writes prev ts written result := by
  obtain ⟨out, rfl, hscan, hapart⟩ := h
  have hblanks' : ∀ c ∈ blanks.reverse, isBlank c = true := by simpa using hblanks
  refine ⟨blanks.reverse ++ out, by simp, ?_, fun p hp hnumber => ?_⟩
  · rw [spells_blanks hblanks' out, hscan]
    rfl
  · exact Numeral.Avoids.append (fun c hc => apart_of_isBlank (hblanks' c (List.mem_of_head? hc))) (hapart p hp hnumber)

/-- A token counts for what follows. It is read as the same token again, for if it is a number, what comes behind it
ends it. -/
theorem Writes.of_lexeme (hlexeme : JsonToken.Lexeme lexeme t) (hbeside : ∀ p ∈ prev, Beside p t) {result : List Char}
    (h : Writes (some t) ts (lexeme.reverse ++ written) result) : Writes prev (t :: ts) written result := by
  obtain ⟨out, rfl, hscan, hapart⟩ := h
  refine ⟨lexeme ++ out, by simp, ?_, fun p hp hnumber => ?_⟩
  · rw [hlexeme.spells (hapart t rfl), hscan]
    rfl
  · exact apart_lexeme hlexeme ((hbeside p hp).1 hnumber) out

/-- **A decorated document is written with its own tokens.** -/
theorem Decorates.writes (h : Decorates prev added cs ds) {tail : List Char} (hscan : scan? 0 cs = some ts)
    (hchain : (prev.toList ++ ts).IsChain Beside) (hsettled : prev ≠ some .comma → Settled written)
    (hloose : Loose added tail) (hadded : added = true → ∃ t, ts.head? = some t ∧ t.isClose = true) :
    Writes prev ts written (go .between (tail ++ written) ds) := by
  induction h generalizing written tail ts with
  | done =>
    cases hscan
    rw [go]
    exact writes_end hloose hadded
  | @remark prev added text h =>
    cases hscan
    have hslash : '\n' ∉ '/' :: text := by simpa using h
    have hgo := go_line_end hslash (tail ++ written)
    change Writes prev [] written (go .line (tail ++ written) ('/' :: text))
    rw [hgo]
    exact writes_end hloose hadded
  | blank hc h ih =>
    rw [scan?, if_pos hc] at hscan
    exact ih hscan hchain hsettled hloose hadded
  | @trivia prev added new cs ds hnew h ih =>
    obtain ⟨blanks, hblanks, hgo⟩ := hnew.go_eq
    rw [hgo]
    cases added with
    | true =>
      obtain ⟨blanks', hblanks', rfl⟩ := hloose
      have hloose' : Loose true (blanks ++ (blanks' ++ [','])) :=
        ⟨blanks ++ blanks', List.forall_mem_append.2 ⟨hblanks, hblanks'⟩, (List.append_assoc ..).symm⟩
      rw [← List.append_assoc]
      exact ih hscan hchain hsettled hloose' hadded
    | false =>
      cases hloose
      exact (ih hscan hchain (fun hprev => (hsettled hprev).append_blanks hblanks) rfl hadded).of_blanks hblanks
  | @comma t cs ds hends hcloses h ih =>
    cases hloose
    have hcomma : Loose true [','] := ⟨[], by simp, rfl⟩
    exact ih hscan hchain hsettled hcomma fun _ => hcloses.head hscan
  | @token prev added t lexeme cs ds hfirst h ih =>
    have hlexeme := lexeme_of_first? hfirst
    obtain ⟨ts, hrest, rfl⟩ := exists_of_scan?_lexeme hfirst hscan
    obtain ⟨hbeside, hchain⟩ := chain_cons hchain
    have hclose : added = true → t.isClose = true := by
      intro hadd
      obtain ⟨t', ht', hclose⟩ := hadded hadd
      cases ht'
      exact hclose
    rw [go_lexeme hlexeme hloose hclose (settled_of_beside hbeside hsettled)]
    refine Writes.of_lexeme hlexeme hbeside ?_
    exact ih hrest hchain (settled_lexeme hlexeme written) rfl (fun hadd => by cases hadd)

/-! ### Plain ones -/

/-- Where a text has tokens and begins with no blank, it begins with a token. -/
theorem exists_first? (hblank : ¬ isBlank c = true) (hscan : scan? 0 (c :: cs) = some ts) :
    ∃ lexeme rest t, c :: cs = lexeme ++ rest ∧ first? (lexeme ++ rest) = some (t, lexeme.length) := by
  rw [scan?, if_neg hblank] at hscan
  obtain ⟨⟨t, n⟩, hfirst, -⟩ := Option.bind_eq_some_iff.1 hscan
  obtain ⟨lexeme, rest, hsplit, rfl, -⟩ := exists_lexeme hfirst
  exact ⟨lexeme, rest, t, hsplit, hsplit ▸ hfirst⟩

/-- **A plain document stays as it is.** -/
theorem go_self (hscan : scan? 0 cs = some ts) (hchain : (prev.toList ++ ts).IsChain Beside)
    (hsettled : prev ≠ some .comma → Settled written) : go .between written cs = written.reverse ++ cs := by
  induction hn : cs.length using Nat.strong_induction_on generalizing cs ts prev written with
  | _ n ih =>
    subst hn
    cases cs with
    | nil => simp [go]
    | cons c cs =>
      by_cases hblank : isBlank c = true
      · rw [scan?, if_pos hblank] at hscan
        have hc : ∀ d ∈ [c], isBlank d = true := by simpa using hblank
        have hkeep : prev ≠ some .comma → Settled (c :: written) := fun hprev => (hsettled hprev).append_blanks hc
        rw [go_blank hblank, ih _ (Nat.lt_succ_self _) hscan hchain hkeep rfl]
        simp
      · obtain ⟨lexeme, rest, t, hsplit, hfirst⟩ := exists_first? hblank hscan
        have hlexeme := lexeme_of_first? hfirst
        obtain ⟨ts, hrest, rfl⟩ := exists_of_scan?_lexeme hfirst (hsplit ▸ hscan)
        obtain ⟨hbeside, hchain⟩ := chain_cons hchain
        have hshorter : rest.length < (c :: cs).length := by
          obtain ⟨d, hd, -⟩ := exists_last hlexeme
          rw [hsplit, List.length_append]
          have hpos : 0 < lexeme.length := List.length_pos_of_mem (List.mem_of_getLast? hd)
          omega
        have hloose : Loose false [] := rfl
        have hgo := go_lexeme hlexeme hloose (by simp) (settled_of_beside hbeside hsettled) rest
        rw [List.nil_append] at hgo
        rw [hsplit, hgo, ih _ hshorter hrest hchain (settled_lexeme hlexeme written) rfl]
        simp

/-- A document is told by its tokens. -/
theorem document?_congr {close : List (String × Json) → Json} {source source' : String}
    (h : scan? 0 source.toList = scan? 0 source'.toList) :
    Json.document? close source = Json.document? close source' := by
  rw [Json.document?, h, Json.document?]

/-- **Stripping keeps the meaning.** A decorated document is read as the plain one, and a plain document is
stripped to itself. -/
theorem parse?_strip {source : String} {v : Json} (h : Json.parse? source = some v) :
    (∀ decorated : String, Decorates none false source.toList decorated.toList →
      Json.parse? (strip decorated) = some v) ∧ strip source = source := by
  obtain ⟨ts, hscan, htidy⟩ := Json.tidy_tokens h
  have hchain : ((none : Option JsonToken).toList ++ ts).IsChain Beside := htidy
  have hsettled : (none : Option JsonToken) ≠ some .comma → Settled [] := fun _ => by simp [Settled]
  constructor
  · intro decorated hdec
    have hloose : Loose false [] := rfl
    obtain ⟨out, hout, hscan', -⟩ := hdec.writes hscan hchain hsettled hloose (by simp)
    rw [← h, Json.parse?, Json.parse?]
    refine document?_congr ?_
    rw [strip, String.toList_ofList, hscan, ← hscan']
    exact congrArg (scan? 0) hout
  · rw [strip, go_self hscan hchain hsettled]
    exact String.ofList_toList

/-- An array of a text with the marks of comments in it and a number. -/
def plainSheet : List Char := ['[', '"', '/', '*', ',', ']', '"', ',', '1', ' ', ']']

/-- The same with comments, and with a comma behind the number. -/
def decoratedSheet : List Char :=
  ['/', '/', ']', '\n', '[', '"', '/', '*', ',', ']', '"', '/', '*', '"', ',', '*', '/', ',', '1', ',', '\n', ']',
    '/', '/', ',']

theorem decorates_sheet : Decorates none false plainSheet decoratedSheet := by
  refine @Decorates.trivia _ _ ['/', '/', ']', '\n'] _ _ (.line (by decide : '\n' ∉ [']'])) ?_
  refine @Decorates.token _ _ .bracketOpen ['['] _ _ rfl ?_
  refine @Decorates.token _ _ (.string "/*,]") ['"', '/', '*', ',', ']', '"'] _ _ (by decide) ?_
  refine @Decorates.trivia _ _ ['/', '*', '"', ',', '*', '/'] _ _
    (.block (by decide : ¬ ['*', '/'] <:+: ['"', ','])) ?_
  refine @Decorates.token _ _ .comma [','] _ _ rfl ?_
  refine @Decorates.token _ _ (.number "1") ['1'] _ _ (by decide) ?_
  refine .comma rfl ⟨.bracketClose, 1, by decide, rfl⟩ ?_
  refine @Decorates.trivia _ _ ['\n'] _ _ (.blank rfl) ?_
  refine .blank rfl ?_
  refine @Decorates.token _ _ .bracketClose [']'] _ _ rfl ?_
  exact .remark (by decide : '\n' ∉ [','])

theorem parse?_plainSheet :
    Json.parse? (String.ofList plainSheet) = some (.array [.string "/*,]", .number "1"]) := by
  rw [Json.parse?, Json.document?, String.toList_ofList]
  rfl

theorem parse?_strip_sheet :
    Json.parse? (String.ofList plainSheet) = some (.array [.string "/*,]", .number "1"]) ∧
      Decorates none false plainSheet decoratedSheet ∧
      Json.parse? (strip (String.ofList decoratedSheet)) = some (.array [.string "/*,]", .number "1"]) ∧
      strip (String.ofList plainSheet) = String.ofList plainSheet := by
  obtain ⟨hdecorated, hplain⟩ := parse?_strip parse?_plainSheet
  refine ⟨parse?_plainSheet, decorates_sheet, hdecorated _ ?_, hplain⟩
  rw [String.toList_ofList, String.toList_ofList]
  exact decorates_sheet

end JsonComments

end ClientBoundary
