import ClientBoundary.Json.Writer
import ClientBoundary.Proofs.Json

/-!
# What is written can be read

A value is written as the texts of its **tokens**, with blanks between them. So reading it back falls in two
parts: the text spells the tokens (`Legible.spells`), and the tokens give the value (`Legible.reads`). Both
go along the value, and both speak of what stands behind it, since a value is mostly read inside of another.

A text may be spoilt by what stands behind it in one way only: a number goes on as long as it can. Texts that
are safe there `Spells` their tokens; the others do so in front of what is `Apart` from a number.

What cannot be read is excluded by `Legible`: a number that is no numeral, and what is nested too deep.
-/

namespace ClientBoundary

namespace JsonToken

/-! ## Texts and their tokens -/

/-- Whether a character carries a number on. -/
def extendsNumeral (c : Char) : Bool := c.isDigit || c == '.' || c == 'e' || c == 'E'

/-- A text that does not carry a number on. -/
def Apart (rest : List Char) : Prop := ∀ c, rest.head? = some c → extendsNumeral c = false

/-- These tokens are read from a text, whatever stands behind it. -/
def Spells (cs : List Char) (ts : List JsonToken) : Prop :=
  ∀ rest, scan? 0 (cs ++ rest) = (scan? 0 rest).map (ts ++ ·)

/-- These tokens are read from a text unless a number goes on behind it. -/
def SpellsApart (cs : List Char) (ts : List JsonToken) : Prop :=
  ∀ rest, Apart rest → scan? 0 (cs ++ rest) = (scan? 0 rest).map (ts ++ ·)

variable {as bs cs rest : List Char} {ts us : List JsonToken} {t : JsonToken} {c : Char}

theorem apart_cons (h : extendsNumeral c = false) (rest : List Char) : Apart (c :: rest) := by
  rintro c' hc
  cases hc
  exact h

theorem Spells.apart (h : Spells cs ts) : SpellsApart cs ts := fun rest _ => h rest

theorem spells_nil : Spells [] [] := by
  intro rest
  rw [List.nil_append]
  cases scan? 0 rest <;> rfl

/-- Tokens of two texts that are read one after the other. -/
theorem map_append_map (ts us : List JsonToken) (found : Option (List JsonToken)) :
    (found.map (us ++ ·)).map (ts ++ ·) = found.map ((ts ++ us) ++ ·) := by
  cases found <;> simp

theorem Spells.append (ha : Spells as ts) (hb : Spells bs us) : Spells (as ++ bs) (ts ++ us) := by
  intro rest
  rw [List.append_assoc, ha, hb, map_append_map]

theorem Spells.append_apart (ha : Spells as ts) (hb : SpellsApart bs us) :
    SpellsApart (as ++ bs) (ts ++ us) := by
  intro rest hrest
  rw [List.append_assoc, ha, hb rest hrest, map_append_map]

/-- A text that is not safe is made so by a text behind it. -/
theorem SpellsApart.append (ha : SpellsApart as ts) (hb : Spells (c :: bs) us)
    (hc : extendsNumeral c = false) : Spells (as ++ c :: bs) (ts ++ us) := by
  intro rest
  rw [List.append_assoc, ha (c :: bs ++ rest) (apart_cons hc _), hb, map_append_map]

/-- Characters that belong to a token are passed over. -/
theorem scan?_skip (cs rest : List Char) : scan? cs.length (cs ++ rest) = scan? 0 rest := by
  induction cs with
  | nil => rfl
  | cons c cs ih => rw [List.length_cons, List.cons_append, scan?, ih]

/-- What is read first is the first token. -/
theorem scan?_first (hblank : isBlank c = false)
    (h : first? (c :: cs ++ rest) = some (t, (c :: cs).length)) :
    scan? 0 (c :: cs ++ rest) = (scan? 0 rest).map ([t] ++ ·) := by
  rw [List.cons_append] at h ⊢
  rw [scan?, hblank, h]
  simp only [Option.bind_some, List.length_cons, Nat.add_sub_cancel, scan?_skip]
  rfl

/-- A character that is a token of its own. -/
theorem spells_mark (hblank : isBlank c = false) (h : ∀ rest, first? (c :: rest) = some (t, 1)) :
    Spells [c] [t] := fun rest => scan?_first hblank (h rest)

theorem spells_comma : Spells [','] [.comma] := spells_mark rfl fun _ => rfl

/-- Blanks make no token. -/
theorem spells_blanks (h : ∀ c ∈ cs, isBlank c = true) : Spells cs [] := by
  induction cs with
  | nil => exact spells_nil
  | cons c cs ih =>
    obtain ⟨hc, hcs⟩ := List.forall_mem_cons.1 h
    intro rest
    rw [List.cons_append, scan?, if_pos hc, ih hcs rest]

/-! ## Strings -/

/-- Characters that belong to an escape are passed over. -/
theorem string?_skip (cs rest : List Char) :
    string? cs.length (cs ++ rest) = (string? 0 rest).map fun out => (out.1, out.2 + cs.length) := by
  induction cs with
  | nil => simp
  | cons c cs ih =>
    rw [List.length_cons, List.cons_append, string?, ih, Option.map_map]
    rfl

/-- What stands for a character behind a backslash gives the character. -/
theorem string?_escape {escape : List Char} {decoded : Char}
    (h : escape? (escape ++ rest) = some (decoded, escape.length)) :
    string? 0 ('\\' :: escape ++ rest) =
      (string? 0 rest).map fun out => (decoded :: out.1, out.2 + (escape.length + 1)) := by
  rw [List.cons_append, string?]
  simp only [h, Option.bind_some, string?_skip, Option.map_map]
  rfl

theorem hex?_hexDigit : ∀ n < 16, hex? (Json.hexDigit n) = some n := by decide

/-- A control character is written by its number. -/
theorem unicode?_hexDigit (h : c.toNat < 0x20) (rest : List Char) :
    unicode? ('0' :: '0' :: Json.hexDigit (c.toNat / 16) :: Json.hexDigit (c.toNat % 16) :: rest) =
      some (c, 5) := by
  have hunit : unit? ('0' :: '0' :: Json.hexDigit (c.toNat / 16) :: Json.hexDigit (c.toNat % 16) :: rest) =
      some c.toNat := by
    have hzero : hex? '0' = some 0 := rfl
    have hsum : c.toNat / 16 * 16 + c.toNat % 16 = c.toNat := by omega
    simp [unit?, hzero, hex?_hexDigit (c.toNat / 16) (by omega), hex?_hexDigit (c.toNat % 16) (by omega),
      hsum]
  have hlow : (decide (c.toNat < 0xd800) || decide (0xdfff < c.toNat)) = true := by
    rw [Bool.or_eq_true_iff, decide_eq_true_iff]
    exact .inl (by omega)
  simp only [unicode?, hunit, Option.bind_eq_bind, Option.bind_some, hlow]
  rw [Char.ofNat_toNat]
  rfl

/-- A character that has a short escape. -/
theorem string?_short {e d : Char} (h : (c == d) = true) (hd : ∀ cs, escape? (e :: cs) = some (d, 1)) :
    string? 0 (['\\', e] ++ rest) =
      (string? 0 rest).map fun out => (c :: out.1, out.2 + ['\\', e].length) := by
  rw [beq_iff_eq.1 h]
  exact string?_escape (hd rest)

/-- **A character is read as it was written.** -/
theorem string?_escapeChar (c : Char) (rest : List Char) :
    string? 0 (Json.escapeChar c ++ rest) =
      (string? 0 rest).map fun out => (c :: out.1, out.2 + (Json.escapeChar c).length) := by
  unfold Json.escapeChar
  split
  · exact string?_short ‹_› fun _ => rfl
  split
  · exact string?_short ‹_› fun _ => rfl
  split
  · exact string?_short ‹_› fun _ => rfl
  split
  · exact string?_short ‹_› fun _ => rfl
  split
  · exact string?_short ‹_› fun _ => rfl
  split
  · exact string?_short ‹_› fun _ => rfl
  split
  · exact string?_short ‹_› fun _ => rfl
  split
  · exact string?_escape (unicode?_hexDigit ‹_› rest)
  · -- the character stands for itself
    rename_i hquote hslash _ _ _ _ _ hcontrol
    rw [List.singleton_append, string?, if_neg hquote, if_neg hcontrol, if_neg hslash]
    rfl

theorem string?_escaped (s rest : List Char) :
    string? 0 (s.flatMap Json.escapeChar ++ '"' :: rest) =
      some (s, (s.flatMap Json.escapeChar).length + 1) := by
  induction s with
  | nil => rfl
  | cons c s ih =>
    rw [List.flatMap_cons, List.append_assoc, string?_escapeChar, ih, List.length_append]
    simp only [Option.map_some, Option.some.injEq, Prod.mk.injEq, true_and]
    omega

/-- **A text in quotes spells the text**, whatever its characters are. -/
theorem spells_quote (s : String) : Spells (Json.quote s).toList [.string s] := by
  intro rest
  rw [Json.quote, String.toList_ofList, List.cons_append]
  refine scan?_first rfl ?_
  have hfirst : ∀ cs, first? ('"' :: cs) =
      (string? 0 cs).map fun out => (.string (String.ofList out.1), out.2 + 1) := fun cs => rfl
  rw [List.cons_append, List.append_assoc, hfirst, List.singleton_append, string?_escaped]
  simp

end JsonToken

namespace Numeral

open JsonToken

/-! ## Numbers -/

/-- A text that is a finite number as a whole, unless it is carried on. -/
def Stands (cs : List Char) : Prop :=
  (∃ c, cs.head? = some c ∧ (c = '-' ∨ c.isDigit = true)) ∧
    ∀ rest, Apart rest → length? (cs ++ rest) = some cs.length

theorem digits_append {ds rest : List Char} (hds : ∀ c ∈ ds, c.isDigit = true) (hrest : Apart rest) :
    digits (ds ++ rest) = ds := by
  rw [digits, List.takeWhile_append_of_pos hds]
  cases rest with
  | nil => simp
  | cons c rest =>
    have hc := hrest c rfl
    rw [extendsNumeral, Bool.or_assoc, Bool.or_assoc, Bool.or_eq_false_iff] at hc
    rw [List.takeWhile_cons_of_neg (by simp [hc.1]), List.append_nil]

theorem maxSignificand_eq : maxSignificand = 18446744073709551615 := by decide

/-- Digits that denote a number of 64 bits all fit in. -/
theorem takeWhole_eq {n : Nat} {ds : List Char} (h : Nat.ofDigitChars 10 ds n ≤ maxSignificand) :
    takeWhole n ds = (Nat.ofDigitChars 10 ds n, 0) := by
  induction ds generalizing n with
  | nil => rfl
  | cons d ds ih =>
    have hcons : Nat.ofDigitChars 10 (d :: ds) n = Nat.ofDigitChars 10 ds (push n d) :=
      Nat.ofDigitChars_cons
    rw [hcons] at h ⊢
    -- the digits behind it only make it greater
    have hle : push n d ≤ maxSignificand := by
      rw [Nat.ofDigitChars_eq_ofDigitChars_zero] at h
      have hpow : 1 * push n d ≤ 10 ^ ds.length * push n d :=
        Nat.mul_le_mul_right _ (Nat.one_le_pow _ _ (by decide))
      omega
    rw [takeWhole, if_pos hle]
    exact ih h

/-- Only zero is written with a zero in front. -/
theorem head?_toDigits {n : Nat} (h : n ≠ 0) : (Nat.toDigits 10 n).head? ≠ some '0' := by
  induction n using Nat.strongRecOn with
  | ind n ih =>
    by_cases hlt : n < 10
    · have hdigits : ∀ m < 10, m ≠ 0 → (Nat.toDigits 10 m).head? ≠ some '0' := by decide
      exact hdigits n hlt h
    · rw [Nat.toDigits_of_base_le (by decide) (by omega), List.head?_append_of_ne_nil _ Nat.toDigits_ne_nil]
      exact ih (n / 10) (by omega) (by omega)

theorem isDigit_toDigits (n : Nat) : ∀ c ∈ Nat.toDigits 10 n, c.isDigit = true :=
  fun _ hc => Nat.isDigit_of_mem_toDigits (by decide) (by decide) hc

theorem whole?_toDigits (n : Nat) {rest : List Char} (hrest : Apart rest) :
    whole? (Nat.toDigits 10 n ++ rest) = some (Nat.toDigits 10 n) := by
  rw [whole?, digits_append (isDigit_toDigits n) hrest]
  by_cases hzero : n = 0
  · rw [hzero, Nat.toDigits_zero]
    rfl
  · have hhead := head?_toDigits hzero
    split
    · rename_i hnil
      exact absurd hnil Nat.toDigits_ne_nil
    · rename_i hd
      rw [hd]
    · rename_i hd
      rw [hd] at hhead
      exact absurd rfl hhead
    · rfl

/-- Behind a number that is not carried on there is neither a fraction nor an exponent. -/
theorem fraction?_of_apart {rest : List Char} (h : Apart rest) : fraction? rest = some [] := by
  unfold fraction?
  split
  · exact absurd (h '.' rfl) (by decide)
  · rfl

theorem exponent?_of_apart {rest : List Char} (h : Apart rest) :
    exponent? rest = some (false, [], 0) := by
  cases rest with
  | nil => rfl
  | cons c rest =>
    have hc := h c rfl
    rw [extendsNumeral, Bool.or_assoc, Bool.or_eq_false_iff] at hc
    rw [exponent?, hc.2]
    rfl

/-- **A number of 64 bits stands for itself.** -/
theorem stands_toDigits {n : Nat} (h : n < 2 ^ 64) : Stands (Nat.toDigits 10 n) := by
  obtain ⟨d, ds, hds⟩ := List.exists_cons_of_ne_nil (Nat.toDigits_ne_nil (n := n) (b := 10))
  have hd : d.isDigit = true := isDigit_toDigits n d (hds ▸ List.mem_cons_self ..)
  refine ⟨⟨d, by rw [hds]; rfl, .inr hd⟩, fun rest hrest => ?_⟩
  have hminus : ((Nat.toDigits 10 n ++ rest).head? == some '-') = false := by
    rw [hds, beq_eq_false_iff_ne]
    rintro hhead
    cases hhead
    exact absurd hd (by decide)
  have hvalue : takeWhole 0 (Nat.toDigits 10 n) = (n, 0) := by
    have hn : Nat.ofDigitChars 10 (Nat.toDigits 10 n) 0 = n := Nat.ofDigitChars_ten_toDigits
    have hle : Nat.ofDigitChars 10 (Nat.toDigits 10 n) 0 ≤ maxSignificand := by
      rw [hn, maxSignificand_eq]
      omega
    rw [takeWhole_eq hle, hn]
  have hparts : parts? (Nat.toDigits 10 n ++ rest) = some
      { whole := Nat.toDigits 10 n, fraction := [], shrinks := false, exponent := [],
        length := (Nat.toDigits 10 n).length } := by
    simp only [parts?, hminus, Bool.false_eq_true, if_false, List.drop_zero, whole?_toDigits n hrest,
      Option.bind_eq_bind, Option.bind_some, List.drop_left, fraction?_of_apart hrest, List.isEmpty_nil,
      if_true, exponent?_of_apart hrest]
    simp
  simp only [length?, hparts, Option.bind_eq_bind, Option.bind_some, isFinite, hvalue]
  simp [takeFraction, value]

end Numeral

namespace Json

open JsonToken

/-! ## The tokens of a value -/

/-- Lists of tokens with commas between them. -/
def separated : List (List JsonToken) → List JsonToken
  | [] => []
  | ts :: rest => ts ++ rest.flatMap (.comma :: ·)

mutual

/-- The tokens that a value is written with. -/
def tokens : Json → List JsonToken
  | null => [.word "null"]
  | bool true => [.word "true"]
  | bool false => [.word "false"]
  | number literal => [.number literal]
  | string s => [.string s]
  | array items => .bracketOpen :: separated (tokensOfItems items) ++ [.bracketClose]
  | object members => .braceOpen :: separated (tokensOfMembers members) ++ [.braceClose]

/-- The tokens of each item. -/
def tokensOfItems : List Json → List (List JsonToken)
  | [] => []
  | v :: rest => tokens v :: tokensOfItems rest

/-- The tokens of each member. -/
def tokensOfMembers : List (String × Json) → List (List JsonToken)
  | [] => []
  | (key, v) :: rest => (.string key :: .colon :: tokens v) :: tokensOfMembers rest

end

/-- The tokens of a member. -/
def tokensOfMember (m : String × Json) : List JsonToken := .string m.1 :: .colon :: tokens m.2

/-- The text of a member. -/
def prettyMember (level : Nat) (m : String × Json) : String := quote m.1 ++ ": " ++ prettyAt level m.2

theorem tokensOfItems_eq (items : List Json) : tokensOfItems items = items.map tokens := by
  induction items with
  | nil => rfl
  | cons v rest ih => rw [tokensOfItems, ih, List.map_cons]

theorem tokensOfMembers_eq (members : List (String × Json)) :
    tokensOfMembers members = members.map tokensOfMember := by
  induction members with
  | nil => rfl
  | cons m rest ih => rw [tokensOfMembers, ih, List.map_cons, tokensOfMember]

theorem prettyItems_eq (level : Nat) (items : List Json) :
    prettyItems level items = items.map (prettyAt level) := by
  induction items with
  | nil => rfl
  | cons v rest ih => rw [prettyItems, ih, List.map_cons]

theorem prettyMembers_eq (level : Nat) (members : List (String × Json)) :
    prettyMembers level members = members.map (prettyMember level) := by
  induction members with
  | nil => rfl
  | cons m rest ih => rw [prettyMembers, ih, List.map_cons, prettyMember]

/-- A value that can be read back: its numbers are numerals, and nothing is nested deeper than `depth`. -/
inductive Legible : (depth : Nat) → Json → Prop
  | null {depth : Nat} : Legible depth null
  | bool {depth : Nat} (b : Bool) : Legible depth (bool b)
  | number {depth : Nat} {literal : String} : Numeral.Stands literal.toList → Legible depth (number literal)
  | string {depth : Nat} (s : String) : Legible depth (string s)
  | array {depth : Nat} {items : List Json} : (∀ v ∈ items, Legible depth v) →
      Legible (depth + 1) (array items)
  | object {depth : Nat} {members : List (String × Json)} : (∀ m ∈ members, Legible depth m.2) →
      Legible (depth + 1) (object members)

/-! ## From texts to tokens -/

theorem toList_newline (level : Nat) :
    (newline level).toList = '\n' :: List.replicate (2 * level) ' ' := by
  simp [newline]

theorem spells_newline (level : Nat) : Spells (newline level).toList [] := by
  refine spells_blanks fun c hc => ?_
  rw [toList_newline] at hc
  rcases List.mem_cons.1 hc with rfl | hc
  · rfl
  · rw [(List.mem_replicate.1 hc).2]
    rfl

/-- Texts glued together by a separator are the first one and then the others, each behind the separator. -/
theorem intercalate_cons (sep first : List Char) (rest : List (List Char)) :
    sep.intercalate (first :: rest) = first ++ rest.flatMap (sep ++ ·) := by
  induction rest generalizing first with
  | nil => simp
  | cons next rest ih =>
    rw [List.intercalate_cons_cons, ih, List.flatMap_cons, List.append_assoc, List.append_assoc]

section bracket

variable {α : Type} {toks : α → List JsonToken}

/-- Parts behind the first one, and what closes them. -/
theorem spells_parts {text : α → List Char} {close : List Char} {ts : List JsonToken} (level : Nat)
    (hclose : Spells close ts) {xs : List α} (h : ∀ x ∈ xs, SpellsApart (text x) (toks x)) {first : α}
    (hfirst : SpellsApart (text first) (toks first)) :
    Spells
      (text first ++ (xs.flatMap (fun x => ',' :: (newline (level + 1)).toList ++ text x) ++
        ((newline level).toList ++ close)))
      (toks first ++ (xs.flatMap (fun x => .comma :: toks x) ++ ts)) := by
  induction xs generalizing first with
  | nil =>
    have hend := (spells_newline level).append hclose
    rw [toList_newline, List.cons_append] at hend
    rw [List.flatMap_nil, List.nil_append, toList_newline, List.cons_append]
    exact hfirst.append hend rfl
  | cons next xs ih =>
    obtain ⟨hnext, hxs⟩ := List.forall_mem_cons.1 h
    have hline : Spells (',' :: (newline (level + 1)).toList) [.comma] :=
      spells_comma.append (spells_newline (level + 1))
    have hrest := hline.append (ih hxs hnext)
    simp only [List.flatMap_cons, List.append_assoc, List.cons_append, List.nil_append] at hrest ⊢
    exact hfirst.append hrest rfl

/-- **Parts in brackets** spell their tokens with commas between them. -/
theorem spells_bracket {left right : String} {opening closing : JsonToken} (level : Nat)
    (hleft : Spells left.toList [opening]) (hright : Spells right.toList [closing])
    {part : α → String} {xs : List α} (h : ∀ x ∈ xs, SpellsApart (part x).toList (toks x)) :
    Spells (bracket left right level (xs.map part)).toList
      (opening :: separated (xs.map toks) ++ [closing]) := by
  cases xs with
  | nil =>
    have hempty : (bracket left right level ([].map part)).toList = left.toList ++ right.toList :=
      String.toList_append
    rw [hempty]
    exact hleft.append hright
  | cons first xs =>
    obtain ⟨hfirst, hxs⟩ := List.forall_mem_cons.1 h
    have hparts := spells_parts level hright hxs hfirst
    have hall := hleft.append ((spells_newline (level + 1)).append hparts)
    rw [bracket, if_neg (by simp)]
    simp only [String.toList_append, String.toList_intercalate, List.map_cons, intercalate_cons, separated,
      List.flatMap_map, List.append_assoc, List.cons_append, List.nil_append, List.map_map] at hall ⊢
    exact hall

end bracket

/-- A word is a token of its own. -/
theorem spells_word {w : String} (h : w ∈ words) : Spells w.toList [.word w] := by
  intro rest
  rcases List.mem_cons.1 h with rfl | h
  · change scan? 0 (['t', 'r', 'u', 'e'] ++ rest) = _
    exact scan?_first rfl rfl
  rcases List.mem_cons.1 h with rfl | h
  · change scan? 0 (['f', 'a', 'l', 's', 'e'] ++ rest) = _
    exact scan?_first rfl rfl
  · rw [List.mem_singleton.1 h]
    change scan? 0 (['n', 'u', 'l', 'l'] ++ rest) = _
    exact scan?_first rfl rfl

/-- A digit or a minus is no blank, and no mark either. -/
theorem first?_numeral {c : Char} (h : c = '-' ∨ c.isDigit = true) (cs : List Char) :
    isBlank c = false ∧ first? (c :: cs) =
      (Numeral.length? (c :: cs)).map fun n => (.number (String.ofList ((c :: cs).take n)), n) := by
  have hother : ∀ d : Char, d ≠ '-' → d.isDigit = false → (c == d) = false := by
    rintro d hminus hdigit
    rw [beq_eq_false_iff_ne]
    rintro rfl
    rcases h with h | h
    · exact hminus h
    · rw [hdigit] at h
      cases h
  have hsign : (c == '-' || c.isDigit) = true := by simpa using h
  refine ⟨?_, ?_⟩
  · simp [isBlank, hother ' ' (by decide) rfl, hother '\t' (by decide) rfl, hother '\n' (by decide) rfl,
      hother '\r' (by decide) rfl]
  · rw [first?, hother '\x7b' (by decide) rfl, hother '\x7d' (by decide) rfl, hother '[' (by decide) rfl,
      hother ']' (by decide) rfl, hother ',' (by decide) rfl, hother ':' (by decide) rfl,
      hother '"' (by decide) rfl, hsign]
    rfl

/-- A number is a token unless it is carried on. -/
theorem spells_number {literal : String} (h : Numeral.Stands literal.toList) :
    SpellsApart literal.toList [.number literal] := by
  obtain ⟨⟨c, hc, hsign⟩, hlength⟩ := h
  obtain ⟨cs, hcs⟩ := List.head?_eq_some_iff.1 hc
  intro rest hrest
  have hlength := hlength rest hrest
  have hliteral : String.ofList (c :: cs) = literal := by rw [← hcs, String.ofList_toList]
  rw [hcs] at hlength ⊢
  obtain ⟨hblank, hfirst⟩ := first?_numeral hsign (cs ++ rest)
  refine scan?_first hblank ?_
  rw [List.cons_append] at hlength ⊢
  rw [hfirst, hlength, Option.map_some, ← List.cons_append, List.take_left, hliteral]

/-- **A value spells its tokens.** -/
theorem Legible.spells {depth : Nat} {v : Json} (h : Legible depth v) :
    ∀ level, SpellsApart (prettyAt level v).toList v.tokens := by
  induction h with
  | null => exact fun _ => (spells_word (w := "null") (by decide)).apart
  | bool b =>
    cases b with
    | true => exact fun _ => (spells_word (w := "true") (by decide)).apart
    | false => exact fun _ => (spells_word (w := "false") (by decide)).apart
  | number hliteral => exact fun _ => spells_number hliteral
  | string s => exact fun _ => (spells_quote s).apart
  | array hitems ih =>
    intro level
    rw [prettyAt, tokens, prettyItems_eq, tokensOfItems_eq]
    refine (spells_bracket level ?_ ?_ fun v hv => ih v hv (level + 1)).apart
    · exact spells_mark rfl fun _ => rfl
    · exact spells_mark rfl fun _ => rfl
  | object hmembers ih =>
    intro level
    rw [prettyAt, tokens, prettyMembers_eq, tokensOfMembers_eq]
    refine (spells_bracket level ?_ ?_ fun m hm => ?_).apart
    · exact spells_mark rfl fun _ => rfl
    · exact spells_mark rfl fun _ => rfl
    · -- the key in quotes, a colon, a blank and the value
      have hmark : Spells [':'] [.colon] := spells_mark rfl fun _ => rfl
      have hblank : Spells [' '] [] := spells_blanks (by simp [isBlank])
      have hcolon : Spells ": ".toList [.colon] := hmark.append hblank
      have hvalue := hcolon.append_apart (ih m hm (level + 1))
      rw [prettyMember, String.toList_append, String.toList_append, List.append_assoc]
      exact (spells_quote m.1).append_apart hvalue

/-! ## From tokens to values -/

/-- Behind each comma there is one part at least. -/
theorem length_le_parts {α : Type} (toks : α → List JsonToken) (xs : List α) :
    xs.length ≤ (xs.flatMap fun x => .comma :: toks x).length := by
  induction xs with
  | nil => exact Nat.le_refl 0
  | cons x xs ih =>
    rw [List.flatMap_cons, List.length_append, List.length_cons, List.length_cons]
    omega

/-- No value begins with a closing bracket. -/
theorem tokens_ne_bracketClose (v : Json) (rest ts : List JsonToken) :
    v.tokens ++ rest ≠ .bracketClose :: ts := by
  cases v with
  | bool b => cases b <;> nofun
  | null | number | string | array | object => nofun

variable {read : Reading} {rest : List JsonToken}

/-- Items behind the first one are read up to the bracket. -/
theorem restItems_tokens {xs : List Json} {fuel : Nat}
    (h : ∀ v ∈ xs, ∀ rest, read (v.tokens ++ rest) = some (v, rest)) (hfuel : xs.length < fuel) :
    restItems read fuel (xs.flatMap (fun v => .comma :: v.tokens) ++ .bracketClose :: rest) =
      some (xs, rest) := by
  induction xs generalizing fuel with
  | nil =>
    obtain ⟨fuel, rfl⟩ := Nat.exists_eq_add_one_of_ne_zero (Nat.ne_zero_of_lt hfuel)
    rfl
  | cons v xs ih =>
    obtain ⟨fuel, rfl⟩ := Nat.exists_eq_add_one_of_ne_zero (Nat.ne_zero_of_lt hfuel)
    obtain ⟨hv, hxs⟩ := List.forall_mem_cons.1 h
    have hrest := ih hxs (Nat.lt_of_succ_lt_succ hfuel)
    rw [List.flatMap_cons, List.cons_append, List.cons_append, List.append_assoc, restItems]
    simp only [hv, hrest, Option.bind_eq_bind, Option.bind_some]
    rfl

theorem items_tokens {xs : List Json} (h : ∀ v ∈ xs, ∀ rest, read (v.tokens ++ rest) = some (v, rest)) :
    items read (separated (xs.map tokens) ++ .bracketClose :: rest) = some (xs, rest) := by
  cases xs with
  | nil => rfl
  | cons v xs =>
    obtain ⟨hv, hxs⟩ := List.forall_mem_cons.1 h
    rw [List.map_cons, separated, List.flatMap_map, List.append_assoc, items]
    · have hfuel : xs.length <
          (xs.flatMap (fun v => .comma :: v.tokens) ++ .bracketClose :: rest).length + 1 := by
        have hle := length_le_parts tokens xs
        rw [List.length_append]
        omega
      simp only [hv, restItems_tokens hxs hfuel, Option.bind_eq_bind, Option.bind_some]
      rfl
    · exact fun ts => tokens_ne_bracketClose v _ ts

/-- A member is read as its value is. -/
theorem member_tokens {m : String × Json} (h : ∀ rest, read (m.2.tokens ++ rest) = some (m.2, rest)) :
    member read (tokensOfMember m ++ rest) = some (m, rest) := by
  rw [tokensOfMember, List.cons_append, List.cons_append, member, h]
  rfl

/-- Members behind the first one are read up to the brace. -/
theorem restMembers_tokens {xs : List (String × Json)} {fuel : Nat}
    (h : ∀ m ∈ xs, ∀ rest, read (m.2.tokens ++ rest) = some (m.2, rest)) (hfuel : xs.length < fuel) :
    restMembers read fuel (xs.flatMap (fun m => .comma :: tokensOfMember m) ++ .braceClose :: rest) =
      some (xs, rest) := by
  induction xs generalizing fuel with
  | nil =>
    obtain ⟨fuel, rfl⟩ := Nat.exists_eq_add_one_of_ne_zero (Nat.ne_zero_of_lt hfuel)
    rfl
  | cons m xs ih =>
    obtain ⟨fuel, rfl⟩ := Nat.exists_eq_add_one_of_ne_zero (Nat.ne_zero_of_lt hfuel)
    obtain ⟨hm, hxs⟩ := List.forall_mem_cons.1 h
    have hrest := ih hxs (Nat.lt_of_succ_lt_succ hfuel)
    rw [List.flatMap_cons, List.cons_append, List.cons_append, List.append_assoc, restMembers]
    simp only [member_tokens hm, hrest, Option.bind_eq_bind, Option.bind_some]
    rfl

theorem members_tokens {xs : List (String × Json)}
    (h : ∀ m ∈ xs, ∀ rest, read (m.2.tokens ++ rest) = some (m.2, rest)) :
    members read (separated (xs.map tokensOfMember) ++ .braceClose :: rest) = some (xs, rest) := by
  cases xs with
  | nil => rfl
  | cons m xs =>
    obtain ⟨hm, hxs⟩ := List.forall_mem_cons.1 h
    rw [List.map_cons, separated, List.flatMap_map, List.append_assoc, members]
    · have hfuel : xs.length <
          (xs.flatMap (fun m => .comma :: tokensOfMember m) ++ .braceClose :: rest).length + 1 := by
        have hle := length_le_parts tokensOfMember xs
        rw [List.length_append]
        omega
      simp only [member_tokens hm, restMembers_tokens hxs hfuel, Option.bind_eq_bind, Option.bind_some]
      rfl
    · exact nofun

/-- **The tokens of a value give the value.** -/
theorem Legible.reads {depth : Nat} {v : Json} (h : Legible depth v) :
    ∀ rest, value Json.object depth (v.tokens ++ rest) = some (v, rest) := by
  induction h with
  | @null depth => cases depth <;> exact fun _ => rfl
  | @bool depth b => cases depth <;> cases b <;> exact fun _ => rfl
  | @number depth literal _ => cases depth <;> exact fun _ => rfl
  | @string depth s => cases depth <;> exact fun _ => rfl
  | array hitems ih =>
    intro rest
    rw [tokens, tokensOfItems_eq, List.append_assoc, List.cons_append, value, List.singleton_append,
      items_tokens ih]
    rfl
  | object hmembers ih =>
    intro rest
    rw [tokens, tokensOfMembers_eq, List.append_assoc, List.cons_append, value, List.singleton_append,
      members_tokens ih]
    rfl

/-- **A value is read back as it was written**, with the members of its objects in their order. -/
theorem asWritten?_pretty {v : Json} (h : Legible maxDepth v) : asWritten? (v.pretty ++ "\n") = some v := by
  have hscan : scan? 0 (v.pretty ++ "\n").toList = some v.tokens := by
    have hspells := h.spells 0 ['\n'] (apart_cons rfl [])
    have hblank : scan? 0 ['\n'] = some [] := rfl
    rw [hblank, Option.map_some, List.append_nil] at hspells
    rw [String.toList_append]
    exact hspells
  have hread := h.reads []
  rw [List.append_nil] at hread
  rw [asWritten?, document?, hscan, Option.bind_some, hread]

end Json

end ClientBoundary
