import Mathlib.Data.List.Chain
import ClientBoundary.Proofs.Writer

/-!
# The lexemes of a document

A document is read token by token. What stands for a token is its **lexeme**: a mark, a word, a number, or a
text in quotes with its escapes (`Lexeme`). The lexeme is all that the token is read from
(`exists_lexeme`), so the same token is read wherever the lexeme stands, unless it is a number that goes on
(`Lexeme.spells`).

In a document that is accepted, a number is followed by a comma or a closing bracket, and no closing bracket
follows a comma (`tidy_tokens`).
-/

namespace ClientBoundary

namespace JsonToken

variable {as bs cs ds rest : List Char} {c : Char} {t : JsonToken} {n : Nat}

/-! ## Strings -/

/-- What stands for a character behind a backslash. -/
inductive Escaped : Char → List Char → Prop where
  /-- one character that stands for another -/
  | short {e d : Char} (h : ∀ rest, escape? (e :: rest) = some (d, 1)) : Escaped d [e]
  /-- `u` with four digits -/
  | unit {cs : List Char} {d : Char} (h : ∀ rest, escape? ('u' :: cs ++ rest) = some (d, 5))
    (hcs : cs.length = 4) (hhex : ∀ c ∈ cs, hex? c ≠ none) : Escaped d ('u' :: cs)
  /-- two halves of a pair -/
  | pair {cs ds : List Char} {d : Char}
    (h : ∀ rest, escape? ('u' :: cs ++ '\\' :: 'u' :: ds ++ rest) = some (d, 11)) (hcs : cs.length = 4)
    (hds : ds.length = 4) (hhex : ∀ c ∈ cs ++ ds, hex? c ≠ none) :
    Escaped d ('u' :: cs ++ '\\' :: 'u' :: ds)

/-- How a text is written behind an opening quote, up to the closing one. -/
inductive Quoted : List Char → List Char → Prop where
  /-- the closing quote -/
  | close : Quoted [] ['"']
  /-- a character that stands for itself -/
  | plain {c : Char} {text cs : List Char} (hquote : (c == '"') = false) (hslash : (c == '\\') = false)
    (hcontrol : ¬ c.toNat < 0x20) (h : Quoted text cs) : Quoted (c :: text) (c :: cs)
  /-- an escape -/
  | escape {d : Char} {escape text cs : List Char} (hescape : Escaped d escape) (h : Quoted text cs) :
    Quoted (d :: text) ('\\' :: escape ++ cs)

/-- Four digits are read as one code unit, and whatever stands behind them does not matter. -/
theorem exists_unit (h : unit? cs = some n) :
    ∃ ds rest, cs = ds ++ rest ∧ ds.length = 4 ∧ (∀ c ∈ ds, hex? c ≠ none) ∧
      ∀ rest, unit? (ds ++ rest) = some n := by
  unfold unit? at h
  split at h
  · rename_i a b c d rest
    cases ha : hex? a <;> cases hb : hex? b <;> cases hc : hex? c <;> cases hd : hex? d <;>
      simp only [ha, hb, hc, hd, Option.bind_eq_bind, Option.bind_some, Option.bind_none, reduceCtorEq] at h
    refine ⟨[a, b, c, d], rest, rfl, rfl, by simp [ha, hb, hc, hd], fun rest => ?_⟩
    simp only [List.cons_append, List.nil_append, unit?, ha, hb, hc, hd, Option.bind_eq_bind, Option.bind_some]
    exact h
  · cases h

/-- An escape by its code point is one unit, or the two halves of a pair. Half of a pair alone is not read at all,
so there is no third case. -/
theorem exists_unicode (h : unicode? cs = some (c, n)) :
    ∃ escape rest, 'u' :: cs = escape ++ rest ∧ escape.length = n ∧ Escaped c escape := by
  cases hunit : unit? cs with
  | none => simp [unicode?, hunit] at h
  | some high =>
    obtain ⟨ds, rest, rfl, hlength, hhex, hlocal⟩ := exists_unit hunit
    simp only [unicode?, hunit, Option.bind_eq_bind, Option.bind_some] at h
    split at h
    · rename_i hplain
      cases h
      refine ⟨'u' :: ds, rest, rfl, by simp [hlength], .unit (fun rest => ?_) hlength hhex⟩
      simp only [escape?, List.cons_append, unicode?, hlocal, Option.bind_eq_bind, Option.bind_some, hplain]
      rfl
    · rename_i hsurrogate
      split at h
      · cases h
      · rename_i hlow
        rw [List.drop_left' hlength] at h
        split at h
        · rename_i after
          cases hunit' : unit? after with
          | none => simp [hunit'] at h
          | some low =>
            obtain ⟨es, rest, rfl, hlength', hhex', hlocal'⟩ := exists_unit hunit'
            simp only [hunit', Option.bind_some] at h
            split at h
            · rename_i hpair
              obtain ⟨hc, hn⟩ := Prod.mk.inj (Option.some.inj h)
              refine ⟨'u' :: ds ++ '\\' :: 'u' :: es, rest, by simp, by simp [hlength, hlength', ← hn],
                .pair (fun rest => ?_) hlength hlength' (List.forall_mem_append.2 ⟨hhex, hhex'⟩)⟩
              simp only [escape?, List.cons_append, List.append_assoc, unicode?, hlocal, Option.bind_eq_bind,
                Option.bind_some, if_neg hsurrogate, if_neg hlow, List.drop_left' hlength, hlocal',
                if_pos hpair, hc]
              rfl
            · cases h
        · cases h

/-- What is read behind a backslash is one of the escapes, and all of it. -/
theorem exists_escaped (h : escape? cs = some (c, n)) :
    ∃ escape rest, cs = escape ++ rest ∧ escape.length = n ∧ Escaped c escape := by
  unfold escape? at h
  split at h
  case h_9 => exact exists_unicode h
  case h_10 => cases h
  all_goals
    cases h
    exact ⟨[_], _, rfl, rfl, .short fun _ => rfl⟩

/-- **A string is read up to its closing quote.** -/
theorem exists_quoted {skip : Nat} {text : List Char} (h : string? skip cs = some (text, n)) :
    ∃ skipped body rest, cs = skipped ++ (body ++ rest) ∧ skipped.length = skip ∧ n = skip + body.length ∧
      Quoted text body := by
  fun_induction string? skip cs generalizing text n with
  | case1 => cases h
  | case2 skip c cs ih =>
    obtain ⟨⟨text', k⟩, hrest, heq⟩ := Option.map_eq_some_iff.1 h
    cases heq
    obtain ⟨skipped, body, rest, rfl, rfl, rfl, hquoted⟩ := ih hrest
    exact ⟨c :: skipped, body, rest, rfl, rfl, Nat.add_right_comm .., hquoted⟩
  | case3 c cs hquote =>
    cases h
    cases beq_iff_eq.1 hquote
    exact ⟨[], ['"'], cs, rfl, rfl, rfl, .close⟩
  | case4 => cases h
  | case5 c cs hquote hcontrol hslash ih =>
    obtain ⟨⟨decoded, m⟩, hescape, hrest⟩ := Option.bind_eq_some_iff.1 h
    obtain ⟨⟨text', k⟩, hread, heq⟩ := Option.map_eq_some_iff.1 hrest
    cases heq
    cases beq_iff_eq.1 hslash
    obtain ⟨escape, rest', hcs, hlength, hescaped⟩ := exists_escaped hescape
    obtain ⟨skipped, body, rest, hcs', hskipped, rfl, hquoted⟩ := ih m hread
    -- what is skipped is the escape
    obtain ⟨rfl, rfl⟩ := List.append_inj (hcs.symm.trans hcs') (hlength.trans hskipped.symm)
    refine ⟨[], '\\' :: escape ++ body, rest, by simp [hcs], rfl, ?_, .escape hescaped hquoted⟩
    simp only [List.cons_append, List.length_cons, List.length_append]
    omega
  | case6 c cs hquote hcontrol hslash ih =>
    obtain ⟨⟨text', k⟩, hrest, heq⟩ := Option.map_eq_some_iff.1 h
    cases heq
    obtain ⟨skipped, body, rest, rfl, hskipped, rfl, hquoted⟩ := ih hrest
    cases List.length_eq_zero_iff.1 hskipped
    refine ⟨[], c :: body, rest, rfl, rfl, by simp only [List.length_cons]; omega, .plain ?_ ?_ hcontrol hquoted⟩
    · simpa using hquote
    · simpa using hslash

/-- An escape is read as the character that it stands for, whatever stands behind it. -/
theorem Escaped.escape? (h : Escaped c as) (rest : List Char) :
    JsonToken.escape? (as ++ rest) = some (c, as.length) := by
  cases h with
  | short h => exact h rest
  | unit h hcs hhex => rw [h, List.length_cons, hcs]
  | pair h hcs hds hhex =>
    rw [h]
    simp [hcs, hds]

/-- A text is read as it is written, whatever stands behind it. -/
theorem Quoted.string? {text : List Char} (h : Quoted text cs) (rest : List Char) :
    JsonToken.string? 0 (cs ++ rest) = some (text, cs.length) := by
  induction h with
  | close => rfl
  | @plain c text cs hquote hslash hcontrol h ih =>
    rw [List.cons_append, JsonToken.string?, hquote, hslash, if_neg Bool.false_ne_true, if_neg hcontrol,
      if_neg Bool.false_ne_true, ih]
    rfl
  | @escape d escape text cs hescape h ih =>
    rw [List.append_assoc, string?_escape (hescape.escape? _), ih]
    simp only [Option.map_some, List.length_append, List.length_cons, Option.some.injEq, Prod.mk.injEq, true_and]
    omega

end JsonToken

namespace Numeral

open JsonToken

variable {as bs cs ds rest : List Char} {c : Char} {n : Nat}

/-! ## Numbers -/

/-- A text that does not begin with characters of some kind. -/
def Avoids (p : Char → Bool) (rest : List Char) : Prop := ∀ c, rest.head? = some c → p c = false

/-- What is put in front decides, unless it is empty. -/
theorem Avoids.append {p : Char → Bool} (ha : Avoids p as) (hb : Avoids p bs) : Avoids p (as ++ bs) := by
  cases as with
  | nil => exact hb
  | cons a as => exact ha

/-- Characters of numerals, the last one a digit. -/
structure Numeric (cs : List Char) : Prop where
  /-- digits, signs, a point or the mark of an exponent -/
  chars : ∀ c ∈ cs, extendsNumeral c = true ∨ c = '-' ∨ c = '+'
  /-- the last one is a digit -/
  last : ∀ c, cs.getLast? = some c → c.isDigit = true

theorem numeric_nil : Numeric [] := ⟨by simp, by simp⟩

/-- Parts of numerals make a numeral when they are put together: the last part has the last digit, and where it is
empty, the part before it has. -/
theorem Numeric.append (ha : Numeric as) (hb : Numeric bs) : Numeric (as ++ bs) := by
  refine ⟨List.forall_mem_append.2 ⟨ha.chars, hb.chars⟩, fun c hc => ?_⟩
  cases bs with
  | nil => exact ha.last c (by simpa using hc)
  | cons b bs => exact hb.last c (by simpa [List.getLast?_append] using hc)

/-- One character in front of others. -/
theorem Numeric.cons (hc : extendsNumeral c = true ∨ c = '-' ∨ c = '+') (hne : cs ≠ []) (h : Numeric cs) :
    Numeric (c :: cs) := by
  refine ⟨List.forall_mem_cons.2 ⟨hc, h.chars⟩, fun d hd => h.last d ?_⟩
  rwa [List.getLast?_cons_of_ne_nil hne] at hd

theorem numeric_digits (h : ∀ c ∈ ds, c.isDigit = true) : Numeric ds where
  chars c hc := .inl (by rw [extendsNumeral, h c hc]; rfl)
  last c hc := h c (List.mem_of_getLast? hc)

/-- Digits are taken up to the first character that is none. -/
theorem digits_of_avoids (hds : ∀ c ∈ ds, c.isDigit = true) (hrest : Avoids Char.isDigit rest) :
    digits (ds ++ rest) = ds := by
  rw [digits, List.takeWhile_append_of_pos hds]
  cases rest with
  | nil => simp
  | cons c rest => rw [List.takeWhile_cons_of_neg (by simp [hrest c rfl]), List.append_nil]

theorem isDigit_of_mem_digits (h : c ∈ digits cs) : c.isDigit = true := by
  have hall : (cs.takeWhile Char.isDigit).all Char.isDigit = true := List.all_takeWhile
  exact List.all_eq_true.1 hall c h

theorem exists_digits (cs : List Char) : ∃ rest, cs = digits cs ++ rest :=
  ⟨cs.dropWhile Char.isDigit, List.takeWhile_append_dropWhile.symm⟩

/-- The digits before the point. -/
theorem exists_whole (h : whole? cs = some ds) :
    (∃ rest, cs = ds ++ rest) ∧ Numeric ds ∧ (∃ c, ds.head? = some c ∧ c.isDigit = true) ∧
      ∀ rest, Avoids Char.isDigit rest → whole? (ds ++ rest) = some ds := by
  have hds : digits cs = ds ∧ ds ≠ [] := by
    rw [whole?] at h
    split at h
    · cases h
    · rename_i hd
      cases h
      exact ⟨hd, List.cons_ne_nil _ _⟩
    · cases h
    · rename_i hne _ _
      cases h
      exact ⟨rfl, hne⟩
  obtain ⟨rfl, hne⟩ := hds
  refine ⟨exists_digits cs, numeric_digits fun c => isDigit_of_mem_digits, ?_, fun rest hrest => ?_⟩
  · obtain ⟨c, ds, hcons⟩ := List.exists_cons_of_ne_nil hne
    exact ⟨c, by rw [hcons]; rfl, isDigit_of_mem_digits (hcons ▸ List.mem_cons_self)⟩
  · rw [whole?, digits_of_avoids (fun c => isDigit_of_mem_digits) hrest]
    exact h

/-- The digits behind the point, and the point before them. -/
theorem exists_fraction (h : fraction? cs = some ds) :
    ∃ lead, (∃ rest, cs = lead ++ rest) ∧ lead.length = (if ds.isEmpty then 0 else 1 + ds.length) ∧
      Numeric lead ∧ (∀ c, lead.head? = some c → c = '.') ∧
      ∀ rest, Avoids (fun c => c.isDigit || c == '.') rest → fraction? (lead ++ rest) = some ds := by
  unfold fraction? at h
  split at h
  · rename_i cs
    split at h
    · cases h
    · rename_i ds' hne
      cases h
      obtain ⟨rest, hcs⟩ := exists_digits cs
      have hdigits : Numeric (digits cs) := numeric_digits fun c => isDigit_of_mem_digits
      refine ⟨'.' :: digits cs, ⟨rest, congrArg ('.' :: ·) hcs⟩, ?_, hdigits.cons (.inl rfl) hne, ?_, ?_⟩
      · rw [if_neg (by simpa using hne), List.length_cons, Nat.add_comm]
      · rintro c hc
        cases hc
        rfl
      · intro rest hrest
        have hstop : Avoids Char.isDigit rest := fun c hc => (Bool.or_eq_false_iff.1 (hrest c hc)).1
        rw [List.cons_append, fraction?, digits_of_avoids (fun c => isDigit_of_mem_digits) hstop]
        split
        · rename_i hnil
          exact absurd hnil hne
        · rfl
  · cases h
    refine ⟨[], ⟨cs, rfl⟩, rfl, numeric_nil, by simp, fun rest hrest => ?_⟩
    rw [List.nil_append]
    unfold fraction?
    split
    · exact absurd (hrest '.' rfl) (by decide)
    · rfl

/-- How many signs stand at the start of a text, one at most. -/
def signs (allowed cs : List Char) : Nat := if allowed.any (cs.head? == some ·) then 1 else 0

/-- The sign is cut off, whether there is one or not. -/
theorem exists_sign (allowed cs : List Char) :
    ∃ sign, cs = sign ++ cs.drop (signs allowed cs) ∧ sign.length = signs allowed cs ∧ ∀ c ∈ sign, c ∈ allowed := by
  refine ⟨cs.take (signs allowed cs), (List.take_append_drop _ _).symm, ?_⟩
  cases cs with
  | nil => simp [signs]
  | cons c cs =>
    rw [signs]
    split
    · rename_i hc
      exact ⟨rfl, by simpa using hc⟩
    · exact ⟨rfl, by simp⟩

/-- Whether a text starts with a sign does not depend on what stands behind its start. -/
theorem signs_append (allowed : List Char) {cs : List Char} (hne : cs ≠ []) (rest rest' : List Char) :
    signs allowed (cs ++ rest) = signs allowed (cs ++ rest') := by
  rw [signs, signs, List.head?_append_of_ne_nil _ hne, List.head?_append_of_ne_nil _ hne]

/-- A sign in front of digits. -/
theorem Numeric.signed {sign : List Char} (h : Numeric ds) (hsign : ∀ c ∈ sign, c = '-' ∨ c = '+') (hne : ds ≠ []) :
    Numeric (sign ++ ds) := by
  refine ⟨List.forall_mem_append.2 ⟨fun c hc => .inr (hsign c hc), h.chars⟩, fun c hc => ?_⟩
  rw [List.getLast?_append_of_ne_nil _ hne] at hc
  exact h.last c hc

/-- Behind the mark of an exponent come a sign, if there is one, and at least one digit. -/
theorem exponent?_cons (hc : c = 'e' ∨ c = 'E') (cs : List Char) :
    exponent? (c :: cs) =
      if digits (cs.drop (signs ['-', '+'] cs)) = [] then none
      else some (cs.head? == some '-', digits (cs.drop (signs ['-', '+'] cs)),
        1 + signs ['-', '+'] cs + (digits (cs.drop (signs ['-', '+'] cs))).length) := by
  have hmark : (c == 'e' || c == 'E') = true := by simpa using hc
  rw [exponent?, if_pos hmark]
  extract_lets n
  have hn : n = signs ['-', '+'] cs := by
    simp only [n, signs, List.any_cons, List.any_nil, Bool.or_false]
    rw [Bool.or_comm]
  rw [hn]
  cases digits (cs.drop (signs ['-', '+'] cs)) <;> simp

/-- Where no mark of an exponent stands, there is none, and nothing is wrong. -/
theorem exponent?_of_ne (h : ∀ c, cs.head? = some c → c ≠ 'e' ∧ c ≠ 'E') : exponent? cs = some (false, [], 0) := by
  cases cs with
  | nil => rfl
  | cons c cs =>
    have hmark : ¬ (c == 'e' || c == 'E') = true := by simpa using h c rfl
    rw [exponent?, if_neg hmark]

/-- The exponent with its mark and sign. -/
theorem exists_exponent {shrinks : Bool} (h : exponent? cs = some (shrinks, ds, n)) :
    ∃ lead, (∃ rest, cs = lead ++ rest) ∧ lead.length = n ∧ Numeric lead ∧
      (∀ c, lead.head? = some c → c = 'e' ∨ c = 'E') ∧
      ∀ rest, Apart rest → exponent? (lead ++ rest) = some (shrinks, ds, n) := by
  by_cases hmark : ∀ c, cs.head? = some c → c ≠ 'e' ∧ c ≠ 'E'
  · rw [exponent?_of_ne hmark] at h
    cases h
    exact ⟨[], ⟨cs, rfl⟩, rfl, numeric_nil, by simp, fun rest hrest => exponent?_of_apart hrest⟩
  obtain ⟨c, cs, rfl, hc⟩ : ∃ c cs', cs = c :: cs' ∧ (c = 'e' ∨ c = 'E') := by
    push Not at hmark
    obtain ⟨c, hhead, hc⟩ := hmark
    obtain ⟨cs', rfl⟩ := List.head?_eq_some_iff.1 hhead
    exact ⟨c, cs', rfl, or_iff_not_imp_left.2 hc⟩
  rw [exponent?_cons hc] at h
  split at h
  · cases h
  rename_i hne
  obtain ⟨hshrinks, hds, hn⟩ : _ ∧ _ ∧ _ := by simpa using h
  -- the sign, if there is one, and the digits
  obtain ⟨sign, hsign, hlength, hallowed⟩ := exists_sign ['-', '+'] cs
  obtain ⟨rest, hrest⟩ := exists_digits (cs.drop (signs ['-', '+'] cs))
  rw [hds] at hne hrest hn
  rw [hrest, ← List.append_assoc] at hsign
  have hdigits : ∀ d ∈ ds, d.isDigit = true := fun d hd => isDigit_of_mem_digits (hds ▸ hd)
  have hbody : Numeric (sign ++ ds) := (numeric_digits hdigits).signed (by simpa using hallowed) hne
  have hne' : sign ++ ds ≠ [] := by simp [hne]
  refine ⟨c :: (sign ++ ds), ⟨rest, congrArg (c :: ·) hsign⟩, ?_, hbody.cons (.inl ?_) hne', ?_, ?_⟩
  · rw [List.length_cons, List.length_append, hlength, ← hn]
    omega
  · rcases hc with rfl | rfl <;> rfl
  · rintro c' hc'
    cases hc'
    exact hc
  · intro rest' hrest'
    have hsigns : signs ['-', '+'] (sign ++ ds ++ rest') = signs ['-', '+'] cs := by
      rw [signs_append _ hne' rest' rest, ← hsign]
    have hhead : (sign ++ ds ++ rest').head? = cs.head? := by
      rw [hsign, List.head?_append_of_ne_nil _ hne', List.head?_append_of_ne_nil _ hne']
    have hdrop : digits ((sign ++ ds ++ rest').drop (signs ['-', '+'] cs)) = ds := by
      rw [List.append_assoc, List.drop_left' hlength, digits_append hdigits hrest']
    rw [List.cons_append, exponent?_cons hc, hsigns, hdrop, if_neg hne, hhead, hshrinks, hn]

/-- A numeral in its parts, each of them read behind the one before. The number of characters is the sum of theirs.
-/
theorem parts?_eq_some {p : Parts} : parts? cs = some p ↔
    ∃ n, whole? (cs.drop (signs ['-'] cs)) = some p.whole ∧
      fraction? ((cs.drop (signs ['-'] cs)).drop p.whole.length) = some p.fraction ∧
      exponent? (((cs.drop (signs ['-'] cs)).drop p.whole.length).drop
        (if p.fraction.isEmpty then 0 else 1 + p.fraction.length)) = some (p.shrinks, p.exponent, n) ∧
      signs ['-'] cs + p.whole.length + (if p.fraction.isEmpty then 0 else 1 + p.fraction.length) + n = p.length := by
  have hminus : signs ['-'] cs = if cs.head? == some '-' then 1 else 0 := by simp [signs]
  rw [hminus]
  simp only [parts?, Option.bind_eq_bind, Option.bind_eq_some_iff]
  constructor
  · rintro ⟨whole, hwhole, fraction, hfraction, ⟨shrinks, exponent, n⟩, hexponent, heq⟩
    cases heq
    exact ⟨n, hwhole, hfraction, hexponent, rfl⟩
  · rintro ⟨n, hwhole, hfraction, hexponent, hlength⟩
    obtain ⟨whole, fraction, shrinks, exponent, length⟩ := p
    refine ⟨whole, hwhole, fraction, hfraction, _, hexponent, ?_⟩
    exact congrArg (fun length => some (⟨whole, fraction, shrinks, exponent, length⟩ : Parts)) hlength

/-- **A numeral is read from its own characters**, unless it goes on. -/
theorem exists_parts {p : Parts} (h : parts? cs = some p) :
    ∃ lead, (∃ rest, cs = lead ++ rest) ∧ lead.length = p.length ∧ Numeric lead ∧
      (∃ c, lead.head? = some c ∧ (c = '-' ∨ c.isDigit = true)) ∧
      ∀ rest, Apart rest → parts? (lead ++ rest) = some p := by
  obtain ⟨n, hwhole, hfraction, hexponent, hlength⟩ := parts?_eq_some.1 h
  obtain ⟨sign, hsign, hlength₀, hallowed⟩ := exists_sign ['-'] cs
  obtain ⟨⟨rest₁, h₁⟩, hnum₁, ⟨d, hd, hdigit⟩, hlocal₁⟩ := exists_whole hwhole
  rw [h₁, List.drop_left] at hfraction hexponent
  obtain ⟨f, ⟨rest₂, h₂⟩, hlength₂, hnum₂, hhead₂, hlocal₂⟩ := exists_fraction hfraction
  rw [h₂, List.drop_left' hlength₂] at hexponent
  obtain ⟨x, ⟨rest₃, h₃⟩, hlength₃, hnum₃, hhead₃, hlocal₃⟩ := exists_exponent hexponent
  rw [h₁, h₂, h₃, ← List.append_assoc] at hsign
  have hne : p.whole ≠ [] := by
    rintro hnil
    rw [hnil] at hd
    cases hd
  have hne' : sign ++ p.whole ≠ [] := by simp [hne]
  have hnum₀ : Numeric (sign ++ p.whole) :=
    hnum₁.signed (fun c hc => .inl (List.mem_singleton.1 (hallowed c hc))) hne
  refine ⟨sign ++ p.whole ++ (f ++ x), ⟨rest₃, by rw [hsign]; simp⟩, ?_, hnum₀.append (hnum₂.append hnum₃), ?_, ?_⟩
  · rw [← hlength, List.length_append, List.length_append, List.length_append, hlength₀, hlength₂, hlength₃]
    omega
  · rw [List.head?_append_of_ne_nil _ hne']
    cases sign with
    | nil => exact ⟨d, hd, .inr hdigit⟩
    | cons c sign => exact ⟨c, rfl, .inl (List.mem_singleton.1 (hallowed c List.mem_cons_self))⟩
  · intro rest hrest
    have hminus : signs ['-'] (sign ++ p.whole ++ (f ++ x) ++ rest) = signs ['-'] cs := by
      rw [List.append_assoc _ (f ++ x), signs_append _ hne' _ (f ++ (x ++ rest₃)), ← hsign]
    have hdrop : (sign ++ p.whole ++ (f ++ x) ++ rest).drop (signs ['-'] cs) = p.whole ++ (f ++ (x ++ rest)) := by
      rw [List.append_assoc, List.append_assoc, List.drop_left' hlength₀, List.append_assoc]
    have hstop₃ : Avoids (fun c => c.isDigit || c == '.') (x ++ rest) := by
      refine Avoids.append (fun c hc => ?_) (fun c hc => ?_)
      · rcases hhead₃ c hc with rfl | rfl <;> rfl
      · have hapart := hrest c hc
        rw [extendsNumeral, Bool.or_assoc, Bool.or_eq_false_iff] at hapart
        exact hapart.1
    have hstop₂ : Avoids Char.isDigit (f ++ (x ++ rest)) := by
      refine Avoids.append (fun c hc => ?_) (fun c hc => ?_)
      · rw [hhead₂ c hc]
        rfl
      · exact (Bool.or_eq_false_iff.1 (hstop₃ c hc)).1
    refine parts?_eq_some.2 ⟨n, ?_, ?_, ?_, by rw [hminus]; exact hlength⟩
    · rw [hminus, hdrop]
      exact hlocal₁ _ hstop₂
    · rw [hminus, hdrop, List.drop_left]
      exact hlocal₂ _ hstop₃
    · rw [hminus, hdrop, List.drop_left, List.drop_left' hlength₂]
      exact hlocal₃ _ hrest

/-- What is read as a number stands for itself. -/
theorem exists_stands (h : length? cs = some n) :
    ∃ lead, (∃ rest, cs = lead ++ rest) ∧ lead.length = n ∧ Numeric lead ∧ Stands lead := by
  obtain ⟨p, hp, hfinite⟩ := Option.bind_eq_some_iff.1 h
  split at hfinite
  · rename_i hfin
    cases hfinite
    obtain ⟨lead, hsplit, hlength, hnumeric, hhead, hlocal⟩ := exists_parts hp
    refine ⟨lead, hsplit, hlength, hnumeric, hhead, fun rest hrest => ?_⟩
    rw [length?, hlocal rest hrest, Option.bind_eq_bind, Option.bind_some, if_pos hfin, hlength]
  · cases hfinite

end Numeral

namespace JsonToken

variable {cs rest : List Char} {c : Char} {t : JsonToken} {n : Nat}

/-! ## Tokens -/

/-- The tokens of one character. -/
def marks : List (Char × JsonToken) :=
  [('\x7b', braceOpen), ('\x7d', braceClose), ('[', bracketOpen), (']', bracketClose), (',', comma), (':', colon)]

/-- What a token is written with. -/
inductive Lexeme : List Char → JsonToken → Prop where
  /-- a mark -/
  | mark {c : Char} {t : JsonToken} (h : (c, t) ∈ marks) : Lexeme [c] t
  /-- a text in quotes -/
  | string {text cs : List Char} (h : Quoted text cs) : Lexeme ('"' :: cs) (string (String.ofList text))
  /-- a number -/
  | number {cs : List Char} (h : Numeral.Stands cs) (hnumeric : Numeral.Numeric cs) :
    Lexeme cs (number (String.ofList cs))
  /-- a word -/
  | word {w : String} (h : w ∈ words) : Lexeme w.toList (word w)

/-- **A token is read from its lexeme.** -/
theorem exists_lexeme (h : first? cs = some (t, n)) :
    ∃ lexeme rest, cs = lexeme ++ rest ∧ lexeme.length = n ∧ Lexeme lexeme t := by
  cases cs with
  | nil => cases h
  | cons c cs =>
    have hmark : ∀ {d : Char} {u : JsonToken}, (c == d) = true → some (u, 1) = some (t, n) → (d, u) ∈ marks →
        ∃ lexeme rest, c :: cs = lexeme ++ rest ∧ lexeme.length = n ∧ Lexeme lexeme t := by
      intro d u hc heq hmem
      cases heq
      cases beq_iff_eq.1 hc
      exact ⟨[c], cs, rfl, rfl, .mark hmem⟩
    rw [first?] at h
    split at h
    · exact hmark ‹_› h (by decide)
    split at h
    · exact hmark ‹_› h (by decide)
    split at h
    · exact hmark ‹_› h (by decide)
    split at h
    · exact hmark ‹_› h (by decide)
    split at h
    · exact hmark ‹_› h (by decide)
    split at h
    · exact hmark ‹_› h (by decide)
    split at h
    · rename_i hquote
      obtain ⟨⟨text, k⟩, hread, heq⟩ := Option.map_eq_some_iff.1 h
      cases heq
      cases beq_iff_eq.1 hquote
      obtain ⟨skipped, body, rest, rfl, hskipped, rfl, hquoted⟩ := exists_quoted hread
      cases List.length_eq_zero_iff.1 hskipped
      exact ⟨'"' :: body, rest, rfl, by simp, .string hquoted⟩
    split at h
    · obtain ⟨k, hlength, heq⟩ := Option.map_eq_some_iff.1 h
      cases heq
      obtain ⟨lead, ⟨rest, hsplit⟩, rfl, hnumeric, hstands⟩ := Numeral.exists_stands hlength
      rw [hsplit, List.take_left]
      exact ⟨lead, rest, rfl, rfl, .number hstands hnumeric⟩
    · obtain ⟨w, hfind, heq⟩ := Option.map_eq_some_iff.1 h
      cases heq
      have hlead : w.toList.isPrefixOf (c :: cs) = true := by simpa using List.find?_some hfind
      obtain ⟨rest, hrest⟩ := List.isPrefixOf_iff_prefix.1 hlead
      exact ⟨w.toList, rest, hrest.symm, String.length_toList, .word (List.mem_of_find?_eq_some hfind)⟩

theorem spells_of_mem_marks (h : (c, t) ∈ marks) : Spells [c] [t] := by
  simp only [marks, List.mem_cons, List.not_mem_nil, or_false, Prod.mk.injEq] at h
  rcases h with ⟨rfl, rfl⟩ | ⟨rfl, rfl⟩ | ⟨rfl, rfl⟩ | ⟨rfl, rfl⟩ | ⟨rfl, rfl⟩ | ⟨rfl, rfl⟩
  all_goals exact spells_mark rfl fun _ => rfl

theorem Quoted.spells {text : List Char} (h : Quoted text cs) :
    Spells ('"' :: cs) [string (String.ofList text)] := by
  intro rest
  refine scan?_first rfl ?_
  have hfirst : ∀ cs, first? ('"' :: cs) =
      (JsonToken.string? 0 cs).map fun out => (string (String.ofList out.1), out.2 + 1) := fun cs => rfl
  rw [List.cons_append, hfirst, h.string?]
  rfl

/-- Whether a token is a number. -/
def isNumber : JsonToken → Bool
  | number _ => true
  | _ => false

/-- **A lexeme spells its token**, unless it is a number that goes on. -/
theorem Lexeme.spells (h : Lexeme cs t) (hrest : t.isNumber = true → Apart rest) :
    scan? 0 (cs ++ rest) = (scan? 0 rest).map ([t] ++ ·) := by
  cases h with
  | mark h => exact spells_of_mem_marks h rest
  | string h => exact h.spells rest
  | number h hnumeric =>
    have hstands : Numeral.Stands (String.ofList cs).toList := by rwa [String.toList_ofList]
    have hspells := Json.spells_number hstands rest (hrest rfl)
    rwa [String.toList_ofList] at hspells
  | word h => exact Json.spells_word h rest

/-! ## Neighbours -/

/-- Whether a token closes an array or an object. -/
def isClose : JsonToken → Bool
  | braceClose | bracketClose => true
  | _ => false

/-- Tokens that may stand side by side: behind a number comes a comma or a closing bracket, and no closing
bracket comes behind a comma. -/
def Beside (a b : JsonToken) : Prop :=
  (a.isNumber = true → b = comma ∨ b.isClose = true) ∧ (b.isClose = true → a ≠ comma)

/-- Tokens of a value: they do not begin by closing, nor end in a comma. -/
structure Phrase (ts : List JsonToken) : Prop where
  /-- each two may stand side by side -/
  chain : ts.IsChain Beside
  /-- the first one does not close anything -/
  first : ∃ t, ts.head? = some t ∧ t.isClose = false
  /-- the last one is no comma -/
  last : ∃ t, ts.getLast? = some t ∧ t ≠ comma

/-- Tokens behind a value: they begin with a comma or a closing bracket, and end in no comma. -/
structure Tail (ts : List JsonToken) : Prop where
  /-- each two may stand side by side -/
  chain : ts.IsChain Beside
  /-- the first one is a comma or closes something -/
  first : ∃ t, ts.head? = some t ∧ (t = comma ∨ t.isClose = true)
  /-- the last one is no comma -/
  last : ∃ t, ts.getLast? = some t ∧ t ≠ comma

variable {ts us : List JsonToken}

/-- A value and what comes behind it. The tokens meet where a value ends, so no comma stands there before a closing
bracket, and a number is followed by what a tail begins with. -/
theorem Phrase.append (h : Phrase ts) (htail : Tail us) : Phrase (ts ++ us) := by
  obtain ⟨a, ha, hnotClose⟩ := h.first
  obtain ⟨b, hb, hnotComma⟩ := h.last
  obtain ⟨c, hc, hends⟩ := htail.first
  obtain ⟨e, he, hlast⟩ := htail.last
  refine ⟨List.isChain_append.2 ⟨h.chain, htail.chain, ?_⟩, ⟨a, ?_, hnotClose⟩, ⟨e, ?_, hlast⟩⟩
  · rintro x hx y hy
    rw [hb] at hx
    rw [hc] at hy
    cases hx
    cases hy
    exact ⟨fun _ => hends, fun _ => hnotComma⟩
  · rw [List.head?_append, ha]
    rfl
  · rw [List.getLast?_append, he]
    rfl

/-- A token in front of a value: an opening bracket, a key or a colon, after which anything may come that a value
begins with. -/
theorem Phrase.cons (h : Phrase ts) (hnumber : t.isNumber = false) (hclose : t.isClose = false) :
    Phrase (t :: ts) := by
  obtain ⟨a, ha, hnotClose⟩ := h.first
  obtain ⟨b, hb, hnotComma⟩ := h.last
  refine ⟨List.isChain_cons.2 ⟨?_, h.chain⟩, ⟨t, rfl, hclose⟩, b, ?_, hnotComma⟩
  · intro y hy
    rw [ha] at hy
    cases hy
    exact ⟨by simp [hnumber], by simp [hnotClose]⟩
  · rw [List.getLast?_cons, hb]
    rfl

theorem tail_close (h : t.isClose = true) : Tail [t] := by
  refine ⟨List.isChain_singleton _, ⟨t, rfl, .inr h⟩, t, rfl, ?_⟩
  rintro rfl
  cases h

theorem phrase_single (h : t.isClose = false) (hcomma : t ≠ comma) : Phrase [t] :=
  ⟨List.isChain_singleton _, ⟨t, rfl, h⟩, t, rfl, hcomma⟩

/-- One item more, behind its comma. -/
theorem Tail.cons_comma (hphrase : Phrase ts) (htail : Tail us) : Tail (comma :: (ts ++ us)) := by
  have h : Phrase (comma :: (ts ++ us)) := (hphrase.append htail).cons rfl rfl
  exact ⟨h.chain, ⟨comma, rfl, .inl rfl⟩, h.last⟩

end JsonToken

namespace Json

open JsonToken

variable {read : Reading} {ts rest : List JsonToken}

/-- A reader of values takes a phrase. -/
def ReadsPhrases (read : Reading) : Prop :=
  ∀ ts v rest, read ts = some (v, rest) → ∃ us, ts = us ++ rest ∧ Phrase us

namespace ReadsPhrases

/-- The items behind the first one are a tail: each one comes behind a comma, and a closing bracket ends them. A
comma before this bracket is no value, which is what makes it an error. -/
theorem restItems (h : ReadsPhrases read) {fuel : Nat} {vs : List Json}
    (hread : Json.restItems read fuel ts = some (vs, rest)) : ∃ us, ts = us ++ rest ∧ Tail us := by
  induction fuel generalizing ts vs with
  | zero => cases hread
  | succ fuel ih =>
    unfold Json.restItems at hread
    split at hread
    · cases hread
      exact ⟨[.bracketClose], rfl, tail_close rfl⟩
    · obtain ⟨⟨v, ts₁⟩, hv, hread⟩ := Option.bind_eq_some_iff.1 hread
      obtain ⟨⟨vs', ts₂⟩, hvs, heq⟩ := Option.bind_eq_some_iff.1 hread
      cases heq
      obtain ⟨us, rfl, hphrase⟩ := h _ _ _ hv
      obtain ⟨us', rfl, htail⟩ := ih hvs
      exact ⟨.comma :: (us ++ us'), by simp, .cons_comma hphrase htail⟩
    · cases hread

/-- An array, without the bracket that opens it. -/
theorem items (h : ReadsPhrases read) {vs : List Json} (hread : Json.items read ts = some (vs, rest)) :
    ∃ us, ts = us ++ rest ∧ Phrase (.bracketOpen :: us) := by
  unfold Json.items at hread
  split at hread
  · cases hread
    exact ⟨[.bracketClose], rfl, (phrase_single rfl (by decide)).append (tail_close rfl)⟩
  · obtain ⟨⟨v, ts₁⟩, hv, hread⟩ := Option.bind_eq_some_iff.1 hread
    obtain ⟨⟨vs', ts₂⟩, hvs, heq⟩ := Option.bind_eq_some_iff.1 hread
    cases heq
    obtain ⟨us, rfl, hphrase⟩ := h _ _ _ hv
    obtain ⟨us', rfl, htail⟩ := h.restItems hvs
    exact ⟨us ++ us', (List.append_assoc ..).symm, (hphrase.append htail).cons rfl rfl⟩

/-- A member is a phrase: a key, a colon and a value. -/
theorem member (h : ReadsPhrases read) {m : String × Json} (hread : Json.member read ts = some (m, rest)) :
    ∃ us, ts = us ++ rest ∧ Phrase us := by
  unfold Json.member at hread
  split at hread
  · obtain ⟨⟨v, ts₁⟩, hv, heq⟩ := Option.bind_eq_some_iff.1 hread
    cases heq
    obtain ⟨us, rfl, hphrase⟩ := h _ _ _ hv
    exact ⟨.string _ :: .colon :: us, rfl, (hphrase.cons rfl rfl).cons rfl rfl⟩
  · cases hread

/-- As for items, with members in place of values. -/
theorem restMembers (h : ReadsPhrases read) {fuel : Nat} {ms : List (String × Json)}
    (hread : Json.restMembers read fuel ts = some (ms, rest)) : ∃ us, ts = us ++ rest ∧ Tail us := by
  induction fuel generalizing ts ms with
  | zero => cases hread
  | succ fuel ih =>
    unfold Json.restMembers at hread
    split at hread
    · cases hread
      exact ⟨[.braceClose], rfl, tail_close rfl⟩
    · obtain ⟨⟨m, ts₁⟩, hm, hread⟩ := Option.bind_eq_some_iff.1 hread
      obtain ⟨⟨ms', ts₂⟩, hms, heq⟩ := Option.bind_eq_some_iff.1 hread
      cases heq
      obtain ⟨us, rfl, hphrase⟩ := h.member hm
      obtain ⟨us', rfl, htail⟩ := ih hms
      exact ⟨.comma :: (us ++ us'), by simp, .cons_comma hphrase htail⟩
    · cases hread

/-- An object, without the bracket that opens it. -/
theorem members (h : ReadsPhrases read) {ms : List (String × Json)}
    (hread : Json.members read ts = some (ms, rest)) : ∃ us, ts = us ++ rest ∧ Phrase (.braceOpen :: us) := by
  unfold Json.members at hread
  split at hread
  · cases hread
    exact ⟨[.braceClose], rfl, (phrase_single rfl (by decide)).append (tail_close rfl)⟩
  · obtain ⟨⟨m, ts₁⟩, hm, hread⟩ := Option.bind_eq_some_iff.1 hread
    obtain ⟨⟨ms', ts₂⟩, hms, heq⟩ := Option.bind_eq_some_iff.1 hread
    cases heq
    obtain ⟨us, rfl, hphrase⟩ := h.member hm
    obtain ⟨us', rfl, htail⟩ := h.restMembers hms
    exact ⟨us ++ us', (List.append_assoc ..).symm, (hphrase.append htail).cons rfl rfl⟩

end ReadsPhrases

/-- A value without others in it is one token. -/
theorem readsPhrases_atom : ReadsPhrases atom := by
  intro ts v rest h
  unfold atom at h
  split at h
  · cases h
    exact ⟨[_], rfl, phrase_single rfl (by simp)⟩
  · cases h
    exact ⟨[_], rfl, phrase_single rfl (by simp)⟩
  · rename_i w ts
    have hrest : rest = ts := by
      split at h
      · cases h
        rfl
      · split at h <;> cases h <;> rfl
    exact ⟨[.word w], by rw [hrest]; rfl, phrase_single rfl (by simp)⟩
  · cases h

/-- **Every value is a phrase.** By induction on the depth: items and members are phrases, since they are values of
less depth. -/
theorem readsPhrases_value (close : List (String × Json) → Json) (depth : Nat) :
    ReadsPhrases (value close depth) := by
  induction depth with
  | zero => exact readsPhrases_atom
  | succ depth ih =>
    intro ts v rest h
    unfold value at h
    split at h
    · obtain ⟨⟨vs, ts₁⟩, hvs, heq⟩ := Option.bind_eq_some_iff.1 h
      cases heq
      obtain ⟨us, rfl, hphrase⟩ := ih.items hvs
      exact ⟨.bracketOpen :: us, rfl, hphrase⟩
    · obtain ⟨⟨ms, ts₁⟩, hms, heq⟩ := Option.bind_eq_some_iff.1 h
      cases heq
      obtain ⟨us, rfl, hphrase⟩ := ih.members hms
      exact ⟨.braceOpen :: us, rfl, hphrase⟩
    · exact readsPhrases_atom _ _ _ h

/-- **The tokens of a document** that is accepted may stand side by side. -/
theorem tidy_tokens {close : List (String × Json) → Json} {source : String} {v : Json}
    (h : document? close source = some v) :
    ∃ ts, scan? 0 source.toList = some ts ∧ ts.IsChain Beside := by
  unfold document? at h
  split at h
  · rename_i hvalue
    obtain ⟨ts, hts, hread⟩ := Option.bind_eq_some_iff.1 hvalue
    obtain ⟨us, rfl, hphrase⟩ := readsPhrases_value close maxDepth _ _ _ hread
    exact ⟨us ++ [], hts, by rw [List.append_nil]; exact hphrase.chain⟩
  · cases h

end Json

end ClientBoundary
