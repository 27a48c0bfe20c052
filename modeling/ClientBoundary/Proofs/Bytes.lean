import ClientBoundary.Text.Bytes

/-!
# What bytes show

Reading bytes undoes writing a text, and nothing but the bytes of a text reads as that text
(`text?_eq_some_iff`). Bytes that are no text show more than they spell, so **showing loses**: what is shown
tells the bytes only where they are a text (`ofText_shown`), or where it has no replacement in it
(`eq_ofText_of_shown`).

A character of one byte, such as a slash or a dot, is never part of a longer piece (`pieces_append`). So what
a path shows is what its segments show, with slashes between them (`cut_shown`).
-/

namespace ClientBoundary

namespace Bytes

variable {as bs : Bytes} {b : UInt8} {c : Char} {cs ds : List Char} {s t : String}

/-! ## Writing -/

@[simp] theorem encode_nil : encode [] = [] := rfl

@[simp] theorem encode_cons : encode (c :: cs) = String.utf8EncodeChar c ++ encode cs :=
  List.flatMap_cons

@[simp] theorem encode_append (cs ds : List Char) : encode (cs ++ ds) = encode cs ++ encode ds :=
  List.flatMap_append

@[simp] theorem ofText_append (s t : String) : ofText (s ++ t) = ofText s ++ ofText t := by
  simp [ofText]

@[simp] theorem ofText_ofList (cs : List Char) : ofText (String.ofList cs) = encode cs := by
  simp [ofText]

/-- Each character is spelt by one byte at least, so reading comes to an end. -/
theorem length_utf8EncodeChar_pos (c : Char) : 0 < (String.utf8EncodeChar c).length := by
  rw [String.length_utf8EncodeChar]
  exact c.utf8Size_pos

theorem utf8EncodeChar_ne_nil (c : Char) : String.utf8EncodeChar c ≠ [] :=
  List.ne_nil_of_length_pos (length_utf8EncodeChar_pos c)

/-- All bytes of a character but the first are tails. -/
theorem le_of_mem_tail (h : b ∈ (String.utf8EncodeChar c).tail) : 0x80 ≤ b := by
  have htail : ∀ n : Nat, (0x80 : UInt8) ≤ UInt8.ofNat (n % 64 + 128) := by
    intro n
    rw [UInt8.le_iff_toNat_le, UInt8.toNat_ofNat']
    have : n % 64 < 64 := Nat.mod_lt _ (by omega)
    simp
    omega
  rw [String.utf8EncodeChar.eq_1] at h
  split at h
  · simp at h
  split at h
  · simp only [List.tail_cons, List.mem_singleton] at h
    exact h ▸ htail _
  split at h
  · simp only [List.tail_cons, List.mem_cons, List.not_mem_nil, or_false] at h
    rcases h with rfl | rfl <;> exact htail _
  · simp only [List.tail_cons, List.mem_cons, List.not_mem_nil, or_false] at h
    rcases h with rfl | rfl | rfl <;> exact htail _

/-! ## Reading one character -/

/-- A character that is spelt is read, whatever stands behind it. -/
theorem char?_append (c : Char) (bs : Bytes) : char? (String.utf8EncodeChar c ++ bs) = some c := by
  have hlen : (String.utf8EncodeChar c).length ≤ 4 := by
    rw [String.length_utf8EncodeChar]
    exact c.utf8Size_le_four
  rw [char?, List.take_append, List.take_of_length_le hlen, List.toByteArray_append]
  exact ByteArray.utf8DecodeChar?_utf8EncodeChar_append

/-- A character that is read is spelt there: no bytes but its own are read as it. -/
theorem exists_of_char? (h : char? bs = some c) : ∃ rest, bs = String.utf8EncodeChar c ++ rest := by
  obtain ⟨l, hl⟩ := ByteArray.exists_of_utf8DecodeChar?_eq_some h
  have htake : bs.take 4 = String.utf8EncodeChar c ++ l.data.toList := by
    simpa using congrArg (·.data.toList) hl
  refine ⟨l.data.toList ++ bs.drop 4, ?_⟩
  rw [← List.append_assoc, ← htake, List.take_append_drop]

/-! ## Reading pieces -/

/-- Bytes that are skipped are dropped. Reading skips them one by one, which makes it go down the list. -/
theorem piecesFrom_eq (n : Nat) (bs : Bytes) : piecesFrom n bs = pieces (bs.drop n) := by
  induction bs generalizing n with
  | nil => cases n <;> rfl
  | cons b bs ih =>
    cases n with
    | zero => rfl
    | succ n => rw [piecesFrom, ih, List.drop_succ_cons]

/-- A character is a piece. -/
theorem pieces_char (c : Char) (bs : Bytes) :
    pieces (String.utf8EncodeChar c ++ bs) = some c :: pieces bs := by
  have hchar := char?_append c bs
  have hlen : (String.utf8EncodeChar c).length = c.utf8Size := String.length_utf8EncodeChar c
  cases hcode : String.utf8EncodeChar c with
  | nil => exact absurd hcode (utf8EncodeChar_ne_nil c)
  | cons b rest =>
    rw [hcode] at hchar hlen
    rw [List.cons_append] at hchar ⊢
    rw [List.length_cons] at hlen
    rw [pieces, piecesFrom, hchar]
    dsimp only
    rw [piecesFrom_eq, ← hlen, Nat.add_sub_cancel, List.drop_left]

/-- A character of one byte is below the tails. -/
theorem lt_of_utf8EncodeChar (hc : String.utf8EncodeChar c = [b]) : b < 0x80 := by
  rw [String.utf8EncodeChar.eq_1] at hc
  split at hc
  · rename_i hle
    rw [← List.singleton_inj.1 hc, UInt8.lt_iff_toNat_lt, UInt8.toNat_ofNat']
    exact Nat.lt_of_le_of_lt (Nat.mod_le _ _) (Nat.lt_succ_of_le hle)
  split at hc
  · cases hc
  split at hc <;> cases hc

theorem isTail_of_lt (hb : b < 0x80) : isTail b = false := by
  simp [isTail, UInt8.not_le.2 hb]

/-- No character of more than one byte goes on with a byte below the tails. -/
theorem opens_of_lt (a : UInt8) (hb : b < 0x80) : opens a b = false := by
  simp [opens, isTail_of_lt hb]

theorem strayLength_pos (bs : Bytes) : 0 < strayLength bs := by
  fun_cases strayLength bs <;> omega

theorem strayLength_le (hne : bs ≠ []) : strayLength bs ≤ bs.length := by
  fun_cases strayLength bs <;> simp_all [Nat.one_le_iff_ne_zero]

/-- A character of one byte ends what is stray. -/
theorem strayLength_append (hb : b < 0x80) (hne : as ≠ []) :
    strayLength (as ++ b :: bs) = strayLength as := by
  rcases as with _ | ⟨a, _ | ⟨a', _ | ⟨a'', rest⟩⟩⟩
  · exact absurd rfl hne
  · simp [strayLength, opens_of_lt a hb]
  · simp [strayLength, isTail_of_lt hb]
  · rfl

/-- Where no character starts, as many bytes as are stray together are a piece. -/
theorem pieces_stray (hne : bs ≠ []) (h : char? bs = none) :
    pieces bs = none :: pieces (bs.drop (strayLength bs)) := by
  cases bs with
  | nil => exact absurd rfl hne
  | cons b rest =>
    have hpos : strayLength (b :: rest) = strayLength (b :: rest) - 1 + 1 := by
      have := strayLength_pos (b :: rest)
      omega
    rw [pieces, piecesFrom, h]
    dsimp only
    rw [piecesFrom_eq, hpos, List.drop_succ_cons, Nat.add_sub_cancel]

@[simp] theorem pieces_nil : pieces [] = [] := rfl

/-- Bytes are read piece by piece: a character or a stray piece, and then the rest. -/
@[elab_as_elim]
theorem piecewise {motive : Bytes → Prop} (nil : motive [])
    (char : ∀ c rest, motive rest → motive (String.utf8EncodeChar c ++ rest))
    (stray : ∀ bs, bs ≠ [] → char? bs = none → motive (bs.drop (strayLength bs)) → motive bs)
    (bs : Bytes) : motive bs := by
  by_cases hne : bs = []
  · exact hne ▸ nil
  have hpos := List.length_pos_iff.2 hne
  cases h : char? bs with
  | none =>
    have hlt : bs.length - strayLength bs < bs.length := by
      have := strayLength_pos bs
      omega
    exact stray bs hne h (piecewise nil char stray _)
  | some c =>
    obtain ⟨rest, hrest⟩ := exists_of_char? h
    have hlt : rest.length < bs.length := by
      have := length_utf8EncodeChar_pos c
      rw [hrest, List.length_append]
      omega
    exact hrest ▸ char c rest (piecewise nil char stray rest)
termination_by bs.length

/-- Reading undoes writing. -/
@[simp] theorem pieces_encode (cs : List Char) : pieces (encode cs) = cs.map some := by
  induction cs with
  | nil => rfl
  | cons c cs ih => rw [encode_cons, pieces_char, ih, List.map_cons]

/-- Only the bytes that spell characters read as these characters. -/
theorem eq_encode_of_pieces (h : pieces bs = cs.map some) : bs = encode cs := by
  induction bs using piecewise generalizing cs with
  | nil => simp_all
  | char c rest ih =>
    rw [pieces_char] at h
    obtain ⟨d, ds, rfl, hd, hds⟩ := List.map_eq_cons_iff.1 h.symm
    rw [encode_cons, Option.some.inj hd, ← ih hds.symm]
  | stray bs hne hnone ih =>
    rw [pieces_stray hne hnone] at h
    obtain ⟨d, ds, rfl, hd, hds⟩ := List.map_eq_cons_iff.1 h.symm
    cases hd

/-! ## The two readings -/

/-- A text is shown as it is. -/
@[simp] theorem shown_ofText (s : String) : (ofText s).shown = s := by
  simp [shown, ofText, Function.comp_def]

@[simp] theorem isText_ofText (s : String) : (ofText s).isText = true := by
  simp [isText, ofText]

/-- What bytes that spell a text show is the text. -/
theorem ofText_shown (h : bs.isText = true) : ofText bs.shown = bs := by
  have hpieces : bs.pieces = (bs.pieces.map (·.getD replacement)).map some := by
    rw [isText, List.all_eq_true] at h
    rw [List.map_map]
    refine (List.map_id _).symm.trans (List.map_congr_left fun piece hpiece => ?_)
    obtain ⟨c, rfl⟩ := Option.isSome_iff_exists.1 (h piece hpiece)
    rfl
  rw [shown, ofText_ofList, ← eq_encode_of_pieces hpieces]

/-- Different texts are spelt by different bytes. -/
theorem ofText_injective (h : ofText s = ofText t) : s = t := by
  rw [← shown_ofText s, h, shown_ofText]

/-- The bytes of a text spell this text, and no other bytes do. -/
theorem text?_eq_some_iff : bs.text? = some s ↔ bs = ofText s := by
  refine ⟨fun h => ?_, fun h => by simp [text?, h]⟩
  rw [text?] at h
  split at h
  · rename_i htext
    rw [← Option.some.inj h, ofText_shown htext]
  · cases h

/-- Bytes that show no replacement are the bytes of what they show. -/
theorem eq_ofText_of_shown (h : bs.shown = s) (hs : replacement ∉ s.toList) : bs = ofText s := by
  have htext : bs.isText = true := by
    rw [isText, List.all_eq_true]
    intro piece hpiece
    cases piece with
    | some c => rfl
    | none =>
      have hmem : replacement ∈ bs.shown.toList := by
        rw [shown, String.toList_ofList]
        exact List.mem_map.2 ⟨none, hpiece, rfl⟩
      exact absurd (h ▸ hmem) hs
  rw [← h, ofText_shown htext]

/-- A text without replacements is shown by its bytes only. -/
theorem ofText_shown_eq_iff (hs : replacement ∉ s.toList) : ofText bs.shown = ofText s ↔ bs = ofText s := by
  refine ⟨fun h => eq_ofText_of_shown (ofText_injective h) hs, fun h => ?_⟩
  rw [h, shown_ofText]

/-! ## Characters of one byte -/

/-- Bytes that start no character do not start one with a byte below the tails behind them. -/
theorem char?_append_of_none (hb : b < 0x80) (hne : as ≠ []) (h : char? as = none) :
    char? (as ++ b :: bs) = none := by
  cases hchar : char? (as ++ b :: bs) with
  | none => rfl
  | some c =>
    obtain ⟨rest, hrest⟩ := exists_of_char? hchar
    rcases List.append_eq_append_iff.1 hrest with ⟨more, hcode, hmore⟩ | ⟨more, has, -⟩
    · -- the character would go on behind the byte, which is no tail
      cases more with
      | nil =>
        rw [List.append_nil] at hcode
        have := char?_append c []
        rw [List.append_nil, hcode, h] at this
        cases this
      | cons b' more =>
        rw [List.cons_append, List.cons.injEq] at hmore
        have hmem : b ∈ (String.utf8EncodeChar c).tail := by
          rw [hcode, ← hmore.1]
          cases as with
          | nil => exact absurd rfl hne
          | cons a as => simp
        exact absurd hb (UInt8.not_lt.2 (le_of_mem_tail hmem))
    · rw [has, char?_append] at h
      cases h

/-- A character of one byte is a piece of its own, whatever stands around it. -/
theorem pieces_append (hc : String.utf8EncodeChar c = [b]) (as bs : Bytes) :
    pieces (as ++ b :: bs) = pieces as ++ some c :: pieces bs := by
  have hb := lt_of_utf8EncodeChar hc
  induction as using piecewise with
  | nil =>
    have hchar := pieces_char c bs
    rwa [hc] at hchar
  | char d rest ih => rw [List.append_assoc, pieces_char, pieces_char, ih, List.cons_append]
  | stray as hne hnone ih =>
    rw [pieces_stray (by simp) (char?_append_of_none hb hne hnone), strayLength_append hb hne,
      List.drop_append_of_le_length (strayLength_le hne), ih, pieces_stray hne hnone,
      List.cons_append]

/-- Bytes spell a text when what stands on both sides of such a character does. -/
theorem isText_append (hc : String.utf8EncodeChar c = [b]) (as bs : Bytes) :
    (as ++ b :: bs).isText = (as.isText && bs.isText) := by
  simp [isText, pieces_append hc]

theorem utf8EncodeChar_slash : String.utf8EncodeChar '/' = [slash] := rfl

theorem utf8EncodeChar_dot : String.utf8EncodeChar '.' = [dot] := rfl

/-! ## Slashes -/

/-- A slash is shown where it stands, and what is on both sides of it is shown by itself. -/
theorem shown_append_slash (as bs : Bytes) :
    (as ++ slash :: bs).shown = as.shown ++ "/" ++ bs.shown := by
  rw [← String.toList_inj]
  simp [shown, pieces_append utf8EncodeChar_slash]

/-- A character that is read is there. -/
theorem subset_of_mem_pieces (h : some c ∈ pieces bs) : String.utf8EncodeChar c ⊆ bs := by
  induction bs using piecewise with
  | nil => cases h
  | char d rest ih =>
    rw [pieces_char, List.mem_cons] at h
    rcases h with h | h
    · rw [Option.some.inj h]
      exact List.subset_append_left _ _
    · exact List.subset_append_of_subset_right _ (ih h)
  | stray bs hne hnone ih =>
    rw [pieces_stray hne hnone, List.mem_cons] at h
    rcases h with h | h
    · cases h
    · exact List.Subset.trans (ih h) (List.drop_subset _ _)

/-- A slash is never shown for anything else. -/
theorem slash_not_mem_shown (h : slash ∉ bs) : '/' ∉ bs.shown.toList := by
  rw [shown, String.toList_ofList, List.mem_map]
  rintro ⟨piece, hpiece, hslash⟩
  cases piece with
  | none => exact absurd hslash (by decide)
  | some c =>
    obtain rfl : c = '/' := hslash
    exact h (subset_of_mem_pieces hpiece (List.mem_cons_self ..))

/-- Segments with slashes between them are shown one by one. -/
theorem toList_shown_glue (segments : List Bytes) :
    (shown (Text.glue slash segments)).toList =
      Text.glue '/' (segments.map (·.shown.toList)) := by
  induction segments with
  | nil => rfl
  | cons first rest ih =>
    cases rest with
    | nil => rfl
    | cons second rest =>
      have hglue : Text.glue slash (first :: second :: rest) =
          first ++ slash :: Text.glue slash (second :: rest) := rfl
      rw [hglue, shown_append_slash, String.toList_append, String.toList_append, ih,
        List.append_assoc]
      rfl

/-- What bytes show is what their segments show, with slashes between them. -/
theorem cut_shown (bs : Bytes) :
    Text.cut '/' bs.shown.toList = (Text.cut slash bs).map (fun segment => (shown segment).toList) := by
  have hglue := toList_shown_glue (Text.cut slash bs)
  rw [Text.glue_cut] at hglue
  rw [hglue]
  apply Text.cut_glue
  · simpa using Text.cut_ne_nil slash bs
  · intro piece hpiece
    obtain ⟨segment, hsegment, rfl⟩ := List.mem_map.1 hpiece
    exact slash_not_mem_shown (Text.not_mem_of_mem_cut hsegment)

/-- A text is spelt with the byte of a slash exactly where it has one. -/
theorem slash_mem_encode : slash ∈ encode cs ↔ '/' ∈ cs := by
  refine ⟨fun h => ?_, fun h => ?_⟩
  · obtain ⟨as, bs, hsplit⟩ := List.append_of_mem h
    have hpieces := congrArg pieces hsplit
    rw [pieces_encode, pieces_append utf8EncodeChar_slash] at hpieces
    have hmem : some '/' ∈ cs.map some := by simp [hpieces]
    simpa using hmem
  · exact List.mem_flatMap.2 ⟨'/', h, List.mem_singleton_self _⟩

/-- Parts of a text with slashes between them are spelt one by one. -/
theorem encode_glue (pieces : List (List Char)) :
    encode (Text.glue '/' pieces) = Text.glue slash (pieces.map encode) := by
  induction pieces with
  | nil => rfl
  | cons first rest ih =>
    cases rest with
    | nil => rfl
    | cons second rest =>
      have hglue : Text.glue '/' (first :: second :: rest) =
          first ++ '/' :: Text.glue '/' (second :: rest) := rfl
      rw [hglue, encode_append, encode_cons, ih]
      rfl

/-- The segments of a text as bytes. -/
theorem cut_encode (cs : List Char) :
    Text.cut slash (encode cs) = (Text.cut '/' cs).map encode := by
  have hglue := encode_glue (Text.cut '/' cs)
  rw [Text.glue_cut] at hglue
  rw [hglue]
  apply Text.cut_glue
  · simpa using Text.cut_ne_nil '/' cs
  · intro piece hpiece
    obtain ⟨segment, hsegment, rfl⟩ := List.mem_map.1 hpiece
    exact fun h => Text.not_mem_of_mem_cut hsegment (slash_mem_encode.1 h)

/-- The segments of what bytes show are what their segments show. -/
theorem cut_ofText_shown (bs : Bytes) :
    Text.cut slash (ofText bs.shown) = (Text.cut slash bs).map fun segment => ofText (shown segment) := by
  rw [ofText, cut_encode, cut_shown, List.map_map]
  rfl

/-- A text starts with a slash if its bytes do. -/
theorem head?_encode : (encode cs).head? = some slash ↔ cs.head? = some '/' := by
  cases cs with
  | nil => simp
  | cons c cs =>
    refine ⟨fun h => ?_, fun h => ?_⟩
    · have hmem : slash ∈ encode [c] := by
        cases hcode : String.utf8EncodeChar c with
        | nil => exact absurd hcode (utf8EncodeChar_ne_nil c)
        | cons b rest =>
          have hb : b = slash := by simpa [hcode] using h
          simp [hcode, hb]
      have hc : '/' = c := by simpa using slash_mem_encode.1 hmem
      rw [List.head?_cons, hc]
    · obtain rfl : c = '/' := by simpa using h
      rfl

end Bytes

end ClientBoundary
