import Mathlib.Data.List.Dedup
import Mathlib.Data.List.Induction
import ClientBoundary.Proofs.Alias

/-!
# Histories of aliases

A table is made by adding aliases one after the other. An alias **counts** if its pattern has a stem and it
has targets, and only the last one that counts is kept of each pattern (`LastAt`). So a table is told by its
history without its rules: what a lookup finds, which of two equal stems is found, and how many rules there
are (`lookup_ofList`).
-/

namespace ClientBoundary

namespace AliasTable

variable {aliases : List (String × List Path)} {a b : String × List Path} {known : List AliasRule}
  {t : AliasTable} {q r : AliasRule} {s stem rest : String} {i j : Nat}

/-! ## What counts -/

/-- An alias **counts** if its pattern has a stem and it has targets. -/
def Counts (a : String × List Path) : Prop := a.1 ≠ "" ∧ a.1 ≠ "*" ∧ a.2 ≠ []

instance : DecidablePred Counts := fun a => inferInstanceAs (Decidable (a.1 ≠ "" ∧ a.1 ≠ "*" ∧ a.2 ≠ []))

/-- The alias at `i` is the last one that counts of those with its pattern. -/
def LastAt (aliases : List (String × List Path)) (i : Nat) (a : String × List Path) : Prop :=
  aliases[i]? = some a ∧ Counts a ∧
    ∀ j b, i < j → aliases[j]? = some b → Counts b → b.1 ≠ a.1

/-- A pattern **applies** to a specifier, which is its stem with a rest behind it. Without a star there is no
rest. -/
def Applies (pattern s stem rest : String) : Prop :=
  stem ++ rest = s ∧
    (pattern = stem ++ "*" ∨ pattern = stem ∧ rest = "" ∧ pattern.toList.getLast? ≠ some '*')

/-- An alias counts if a rule is added for it. -/
theorem counts_iff : Counts a ↔ ∃ r, AliasRule.of? a.1 a.2 = some r := by
  have hstem : (splitPattern a.1).1 = "" ↔ a.1 = "" ∨ a.1 = "*" := by
    by_cases hstar : a.1.toList.getLast? = some '*'
    · obtain ⟨stem, hpattern⟩ := exists_stem hstar
      rw [hpattern, splitPattern_star]
      constructor
      · rintro rfl
        exact .inr String.empty_append
      · rintro (hempty | hlone)
        · simp at hempty
        · exact (String.append_left_inj "*").1 hlone
    · rw [splitPattern_plain hstar]
      refine ⟨.inl, ?_⟩
      rintro (hempty | hlone)
      · exact hempty
      · rw [hlone] at hstar
        exact absurd rfl hstar
  rw [Counts, AliasRule.of?]
  split
  · rename_i hreject
    rw [Bool.or_eq_true, decide_eq_true_eq, hstem, List.isEmpty_iff] at hreject
    refine iff_of_false ?_ (by simp)
    rintro ⟨hempty, hlone, htargets⟩
    rcases hreject with (h | h) | h
    · exact hempty h
    · exact hlone h
    · exact htargets h
  · rename_i haccept
    rw [Bool.or_eq_true, decide_eq_true_eq, hstem, List.isEmpty_iff] at haccept
    push Not at haccept
    exact iff_of_true ⟨haccept.1.1, haccept.1.2, haccept.2⟩ ⟨_, rfl⟩

/-- A rule that can be in a table applies as its pattern does. -/
theorem applies_pattern (h : r.Proper) : Applies r.pattern s stem rest ↔ r.stem = stem ∧ r.rest? s = some rest := by
  rw [AliasRule.rest?_eq_some, Applies, AliasRule.pattern]
  cases hwild : r.wildcard with
  | true =>
    simp only [if_true, String.append_left_inj, reduceCtorEq, false_implies, and_true]
    constructor
    · rintro ⟨happend, rfl | ⟨-, -, hplain⟩⟩
      · exact ⟨rfl, happend⟩
      · exact absurd (by simp) hplain
    · rintro ⟨rfl, happend⟩
      exact ⟨happend, .inl rfl⟩
  | false =>
    have hplain := h.2.2 hwild
    simp only [Bool.false_eq_true, if_false, forall_const]
    constructor
    · rintro ⟨happend, hstar | ⟨rfl, hrest, -⟩⟩
      · rw [hstar] at hplain
        exact absurd (by simp) hplain
      · exact ⟨rfl, happend, hrest⟩
    · rintro ⟨rfl, happend, hrest⟩
      exact ⟨happend, .inr ⟨rfl, hrest, hplain⟩⟩

/-- Rules that can be in a table are told apart by their patterns and targets. -/
theorem eq_of_pattern (hq : q.Proper) (hr : r.Proper) (hpattern : q.pattern = r.pattern)
    (htargets : q.targets = r.targets) : q = r := by
  have hq' := AliasRule.of?_eq_some.2 ⟨hpattern, htargets, hq⟩
  rw [AliasRule.of?_eq_some.2 ⟨rfl, rfl, hr⟩] at hq'
  exact (Option.some.inj hq').symm

theorem samePattern_iff (hq : q.Proper) (hr : r.Proper) : q.samePattern r = true ↔ q.pattern = r.pattern := by
  refine ⟨AliasRule.pattern_eq_of_samePattern, fun hpattern => ?_⟩
  have hsplit := AliasRule.splitPattern_eq.2 ⟨hpattern, hq.2.2⟩
  rw [AliasRule.splitPattern_eq.2 ⟨rfl, hr.2.2⟩] at hsplit
  obtain ⟨hstem, hwild⟩ := Prod.mk.inj hsplit
  rw [AliasRule.samePattern, hstem, hwild, beq_self_eq_true, beq_self_eq_true]
  rfl

/-! ## The last alias of a pattern -/

/-- One more alias is the last one of its pattern, if it counts, and takes that from an earlier one. -/
theorem lastAt_append : LastAt (aliases ++ [b]) i a ↔
    LastAt aliases i a ∧ (Counts b → b.1 ≠ a.1) ∨ i = aliases.length ∧ a = b ∧ Counts b := by
  constructor
  · rintro ⟨hi, hcounts, hlast⟩
    rcases Nat.lt_trichotomy i aliases.length with hlt | rfl | hgt
    · refine .inl ⟨⟨?_, hcounts, fun j c hij hj => hlast j c hij ?_⟩, hlast _ b hlt (by simp)⟩
      · rwa [List.getElem?_append_left hlt] at hi
      · rwa [List.getElem?_append_left (List.getElem?_eq_some_iff.1 hj).1]
    · rw [List.getElem?_append_right (Nat.le_refl _), Nat.sub_self] at hi
      cases hi
      exact .inr ⟨rfl, rfl, hcounts⟩
    · rw [List.getElem?_eq_none (by rw [List.length_append, List.length_singleton]; omega)] at hi
      cases hi
  · rintro (⟨⟨hi, hcounts, hlast⟩, hother⟩ | ⟨rfl, rfl, hcounts⟩)
    · have hlt := (List.getElem?_eq_some_iff.1 hi).1
      refine ⟨by rwa [List.getElem?_append_left hlt], hcounts, fun j c hij hj => ?_⟩
      rcases Nat.lt_trichotomy j aliases.length with hj' | rfl | hj'
      · rw [List.getElem?_append_left hj'] at hj
        exact hlast j c hij hj
      · rw [List.getElem?_append_right (Nat.le_refl _), Nat.sub_self] at hj
        cases hj
        exact hother
      · rw [List.getElem?_eq_none (by rw [List.length_append, List.length_singleton]; omega)] at hj
        cases hj
    · refine ⟨by simp, hcounts, fun j c hij hj => ?_⟩
      rw [List.getElem?_eq_none (by rw [List.length_append, List.length_singleton]; omega)] at hj
      cases hj

theorem LastAt.index_eq (ha : LastAt aliases i a) (hb : LastAt aliases j b) (hpattern : a.1 = b.1) : i = j := by
  rcases Nat.lt_trichotomy i j with hlt | heq | hgt
  · exact absurd hpattern.symm (ha.2.2 j b hlt hb.1 hb.2.1)
  · exact heq
  · exact absurd hpattern (hb.2.2 i a hgt ha.1 ha.2.1)

/-- Of the aliases with a pattern, if one counts, one is the last. -/
theorem exists_lastAt (ha : a ∈ aliases) (hcounts : Counts a) :
    ∃ i targets, LastAt aliases i (a.1, targets) := by
  induction aliases using List.reverseRecOn with
  | nil => cases ha
  | append_singleton aliases b ih =>
    by_cases hb : Counts b ∧ b.1 = a.1
    · exact ⟨aliases.length, b.2, lastAt_append.2 (.inr ⟨rfl, by rw [← hb.2], hb.1⟩)⟩
    · have hmem : a ∈ aliases := by
        rcases List.mem_append.1 ha with hmem | hmem
        · exact hmem
        · cases List.mem_singleton.1 hmem
          exact absurd ⟨hcounts, rfl⟩ hb
      obtain ⟨i, targets, hlast⟩ := ih hmem
      exact ⟨i, targets, lastAt_append.2 (.inl ⟨hlast, fun hcounts hpattern => hb ⟨hcounts, hpattern⟩⟩)⟩

/-! ## The rules that count -/

/-- The rules that count are those of the last aliases, by the time they were added. -/
structure Tells (aliases : List (String × List Path)) (known : List AliasRule) : Prop where
  /-- the rules of the last aliases -/
  mem_iff : ∀ {r : AliasRule}, r ∈ known ↔ r.Proper ∧ ∃ i, LastAt aliases i (r.pattern, r.targets)
  /-- earlier ones come first -/
  ordered : known.Pairwise fun q r => ∀ i j, LastAt aliases i (q.pattern, q.targets) →
    LastAt aliases j (r.pattern, r.targets) → i < j

namespace Tells

theorem init : Tells [] [] where
  mem_iff := iff_of_false List.not_mem_nil (by rintro ⟨-, i, hi, -⟩; cases hi)
  ordered := .nil

/-- An alias that does not count changes nothing. -/
theorem reject (h : Tells aliases known) (hb : ¬ Counts b) : Tells (aliases ++ [b]) known := by
  have hsame : ∀ {i a}, LastAt (aliases ++ [b]) i a ↔ LastAt aliases i a := by
    intro i a
    rw [lastAt_append]
    constructor
    · rintro (⟨hlast, -⟩ | ⟨-, -, hcounts⟩)
      · exact hlast
      · exact absurd hcounts hb
    · exact fun hlast => .inl ⟨hlast, fun hcounts => absurd hcounts hb⟩
  refine ⟨?_, by simpa only [hsame] using h.ordered⟩
  intro r
  simp only [hsame, h.mem_iff]

/-- The rule of an alias that counts comes last, and puts out the one with its pattern. -/
theorem accept (h : Tells aliases known) (hr : AliasRule.of? b.1 b.2 = some r) :
    Tells (aliases ++ [b]) (later known r) := by
  obtain ⟨hpattern, htargets, hproper⟩ := AliasRule.of?_eq_some.1 hr
  have hcounts : Counts b := counts_iff.2 ⟨r, hr⟩
  obtain rfl : b = (r.pattern, r.targets) := Prod.ext hpattern.symm htargets.symm
  -- what is kept was the last one before, and has another pattern
  have hkept : ∀ {q}, q ∈ known.filter (!r.samePattern ·) ↔
      q.Proper ∧ (∃ i, LastAt aliases i (q.pattern, q.targets)) ∧ r.pattern ≠ q.pattern := by
    intro q
    rw [List.mem_filter, h.mem_iff, and_assoc]
    refine and_congr_right fun hq => and_congr_right fun _ => ?_
    rw [Bool.not_eq_true', ← Bool.not_eq_true, samePattern_iff hproper hq]
  have hbefore : ∀ {i : Nat} {q : AliasRule}, r.pattern ≠ q.pattern →
      LastAt (aliases ++ [(r.pattern, r.targets)]) i (q.pattern, q.targets) →
      LastAt aliases i (q.pattern, q.targets) := by
    intro i q hother hlast
    rcases lastAt_append.1 hlast with ⟨hlast, -⟩ | ⟨-, heq, -⟩
    · exact hlast
    · exact absurd (Prod.mk.inj heq).1.symm hother
  constructor
  · intro q
    rw [later, List.mem_append, List.mem_singleton, hkept]
    constructor
    · rintro (⟨hq, ⟨i, hlast⟩, hother⟩ | rfl)
      · exact ⟨hq, i, lastAt_append.2 (.inl ⟨hlast, fun _ => hother⟩)⟩
      · exact ⟨hproper, _, lastAt_append.2 (.inr ⟨rfl, rfl, hcounts⟩)⟩
    · rintro ⟨hq, i, hlast⟩
      rcases lastAt_append.1 hlast with ⟨hlast, hother⟩ | ⟨-, heq, -⟩
      · exact .inl ⟨hq, ⟨i, hlast⟩, hother hcounts⟩
      · obtain ⟨hpattern, htargets⟩ := Prod.mk.inj heq
        exact .inr (eq_of_pattern hq hproper hpattern htargets)
  · refine List.pairwise_append.2 ⟨?_, List.pairwise_singleton _ _, ?_⟩
    · refine (h.ordered.filter (!r.samePattern ·)).imp_of_mem ?_
      intro p q hp hq hordered i j hi hj
      exact hordered i j (hbefore (hkept.1 hp).2.2 hi) (hbefore (hkept.1 hq).2.2 hj)
    · intro q hq r' hr' i j hi hj
      rw [List.mem_singleton.1 hr'] at hj
      have hlt := (List.getElem?_eq_some_iff.1 (hbefore (hkept.1 hq).2.2 hi).1).1
      rw [hj.index_eq (lastAt_append.2 (.inr ⟨rfl, rfl, hcounts⟩)) rfl]
      exact hlt

/-- Patterns of rules that count are different. -/
theorem nodup (h : Tells aliases known) : (known.map (·.pattern)).Nodup := by
  refine List.pairwise_map.2 (h.ordered.imp_of_mem ?_)
  intro q r hq hr hordered hpattern
  obtain ⟨-, i, hi⟩ := h.mem_iff.1 hq
  obtain ⟨-, j, hj⟩ := h.mem_iff.1 hr
  exact Nat.ne_of_lt (hordered i j hi hj) (hi.index_eq hj hpattern)

end Tells

/-- **A history tells its rules.** -/
theorem tells_history (aliases : List (String × List Path)) : Tells aliases (history aliases) := by
  induction aliases using List.reverseRecOn with
  | nil => exact .init
  | append_singleton aliases b ih =>
    rw [history, List.filterMap_append, List.foldl_append]
    cases hr : AliasRule.of? b.1 b.2 with
    | none =>
      simp only [List.filterMap_cons, hr, List.filterMap_nil, List.foldl_nil]
      refine ih.reject fun hcounts => ?_
      obtain ⟨r, hr'⟩ := counts_iff.1 hcounts
      rw [hr] at hr'
      cases hr'
    | some r =>
      simp only [List.filterMap_cons, hr, List.filterMap_nil, List.foldl_cons, List.foldl_nil]
      exact ih.accept hr

/-- The pattern of an alias that counts is that of a rule that counts. -/
theorem exists_rule (ha : a ∈ aliases) (hcounts : Counts a) : ∃ r ∈ history aliases, r.pattern = a.1 := by
  obtain ⟨i, targets, hlast⟩ := exists_lastAt ha hcounts
  obtain ⟨r, hr⟩ := counts_iff.1 hlast.2.1
  obtain ⟨hpattern, htargets, hproper⟩ := AliasRule.of?_eq_some.1 hr
  exact ⟨r, (tells_history aliases).mem_iff.2 ⟨hproper, i, by rwa [hpattern, htargets]⟩, hpattern⟩

/-! ## What is found -/

/-- A table holds the rules that count. -/
theorem Settled.perm (h : Settled t known) : t.rules.Perm known := by
  refine List.perm_iff_count.2 fun q => ?_
  have hlength : ∀ rules : List AliasRule, rules.count q = (rules.filter (·.size == q.size)).count q :=
    fun rules => (List.count_filter (by simp)).symm
  rw [hlength, h.stable, ← hlength]

/-- What is found applies, no rule with a longer stem does, and of those with equal stems it came first. -/
theorem Settled.of_lookup (h : Settled t known) (hfound : t.lookup s = some (r, rest)) :
    r ∈ known ∧ r.rest? s = some rest ∧ (∀ q ∈ known, q.rest? s ≠ none → q.size ≤ r.size) ∧
      ∀ R : AliasRule → AliasRule → Prop, known.Pairwise R →
        ∀ q ∈ known, q.rest? s ≠ none → q.size = r.size → q ≠ r → R r q := by
  obtain ⟨before, p, after, hrules, hp, hbefore⟩ := List.findSome?_eq_some_iff.1 hfound
  obtain ⟨rest', hrest, hpair⟩ := Option.map_eq_some_iff.1 hp
  cases hpair
  -- rules that apply are not before the one that is found
  have hafter : ∀ q ∈ known, q.rest? s ≠ none → q ≠ r → q ∈ after := by
    intro q hq happlies hne
    rw [← h.mem_rules, hrules, List.mem_append, List.mem_cons] at hq
    rcases hq with hq | rfl | hq
    · exact absurd (Option.map_eq_none_iff.1 (hbefore q hq)) happlies
    · exact absurd rfl hne
    · exact hq
  have hdescending := h.descending
  rw [hrules, Descending] at hdescending
  refine ⟨h.mem_rules.1 (by rw [hrules]; exact List.mem_append_right _ List.mem_cons_self), hrest, ?_, ?_⟩
  · intro q hq happlies
    by_cases hne : q = r
    · exact Nat.le_of_eq (congrArg AliasRule.size hne)
    · exact (List.pairwise_cons.1 (List.pairwise_append.1 hdescending).2.1).1 q (hafter q hq happlies hne)
  · intro R hR q hq happlies hsize hne
    have hstable := hR.filter (·.size == r.size)
    rw [← h.stable, hrules, List.filter_append, List.filter_cons_of_pos (by simp)] at hstable
    refine (List.pairwise_cons.1 (List.pairwise_append.1 hstable).2.1).1 q (List.mem_filter.2 ⟨?_, ?_⟩)
    · exact hafter q hq happlies hne
    · simpa using hsize

/-- The rules of the last aliases of patterns that apply. -/
theorem exists_applies (hi : LastAt aliases i a) (happlies : Applies a.1 s stem rest) :
    ∃ q ∈ history aliases, q.pattern = a.1 ∧ q.targets = a.2 ∧ q.stem = stem ∧ q.rest? s = some rest := by
  obtain ⟨q, hq⟩ := counts_iff.1 hi.2.1
  obtain ⟨hpattern, htargets, hproper⟩ := AliasRule.of?_eq_some.1 hq
  rw [← hpattern, applies_pattern hproper] at happlies
  refine ⟨q, (tells_history aliases).mem_iff.2 ⟨hproper, i, ?_⟩, hpattern, htargets, happlies⟩
  rwa [hpattern, htargets]

theorem lookup_eq_none_iff : (ofList aliases).lookup s = none ↔
    ∀ a ∈ aliases, Counts a → ∀ stem rest, ¬ Applies a.1 s stem rest := by
  rw [(Settled.ofList aliases).lookup_eq_none]
  constructor
  · intro h a ha hcounts stem rest happlies
    obtain ⟨i, targets, hlast⟩ := exists_lastAt ha hcounts
    obtain ⟨q, hq, -, -, -, hrest⟩ := exists_applies hlast happlies
    rw [h q hq] at hrest
    cases hrest
  · intro h q hq
    obtain ⟨hproper, i, hlast⟩ := (tells_history aliases).mem_iff.1 hq
    refine Option.eq_none_iff_forall_ne_some.2 fun rest hrest => ?_
    exact h _ (List.mem_of_getElem? hlast.1) hlast.2.1 q.stem rest ((applies_pattern hproper).2 ⟨rfl, hrest⟩)

/-- What is found is the rule of a last alias, and of two such with equal stems the earlier one. -/
theorem of_lookup_ofList (h : (ofList aliases).lookup s = some (r, rest)) :
    Applies r.pattern s r.stem rest ∧ ∃ i, LastAt aliases i (r.pattern, r.targets) ∧
      ∀ j b stem' rest', LastAt aliases j b → Applies b.1 s stem' rest' →
        stem'.utf8ByteSize ≤ r.stem.utf8ByteSize ∧
          (stem'.utf8ByteSize = r.stem.utf8ByteSize → b.1 ≠ r.pattern → i < j) := by
  obtain ⟨hr, hrest, hlongest, hfirst⟩ := (Settled.ofList aliases).of_lookup h
  obtain ⟨hproper, i, hi⟩ := (tells_history aliases).mem_iff.1 hr
  refine ⟨(applies_pattern hproper).2 ⟨rfl, hrest⟩, i, hi, fun j b stem' rest' hj happlies => ?_⟩
  obtain ⟨q, hq, hpattern, htargets, rfl, hrest'⟩ := exists_applies hj happlies
  have hsome : q.rest? s ≠ none := by simp [hrest']
  refine ⟨hlongest q hq hsome, fun hsize hother => ?_⟩
  refine hfirst _ (tells_history aliases).ordered q hq hsome hsize ?_ i j hi ?_
  · rintro rfl
    exact hother hpattern.symm
  · rwa [hpattern, htargets]

/-- Where a pattern without a star and one with a star have the specifier as their stem, the earlier one is
found. -/
theorem lookup_twins {exactly starred : List Path} (hplain : s.toList.getLast? ≠ some '*')
    (hi : LastAt aliases i (s, exactly)) (hj : LastAt aliases j (s ++ "*", starred)) :
    (ofList aliases).lookup s =
      some (if i < j then (⟨s, false, exactly⟩, "") else (⟨s, true, starred⟩, "")) := by
  have hexact : Applies s s s "" := ⟨String.append_empty, .inr ⟨rfl, rfl, hplain⟩⟩
  have hstar : Applies (s ++ "*") s s "" := ⟨String.append_empty, .inl rfl⟩
  cases hfound : (ofList aliases).lookup s with
  | none => exact absurd hexact (lookup_eq_none_iff.1 hfound _ (List.mem_of_getElem? hi.1) hi.2.1 s "")
  | some found =>
    obtain ⟨⟨stem, wildcard, targets⟩, rest⟩ := found
    obtain ⟨⟨happend, hpattern⟩, k, hk, hbest⟩ := of_lookup_ofList hfound
    obtain ⟨hlong, hexactly⟩ := hbest i _ s "" hi hexact
    have hstarred := (hbest j _ s "" hj hstar).2
    dsimp only at happend hpattern hlong hexactly hstarred hk
    -- the stem is a beginning of the specifier and not shorter
    have hrest : rest = "" := by
      have hsize := congrArg String.utf8ByteSize happend
      rw [String.utf8ByteSize_append] at hsize
      exact String.utf8ByteSize_eq_zero_iff.1 (by omega)
    rw [hrest, String.append_empty] at happend
    subst happend hrest
    have hne : stem ≠ stem ++ "*" := by
      intro heq
      rw [heq] at hplain
      exact hplain (by simp)
    cases wildcard with
    | false =>
      obtain rfl : k = i := hk.index_eq hi rfl
      have hlt : k < j := hstarred rfl hne.symm
      obtain rfl : targets = exactly := (Prod.mk.inj (Option.some.inj (hk.1.symm.trans hi.1))).2
      rw [if_pos hlt]
    | true =>
      obtain rfl : k = j := hk.index_eq hj rfl
      have hlt : k < i := hexactly rfl hne
      obtain rfl : targets = starred := (Prod.mk.inj (Option.some.inj (hk.1.symm.trans hj.1))).2
      rw [if_neg (Nat.lt_asymm hlt)]

/-- There are as many rules as patterns that count. -/
theorem size_ofList (aliases : List (String × List Path)) :
    (ofList aliases).size = ((aliases.filter (Counts ·)).map (·.1)).dedup.length := by
  have htells := tells_history aliases
  have hperm : ((history aliases).map (·.pattern)).Perm ((aliases.filter (Counts ·)).map (·.1)).dedup := by
    refine (List.perm_ext_iff_of_nodup htells.nodup (List.nodup_dedup _)).2 fun p => ?_
    rw [List.mem_dedup, List.mem_map, List.mem_map]
    constructor
    · rintro ⟨r, hr, rfl⟩
      obtain ⟨-, i, hi⟩ := htells.mem_iff.1 hr
      exact ⟨_, List.mem_filter.2 ⟨List.mem_of_getElem? hi.1, decide_eq_true hi.2.1⟩, rfl⟩
    · rintro ⟨a, ha, rfl⟩
      obtain ⟨ha, hcounts⟩ := List.mem_filter.1 ha
      exact exists_rule ha (of_decide_eq_true hcounts)
  rw [size, (Settled.ofList aliases).perm.length_eq, ← hperm.length_eq, List.length_map]

/-- An alias that does not count leaves any table as it is. -/
theorem insert_of_not_counts (h : ¬ Counts a) (t : AliasTable) : t.insert a.1 a.2 = t := by
  rw [insert_eq]
  cases hr : AliasRule.of? a.1 a.2 with
  | none => rfl
  | some r => exact absurd (counts_iff.2 ⟨r, hr⟩) h

/-- **A table is told by its history.** A lookup finds nothing if no pattern applies of those that count. What
it finds else is a rule with the longest stem of those that apply, and has the targets of the last alias of its
pattern that counts; of two patterns with the specifier as their stem it is the one whose last alias is the
earlier one. There are as many rules as different patterns that count, and an alias that does not count changes
nothing. -/
theorem lookup_ofList (aliases : List (String × List Path)) (s : String) :
    ((ofList aliases).lookup s = none ↔
        ∀ a ∈ aliases, Counts a → ∀ stem rest, ¬ Applies a.1 s stem rest) ∧
      (∀ r rest, (ofList aliases).lookup s = some (r, rest) →
        Applies r.pattern s r.stem rest ∧ (∃ i, LastAt aliases i (r.pattern, r.targets)) ∧
          ∀ a ∈ aliases, Counts a → ∀ stem' rest', Applies a.1 s stem' rest' →
            stem'.utf8ByteSize ≤ r.stem.utf8ByteSize) ∧
      (∀ i j exactly starred, s.toList.getLast? ≠ some '*' → LastAt aliases i (s, exactly) →
        LastAt aliases j (s ++ "*", starred) →
        (ofList aliases).lookup s =
          some (if i < j then (⟨s, false, exactly⟩, "") else (⟨s, true, starred⟩, ""))) ∧
      (ofList aliases).size = ((aliases.filter (Counts ·)).map (·.1)).dedup.length ∧
      ∀ (t : AliasTable) (a : String × List Path), ¬ Counts a → t.insert a.1 a.2 = t := by
  refine ⟨lookup_eq_none_iff, ?_, fun i j exactly starred => lookup_twins, size_ofList aliases,
    fun t a h => insert_of_not_counts h t⟩
  intro r rest hfound
  obtain ⟨happlies, i, hi, hbest⟩ := of_lookup_ofList hfound
  refine ⟨happlies, ⟨i, hi⟩, fun a ha hcounts stem' rest' happlies' => ?_⟩
  obtain ⟨j, targets, hj⟩ := exists_lastAt ha hcounts
  exact (hbest j (a.1, targets) stem' rest' hj happlies').1

/-- A pattern that is added twice and then without targets, and one without a star between. -/
def twins : List (String × List Path) :=
  [("u*", [⟨"/old"⟩]), ("u", [⟨"/exact"⟩]), ("u*", [⟨"/new"⟩]), ("*", [⟨"/all"⟩]), ("u*", [])]

theorem lastAt_twins : LastAt twins 1 ("u", [⟨"/exact"⟩]) ∧ LastAt twins 2 ("u*", [⟨"/new"⟩]) := by
  have hlater : ∀ (i : Nat) (a : String × List Path), twins[i]? = some a → Counts a →
      (∀ b ∈ twins.drop (i + 1), Counts b → b.1 ≠ a.1) → LastAt twins i a := by
    intro i a hi hcounts hlast
    refine ⟨hi, hcounts, fun j b hij hj => hlast b (List.mem_of_getElem? (i := j - (i + 1)) ?_)⟩
    rw [List.getElem?_drop, Nat.add_sub_cancel' hij]
    exact hj
  exact ⟨hlater 1 _ rfl (by decide) (by decide), hlater 2 _ rfl (by decide) (by decide)⟩

theorem lookup_ofList_twins : (ofList twins).lookup "u" = some (⟨"u", false, [⟨"/exact"⟩]⟩, "") ∧
    (ofList twins).size = 2 := by
  obtain ⟨-, -, htwins, hsize, -⟩ := lookup_ofList twins "u"
  exact ⟨htwins 1 2 _ _ (by decide) lastAt_twins.1 lastAt_twins.2, hsize.trans (by decide)⟩

end AliasTable

end ClientBoundary
