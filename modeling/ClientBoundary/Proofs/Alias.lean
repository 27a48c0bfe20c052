import Mathlib.Tactic.ByContra
import ClientBoundary.Alias

/-!
# Tables of aliases

Adding an alias puts its rule **behind** all rules with stems of the same length or longer ones, in place of
an earlier rule with the same pattern. So a table is told by the rules that count in the order in which they
were last added: it holds them by the length of their stems, and rules of one length in that order
(`Settled`).

A lookup answers the first rule that applies. Of the rules that count, that is the one with the longest stem,
and of two such the one that was added earlier (`Settled.lookup_eq_some`).
-/

namespace ClientBoundary

/-! ## Patterns -/

theorem exists_stem {pattern : String} (h : pattern.toList.getLast? = some '*') :
    ∃ stem : String, pattern = stem ++ "*" := by
  obtain ⟨cs, hcs⟩ := List.getLast?_eq_some_iff.1 h
  refine ⟨String.ofList cs, ?_⟩
  rw [← String.toList_inj, hcs, String.toList_append, String.toList_ofList]
  rfl

theorem splitPattern_star (stem : String) : splitPattern (stem ++ "*") = (stem, true) := by
  simp [splitPattern]

theorem splitPattern_plain {pattern : String} (h : pattern.toList.getLast? ≠ some '*') :
    splitPattern pattern = (pattern, false) := by
  rw [splitPattern]
  split
  · rename_i cs hcs
    rw [List.getLast?_eq_head?_reverse, hcs] at h
    exact absurd rfl h
  · rfl

namespace AliasRule

variable {r : AliasRule} {s rest : String}

/-- The length of the stem in bytes, by which rules are ordered. -/
def size (r : AliasRule) : Nat := r.stem.utf8ByteSize

/-- The pattern that a rule stands for. -/
def pattern (r : AliasRule) : String := if r.wildcard then r.stem ++ "*" else r.stem

/-- A rule that can be in a table: it has a stem and targets, and a stem that ends in a star is that of a
pattern with two. -/
def Proper (r : AliasRule) : Prop :=
  r.stem ≠ "" ∧ r.targets ≠ [] ∧ (r.wildcard = false → r.stem.toList.getLast? ≠ some '*')

/-- The rule that is added for a pattern, if one is. -/
def of? (pattern : String) (targets : List Path) : Option AliasRule :=
  if (splitPattern pattern).1 = "" || targets.isEmpty then none
  else some ⟨(splitPattern pattern).1, (splitPattern pattern).2, targets⟩

theorem splitPattern_eq {p : String} :
    splitPattern p = (r.stem, r.wildcard) ↔
      r.pattern = p ∧ (r.wildcard = false → r.stem.toList.getLast? ≠ some '*') := by
  rw [pattern]
  by_cases hstar : p.toList.getLast? = some '*'
  · obtain ⟨stem, rfl⟩ := exists_stem hstar
    rw [splitPattern_star]
    cases r.wildcard with
    | true => simp [String.append_left_inj, eq_comm]
    | false =>
      refine iff_of_false nofun ?_
      rintro ⟨hpattern, hplain⟩
      exact hplain rfl (by rwa [show r.stem = stem ++ "*" from hpattern])
  · rw [splitPattern_plain hstar]
    cases r.wildcard with
    | true =>
      refine iff_of_false nofun ?_
      rintro ⟨rfl, -⟩
      exact hstar (by simp)
    | false =>
      constructor
      · intro h
        cases h
        exact ⟨rfl, fun _ => hstar⟩
      · rintro ⟨rfl, -⟩
        rfl

/-- A rule is added for the pattern that it stands for, if it is proper. -/
theorem of?_eq_some {p : String} {targets : List Path} :
    of? p targets = some r ↔ r.pattern = p ∧ r.targets = targets ∧ r.Proper := by
  rw [of?]
  split
  · rename_i hreject
    refine iff_of_false nofun ?_
    rintro ⟨hpattern, rfl, hstem, htargets, hplain⟩
    rw [splitPattern_eq.2 ⟨hpattern, hplain⟩] at hreject
    simp [hstem, htargets] at hreject
  · rename_i haccept
    constructor
    · intro h
      have hsplit : splitPattern p = (r.stem, r.wildcard) := by rw [← Option.some.inj h]
      obtain rfl : r.targets = targets := by rw [← Option.some.inj h]
      obtain ⟨hpattern, hplain⟩ := splitPattern_eq.1 hsplit
      rw [hsplit] at haccept
      refine ⟨hpattern, rfl, ?_, ?_, hplain⟩
      · exact fun hstem => haccept (by simp [hstem])
      · exact fun htargets => haccept (by simp [htargets])
    · rintro ⟨hpattern, rfl, -, -, hplain⟩
      rw [splitPattern_eq.2 ⟨hpattern, hplain⟩]

theorem pattern_eq_of_samePattern {q : AliasRule} (h : r.samePattern q = true) : r.pattern = q.pattern := by
  rw [samePattern, Bool.and_eq_true, beq_iff_eq, beq_iff_eq] at h
  rw [pattern, pattern, h.1, h.2]

/-- What is left of a specifier to which a rule applies. -/
theorem rest?_eq_some : r.rest? s = some rest ↔ r.stem ++ rest = s ∧ (r.wildcard = false → rest = "") := by
  rw [rest?]
  cases hwild : r.wildcard with
  | true =>
    rw [if_pos rfl, Option.map_eq_some_iff]
    constructor
    · rintro ⟨cs, hcs, rfl⟩
      refine ⟨?_, nofun⟩
      rw [← String.toList_inj, String.toList_append, String.toList_ofList]
      exact Text.append_of_stripLead? hcs
    · rintro ⟨rfl, -⟩
      refine ⟨rest.toList, ?_, String.ofList_toList⟩
      rw [String.toList_append]
      exact Text.stripLead?_append _ _
  | false =>
    rw [if_neg Bool.false_ne_true]
    split
    · rename_i hs
      subst hs
      simp only [Option.some.injEq, forall_const]
      constructor
      · rintro rfl
        exact ⟨String.append_empty, rfl⟩
      · rintro ⟨-, rfl⟩
        rfl
    · rename_i hs
      refine iff_of_false nofun ?_
      rintro ⟨happend, hrest⟩
      rw [hrest rfl, String.append_empty] at happend
      exact hs happend.symm

/-- The stem of a rule that applies is a beginning of the specifier. -/
theorem exists_append (happlies : r.rest? s ≠ none) : ∃ rest, r.stem ++ rest = s := by
  obtain ⟨rest, hrest⟩ := Option.ne_none_iff_exists'.1 happlies
  exact ⟨rest, (rest?_eq_some.1 hrest).1⟩

end AliasRule

namespace AliasTable

variable {t : AliasTable} {rules known before after : List AliasRule} {r : AliasRule} {s rest : String}

/-! ## Placing a rule -/

/-- Longer stems come first. -/
def Descending (rules : List AliasRule) : Prop := rules.Pairwise fun r q => q.size ≤ r.size

theorem mem_place {q : AliasRule} : q ∈ place r rules ↔ q = r ∨ q ∈ rules := by
  induction rules with
  | nil => exact List.mem_singleton.trans (or_iff_left List.not_mem_nil).symm
  | cons head rules ih =>
    rw [place]
    split
    · exact List.mem_cons
    · rw [List.mem_cons, ih, List.mem_cons, or_left_comm]

theorem Descending.place (h : Descending rules) (r : AliasRule) : Descending (place r rules) := by
  induction rules with
  | nil => exact List.pairwise_singleton _ _
  | cons head rules ih =>
    obtain ⟨hhead, hrules⟩ := List.pairwise_cons.1 h
    rw [AliasTable.place]
    split
    · rename_i hlt
      refine List.pairwise_cons.2 ⟨?_, h⟩
      intro q hq
      rcases List.mem_cons.1 hq with rfl | hq
      · exact Nat.le_of_lt hlt
      · exact Nat.le_trans (hhead q hq) (Nat.le_of_lt hlt)
    · rename_i hle
      refine List.pairwise_cons.2 ⟨?_, ih hrules⟩
      intro q hq
      rcases mem_place.1 hq with rfl | hq
      · exact Nat.le_of_not_lt hle
      · exact hhead q hq

/-- Among the rules of its own length a rule is placed last, and the other lengths do not change. -/
theorem filter_place (h : Descending rules) (r : AliasRule) (n : Nat) :
    (place r rules).filter (·.size == n) = (rules ++ [r]).filter (·.size == n) := by
  induction rules with
  | nil => rfl
  | cons head rules ih =>
    obtain ⟨hhead, hrules⟩ := List.pairwise_cons.1 h
    rw [place]
    split
    · rename_i hlt
      -- all that stands behind is shorter
      rw [List.filter_append]
      by_cases hn : r.size = n
      · have hnone : (head :: rules).filter (·.size == n) = [] := by
          refine List.filter_eq_nil_iff.2 fun q hq => ?_
          have hshorter : q.size < r.size := by
            rcases List.mem_cons.1 hq with rfl | hq
            · exact hlt
            · exact Nat.lt_of_le_of_lt (hhead q hq) hlt
          simp only [beq_iff_eq]
          omega
        rw [hnone, List.filter_cons_of_pos (by simpa using hn), hnone]
        simp [hn]
      · rw [List.filter_cons_of_neg (by simpa using hn)]
        simp [hn]
    · rw [List.cons_append, List.filter_cons, List.filter_cons, ih hrules]

/-! ## The rules that count -/

/-- The rules that count after one more is added: an earlier one with the same pattern does not. -/
def later (known : List AliasRule) (r : AliasRule) : List AliasRule :=
  known.filter (!r.samePattern ·) ++ [r]

/-- The rules that count after aliases are added one after the other, by the time they were last added. -/
def history (aliases : List (String × List Path)) : List AliasRule :=
  (aliases.filterMap fun a => AliasRule.of? a.1 a.2).foldl later []

/-- A table **settles** the rules that count: longer stems come first, and rules with stems of one length
in the order in which they count. -/
structure Settled (t : AliasTable) (known : List AliasRule) : Prop where
  /-- longer stems come first -/
  descending : Descending t.rules
  /-- rules with stems of one length are in the given order -/
  stable : ∀ n, t.rules.filter (·.size == n) = known.filter (·.size == n)

theorem settled_empty : Settled empty [] := ⟨.nil, fun _ => rfl⟩

/-- Only a pattern that makes a rule changes the table. -/
theorem insert_eq (t : AliasTable) (p : String) (targets : List Path) :
    t.insert p targets =
      (AliasRule.of? p targets).elim t fun r => ⟨place r (t.rules.filter (!r.samePattern ·))⟩ := by
  rw [insert, AliasRule.of?]
  obtain ⟨stem, wildcard⟩ := splitPattern p
  dsimp only
  split <;> rfl

/-- A rule is added behind those that count, and puts out one of them at most. -/
theorem Settled.insert (h : Settled t known) {p : String} {targets : List Path}
    (hr : AliasRule.of? p targets = some r) : Settled (t.insert p targets) (later known r) := by
  rw [insert_eq, hr, Option.elim_some]
  have hdescending : Descending (t.rules.filter (!r.samePattern ·)) := h.descending.filter _
  refine ⟨hdescending.place r, fun n => ?_⟩
  rw [filter_place hdescending, later, List.filter_append, List.filter_append]
  congr 1
  -- dropping a pattern and looking at one length commute
  rw [List.filter_filter, List.filter_filter, List.filter_congr fun _ _ => Bool.and_comm _ _,
    ← List.filter_filter, h.stable, List.filter_filter]
  exact List.filter_congr fun _ _ => Bool.and_comm _ _

theorem Settled.ofList (aliases : List (String × List Path)) :
    Settled (ofList aliases) (history aliases) := by
  have hrun : ∀ (aliases : List (String × List Path)) (t : AliasTable) (known : List AliasRule),
      Settled t known →
      Settled (aliases.foldl (fun t a => t.insert a.1 a.2) t)
        ((aliases.filterMap fun a => AliasRule.of? a.1 a.2).foldl later known) := by
    intro aliases
    induction aliases with
    | nil => exact fun t known h => h
    | cons a aliases ih =>
      intro t known h
      rw [List.foldl_cons]
      cases hr : AliasRule.of? a.1 a.2 with
      | none =>
        simp only [List.filterMap_cons, hr]
        refine ih _ known ?_
        rwa [insert_eq, hr]
      | some r =>
        simp only [List.filterMap_cons, hr]
        exact ih _ _ (h.insert hr)
  exact hrun aliases empty [] settled_empty

/-- If no pattern comes twice, all rules count. -/
theorem history_of_nodup {aliases : List (String × List Path)} (h : (aliases.map (·.1)).Nodup) :
    history aliases = aliases.filterMap fun a => AliasRule.of? a.1 a.2 := by
  have hrun : ∀ rules known : List AliasRule,
      (known ++ rules).Pairwise (fun q r => r.samePattern q = false) →
      rules.foldl later known = known ++ rules := by
    intro rules
    induction rules with
    | nil => exact fun known _ => (List.append_nil known).symm
    | cons r rules ih =>
      intro known hdifferent
      have hlater : later known r = known ++ [r] := by
        rw [later, List.filter_eq_self.2]
        intro q hq
        rw [(List.pairwise_append.1 hdifferent).2.2 q hq r (List.mem_cons_self ..)]
        rfl
      rw [List.foldl_cons, hlater, ih _ (by rwa [List.append_assoc]), List.append_assoc]
      rfl
  refine hrun _ [] ?_
  rw [List.nil_append, List.pairwise_filterMap]
  refine (List.pairwise_map.1 h).imp ?_
  intro a b hab q hq r hr
  rw [← Bool.not_eq_true]
  intro hsame
  have hpatterns := AliasRule.pattern_eq_of_samePattern hsame
  rw [(AliasRule.of?_eq_some.1 hq).1, (AliasRule.of?_eq_some.1 hr).1] at hpatterns
  exact hab hpatterns.symm

/-! ## Lookups -/

theorem Settled.mem_rules (h : Settled t known) {q : AliasRule} : q ∈ t.rules ↔ q ∈ known := by
  have hlength : ∀ rules : List AliasRule, q ∈ rules ↔ q ∈ rules.filter (·.size == q.size) :=
    fun rules => by simp
  rw [hlength, h.stable, ← hlength]

/-- A lookup finds nothing if no rule that counts applies. -/
theorem Settled.lookup_eq_none (h : Settled t known) :
    t.lookup s = none ↔ ∀ q ∈ known, q.rest? s = none := by
  simp only [lookup, List.findSome?_eq_none_iff, Option.map_eq_none_iff, h.mem_rules]

/-- Where no longer rule applies and one of length `n` does, the search is among the rules of that
length. -/
theorem findSome?_eq_filter {α : Type} {f : AliasRule → Option α} {n : Nat} (h : Descending rules)
    (hlonger : ∀ q ∈ rules, n < q.size → f q = none) (hsome : ∃ q ∈ rules, q.size = n ∧ f q ≠ none) :
    rules.findSome? f = (rules.filter (·.size == n)).findSome? f := by
  induction rules with
  | nil => rfl
  | cons head rules ih =>
    obtain ⟨hhead, hrules⟩ := List.pairwise_cons.1 h
    obtain ⟨q, hq, hqn, hfq⟩ := hsome
    have hrest : f head = none →
        rules.findSome? f = (rules.filter (·.size == n)).findSome? f := by
      intro hnone
      refine ih hrules (fun q hq => hlonger q (List.mem_cons_of_mem head hq)) ⟨q, ?_, hqn, hfq⟩
      rcases List.mem_cons.1 hq with rfl | hq
      · exact absurd hnone hfq
      · exact hq
    have hle : n ≤ head.size := by
      rcases List.mem_cons.1 hq with rfl | hq
      · exact Nat.le_of_eq hqn.symm
      · exact hqn ▸ hhead q hq
    rcases Nat.eq_or_lt_of_le hle with heq | hlt
    · rw [List.filter_cons_of_pos (by simpa using heq.symm), List.findSome?_cons, List.findSome?_cons]
      cases hf : f head with
      | none => exact hrest hf
      | some a => rfl
    · have hnone := hlonger head (List.mem_cons_self ..) hlt
      rw [List.filter_cons_of_neg (by simpa using Nat.ne_of_gt hlt), List.findSome?_cons, hnone]
      exact hrest hnone

/-- **The most specific rule.** A lookup finds the rule that applies, has a longer stem than those before
it that apply, and has no shorter stem than those behind it that do. -/
theorem Settled.lookup_eq_some (h : Settled t (before ++ r :: after)) (hr : r.rest? s = some rest)
    (hbefore : ∀ q ∈ before, q.rest? s ≠ none → q.size < r.size)
    (hafter : ∀ q ∈ after, q.rest? s ≠ none → q.size ≤ r.size) : t.lookup s = some (r, rest) := by
  rw [lookup, findSome?_eq_filter h.descending (n := r.size), h.stable, List.filter_append,
    List.findSome?_append, List.filter_cons_of_pos (by simp), List.findSome?_cons, hr]
  · have hnone : (before.filter (·.size == r.size)).findSome?
        (fun q => (q.rest? s).map fun rest => (q, rest)) = none := by
      refine List.findSome?_eq_none_iff.2 fun q hq => Option.map_eq_none_iff.2 ?_
      obtain ⟨hq, hsize⟩ := List.mem_filter.1 hq
      rw [beq_iff_eq] at hsize
      by_contra happlies
      exact absurd hsize (Nat.ne_of_lt (hbefore q hq happlies))
    rw [hnone]
    rfl
  · intro q hq hlonger
    rw [Option.map_eq_none_iff]
    by_contra happlies
    rcases List.mem_append.1 (h.mem_rules.1 hq) with hq | hq
    · exact absurd (hbefore q hq happlies) (Nat.lt_asymm hlonger)
    · rcases List.mem_cons.1 hq with rfl | hq
      · exact Nat.lt_irrefl _ hlonger
      · exact absurd (hafter q hq happlies) (Nat.not_le_of_lt hlonger)
  · refine ⟨r, h.mem_rules.2 (List.mem_append_right before (List.mem_cons_self ..)), rfl, ?_⟩
    rw [hr]
    exact Option.some_ne_none _

end AliasTable

end ClientBoundary
