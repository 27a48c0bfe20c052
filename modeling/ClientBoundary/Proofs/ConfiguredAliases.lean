import Mathlib.Data.List.DropRight
import ClientBoundary.Config.Aliases
import ClientBoundary.Proofs.Alias
import ClientBoundary.Proofs.Json
import ClientBoundary.Proofs.Path

/-!
# The aliases of a project

A configuration gives each pattern its targets. What a specifier stands for is then told without a table: the
**exact** pattern counts if it has targets, else the **longest** beginning of the specifier that has targets
with a star behind it (`bestMatch?`).

The table of a project finds that match (`lookup_ofProject`). Its rules are added in the order of the
patterns, so of two with equal stems the one without a star is found first. The order in which the patterns
are written does not show.
-/

namespace ClientBoundary

namespace AliasTable

/-! ## The best match -/

/-- The nonempty beginnings of a text, each with what is left behind it, longest first. -/
def splits (s : String) : List (String × String) :=
  (List.range s.length).reverse.map fun n =>
    (String.ofList (s.toList.take (n + 1)), String.ofList (s.toList.drop (n + 1)))

/-- The rule of the text itself, if that is a pattern without a star. -/
def exactMatch? (targets : String → List Path) (s : String) : Option (AliasRule × String) :=
  if s = "" ∨ s.toList.getLast? = some '*' ∨ targets s = [] then none
  else some (⟨s, false, targets s⟩, "")

/-- The rule of a beginning of a text with a star behind it. -/
def starMatch? (targets : String → List Path) (part : String × String) : Option (AliasRule × String) :=
  if targets (part.1 ++ "*") = [] then none
  else some (⟨part.1, true, targets (part.1 ++ "*")⟩, part.2)

/-- The rule that a specifier falls under, with what is left of the specifier: the exact one, else the one
with the longest stem. -/
def bestMatch? (targets : String → List Path) (s : String) : Option (AliasRule × String) :=
  (exactMatch? targets s).or ((splits s).findSome? (starMatch? targets))

theorem mem_splits {s stem rest : String} :
    (stem, rest) ∈ splits s ↔ stem ++ rest = s ∧ stem ≠ "" := by
  rw [splits, List.mem_map]
  constructor
  · rintro ⟨n, hn, hsplit⟩
    rw [List.mem_reverse, List.mem_range, ← String.length_toList] at hn
    obtain ⟨rfl, rfl⟩ := Prod.mk.inj hsplit
    refine ⟨?_, ?_⟩
    · rw [← String.ofList_append, List.take_append_drop, String.ofList_toList]
    · rw [Ne, String.ofList_eq_empty_iff, List.take_eq_nil_iff]
      rintro (hzero | hnil)
      · omega
      · rw [hnil] at hn
        exact Nat.not_lt_zero n hn
  · rintro ⟨rfl, hstem⟩
    have hpos : 0 < stem.toList.length := List.length_pos_iff.2 fun h => hstem (String.toList_eq_nil_iff.1 h)
    refine ⟨stem.toList.length - 1, ?_, ?_⟩
    · rw [List.mem_reverse, List.mem_range, String.length_append, ← String.length_toList]
      omega
    · rw [Nat.sub_add_cancel hpos, String.toList_append, List.take_left, List.drop_left,
        String.ofList_toList, String.ofList_toList]

theorem pairwise_splits (s : String) :
    (splits s).Pairwise fun a b => b.1.utf8ByteSize ≤ a.1.utf8ByteSize := by
  rw [splits, List.pairwise_map, List.pairwise_reverse]
  refine List.pairwise_lt_range.imp ?_
  intro m n hlt
  have htake : s.toList.take (m + 1) <+: s.toList.take (n + 1) :=
    List.take_prefix_take_left (Nat.succ_le_succ (Nat.le_of_lt hlt))
  obtain ⟨as, has⟩ := htake
  rw [← has, String.ofList_append, String.utf8ByteSize_append]
  exact Nat.le_add_right ..

/-- Two beginnings of a text are told apart by their lengths. -/
theorem eq_of_append_eq {a b c e : String} (h : a ++ b = c ++ e)
    (hsize : a.utf8ByteSize = c.utf8ByteSize) : a = c := by
  have hextends : ∀ {x y : String} {as : List Char}, y.toList = x.toList ++ as →
      x.utf8ByteSize = y.utf8ByteSize → x = y := by
    intro x y as hy hxy
    have hyx : y = x ++ String.ofList as := by
      rw [← String.toList_inj, hy, String.toList_append, String.toList_ofList]
    rw [hyx, String.utf8ByteSize_append] at hxy
    rw [hyx, String.utf8ByteSize_eq_zero_iff.1 (by omega : (String.ofList as).utf8ByteSize = 0),
      String.append_empty]
  rw [← String.toList_inj, String.toList_append, String.toList_append, List.append_eq_append_iff] at h
  rcases h with ⟨as, has, -⟩ | ⟨as, has, -⟩
  · exact hextends has hsize
  · exact (hextends has hsize.symm).symm

theorem lt_append_star (s : String) : s < s ++ "*" := by
  rw [String.lt_iff_toList_lt, String.toList_append]
  induction s.toList with
  | nil => exact List.nil_lt_cons _ _
  | cons c cs ih => exact List.cons_lt_cons_iff.2 (.inr ⟨rfl, ih⟩)

/-! ## Rules in the order of their patterns -/

/-- The rules are those of the patterns with targets, in the order of the patterns. -/
structure Lists (targets : String → List Path) (known : List AliasRule) : Prop where
  /-- the patterns increase -/
  increasing : known.Pairwise fun r q => r.pattern < q.pattern
  /-- the proper rules with the targets of their patterns -/
  mem_iff : ∀ {r : AliasRule}, r ∈ known ↔ r.targets = targets r.pattern ∧ r.Proper

namespace Lists

variable {targets : String → List Path} {known : List AliasRule} {t : AliasTable} {q r : AliasRule}
  {s rest : String}

theorem eq_of_stem (h : Lists targets known) (hq : q ∈ known) (hr : r ∈ known) (hstem : q.stem = r.stem)
    (hwild : q.wildcard = r.wildcard) : q = r := by
  have htargets : q.targets = r.targets := by
    rw [(h.mem_iff.1 hq).1, (h.mem_iff.1 hr).1, AliasRule.pattern, AliasRule.pattern, hstem, hwild]
  cases q
  cases r
  cases hstem
  cases hwild
  cases htargets
  rfl

theorem mem_of_exactMatch? (h : Lists targets known) (hmatch : exactMatch? targets s = some (r, rest)) :
    r ∈ known ∧ r.rest? s = some rest ∧ r.stem = s ∧ r.wildcard = false := by
  rw [exactMatch?] at hmatch
  split at hmatch
  · cases hmatch
  · rename_i hnot
    simp only [not_or] at hnot
    cases hmatch
    exact ⟨h.mem_iff.2 ⟨rfl, hnot.1, hnot.2.2, fun _ => hnot.2.1⟩,
      AliasRule.rest?_eq_some.2 ⟨String.append_empty, fun _ => rfl⟩, rfl, rfl⟩

theorem mem_of_starMatch? (h : Lists targets known) {part : String × String} (hpart : part ∈ splits s)
    (hmatch : starMatch? targets part = some (r, rest)) :
    r ∈ known ∧ r.rest? s = some rest ∧ r.stem = part.1 ∧ r.wildcard = true := by
  rw [starMatch?] at hmatch
  split at hmatch
  · cases hmatch
  · rename_i hnot
    cases hmatch
    obtain ⟨happend, hstem⟩ := mem_splits.1 hpart
    exact ⟨h.mem_iff.2 ⟨rfl, hstem, hnot, nofun⟩, AliasRule.rest?_eq_some.2 ⟨happend, nofun⟩, rfl, rfl⟩

/-- A rule that applies is one of those that are looked at for a best match. -/
theorem match_of_rest? (h : Lists targets known) (hq : q ∈ known) (hrest : q.rest? s = some rest) :
    exactMatch? targets s = some (q, rest) ∨
      (q.stem, rest) ∈ splits s ∧ starMatch? targets (q.stem, rest) = some (q, rest) := by
  obtain ⟨htargets, hstem, hne, hplain⟩ := h.mem_iff.1 hq
  obtain ⟨happend, hwild⟩ := AliasRule.rest?_eq_some.1 hrest
  obtain ⟨stem, wildcard, targets'⟩ := q
  cases wildcard with
  | false =>
    obtain rfl := hwild rfl
    rw [String.append_empty] at happend
    obtain rfl : stem = s := happend
    obtain rfl : targets' = targets stem := htargets
    left
    rw [exactMatch?, if_neg]
    rintro (hempty | hstar | hnil)
    · exact hstem hempty
    · exact hplain rfl hstar
    · exact hne hnil
  | true =>
    obtain rfl : targets' = targets (stem ++ "*") := htargets
    right
    exact ⟨mem_splits.2 ⟨happend, hstem⟩, by rw [starMatch?, if_neg hne]⟩

/-- A rule is found if none that applies has a longer stem, and those with an equal stem have patterns that
come later. -/
theorem lookup_eq_some (h : Lists targets known) (ht : Settled t known) (hr : r ∈ known)
    (hrest : r.rest? s = some rest) (hlongest : ∀ q ∈ known, q.rest? s ≠ none → q.size ≤ r.size)
    (hfirst : ∀ q ∈ known, q.rest? s ≠ none → q.size = r.size → ¬ q.pattern < r.pattern) :
    t.lookup s = some (r, rest) := by
  obtain ⟨before, after, rfl⟩ := List.append_of_mem hr
  refine ht.lookup_eq_some hrest ?_ ?_
  · intro q hq happlies
    have hq' : q ∈ before ++ r :: after := List.mem_append_left _ hq
    have hlt : q.pattern < r.pattern :=
      (List.pairwise_append.1 h.increasing).2.2 q hq r (List.mem_cons_self ..)
    exact Nat.lt_of_le_of_ne (hlongest q hq' happlies) fun hsize => hfirst q hq' happlies hsize hlt
  · intro q hq happlies
    exact hlongest q (List.mem_append_right _ (List.mem_cons_of_mem r hq)) happlies

theorem lookup_of_exactMatch? (h : Lists targets known) (ht : Settled t known)
    (hmatch : exactMatch? targets s = some (r, rest)) : t.lookup s = some (r, rest) := by
  obtain ⟨hr, hrest, hstem, hwild⟩ := h.mem_of_exactMatch? hmatch
  refine h.lookup_eq_some ht hr hrest ?_ ?_
  · intro q hq happlies
    obtain ⟨rest', happend⟩ := AliasRule.exists_append happlies
    rw [AliasRule.size, AliasRule.size, hstem, ← happend, String.utf8ByteSize_append]
    exact Nat.le_add_right ..
  · intro q hq happlies hsize hlt
    -- an equal stem has the same pattern or one star more
    obtain ⟨rest', happend⟩ := AliasRule.exists_append happlies
    have hstem' : q.stem = r.stem := by
      refine eq_of_append_eq (b := rest') (e := "") ?_ hsize
      rw [happend, hstem, String.append_empty]
    rw [AliasRule.pattern, AliasRule.pattern, hwild, hstem'] at hlt
    cases hwild' : q.wildcard with
    | true =>
      rw [hwild'] at hlt
      exact lt_asymm (lt_append_star r.stem) hlt
    | false =>
      rw [hwild'] at hlt
      exact lt_irrefl _ hlt

theorem lookup_of_starMatch? (h : Lists targets known) (ht : Settled t known)
    (hexact : exactMatch? targets s = none)
    (hmatch : (splits s).findSome? (starMatch? targets) = some (r, rest)) :
    t.lookup s = some (r, rest) := by
  obtain ⟨front, part, back, hsplits, hpart, hfront⟩ := List.findSome?_eq_some_iff.1 hmatch
  have hmem : part ∈ splits s := by simp [hsplits]
  obtain ⟨hr, hrest, hstem, hwild⟩ := h.mem_of_starMatch? hmem hpart
  -- what applies is a split that does not stand in front of the match
  have hstar : ∀ q ∈ known, ∀ rest', q.rest? s = some rest' →
      q.wildcard = true ∧ (q.stem, rest') ∈ part :: back := by
    intro q hq rest' hrest'
    rcases h.match_of_rest? hq hrest' with hmatch | ⟨hsplit, hmatch⟩
    · rw [hexact] at hmatch
      cases hmatch
    · refine ⟨(h.mem_of_starMatch? hsplit hmatch).2.2.2, ?_⟩
      rw [hsplits, List.mem_append] at hsplit
      refine hsplit.resolve_left fun hin => ?_
      rw [hfront _ hin] at hmatch
      cases hmatch
  refine h.lookup_eq_some ht hr hrest ?_ ?_
  · intro q hq happlies
    obtain ⟨rest', hrest'⟩ := Option.ne_none_iff_exists'.1 happlies
    have hpairwise := pairwise_splits s
    rw [hsplits, List.pairwise_append] at hpairwise
    rw [AliasRule.size, AliasRule.size, hstem]
    rcases List.mem_cons.1 (hstar q hq rest' hrest').2 with heq | hback
    · rw [← heq]
    · exact (List.pairwise_cons.1 hpairwise.2.1).1 _ hback
  · intro q hq happlies hsize hlt
    obtain ⟨rest', hrest'⟩ := Option.ne_none_iff_exists'.1 happlies
    have hstem' : q.stem = r.stem := by
      refine eq_of_append_eq (b := rest') (e := rest) ?_ hsize
      rw [(AliasRule.rest?_eq_some.1 hrest').1, (AliasRule.rest?_eq_some.1 hrest).1]
    have hqr : q = r := h.eq_of_stem hq hr hstem' ((hstar q hq rest' hrest').1.trans hwild.symm)
    exact lt_irrefl _ (hqr ▸ hlt)

/-- **A lookup finds the best match.** -/
theorem lookup_eq_bestMatch? (h : Lists targets known) (ht : Settled t known) (s : String) :
    t.lookup s = bestMatch? targets s := by
  rw [bestMatch?]
  cases hexact : exactMatch? targets s with
  | some found => exact h.lookup_of_exactMatch? ht hexact
  | none =>
    rw [Option.none_or]
    cases hstar : (splits s).findSome? (starMatch? targets) with
    | some found => exact h.lookup_of_starMatch? ht hexact hstar
    | none =>
      rw [ht.lookup_eq_none]
      intro q hq
      by_contra happlies
      obtain ⟨rest, hrest⟩ := Option.ne_none_iff_exists'.1 happlies
      rcases h.match_of_rest? hq hrest with hmatch | ⟨hsplit, hmatch⟩
      · rw [hexact] at hmatch
        cases hmatch
      · rw [List.findSome?_eq_none_iff.1 hstar _ hsplit] at hmatch
        cases hmatch

end Lists

/-! ## What is written -/

/-- The project at `root` gives targets to patterns in `paths` and the place they are relative to in `url`,
as it is written in the first configuration file that is there. -/
def Configures (d : Disk) (root : Path) (url : String) (paths : List (String × Json)) : Prop :=
  ∃ name source config options,
    (name = "tsconfig.json" ∨ d.isFile (root.join "tsconfig.json") = false ∧ name = "jsconfig.json") ∧
    d.isFile (root.join name) = true ∧
    d.readText (root.join name) = .ok source ∧
    Json.asWritten? (JsonComments.strip source) = some config ∧
    config.written? "compilerOptions" = some options ∧
    options.written? "paths" = some (.object paths) ∧
    ((options.written? "baseUrl").bind Json.text?).getD "." = url

/-- The targets of a pattern: the texts in the array that is written last for it, without stars at their
ends. -/
def writtenTargets (base : Path) (paths : List (String × Json)) (pattern : String) : List Path :=
  ((((Json.object paths).written? pattern).bind Json.items?).getD []).filterMap fun item =>
    item.text?.map fun t => (base.join (String.ofList (t.toList.rdropWhile (· == '*')))).clean

variable {d : Disk} {root base base' : Path} {url : String} {paths : List (String × Json)}

/-- Targets do not depend on how the place is written that they are relative to, nor on the order of the
members in what is not a text. -/
theorem targetsOf_settle (h : base'.steps = base.steps) (items : List Json) :
    targetsOf base' (items.map Json.settle) = targetsOf base items := by
  rw [targetsOf, targetsOf, List.filterMap_map]
  refine List.filterMap_congr fun item _ => ?_
  rw [Function.comp_apply, Json.text?_settle]
  refine Option.map_congr fun t _ => ?_
  exact Path.clean_congr (Path.steps_join_congr h _)

theorem writtenTargets_eq (base : Path) (paths : List (String × Json)) (pattern : String) :
    writtenTargets base paths pattern =
      ((((Json.object paths).written? pattern).bind Json.items?).map (targetsOf base)).getD [] := by
  rw [writtenTargets]
  cases ((Json.object paths).written? pattern).bind Json.items? with
  | none => rfl
  | some items => rfl

/-- The patterns that are read are those with an array, each with the targets that are written. -/
theorem mem_configured (h : base'.steps = base.steps) {pattern : String} {targets : List Path} :
    (pattern, targets) ∈ configured base' (Json.settled paths) ↔
      (((Json.object paths).written? pattern).bind Json.items?).map (targetsOf base) = some targets := by
  have hread : ∀ v : Json, v.settle.items?.map (targetsOf base') = v.items?.map (targetsOf base) := by
    intro v
    rw [Json.items?_settle, Option.map_map]
    exact Option.map_congr fun items _ => targetsOf_settle h items
  have hmem : ∀ v, (pattern, v) ∈ Json.settled paths ↔
      ((Json.object paths).written? pattern).map Json.settle = some v := by
    intro v
    rw [← Json.lookup_eq_some (Json.increasing_settled paths).nodup, Json.lookup_settled]
    rfl
  rw [Option.map_bind]
  constructor
  · intro hin
    obtain ⟨⟨p, v⟩, hv, hpair⟩ := List.mem_filterMap.1 hin
    obtain ⟨items, hitems, heq⟩ := Option.map_eq_some_iff.1 hpair
    cases heq
    obtain ⟨w, hw, rfl⟩ := Option.map_eq_some_iff.1 ((hmem v).1 hv)
    rw [hw, Option.bind_some, Function.comp_apply, ← hread, hitems]
    rfl
  · intro hwritten
    obtain ⟨w, hw, htargets⟩ := Option.bind_eq_some_iff.1 hwritten
    rw [Function.comp_apply, ← hread] at htargets
    obtain ⟨items, hitems, rfl⟩ := Option.map_eq_some_iff.1 htargets
    exact List.mem_filterMap.2
      ⟨(pattern, w.settle), (hmem _).2 (by rw [hw]; rfl), Option.map_eq_some_iff.2 ⟨items, hitems, rfl⟩⟩

/-- The rules of a configuration, in the order of their patterns. -/
theorem lists_configured (h : base'.steps = base.steps) :
    Lists (writtenTargets base paths) (history (configured base' (Json.settled paths))) := by
  have hincreasing : (configured base' (Json.settled paths)).Pairwise fun a b => a.1 < b.1 := by
    refine List.pairwise_filterMap.2 ((Json.increasing_settled paths).imp ?_)
    rintro ⟨p, v⟩ ⟨q, w⟩ hlt a ha b hb
    obtain ⟨_, -, rfl⟩ := Option.map_eq_some_iff.1 ha
    obtain ⟨_, -, rfl⟩ := Option.map_eq_some_iff.1 hb
    exact hlt
  rw [history_of_nodup (List.pairwise_map.2 (hincreasing.imp fun hlt => ne_of_lt hlt))]
  constructor
  · refine List.pairwise_filterMap.2 (hincreasing.imp ?_)
    intro a b hlt r hr q hq
    rwa [(AliasRule.of?_eq_some.1 hr).1, (AliasRule.of?_eq_some.1 hq).1]
  · intro r
    rw [List.mem_filterMap, writtenTargets_eq]
    constructor
    · rintro ⟨⟨p, targets⟩, hmem, hr⟩
      obtain ⟨rfl, rfl, hproper⟩ := AliasRule.of?_eq_some.1 hr
      rw [(mem_configured h).1 hmem]
      exact ⟨rfl, hproper⟩
    · rintro ⟨htargets, hproper⟩
      refine ⟨(r.pattern, r.targets), (mem_configured h).2 ?_, AliasRule.of?_eq_some.2 ⟨rfl, rfl, hproper⟩⟩
      -- a proper rule has targets, so they are written
      cases hwritten : (((Json.object paths).written? r.pattern).bind Json.items?).map (targetsOf base) with
      | none =>
        rw [hwritten] at htargets
        exact absurd htargets hproper.2.1
      | some targets =>
        rw [hwritten] at htargets
        rw [htargets]
        rfl

/-- The table of a configuration is made from what is written, put in order. -/
theorem ofConfig_settle {config options : Json} (hoptions : config.written? "compilerOptions" = some options)
    (hpaths : options.written? "paths" = some (.object paths))
    (hurl : ((options.written? "baseUrl").bind Json.text?).getD "." = url) (directory : Path) :
    ofConfig directory config.settle = ofList (configured (directory.join url) (Json.settled paths)) := by
  have hoptions' : config.settle.get? "compilerOptions" = some options.settle := by
    rw [Json.get?_settle, hoptions]
    rfl
  have hpaths' : (options.settle.get? "paths").bind Json.members? = some (Json.settled paths) := by
    rw [Json.get?_settle, hpaths, Option.map_some, Json.settle_object]
    rfl
  have hurl' : ((options.settle.get? "baseUrl").bind Json.text?).getD "." = url := by
    rw [← hurl, Json.get?_settle]
    cases options.written? "baseUrl" with
    | none => rfl
    | some v => exact congrArg (·.getD ".") (Json.text?_settle v)
  rw [ofConfig, hoptions']
  dsimp only
  rw [hpaths']
  dsimp only
  rw [hurl']

/-- The table of a project is that of its configuration file. -/
theorem ofProject_eq (h : Configures d root url paths) :
    ∃ base, base.steps = (root.join url).steps ∧
      ofProject d root = ofList (configured base (Json.settled paths)) := by
  obtain ⟨name, source, config, options, hname, hfile, hread, hconfig, hoptions, hpaths, hurl⟩ := h
  have hinner : (Step.name name).IsInner := by
    rcases hname with rfl | ⟨-, rfl⟩
    · exact ⟨by decide, by decide⟩
    · exact ⟨by decide, by decide⟩
  have hfind : (configNames.map fun (name : String) => root.join name).find? d.isFile =
      some (root.join name) := by
    rcases hname with rfl | ⟨hnone, rfl⟩
    · exact List.find?_cons_of_pos hfile
    · have hskip : ¬ d.isFile (root.join "tsconfig.json") = true := by
        rw [hnone]
        exact Bool.false_ne_true
      exact (List.find?_cons_of_neg hskip).trans (List.find?_cons_of_pos hfile)
  have hparse : Json.parse? (JsonComments.strip source) = some config.settle := by
    rw [Json.parse?_eq, hconfig]
    rfl
  obtain ⟨directory, hparent, hsteps⟩ := Path.exists_parent?_join root hinner
  refine ⟨directory.join url, Path.steps_join_congr hsteps url, ?_⟩
  unfold ofProject
  rw [hfind]
  dsimp only
  rw [ofConfigFile, hread]
  dsimp only
  rw [hparse, hparent]
  exact ofConfig_settle hoptions hpaths hurl directory

/-- **What a specifier stands for.** In a project that configures aliases, a lookup finds the best match
among the patterns with targets that are written. The order in which the patterns are written does not
matter. -/
theorem lookup_ofProject (h : Configures d root url paths) (s : String) :
    (ofProject d root).lookup s = bestMatch? (writtenTargets (root.join url) paths) s ∧
      ∀ (d' : Disk) (paths' : List (String × Json)), Configures d' root url paths' →
        paths'.Perm paths → (paths.map (·.1)).Nodup →
        (ofProject d' root).lookup s = (ofProject d root).lookup s := by
  have hlookup : ∀ {d : Disk} {paths : List (String × Json)}, Configures d root url paths →
      (ofProject d root).lookup s = bestMatch? (writtenTargets (root.join url) paths) s := by
    intro d paths h
    obtain ⟨base, hbase, hproject⟩ := ofProject_eq h
    rw [hproject]
    exact (lists_configured hbase).lookup_eq_bestMatch? (.ofList _) s
  refine ⟨hlookup h, fun d' paths' h' hperm hnodup => ?_⟩
  have htargets : writtenTargets (root.join url) paths' = writtenTargets (root.join url) paths := by
    funext pattern
    rw [writtenTargets, writtenTargets, Json.written?_perm hperm hnodup]
  rw [hlookup h, hlookup h', htargets]

/-- A project with the given members of `paths`, behind a comment and before a comma too many. -/
def site (members : String) : Disk where
  tree := .dir [("w", .dir [("tsconfig.json", .file (.ofText
    ("\x7b // c\n\"compilerOptions\":\x7b\"baseUrl\":\"s\",\"paths\":\x7b" ++ members ++ "\x7d,\x7d\x7d")))])]
  cwd := ["w"]

theorem configures_site : Configures (site "\"u*\":[\"v*\"],\"u\":[\"x/../y\"]") ⟨"/w"⟩ "s"
    [("u*", .array [.string "v*"]), ("u", .array [.string "x/../y"])] :=
  ⟨"tsconfig.json", _, _, _, .inl rfl, by decide +kernel, rfl, rfl, rfl, rfl, rfl⟩

theorem configures_site_swap : Configures (site "\"u\":[\"x/../y\"],\"u*\":[\"v*\"]") ⟨"/w"⟩ "s"
    [("u", .array [.string "x/../y"]), ("u*", .array [.string "v*"])] :=
  ⟨"tsconfig.json", _, _, _, .inl rfl, by decide +kernel, rfl, rfl, rfl, rfl, rfl⟩

theorem lookup_ofProject_site :
    (ofProject (site "\"u*\":[\"v*\"],\"u\":[\"x/../y\"]") ⟨"/w"⟩).lookup "u" =
        some (⟨"u", false, [⟨"/w/s/y"⟩]⟩, "") ∧
      (ofProject (site "\"u*\":[\"v*\"],\"u\":[\"x/../y\"]") ⟨"/w"⟩).lookup "u/k" =
        some (⟨"u", true, [⟨"/w/s/v"⟩]⟩, "/k") ∧
      (ofProject (site "\"u\":[\"x/../y\"],\"u*\":[\"v*\"]") ⟨"/w"⟩).lookup "u" =
        some (⟨"u", false, [⟨"/w/s/y"⟩]⟩, "") := by
  have hexact := lookup_ofProject configures_site "u"
  have hstar := lookup_ofProject configures_site "u/k"
  refine ⟨hexact.1.trans (by decide +kernel), hstar.1.trans (by decide +kernel), ?_⟩
  rw [hexact.2 _ _ configures_site_swap (.swap ..) (by decide), hexact.1]
  decide +kernel

end AliasTable

end ClientBoundary
