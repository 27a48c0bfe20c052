import ClientBoundary.Proofs.Anchors

/-!
# Paths seen from a directory

To someone in a directory a path is written as the **way** there: up to what both have in common, then down. The way leads
back: joined to the directory and cleaned, it is the path itself, cleaned (`clean_join_of_way`).

A directory that goes nowhere up ends with names, as many as the way goes up, so the way takes back these names and nothing
of what both have in common (`cleanSteps_climb`). Two dots of the path itself come only behind that, and take back what they
take back in the path. So a way tells where it leads, and paths that are cleaned to different ones have different ways.
They are shown differently too where the ways are texts; ways that are none may be shown alike.
-/

namespace ClientBoundary

namespace Path

open Bytes (slash)

variable {target base r : Path} {ts bs front names back : List Step}

/-! ## Ways -/

/-- The steps of the way from a directory: back to what it has in common with the target, then to the target. -/
def way (ts bs : List Step) : List Step :=
  (bs.drop (common ts bs)).map (fun _ => .up) ++ ts.drop (common ts bs)

theorem take_common (ts bs : List Step) : ts.take (common ts bs) = bs.take (common ts bs) := by
  fun_induction common ts bs with
  | case1 s ts bs ih => rw [List.take_succ_cons, List.take_succ_cons, ih]
  | case2 t ts b bs hne => rfl
  | case3 ts bs hcons => rfl

/-- A first step that both have in common is not on the way. -/
theorem way_cons (s : Step) (ts bs : List Step) : way (s :: ts) (s :: bs) = way ts bs := by
  rw [way, common, if_pos rfl, List.drop_succ_cons, List.drop_succ_cons, way]

theorem isInner_way (h : ∀ s ∈ ts, s.IsInner) : ∀ s ∈ way ts bs, s.IsInner := by
  intro s hs
  rcases List.mem_append.1 hs with hup | hdown
  · obtain ⟨b, -, rfl⟩ := List.mem_map.1 hup
    exact ⟨rfl, by decide⟩
  · exact h s (List.mem_of_mem_drop hdown)

/-- As many steps up as there are names on top take these back. -/
theorem foldl_cleanStep_ups (h : AllNames names) (done : List Step) :
    (names.map fun _ => Step.up).foldl cleanStep (names ++ done) = done := by
  induction names with
  | nil => rfl
  | cons s names ih =>
    obtain ⟨⟨n, rfl⟩, hnames⟩ := List.forall_mem_cons.1 h
    exact ih hnames

/-- **Going back up** where names lead down leaves nothing of them, and keeps what is in front. -/
theorem cleanSteps_climb (h : AllNames names) :
    cleanSteps (front ++ names ++ (names.map fun _ => .up) ++ back) = cleanSteps (front ++ back) := by
  have hreverse : AllNames names.reverse := fun s hs => h s (List.mem_reverse.1 hs)
  have hups : (names.map fun _ => Step.up) = names.reverse.map fun _ => Step.up := by simp
  rw [cleanSteps, cleanSteps, List.foldl_append, List.foldl_append, List.foldl_append, foldl_cleanStep_names h, hups,
    foldl_cleanStep_ups hreverse, List.foldl_append]

/-- The way from a directory leads to the target, whatever stands in front of both. -/
theorem cleanSteps_way (h : AllNames bs) : cleanSteps (front ++ bs ++ way ts bs) = cleanSteps (front ++ ts) := by
  have hnames : AllNames (bs.drop (common ts bs)) := fun s hs => h s (List.mem_of_mem_drop hs)
  have hbs : front ++ bs = front ++ bs.take (common ts bs) ++ bs.drop (common ts bs) := by
    rw [List.append_assoc, List.take_append_drop]
  calc cleanSteps (front ++ bs ++ way ts bs)
      = cleanSteps (front ++ bs.take (common ts bs) ++ ts.drop (common ts bs)) := by
        rw [way, ← List.append_assoc, hbs, cleanSteps_climb hnames]
    _ = cleanSteps (front ++ ts) := by rw [← take_common, List.append_assoc, List.take_append_drop]

/-! ## Ways as paths -/

/-- A path that starts at the root has inner steps behind it. -/
theorem exists_inner (h : target.isAbsolute = true) :
    ∃ inner, target.steps = .root :: inner ∧ ∀ s ∈ inner, s.IsInner := by
  obtain ⟨inner, hsteps⟩ := List.head?_eq_some_iff.1 (head?_steps_absolute h)
  have hregular := regular_steps target
  rw [hsteps] at hregular
  exact ⟨inner, hsteps, hregular.2⟩

/-- Inner steps other than two dots are names. -/
theorem allNames_of_not_up (h : ∀ s ∈ ts, s.IsInner) (hup : .up ∉ ts) : AllNames ts := by
  intro s hs
  cases s with
  | root => exact absurd (h _ hs) Step.not_isInner_root
  | here => exact absurd (h _ hs) Step.not_isInner_here
  | up => exact absurd hs hup
  | name n => exact ⟨n, rfl⟩

/-- A relative path whose segments make the given steps. -/
structure Writes (r : Path) (ss : List Step) : Prop where
  /-- it is not empty -/
  ne_empty : r.bytes ≠ []
  /-- it does not start at the root -/
  relative : r.isAbsolute = false
  /-- the steps of its segments -/
  segments : r.segments.filterMap Step.ofSegment? = ss

theorem writes_dot : Writes ⟨[Bytes.dot]⟩ [] := ⟨by decide, rfl, rfl⟩

/-- The plain path of inner steps is a relative path. -/
theorem writes_ofSteps (h : ∀ s ∈ ts, s.IsInner) (hne : ts ≠ []) : Writes (ofSteps ts) ts := by
  have hregular := regular_of_isInner h
  have hroot : ts.head? ≠ some .root := fun hhead => Step.not_isInner_root (h _ (List.mem_of_head? hhead))
  have hbytes := bytes_of_regular hregular hroot
  refine ⟨fun hempty => hne ?_, ?_, ?_⟩
  · rw [← steps_ofSteps hregular, steps_eq_nil.2 hempty]
  · rw [ofSteps_of_ne_root hroot, isAbsolute_glue hbytes]
  · rw [ofSteps_of_ne_root hroot, Path.segments, cut_glue_bytes hne fun s hs => (hbytes s hs).1]
    exact Step.filterMap_ofSegment?_bytes h

/-- **The way between paths that start at the root** is written as a relative path; a dot stands for no way at all. -/
theorem exists_relative? (htarget : target.isAbsolute = true) (hbase : base.isAbsolute = true) :
    ∃ r, target.relative? base = some r ∧ Writes r (way target.steps base.steps) := by
  obtain ⟨ts, hts, hinner⟩ := exists_inner htarget
  obtain ⟨bs, hbs, -⟩ := exists_inner hbase
  have hway : ∀ s ∈ way ts bs, s.IsInner := isInner_way hinner
  rw [relative?, hts, hbs, way_cons]
  simp only [List.head?_cons, bne_self_eq_false, Bool.false_eq_true, if_false, common, if_true, List.drop_succ_cons]
  -- the steps down are inner ones, so all of them are kept
  rw [List.filter_eq_self.2, ← way]
  · split
    · rename_i hnil
      rw [hnil]
      exact ⟨_, rfl, writes_dot⟩
    · rename_i hne
      exact ⟨_, rfl, writes_ofSteps hway hne⟩
  · intro s hs
    cases s with
    | root => exact absurd (hinner _ (List.mem_of_mem_drop hs)) Step.not_isInner_root
    | here => exact absurd (hinner _ (List.mem_of_mem_drop hs)) Step.not_isInner_here
    | up => rfl
    | name n => rfl

/-- **The way leads back** from a directory that goes nowhere up. -/
theorem clean_join_of_way (hbase : base.isAbsolute = true) (hup : .up ∉ base.steps) (htarget : target.isAbsolute = true)
    (h : Writes r (way target.steps base.steps)) : (base.join r.bytes).clean = target.clean := by
  obtain ⟨ts, hts, -⟩ := exists_inner htarget
  obtain ⟨bs, hbs, hinner⟩ := exists_inner hbase
  have hnames : AllNames bs := allNames_of_not_up hinner fun hmem => hup (hbs ▸ List.mem_cons_of_mem _ hmem)
  have hslash : r.bytes.head? ≠ some slash := by simpa [isAbsolute] using h.relative
  have hjoin : cleanSteps (base.join r.bytes).steps = cleanSteps target.steps := by
    rw [steps_join (bytes_of_isAbsolute hbase) hslash, ← Path.segments, h.segments, hts, hbs, way_cons]
    exact @cleanSteps_way ts bs [.root] hnames
  rw [clean, clean, hjoin]

/-- **The way of a path tells where it leads.** From a directory that starts at the root and goes nowhere up, paths with one
way are cleaned alike. -/
theorem clean_eq_of_relative? {target' : Path} (hbase : base.isAbsolute = true) (hup : .up ∉ base.steps)
    (htarget : target.isAbsolute = true) (htarget' : target'.isAbsolute = true)
    (h : target.relative? base = target'.relative? base) : target.clean = target'.clean := by
  obtain ⟨r, hr, hwrites⟩ := exists_relative? htarget hbase
  obtain ⟨r', hr', hwrites'⟩ := exists_relative? htarget' hbase
  obtain rfl : r = r' := Option.some.inj (hr.symm.trans (h.trans hr'))
  rw [← clean_join_of_way hbase hup htarget hwrites, clean_join_of_way hbase hup htarget' hwrites']

/-- Paths that are texts are told by what they show. -/
theorem eq_of_shown {p q : Path} (hp : p.isText = true) (hq : q.isText = true) (h : p.shown = q.shown) : p = q := by
  have hbytes : p.bytes = q.bytes := by
    rw [← Bytes.ofText_shown hp, ← Bytes.ofText_shown hq]
    exact congrArg Bytes.ofText h
  cases p
  exact congrArg mk hbytes

-- The ways have to be texts: these two are not, and are shown alike.
example :
    let file (b : UInt8) : Path := ⟨Bytes.ofText "/w/" ++ b :: Bytes.ofText ".tsx"⟩
    (file 0xFE).clean ≠ (file 0xFF).clean ∧ (file 0xFE).shownFrom ⟨"/w"⟩ = (file 0xFF).shownFrom ⟨"/w"⟩ := by
  decide +kernel

end Path

end ClientBoundary
