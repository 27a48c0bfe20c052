import Mathlib.Data.List.Nodup
import ClientBoundary.Proofs.Ledger
import ClientBoundary.Proofs.Path
import ClientBoundary.Proofs.Writer
import ClientBoundary.Report.Document

/-!
# Reports that lose nothing

A `Document` is what another program takes from a report: it reads the JSON text and looks for the parts that
it knows. A report loses nothing if what is found there is what the scan has found out.

Texts come back as they are, since the text is read as it was written. The **components** are the delicate
part, for they are kept by their names below the root: two files with one name would be one component. Names
that are texts lead back to their places (`steps_join_keyOf`), so that does not happen to them. What a name that
is no text shows leads elsewhere (`Path.exists_text_iff`), and two of these may be shown alike. An importer that
is no text leaves no report at all.
-/

namespace ClientBoundary

/-! ## What is read from a report -/

/-- The classification with a name. -/
def Classification.ofName? : String → Option Classification
  | "client" => some .client
  | "server" => some .server
  | "unknown" => some .unknown
  | _ => none

/-- The reason with a name. -/
def SkipReason.ofName? : String → Option SkipReason
  | "unsupported-extension" => some .unsupportedExtension
  | "type-only" => some .typeOnly
  | "external" => some .external
  | "dynamic-import" => some .dynamicImport
  | _ => none

@[simp] theorem Classification.ofName?_name (c : Classification) : ofName? c.name = some c := by
  cases c <;> rfl

@[simp] theorem SkipReason.ofName?_name (reason : SkipReason) : ofName? reason.name = some reason := by
  cases reason <;> rfl

/-- What a program finds in a report. -/
structure Document where
  /-- the root of the project, as it is shown -/
  root : String
  /-- the number of component files -/
  filesAnalyzed : Nat
  /-- classified files by their names below the root -/
  components : List (String × Classification)
  /-- component files that could not be used, and why -/
  failures : List (String × String)
  /-- imported files that could not be used, and why -/
  deadEdges : List (String × String)
  /-- edges that were passed over -/
  skippedEdges : List SkippedEdge

namespace Document

/-- The text under a key. -/
def textAt? (v : Json) (key : String) : Option String := (v.get? key).bind Json.text?

/-- A component with its classification. -/
def component? (m : String × Json) : Option (String × Classification) := do
  return (m.1, ← Classification.ofName? (← m.2.text?))

/-- A file with what went wrong. -/
def failure? (v : Json) : Option (String × String) := do
  return (← textAt? v "path", ← textAt? v "error")

/-- An edge that was passed over. -/
def skipped? (v : Json) : Option SkippedEdge := do
  let importer ← textAt? v "from_file"
  let specifier ← textAt? v "specifier"
  let reason ← SkipReason.ofName? (← textAt? v "reason")
  return ⟨⟨importer⟩, specifier, reason⟩

/-- The items of an array under a key, all of them read in one way. -/
def listAt? {α : Type} (v : Json) (key : String) (read : Json → Option α) : Option (List α) := do
  (← (v.get? key).bind Json.items?).mapM read

/-- The classified files. -/
def components? (v : Json) : Option (List (String × Classification)) := do
  (← (v.get? "components").bind Json.members?).mapM component?

/-- The document that a value is. -/
def ofJson? (v : Json) : Option Document := do
  let root ← textAt? v "root"
  let filesAnalyzed ← (v.get? "files_analyzed").bind Json.nat?
  let components ← components? v
  let failures ← listAt? v "failures" failure?
  let deadEdges ← listAt? v "dead_edges" failure?
  let skippedEdges ← listAt? v "skipped_edges" skipped?
  return { root, filesAnalyzed, components, failures, deadEdges, skippedEdges }

/-- The document that a text is. -/
def read? (text : String) : Option Document := (Json.parse? text).bind ofJson?

/-! ## Reading values in order -/

/-- Items that can all be read are all found. -/
theorem mapM_of_ne_none {α β : Type} {read : α → Option β} {xs : List α} (h : ∀ x ∈ xs, read x ≠ none) :
    xs.mapM read = some (xs.filterMap read) := by
  induction xs with
  | nil => rfl
  | cons x xs ih =>
    obtain ⟨hx, hxs⟩ := List.forall_mem_cons.1 h
    obtain ⟨y, hy⟩ := Option.ne_none_iff_exists'.1 hx
    rw [List.mapM_cons, hy, List.filterMap_cons_some hy, ih hxs]
    rfl

/-- What is written one by one is read one by one. -/
theorem filterMap_map_of_some {α β γ : Type} {read : β → Option γ} {write : α → β} {found : α → γ}
    (h : ∀ x, read (write x) = some (found x)) (xs : List α) :
    (xs.map write).filterMap read = xs.map found := by
  rw [List.filterMap_map, ← List.filterMap_eq_map]
  exact List.filterMap_congr fun x _ => h x

theorem mapM_map {α β γ : Type} {read : β → Option γ} {write : α → β} {found : α → γ}
    (h : ∀ x, read (write x) = some (found x)) (xs : List α) :
    (xs.map write).mapM read = some (xs.map found) := by
  rw [mapM_of_ne_none, filterMap_map_of_some h]
  intro y hy
  obtain ⟨x, -, rfl⟩ := List.mem_map.1 hy
  rw [h x]
  exact Option.some_ne_none _

theorem textAt?_settle (v : Json) (key : String) :
    textAt? v.settle key = (v.written? key).bind Json.text? := by
  rw [textAt?, Json.get?_settle]
  cases v.written? key with
  | none => rfl
  | some w => exact Json.text?_settle w

/-- An array that is written item by item is read item by item. -/
theorem listAt?_settle {α β : Type} {v : Json} {key : String} {read : Json → Option α} {write : β → Json}
    {found : β → α} {xs : List β} (hv : v.written? key = some (.array (xs.map write)))
    (h : ∀ x, read (write x).settle = some (found x)) :
    listAt? v.settle key read = some (xs.map found) := by
  have hitems : (v.settle.get? key).bind Json.items? = some (xs.map fun x => (write x).settle) := by
    rw [Json.get?_settle, hv, Option.map_some, Option.bind_some, Json.items?_settle]
    simp [Json.items?]
  rw [listAt?, hitems]
  exact mapM_map h xs

end Document

namespace Json

/-- A number is read from its digits. -/
theorem nat?_toString (n : Nat) : nat? (number (toString n)) = some n := by
  have hvalue : (Nat.toDigits 10 n).foldl (fun n c => 10 * n + (c.toNat - 48)) 0 = n :=
    Nat.ofDigitChars_ten_toDigits
  have hsome : (!(Nat.toDigits 10 n).isEmpty && (Nat.toDigits 10 n).all Char.isDigit) = true := by
    simpa [Nat.toDigits_ne_nil] using Numeral.isDigit_toDigits n
  rw [nat?, Nat.toString_eq_ofList_toDigits, String.toList_ofList]
  simp only [hsome, hvalue, if_true]

end Json

namespace ScanResult

open Json (Legible)

variable {r : ScanResult} {l : Ledger}

/-! ## Reports can be read -/

/-- The members of the components, in the order of the ledger. -/
def namedComponents (r : ScanResult) (l : Ledger) : List (String × Json) :=
  l.snapshot.map fun e => (r.keyOf e.1, .string e.2.name)

theorem componentsJson_eq (r : ScanResult) (l : Ledger) :
    r.componentsJson l = .object (Json.sorted (r.namedComponents l)) := rfl

theorem legible_failureJson (r : ScanResult) (p : Path) (f : Failure) (depth : Nat) :
    Legible (depth + 1) (r.failureJson p f) := by
  refine .object ?_
  simp only [List.forall_mem_cons]
  exact ⟨.string _, .string _, nofun⟩

theorem legible_skippedJson (e : SkippedEdge) (depth : Nat) : Legible (depth + 1) (skippedJson e) := by
  refine .object ?_
  simp only [List.forall_mem_cons]
  exact ⟨.string _, .string _, .string _, nofun⟩

theorem legible_componentsJson (r : ScanResult) (l : Ledger) (depth : Nat) :
    Legible (depth + 1) (r.componentsJson l) := by
  rw [componentsJson_eq]
  refine .object fun m hm => ?_
  obtain ⟨e, -, rfl⟩ := List.mem_map.1 (Json.mem_of_mem_sorted hm)
  exact .string _

theorem legible_json (l : Ledger) (h : r.filesAnalyzed < 2 ^ 64) (depth : Nat) :
    Legible (depth + 3) (r.json l) := by
  have hlist : ∀ {α : Type} (xs : List α) (write : α → Json), (∀ x, Legible (depth + 1) (write x)) →
      Legible (depth + 2) (.array (xs.map write)) := by
    intro α xs write hwrite
    exact .array (List.forall_mem_map.2 fun x _ => hwrite x)
  refine .object ?_
  simp only [leadingMembers, List.cons_append, List.nil_append, List.forall_mem_cons]
  refine ⟨.string _, .number ?_, legible_componentsJson r l _, ?_, ?_, ?_, nofun⟩
  · rw [Nat.toString_eq_ofList_toDigits, String.toList_ofList]
    exact Numeral.stands_toDigits h
  · exact hlist _ _ fun e => legible_failureJson r e.1 e.2 depth
  · exact hlist _ _ fun f => legible_failureJson r f.path f depth
  · exact hlist _ _ fun e => legible_skippedJson e depth

theorem parse?_document (l : Ledger) (h : r.filesAnalyzed < 2 ^ 64) :
    Json.parse? ((r.json l).pretty ++ "\n") = some (r.json l).settle := by
  rw [Json.parse?_eq, Json.asWritten?_pretty (legible_json l h _)]
  rfl

/-- There is a report exactly if the importers of all edges passed over are texts. -/
theorem document?_eq_some_iff {text : String} :
    r.document? l = some text ↔
      (∀ e ∈ r.skippedEdges, e.importer.isText = true) ∧ (r.json l).pretty ++ "\n" = text := by
  rw [document?, Option.ite_none_right_eq_some, List.all_eq_true, Option.some_inj]

/-! ## What they say -/

theorem failure?_failureJson (r : ScanResult) (p : Path) (f : Failure) :
    Document.failure? (r.failureJson p f).settle = some (r.keyOf p, f.message) := by
  simp only [Document.failure?, Document.textAt?_settle]
  rfl

/-- An edge comes back with its importer as it is shown. -/
theorem skipped?_skippedJson (e : SkippedEdge) :
    Document.skipped? (skippedJson e).settle =
      some { e with importer := ⟨Bytes.ofText e.importer.shown⟩ } := by
  simp only [Document.skipped?, Document.textAt?_settle]
  have hreason : ((skippedJson e).written? "reason").bind Json.text? = some e.reason.name := rfl
  simp [hreason]
  rfl

/-- The name of a file leads back to its place if it is a text. -/
theorem steps_join_keyOf (hroot : r.root.isAbsolute = true) {p : Path} (hp : p.isAbsolute = true)
    (htext : (p.seenBelow r.root).isText = true) : (r.root.join (r.keyOf p)).steps = p.steps := by
  rw [keyOf, Path.shown, Bytes.ofText_shown htext, Path.steps_join_seenBelow hp hroot]

/-- No two files have one name if all names are texts. -/
theorem nodup_keyOf (hroot : r.root.isAbsolute = true) (hpaths : ∀ p ∈ l.paths, p.isAbsolute = true)
    (htext : ∀ p ∈ l.paths, (p.seenBelow r.root).isText = true) : (l.paths.map r.keyOf).Nodup := by
  refine List.Nodup.of_map (fun (key : String) => (r.root.join key).steps) ?_
  have hback : (l.paths.map r.keyOf).map (fun (key : String) => (r.root.join key).steps) =
      l.paths.map Path.steps := by
    rw [List.map_map]
    refine List.map_congr_left fun p hp => ?_
    rw [Function.comp_apply, steps_join_keyOf hroot (hpaths p hp) (htext p hp)]
  rw [hback]
  exact Path.nodup_steps (List.pairwise_map.2 l.ordered)

theorem map_keyOf_snapshot (r : ScanResult) (l : Ledger) :
    l.snapshot.map (fun e => r.keyOf e.1) = l.paths.map r.keyOf := by
  rw [← Ledger.map_fst_snapshot, List.map_map]
  rfl

/-- The members of the components, as they are found in a report. -/
def foundComponents (r : ScanResult) (l : Ledger) : List (String × Json) :=
  Json.settled (Json.sorted (r.namedComponents l))

theorem foundComponents_perm (r : ScanResult) (l : Ledger) :
    (r.foundComponents l).Perm (Json.sorted (r.namedComponents l)) := by
  refine (Json.settled_perm (Json.increasing_sorted _).nodup).trans (.of_eq ?_)
  -- values are texts, which stay as they are
  refine (List.map_congr_left fun m hm => ?_).trans (List.map_id _)
  obtain ⟨e, -, rfl⟩ := List.mem_map.1 (Json.mem_of_mem_sorted hm)
  rfl

theorem component?_keyOf (r : ScanResult) (e : Path × Classification) :
    Document.component? (r.keyOf e.1, .string e.2.name) = some (r.keyOf e.1, e.2) := by
  simp [Document.component?, Json.text?]

/-- What is found among the components is one of them. -/
theorem component?_of_mem {m : String × Json} (h : m ∈ r.foundComponents l) :
    ∃ c, Document.component? m = some (m.1, c) := by
  obtain ⟨e, -, rfl⟩ := List.mem_map.1 (Json.mem_of_mem_sorted ((foundComponents_perm r l).mem_iff.1 h))
  exact ⟨e.2, component?_keyOf r e⟩

/-- Components are found, each under a name of its own; and one for each file if no two files have one name. -/
theorem components?_settle (r : ScanResult) (l : Ledger) :
    ∃ components, Document.components? (r.json l).settle = some components ∧
      (components.map (·.1)).Nodup ∧
      ((l.paths.map r.keyOf).Nodup → components.Perm (l.snapshot.map fun e => (r.keyOf e.1, e.2))) := by
  have hat : ((r.json l).settle.get? "components").bind Json.members? = some (r.foundComponents l) := by
    rw [foundComponents, Json.get?_settle, ← Json.members?, ← Json.settle_object]
    rfl
  refine ⟨(r.foundComponents l).filterMap Document.component?, ?_, ?_, fun h => ?_⟩
  · rw [Document.components?, hat]
    refine Document.mapM_of_ne_none fun m hm => ?_
    obtain ⟨c, hc⟩ := component?_of_mem hm
    exact hc ▸ Option.some_ne_none _
  · have hkeys : ((r.foundComponents l).filterMap Document.component?).map (·.1) =
        (r.foundComponents l).map (·.1) := by
      rw [List.map_filterMap, ← List.filterMap_eq_map]
      refine List.filterMap_congr fun m hm => ?_
      obtain ⟨c, hc⟩ := component?_of_mem hm
      rw [hc]
      rfl
    rw [hkeys]
    exact (Json.increasing_sorted _).nodup
  · have hkeys : ((r.namedComponents l).map (·.1)).Nodup := by
      rw [namedComponents, List.map_map]
      exact (map_keyOf_snapshot r l).symm ▸ h
    rw [← Document.filterMap_map_of_some (component?_keyOf r)]
    exact ((foundComponents_perm r l).trans (Json.sorted_perm hkeys)).filterMap _

/-- The document that a report gives, up to its components. -/
theorem ofJson?_settle (htext : ∀ e ∈ r.skippedEdges, e.importer.isText = true)
    {components : List (String × Classification)}
    (h : Document.components? (r.json l).settle = some components) :
    Document.ofJson? (r.json l).settle = some
      { root := r.root.shown, filesAnalyzed := r.filesAnalyzed, components
        failures := r.failures.map fun e => (r.keyOf e.1, e.2.message)
        deadEdges := r.warnings.map fun f => (r.keyOf f.path, f.message)
        skippedEdges := r.skippedEdges } := by
  have hroot : Document.textAt? (r.json l).settle "root" = some r.root.shown := by
    rw [Document.textAt?_settle]
    rfl
  have hcount : ((r.json l).settle.get? "files_analyzed").bind Json.nat? = some r.filesAnalyzed := by
    have hat : (r.json l).written? "files_analyzed" = some (.number (toString r.filesAnalyzed)) := rfl
    rw [Json.get?_settle, hat, Option.map_some, Option.bind_some, Json.settle, Json.nat?_toString]
  have hfailures : Document.listAt? (r.json l).settle "failures" Document.failure? =
      some (r.failures.map fun e => (r.keyOf e.1, e.2.message)) :=
    Document.listAt?_settle rfl fun e => failure?_failureJson r e.1 e.2
  have hdead : Document.listAt? (r.json l).settle "dead_edges" Document.failure? =
      some (r.warnings.map fun f => (r.keyOf f.path, f.message)) :=
    Document.listAt?_settle rfl fun f => failure?_failureJson r f.path f
  have hskipped : Document.listAt? (r.json l).settle "skipped_edges" Document.skipped? =
      some r.skippedEdges := by
    rw [Document.listAt?_settle rfl skipped?_skippedJson]
    refine congrArg some ((List.map_congr_left fun e he => ?_).trans (List.map_id _))
    rw [Path.shown, Bytes.ofText_shown (htext e he)]
    rfl
  simp only [Document.ofJson?, hroot, hcount, h, hfailures, hdead, hskipped]
  rfl

/-- Names lead to the places of all files exactly if they are texts: then no two files have one name, and a name
that is none is shown as a text that leads elsewhere. -/
theorem places_perm_iff (hroot : r.root.isAbsolute = true) (hpaths : ∀ p ∈ l.paths, p.isAbsolute = true)
    {components : List (String × Classification)}
    (h : (l.paths.map r.keyOf).Nodup → components.Perm (l.snapshot.map fun e => (r.keyOf e.1, e.2))) :
    (components.map fun m => ((r.root.join m.1).steps, m.2)).Perm
        (l.snapshot.map fun e => (e.1.steps, e.2)) ↔
      ∀ p ∈ l.paths, (p.seenBelow r.root).isText = true := by
  constructor
  · intro hperm p hp
    rw [← Ledger.map_fst_snapshot] at hp
    obtain ⟨e, he, rfl⟩ := List.mem_map.1 hp
    obtain ⟨m, -, hm⟩ := List.mem_map.1 (hperm.mem_iff.2 (List.mem_map_of_mem he))
    exact (Path.exists_text_iff (hpaths e.1 (l.map_fst_snapshot ▸ hp)) hroot).1 ⟨m.1, congrArg Prod.fst hm⟩
  · intro htext
    refine ((h (nodup_keyOf hroot hpaths htext)).map _).trans (.of_eq ?_)
    rw [List.map_map]
    refine List.map_congr_left fun e he => ?_
    have hmem : e.1 ∈ l.paths := l.map_fst_snapshot ▸ List.mem_map_of_mem he
    exact congrArg (·, e.2) (steps_join_keyOf hroot (hpaths e.1 hmem) (htext e.1 hmem))

/-- Files inside of the root, beside it and the root itself, with texts that need care. -/
def awkward : ScanResult where
  root := ⟨"/w//site/."⟩
  files := [(⟨"/w/site/é.tsx"⟩, .failed (.malformed ⟨"/w/site/é.tsx"⟩ "\"\x7d\n\x01"))]
  entryPoints := []
  marked := []
  warnings := [.unreadable ⟨"/w/site\\.ts"⟩ "\\u0022"]
  skippedEdges := [⟨⟨"/w/site/é.tsx"⟩, "\\\"\t,", .external⟩]
  filesAnalyzed := 18446744073709551615

def awkwardLedger : Ledger where
  entries := [(⟨"/w/site"⟩, .server), (⟨"/w/./site//a.tsx"⟩, .client), (⟨"/w/site.ts"⟩, .server)]
  ordered := by decide

-- Neither condition on texts can be dropped: two files that are shown alike are one component, and an importer
-- that is no text leaves no report.
example :
    let file (b : UInt8) : Path := ⟨Bytes.ofText "/p/" ++ b :: Bytes.ofText ".tsx"⟩
    let l : Ledger := ⟨[(file 0xFE, .server), (file 0xFF, .client)], by decide⟩
    let r : ScanResult := ⟨⟨"/p"⟩, [], [], [], [], [⟨file 0xFF, "react", .external⟩], 2⟩
    r.componentsJson l = .object [("\uFFFD.tsx", .string "client")] ∧ r.document? l = none := by
  constructor <;> rfl

end ScanResult

end ClientBoundary
