import ClientBoundary.Command
import ClientBoundary.Proofs.Scan

/-!
# One file, one entry

Many paths name one file: through links, by way of parent directories, by an alias. A scan writes files into
an empty ledger **without links** only, since component files are listed that way and imports lead to files
that way. So no file has two entries, and its entry is found under the link-free path of whatever names the
file, as the status of a file is looked up (`run_one_entry`).
-/

namespace ClientBoundary

namespace Terrain

/-- What the directive spreads to is written without links. -/
theorem Spread.isLinkFree {t : Terrain} {l : Ledger} {files : List Path} {x : Path}
    (hfiles : ∀ p ∈ files, t.disk.IsLinkFree p) (h : t.Spread l files x) : t.disk.IsLinkFree x := by
  cases h with
  | seed hseed => exact hfiles x hseed.1
  | step _ hleads _ husable =>
    obtain ⟨m, hm⟩ := husable
    obtain ⟨-, -, e, -, -, -, htarget⟩ := hleads
    exact Resolve.isLinkFree_of_target? htarget hm

end Terrain

namespace Scan

variable {d : Disk} {o : Options} {l : Ledger} {r : ScanResult} {p q : Path}

/-- What a scan writes into an empty ledger are files that can be used, without links. -/
theorem isLinkFree_of_mem_paths (h : run d o .empty = .ok (r, l)) (hp : p ∈ l.paths) :
    d.IsLinkFree p ∧ ∃ m, Module.ofFile d p = .ok m := by
  obtain ⟨project, files, s, hsurvey, -, htally⟩ := tally_of_run h
  have hfiles := isLinkFree_of_survey hsurvey
  rcases htally.paths p hp with hempty | hmarked | ⟨hfile, hm⟩
  · exact absurd hempty List.not_mem_nil
  · have hspread := htally.least p hmarked
    exact ⟨hspread.isLinkFree hfiles, hspread.usable⟩
  · exact ⟨hfiles p hfile, hm⟩

/-- Each path in the ledger is the link-free path of the file that it names. -/
theorem canonical_of_mem_paths (h : run d o .empty = .ok (r, l)) (hp : p ∈ l.paths) :
    d.canonical p = .ok p ∧ ∃ place, d.Names p place := by
  obtain ⟨hfree, m, hm⟩ := isLinkFree_of_mem_paths h hp
  have hfile := Module.isFile_of_ofFile hm
  exact ⟨hfree.canonical hfile, Disk.isFile_iff_names.1 hfile⟩

/-- A file in the ledger is told by its place. -/
theorem eq_pathOf_of_names (h : run d o .empty = .ok (r, l)) (hp : p ∈ l.paths) {place : Node.Place}
    (hplace : d.Names p place) : p = Disk.pathOf place := by
  obtain ⟨hcanonical, -⟩ := canonical_of_mem_paths h hp
  rw [hplace.canonical] at hcanonical
  exact (Except.ok.inj hcanonical).symm

/-- **One file, one entry.** After a scan that begins with nothing, each entry stands under the link-free
path of a regular file, and no two entries are about the same file. Any path that names the file of an entry
has the path of the entry as its link-free path, so asking for its status finds the entry. -/
theorem run_one_entry (h : run d o .empty = .ok (r, l)) :
    (∀ e ∈ l.entries, d.canonical e.1 = .ok e.1 ∧ ∃ place, d.Names e.1 place) ∧
    (l.entries.Pairwise fun a b => ∀ place, d.Names a.1 place → ¬ d.Names b.1 place) ∧
    ∀ e ∈ l.entries, ∀ place, d.Names e.1 place → ∀ q : Path, d.Names q place →
      d.canonical q = .ok e.1 ∧ l.get e.1 = e.2.classification ∧
        (Command.status q o).perform d = .ok (.file e.1 l) := by
  refine ⟨?_, ?_, ?_⟩
  · intro e he
    exact canonical_of_mem_paths h (List.mem_map_of_mem he)
  · -- both would be written as the path of their place, and entries are in strict order
    refine l.ordered.imp_of_mem ?_
    intro a b ha hb hlt place hplace hplace'
    have hsame : a.1 = b.1 := by
      rw [eq_pathOf_of_names h (List.mem_map_of_mem ha) hplace,
        eq_pathOf_of_names h (List.mem_map_of_mem hb) hplace']
    rw [Path.order_eq_eq_iff.2 (congrArg Path.steps hsame)] at hlt
    cases hlt
  · intro e he place hplace q hq
    have hcanonical : d.canonical q = .ok e.1 := by
      rw [hq.canonical, eq_pathOf_of_names h (List.mem_map_of_mem he) hplace]
    have hside : l.side? e.1 = some e.2 := Ledger.sideIn_of_mem l.ordered he
    refine ⟨hcanonical, ?_, ?_⟩
    · rw [Ledger.get, hside]
    · simp only [Command.perform, hcanonical, h]

/-- A file is imported through a link to a directory and a link in it. Two more links lead nowhere. -/
def linked : Disk where
  tree := .dir [("w", .dir [
    ("a.tsx", .file (.ofText "'use client'; import './lib/b'")),
    ("c.tsx", .file (.ofText "")),
    ("gone.tsx", .link "nowhere.tsx"),
    ("lib", .link "src"),
    ("loop.tsx", .link "./loop.tsx"),
    ("src", .dir [("b.tsx", .link "../c.tsx")])])]
  cwd := ["w"]

theorem run_one_entry_linked : ∃ r l, run linked ringOptions .empty = .ok (r, l) ∧
    linked.Names ⟨"lib/../src/b.tsx"⟩ ["w", "c.tsx"] ∧
    linked.canonical ⟨"lib/../src/b.tsx"⟩ = .ok ⟨"/w/c.tsx"⟩ ∧ l.get ⟨"/w/c.tsx"⟩ = .client ∧
    (Command.status ⟨"lib/../src/b.tsx"⟩ ringOptions).perform linked = .ok (.file ⟨"/w/c.tsx"⟩ l) := by
  have hentries : (run linked ringOptions .empty).map (fun out => out.2.entries) =
      .ok [(⟨"/w/a.tsx"⟩, .client), (⟨"/w/c.tsx"⟩, .client)] := by
    decide +kernel
  cases hrun : run linked ringOptions .empty with
  | error e =>
    rw [hrun] at hentries
    cases hentries
  | ok out =>
    obtain ⟨r, l⟩ := out
    rw [hrun] at hentries
    have hmem : (⟨"/w/c.tsx"⟩, .client) ∈ l.entries := by
      rw [show l.entries = _ from Except.ok.inj hentries]
      exact List.mem_cons_of_mem _ (List.mem_singleton_self _)
    have hentry : linked.Names ⟨"/w/c.tsx"⟩ ["w", "c.tsx"] := by decide +kernel
    have hother : linked.Names ⟨"lib/../src/b.tsx"⟩ ["w", "c.tsx"] := by decide +kernel
    obtain ⟨hcanonical, hget, hstatus⟩ := (run_one_entry hrun).2.2 _ hmem _ hentry _ hother
    exact ⟨r, l, rfl, hother, hcanonical, hget, hstatus⟩

end Scan

end ClientBoundary
