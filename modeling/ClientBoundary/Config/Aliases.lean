import ClientBoundary.Disk
import ClientBoundary.Alias
import ClientBoundary.Json.Comments
import ClientBoundary.Json.Reader

/-!
# Configured aliases

A project lists its aliases under `compilerOptions.paths` of a compiler configuration: an object
from patterns to arrays of targets, which are relative to `baseUrl` and to the directory of the
file. A file that cannot be read that way gives no aliases.
-/

namespace ClientBoundary

namespace AliasTable

/-- The files that may configure aliases; the first that is there counts. -/
def configNames : List String := ["tsconfig.json", "jsconfig.json"]

/-- The text without stars at its end. -/
def dropStars (s : String) : String :=
  String.ofList (Text.dropEndWhile (· == '*') s.toList)

/-- The targets of one pattern. -/
def targetsOf (base : Path) (items : List Json) : List Path :=
  items.filterMap fun item => item.text?.map fun t => (base.join (dropStars t)).clean

/-- The patterns of a configuration with their targets. -/
def configured (base : Path) (members : List (String × Json)) : List (String × List Path) :=
  members.filterMap fun (pattern, value) =>
    value.items?.map fun items => (pattern, targetsOf base items)

/-- The aliases of a configuration that stands in `directory`. -/
def ofConfig (directory : Path) (config : Json) : AliasTable :=
  match config.get? "compilerOptions" with
  | none => empty
  | some options =>
    match (options.get? "paths").bind Json.members? with
    | none => empty
    | some members =>
      let url := ((options.get? "baseUrl").bind Json.text?).getD "."
      ofList (configured (directory.join url) members)

/-- The aliases of a configuration file. -/
def ofConfigFile (d : Disk) (root file : Path) : AliasTable :=
  match d.readText file with
  | .error _ => empty
  | .ok source =>
    match Json.parse? (JsonComments.strip source) with
    | none => empty
    | some config => ofConfig (file.parent?.getD root) config

/-- The aliases of the project at `root`. -/
def ofProject (d : Disk) (root : Path) : AliasTable :=
  match (configNames.map fun (name : String) => root.join name).find? d.isFile with
  | some file => ofConfigFile d root file
  | none => empty

end AliasTable

end ClientBoundary
