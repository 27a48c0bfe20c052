import ClientBoundary.Path

/-!
# Options

What a scan is asked to do, and how the words of a command line ask for it.

Words are read from left to right. An option that takes a value **waits** for it, and is settled only
when the next option, the next file or the end is reached; so a word that means nothing is noticed
before a value that is not acceptable.
-/

namespace ClientBoundary

/-- Why a command line is refused. -/
inductive UsageError where
  /-- a word means nothing here -/
  | unknownArgument
  /-- a value is missing or not acceptable -/
  | invalidValue
  /-- something is asked for twice -/
  | argumentConflict
  /-- a flag is given a value -/
  | tooManyValues
  /-- something is not given -/
  | missingRequiredArgument
  /-- help is asked for -/
  | displayHelp
deriving DecidableEq, Inhabited

/-- What a scan is asked to do. -/
structure Options where
  /-- the root of the project; by default that of the repository -/
  root : Option Path := none
  /-- names of directories that are passed over -/
  exclude : List String := ["pages", "node_modules"]
  /-- follow `import()` and `require()` -/
  followDynamic : Bool := false
  /-- do not look for the framework -/
  skipProjectCheck : Bool := false
  /-- report as JSON -/
  json : Bool := false
deriving DecidableEq, Inhabited

namespace Options

/-- What takes a value. -/
inductive Slot where
  | root | exclude | file
deriving DecidableEq

/-- What is set by being named. -/
inductive Flag where
  | followDynamic | skipProjectCheck | json
deriving DecidableEq

/-- A long name with its meaning. -/
inductive Meaning where
  | flag (f : Flag)
  | slot (s : Slot)
  | help

/-- The long names. -/
def meaning? : String → Option Meaning
  | "root" => some (.slot .root)
  | "exclude" => some (.slot .exclude)
  | "follow-dynamic" => some (.flag .followDynamic)
  | "skip-project-check" => some (.flag .skipProjectCheck)
  | "json" => some (.flag .json)
  | "help" => some .help
  | _ => none

/-- What was read so far. -/
structure Reading where
  /-- the root -/
  root : Option Path := none
  /-- names of excluded directories -/
  exclude : Option (List String) := none
  /-- flags that were named -/
  flags : List Flag := []
  /-- the file -/
  file : Option Path := none
  /-- what waits to be settled, perhaps still without its value -/
  pending : Option (Slot × Option String) := none
  /-- the next word may be the value of what waits -/
  hungry : Bool := false
  /-- words are files from here on -/
  trailing : Bool := false
  /-- a file may still be named -/
  wantsFile : Bool

/-- How reading goes on. -/
abbrev Step := Except UsageError Reading

/-- Gives a slot its value. -/
def assign (r : Reading) (slot : Slot) (value : String) : Step :=
  match slot with
  | .root =>
    if r.root.isSome then .error .argumentConflict
    else if value = "" then .error .invalidValue
    else .ok { r with root := some ⟨value⟩ }
  | .exclude =>
    let names := (Text.cut ',' value.toList).map String.ofList
    .ok { r with exclude := some (r.exclude.getD [] ++ names) }
  | .file =>
    if value = "" then .error .invalidValue else .ok { r with file := some ⟨value⟩ }

/-- Settles what waits. -/
def settle (r : Reading) : Step :=
  match r.pending with
  | none => .ok r
  | some (_, none) => .error .invalidValue
  | some (slot, some value) => assign { r with pending := none, hungry := false } slot value

/-- Sets a flag. -/
def setFlag (r : Reading) (f : Flag) : Step := do
  let r ← settle r
  if r.flags.contains f then throw .argumentConflict
  return { r with flags := f :: r.flags }

/-- A word that starts with two dashes, without them. -/
def longWord (r : Reading) (body : List Char) : Step :=
  let name := String.ofList (body.takeWhile (· != '='))
  let value? :=
    match body.dropWhile (· != '=') with
    | _ :: value => some (String.ofList value)
    | [] => none
  match meaning? name, value? with
  | none, _ => .error .unknownArgument
  | some (.flag f), none => setFlag r f
  | some .help, none => do
    let _ ← settle r
    throw .displayHelp
  | some (.flag _), some _ => .error .tooManyValues
  | some .help, some _ => .error .tooManyValues
  | some (.slot slot), some value => do assign (← settle r) slot value
  | some (.slot slot), none => do
    return { (← settle r) with pending := some (slot, none), hungry := true }

/-- A word that starts with one dash, without it. -/
def shortWord (r : Reading) (body : List Char) : Step :=
  if body.head? = some 'h' then do
    let _ ← settle r
    throw .displayHelp
  else .error .unknownArgument

/-- A word that is a file. -/
def fileWord (r : Reading) (word : String) : Step :=
  if r.wantsFile then do
    let r ← settle r
    return { r with pending := some (.file, some word), hungry := false, wantsFile := false }
  else .error .unknownArgument

/-- A word that is a value or a file. -/
def plainWord (r : Reading) (word : String) : Step :=
  match r.hungry, r.pending with
  | true, some (slot, _) => .ok { r with pending := some (slot, some word), hungry := false }
  | _, _ => fileWord r word

/-- Reads one word. -/
def word (r : Reading) (w : String) : Step :=
  if r.trailing then fileWord r w
  else
    match w.toList with
    | ['-', '-'] => .ok { r with trailing := true }
    | '-' :: '-' :: body => longWord r body
    | ['-'] => plainWord r w
    | '-' :: body => shortWord r body
    | _ => plainWord r w

/-- Reads words to their end. -/
def readAll (words : List String) (wantsFile : Bool) : Step := do
  settle (← words.foldlM word { wantsFile })

/-- What was asked for. -/
def ofReading (r : Reading) : Options :=
  { root := r.root
    exclude := r.exclude.getD ({} : Options).exclude
    followDynamic := r.flags.contains .followDynamic
    skipProjectCheck := r.flags.contains .skipProjectCheck
    json := r.flags.contains .json }

/-- The options of a scan. -/
def ofWords (words : List String) : Except UsageError Options :=
  (readAll words false).map ofReading

/-- The file and the options of a question about one file. -/
def withFile (words : List String) : Except UsageError (Path × Options) := do
  let r ← readAll words true
  match r.file with
  | some file => return (file, ofReading r)
  | none => throw .missingRequiredArgument

end Options

end ClientBoundary
