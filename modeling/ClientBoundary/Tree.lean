import ClientBoundary.Text.Bytes

/-!
# File trees

A snapshot of files, directories and links. Names and links are bytes. A **place** is the list of names
that leads to a node from the root without any link on the way.

* `get?` looks a place up, `put` and `erase` change it;
* `files` lists the places of all regular files.
-/

namespace ClientBoundary

/-- The bytes of a file as text. -/
structure Content where
  /-- the text up to the first byte that is none -/
  lead : String
  /-- the lead is all there is -/
  isText : Bool
deriving DecidableEq, Inhabited

/-- The content that is a text. -/
def Content.ofText (text : String) : Content := ⟨text, true⟩

/-- The characters that bytes hold from a position on, up to the first byte that is no text; at most
`n` of them. -/
def Content.leadChars (bytes : ByteArray) : (n position : Nat) → List Char
  | 0, _ => []
  | n + 1, position =>
    match bytes.utf8DecodeChar? position with
    | some c => c :: leadChars bytes n (position + c.utf8Size)
    | none => []

/-- The content that is made of bytes. -/
def Content.ofBytes (bytes : ByteArray) : Content :=
  match String.fromUTF8? bytes with
  | some text => .ofText text
  | none => ⟨String.ofList (leadChars bytes bytes.size 0), false⟩

/-- The text of a content, if it is one. -/
def Content.text? (c : Content) : Option String := if c.isText then some c.lead else none

/-- A node of a file tree. -/
inductive Node where
  /-- a regular file -/
  | file (content : Content)
  /-- a link with what it is written as -/
  | link (target : Bytes)
  /-- a directory with its named entries -/
  | dir (entries : List (Bytes × Node))

namespace Node

instance : Inhabited Node := ⟨dir []⟩

/-- The names that lead to a node. -/
abbrev Place := List Bytes

/-- The entries of a directory; other nodes have none. -/
def entries : Node → List (Bytes × Node)
  | dir es => es
  | _ => []

/-- The entry of a directory under a name. -/
def entry? (n : Node) (name : Bytes) : Option Node := n.entries.lookup name

/-- Whether a node is a directory. -/
def isDir : Node → Bool
  | dir _ => true
  | _ => false

/-- Whether a node is a regular file. -/
def isFile : Node → Bool
  | file _ => true
  | _ => false

/-- The node at a place. -/
def get? (n : Node) : Place → Option Node
  | [] => some n
  | name :: rest => (n.entry? name).bind (get? · rest)

/-- Entries with one of them changed, or added at the end. -/
def alter (name : Bytes) (change : Option Node → Option Node) :
    List (Bytes × Node) → List (Bytes × Node)
  | [] => ((change none).map fun n => (name, n)).toList
  | (k, n) :: rest =>
    if k = name then ((change (some n)).map fun n => (k, n)).toList ++ rest
    else (k, n) :: alter name change rest

/-- The tree with `new` at a place; directories on the way are made. -/
def put : Node → Place → (new : Node) → Node
  | _, [], new => new
  | n, name :: rest, new =>
    dir (alter name (fun old => some (put (old.getD (dir [])) rest new)) n.entries)

/-- The tree without what is at a place. -/
def erase : Node → Place → Node
  | n, [] => n
  | n, [name] => dir (alter name (fun _ => none) n.entries)
  | n, name :: rest => dir (alter name (fun old => old.map (erase · rest)) n.entries)

mutual

/-- The places of regular files below a node. -/
def files : Node → List Place
  | file _ => [[]]
  | link _ => []
  | dir es => filesIn es

/-- The places of regular files in a directory. -/
def filesIn : List (Bytes × Node) → List Place
  | [] => []
  | (name, n) :: rest => n.files.map (name :: ·) ++ filesIn rest

end

end Node

end ClientBoundary
