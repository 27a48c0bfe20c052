import ClientBoundary.Script.Letter
import ClientBoundary.Script.Lexer.Escape

/-!
# Words

Identifiers and keywords. A letter may be written as an escape; the word is the decoded text, and
it remembers that an escape was used because a keyword must not be written so.
-/

namespace ClientBoundary

/-- A word at the start of a text. -/
structure Lexeme where
  /-- the decoded characters -/
  letters : List Char
  /-- characters covered -/
  length : Nat
  /-- an escape was used -/
  escaped : Bool

namespace Word

/-- Reads letters up to the first character that does not belong to a word. `first` asks for a
character that may start one. Answers `none` for an escape that is no letter. -/
def read : (skip : Nat) → (first : Bool) → List Char → Option Lexeme
  | _, _, [] => some ⟨[], 0, false⟩
  | skip + 1, first, _ :: cs => (read skip first cs).map fun w => { w with length := w.length + 1 }
  | 0, first, c :: cs =>
    if c == '\\' then
      match cs with
      | 'u' :: after =>
        (Escape.unicode? after).bind fun (value, n) =>
          let letter := Char.ofNat value
          if (if first then Letter.isStart letter else Letter.isContinue letter) then
            (read (n + 1) false cs).map fun w => ⟨letter :: w.letters, w.length + 1, true⟩
          else none
      | _ => none
    else if (if first then Letter.isStart c else Letter.isContinue c) then
      (read 0 false cs).map fun w => ⟨c :: w.letters, w.length + 1, w.escaped⟩
    else some ⟨[], 0, false⟩

/-- Words that never name a variable. -/
def reserved : List String :=
  ["await", "break", "case", "catch", "class", "const", "continue", "debugger", "default",
   "delete", "do", "else", "enum", "export", "extends", "finally", "for", "function", "if",
   "import", "in", "instanceof", "new", "return", "super", "switch", "this", "throw", "try",
   "typeof", "var", "void", "while", "with", "yield", "true", "false", "null"]

/-- Whether a word never names a variable. -/
def isReserved (w : String) : Bool := reserved.contains w

/-- Words that are kept for later use, and so are no local names of an export list. -/
def future : List String :=
  ["let", "static", "implements", "interface", "package", "private", "protected", "public"]

/-- Words with a role of their own somewhere in the grammar. -/
def contextual : List String :=
  ["abstract", "accessor", "any", "as", "assert", "asserts", "async", "bigint", "boolean",
   "constructor", "declare", "defer", "from", "get", "global", "infer", "intrinsic", "is",
   "keyof", "meta", "module", "namespace", "never", "number", "object", "of", "out", "override",
   "readonly", "require", "satisfies", "set", "source", "string", "symbol", "target", "type",
   "undefined", "unique", "unknown", "using"]

/-- Whether a word is a keyword in some place; such a word must not be written with escapes there. -/
def isKeyword (w : String) : Bool :=
  reserved.contains w || future.contains w || contextual.contains w

end Word

end ClientBoundary
