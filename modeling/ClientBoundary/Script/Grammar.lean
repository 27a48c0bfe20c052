import ClientBoundary.Script.Grammar.Element
import ClientBoundary.Script.Grammar.Statement

/-!
# The grammar

Ties the rules to their goals and reads whole programs. The depth of rules is bounded by a multiple
of the text's length: no rule asks for more than a few others before a token is passed.
-/

namespace ClientBoundary

namespace Grammar

open ClientBoundary.Parser

/-- The rule of a goal. -/
def serve (rules : Rules) : {α : Type} → Goal α → Parser α
  | _, .expr => expression rules
  | _, .assign returnTypes => assignment rules returnTypes
  | _, .binary level => binary rules level
  | _, .unary => unary rules
  | _, .simpleUnary => simpleUnary rules
  | _, .access => access rules
  | _, .primary => primary rules (plainMembers rules)
  | _, .object => objectLiteral rules
  | _, .element inner => elementForm rules inner
  | _, .classTail => classTail rules
  | _, .pattern => pattern rules
  | _, .type => type rules
  | _, .typeOperator => operatorType rules
  | _, .returnType => returnType rules
  | _, .statement place => statement rules place

/-- Serves a goal by rules that are nested at most `depth` times. -/
def serveTo : (depth : Nat) → {α : Type} → Goal α → Parser α
  | 0, _, _ => failure
  | depth + 1, _, goal => serve ⟨serveTo depth⟩ goal

/-- Statements up to the end of the text. -/
def statements (rules : Rules) : Parser (List Stmt) :=
  loop [] fun done => do
    if (← token).kind == .eof then return .inr done.reverse
    return .inl ((← rules.ask (.statement .listed)) :: done)

/-- The leading string statements, and what is behind them. -/
def splitDirectives : List Stmt → List String × List Stmt
  | .expr (.string value) :: rest =>
    let (directives, body) := splitDirectives rest
    (value :: directives, body)
  | body => ([], body)

/-- The state before a text is read. -/
def initial (dialect : Dialect) (source : List Char) : ParseState where
  token := Lexer.first dialect source
  sound := Lexer.sound_first dialect source
  faulty := (Lexer.first dialect source).kind == .bad
  pending := []
  exported := []

/-- Reads a text as a program; `none` if it is not well formed. -/
def program? (dialect : Dialect) (source : List Char) : Option Program :=
  let size := source.length
  let setting : Setting := { dialect, bound := size + 8, awaits := dialect.isModule }
  match statements ⟨serveTo (16 * (size + 4))⟩ setting (initial dialect source) with
  | some answer =>
    if answer.next.faulty || !answer.next.pending.isEmpty then none
    else
      let (directives, body) := splitDirectives answer.value
      some { directives, body }
  | none => none

end Grammar

end ClientBoundary
