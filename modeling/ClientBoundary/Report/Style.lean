import ClientBoundary.Text.Split

/-!
# Styled text

Text for a terminal. A style is switched on by a sequence of codes and off by the reset sequence; where
the text holds that sequence itself, the style is switched on again behind it.
-/

namespace ClientBoundary

/-- Colours of text. -/
inductive Colour where
  | red | green | yellow | blue | cyan | brightBlue
deriving DecidableEq, Inhabited

/-- The code of a colour. -/
def Colour.code : Colour → String
  | red => "31"
  | green => "32"
  | yellow => "33"
  | blue => "34"
  | cyan => "36"
  | brightBlue => "94"

/-- How text looks. -/
structure Style where
  /-- heavier than usual -/
  bold : Bool := false
  /-- fainter than usual -/
  dimmed : Bool := false
  /-- the colour -/
  colour : Option Colour := none
deriving DecidableEq, Inhabited

namespace Style

/-- A plain colour. -/
def ink (c : Colour) : Style := { colour := some c }

/-- A heavy colour. -/
def heavy (c : Colour) : Style := { bold := true, colour := some c }

/-- Faint text. -/
def faint : Style := { dimmed := true }

/-- The codes of a style. -/
def codes (s : Style) : List String :=
  (if s.bold then ["1"] else []) ++ (if s.dimmed then ["2"] else []) ++
    (s.colour.map Colour.code).toList

/-- The sequence that switches a style on. -/
def start (s : Style) : List Char :=
  ['\x1b', '['] ++ (String.intercalate ";" s.codes).toList ++ ['m']

/-- The sequence that switches styles off. -/
def reset : List Char := ['\x1b', '[', '0', 'm']

/-- Text with `start` behind each reset; `skip` characters of a reset are still to be copied. -/
def restart (start : List Char) : (skip : Nat) → List Char → List Char
  | _, [] => []
  | 0, c :: rest =>
    if reset.isPrefixOf (c :: rest) then c :: restart start 3 rest
    else c :: restart start 0 rest
  | 1, c :: rest => c :: (start ++ restart start 0 rest)
  | skip + 2, c :: rest => c :: restart start (skip + 1) rest

/-- Whether styles are on. Asking for them goes before forbidding them, and both before what the
output is; a value of zero stands for no. -/
def areOn (ask forbid allow : Option String) (isTerminal : Bool) : Bool :=
  if ask.any (· != "0") then true
  else if forbid.isSome then false
  else isTerminal && allow.all (· != "0")

/-- Text in a style, if styles are on. -/
def paint (on : Bool) (s : Style) (text : String) : String :=
  if on && !s.codes.isEmpty then
    String.ofList (s.start ++ restart s.start 0 text.toList ++ reset)
  else text

end Style

end ClientBoundary
