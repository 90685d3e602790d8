import SchemaModules.Warning

/-!
# Styled lines

On a terminal some pieces of a line are coloured. A styled piece stands between the code of its style
and the code that ends all styles; without colours it stands as it is.
-/

namespace SchemaModules.Cli

/-- A colour, perhaps with bold letters. -/
inductive Style
  /-- The rule of a warning. -/
  | boldYellow
  /-- The word before a failure. -/
  | boldRed
  /-- The name of a module. -/
  | boldWhite
  /-- The word before an orphaned file. -/
  | yellow
  /-- The tick of a success. -/
  | green
  /-- The module of an import. -/
  | cyan
  /-- The kind of a symbol. -/
  | grey
  deriving Repr, DecidableEq

/-- The number of a style in terminal codes. -/
def Style.code : Style → String
  | .boldYellow => "1;93"
  | .boldRed => "1;91"
  | .boldWhite => "1;97"
  | .yellow => "93"
  | .green => "92"
  | .cyan => "96"
  | .grey => "90"

/-- A piece of text in a style. -/
def paint (color : Bool) (style : Style) (text : String) : String :=
  if color then "\x1b[" ++ style.code ++ "m" ++ text ++ "\x1b[0m" else text

/-- The line for a warning. -/
def warningLine (color : Bool) (w : Warning) : String :=
  paint color .boldYellow "warning[" ++ paint color .boldYellow w.rule ++
    paint color .boldYellow "]:" ++ " " ++ w.message ++ "\n"

/-- The line for a failure. -/
def errorLine (color : Bool) (message : String) : String :=
  paint color .boldRed "error:" ++ " " ++ message ++ "\n"

end SchemaModules.Cli
