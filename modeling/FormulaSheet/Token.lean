import FormulaSheet.Number.Text
import FormulaSheet.Character.Visible

/-!
# Tokens

The words of the formula language: names, numbers, quoted texts and the
symbols for operators and brackets.  Diagnostics name a token by
`Token.debugText`.
-/

namespace FormulaSheet

/-- Operators, brackets and separators. -/
inductive Symbol where
  | plus | minus | star | slash | percent | bang
  | equal | notEqual | identical | notIdentical
  | less | lessEqual | greater | greaterEqual
  | both | either | question | colon
  | openParen | closeParen | openBracket | closeBracket | openBrace | closeBrace
  | comma | semicolon
deriving DecidableEq

/-- The name of a symbol in diagnostics. -/
def Symbol.debugName : Symbol → String
  | plus => "Plus"
  | minus => "Minus"
  | star => "Star"
  | slash => "Slash"
  | percent => "Percent"
  | bang => "Bang"
  | equal => "EqEq"
  | notEqual => "NotEq"
  | identical => "StrictEq"
  | notIdentical => "StrictNotEq"
  | less => "Lt"
  | lessEqual => "Le"
  | greater => "Gt"
  | greaterEqual => "Ge"
  | both => "AndAnd"
  | either => "OrOr"
  | question => "Question"
  | colon => "Colon"
  | openParen => "LParen"
  | closeParen => "RParen"
  | openBracket => "LBracket"
  | closeBracket => "RBracket"
  | openBrace => "LBrace"
  | closeBrace => "RBrace"
  | comma => "Comma"
  | semicolon => "Semicolon"

/-- A token of a formula. -/
inductive Token where
  | name (s : String)
  | number (x : Float)
  | text (s : String)
  | symbol (s : Symbol)
deriving DecidableEq

/-- The token as diagnostics name it. -/
def Token.debugText : Token → String
  | name s => "Ident(" ++ quoted s ++ ")"
  | number x => "Num(" ++ String.ofList (Number.debugText x) ++ ")"
  | text s => "Str(" ++ quoted s ++ ")"
  | symbol s => s.debugName
where
  quoted (s : String) : String :=
    "\"" ++ String.ofList (s.toList.flatMap Character.quoted) ++ "\""

end FormulaSheet
