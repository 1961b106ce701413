import FormulaSheet.Character.Hexadecimal
import FormulaSheet.Error

/-!
# Reading tokens

`Lexed.ofText` cuts a text into tokens, each with the byte at which it starts.
Reading stops at the first place that begins no token; the tokens before it
are kept, because a parser may well give up before it gets there.

`Token.read` reads one token from a text that does not begin with a blank, and
says how many bytes it took.
-/

namespace FormulaSheet

/-- How many bytes a text takes. -/
def byteSize (cs : List Char) : Nat := cs.foldl (fun n c => n + c.utf8Size) 0

/-- A token and the byte at which it starts. -/
structure Lexeme where
  token : Token
  start : Nat

/-- A fault and the byte at which it is reported. -/
structure LexFault where
  position : Nat
  fault : ParseFault

/-- The fault as an error of the formula. -/
def LexFault.toError (f : LexFault) : FormulaError := .parse f.position f.fault

/-- A text cut into tokens: those before its end or its first fault, and the
size of the text or the fault. -/
structure Lexed where
  lexemes : List Lexeme
  ending : Except LexFault Nat

/-- One token read, with the byte and the characters after it, or a fault. -/
inductive Token.Reading where
  | token (t : Token) (next : Nat) (rest : List Char)
  | fault (f : LexFault)

/-- Whether names begin with `c`. -/
def isNameStart (c : Char) : Bool := c.isAlpha || c == '_'

/-- Whether names go on with `c`. -/
def isNamePart (c : Char) : Bool := c.isAlphanum || c == '_'

/-- The character that four characters after `\u` stand for: a number in
hexadecimal, which may begin with a plus sign. -/
def escapedCode? (a b c d : Char) : Option Char :=
  let code :=
    if a = '+' then Character.hexNumber? 0 [b, c, d] else Character.hexNumber? 0 [a, b, c, d]
  match code with
  | some n => if n.isValidChar then some (Char.ofNat n) else none
  | none => none

/-- The character that a backslash and `c` stand for. -/
def escapedChar (c : Char) : Char :=
  match c with
  | 'n' => '\n'
  | 'r' => '\r'
  | 't' => '\t'
  | 'b' => '\x08'
  | 'f' => '\x0c'
  | c => c

namespace Token

/-- Reads on in a quoted text that began at byte `start`, up to its closing
quote; `out` is the text so far in reverse. -/
def readQuoted (quote : Char) (start : Nat) (out : List Char) (position : Nat) :
    List Char → Reading
  | [] => .fault ⟨start, .unterminatedText⟩
  | c :: cs =>
    if c = quote then .token (.text (String.ofList out.reverse)) (position + c.utf8Size) cs
    else if c = '\\' then
      match cs with
      | [] => .fault ⟨start, .unterminatedText⟩
      | 'u' :: u :: v :: w :: x :: cs =>
        match escapedCode? u v w x with
        | some e => readQuoted quote start (e :: out) (position + 6) cs
        | none => .fault ⟨position + 2, .badEscape⟩
      | 'u' :: _ => .fault ⟨position + 2, .badEscape⟩
      | e :: cs => readQuoted quote start (escapedChar e :: out) (position + 1 + e.utf8Size) cs
    else readQuoted quote start (c :: out) (position + c.utf8Size) cs

/-- An exponent at the front of a text, if one stands there, and what follows
it.  Without digits there is none. -/
def takeExponent (cs : List Char) : List Char × List Char :=
  match cs with
  | e :: more =>
    if e = 'e' ∨ e = 'E' then
      let (sign, digits) := match more with
        | '+' :: ds => (['+'], ds)
        | '-' :: ds => (['-'], ds)
        | ds => ([], ds)
      if (digits.takeWhile Char.isDigit).isEmpty then ([], cs)
      else (e :: sign ++ digits.takeWhile Char.isDigit, digits.dropWhile Char.isDigit)
    else ([], cs)
  | [] => ([], cs)

/-- Reads a number: digits and points, then an exponent. -/
def readNumber (start : Nat) (cs : List Char) : Reading :=
  let isBody := fun c : Char => c.isDigit || c == '.'
  let body := cs.takeWhile isBody
  let (exponent, rest) := takeExponent (cs.dropWhile isBody)
  let text := body ++ exponent
  match Number.ofUnsigned? text with
  | some x => .token (.number x) (start + text.length) rest
  | none => .fault ⟨start, .badNumber (String.ofList text)⟩

/-- Reads a name. -/
def readName (start : Nat) (cs : List Char) : Reading :=
  let name := cs.takeWhile isNamePart
  .token (.name (String.ofList name)) (start + name.length) (cs.dropWhile isNamePart)

/-- Reads a symbol; `c` is the first character of the text, `cs` the others. -/
def readSymbol (start : Nat) (c : Char) (cs : List Char) : Reading :=
  let one (s : Symbol) : Reading := .token (.symbol s) (start + 1) cs
  match c, cs with
  | '(', _ => one .openParen
  | ')', _ => one .closeParen
  | '[', _ => one .openBracket
  | ']', _ => one .closeBracket
  | '\x7b', _ => one .openBrace
  | '\x7d', _ => one .closeBrace
  | ',', _ => one .comma
  | ';', _ => one .semicolon
  | ':', _ => one .colon
  | '?', _ => one .question
  | '+', _ => one .plus
  | '-', _ => one .minus
  | '*', _ => one .star
  | '/', _ => one .slash
  | '%', _ => one .percent
  | '=', '=' :: '=' :: cs => .token (.symbol .identical) (start + 3) cs
  | '=', '=' :: cs => .token (.symbol .equal) (start + 2) cs
  | '=', _ => .fault ⟨start, .singleEqual⟩
  | '!', '=' :: '=' :: cs => .token (.symbol .notIdentical) (start + 3) cs
  | '!', '=' :: cs => .token (.symbol .notEqual) (start + 2) cs
  | '!', _ => one .bang
  | '<', '=' :: cs => .token (.symbol .lessEqual) (start + 2) cs
  | '<', '>' :: cs => .token (.symbol .notEqual) (start + 2) cs
  | '<', _ => one .less
  | '>', '=' :: cs => .token (.symbol .greaterEqual) (start + 2) cs
  | '>', _ => one .greater
  | '&', '&' :: cs => .token (.symbol .both) (start + 2) cs
  | '&', _ => .fault ⟨start, .singleAmpersand⟩
  | '|', '|' :: cs => .token (.symbol .either) (start + 2) cs
  | '|', _ => .fault ⟨start, .singleBar⟩
  | c, _ => .fault ⟨start, .strayCharacter c⟩

/-- Reads the token that begins with `c` at byte `start`; `cs` is the text
after `c`. -/
def read (start : Nat) (c : Char) (cs : List Char) : Reading :=
  if c = '"' ∨ c = '\'' then readQuoted c start [] (start + 1) cs
  else if c.isDigit then readNumber start (c :: cs)
  else if c = '.' ∧ (cs.head?.any Char.isDigit) then readNumber start (c :: cs)
  else if isNameStart c then readName start (c :: cs)
  else readSymbol start c cs

end Token

namespace Lexed

/-- Reads tokens from byte `position` on; `out` holds those before it in
reverse.  Each step takes a character, so `room` for every character is
enough. -/
def readFrom : (room : Nat) → (out : List Lexeme) → (position : Nat) → List Char → Lexed
  | 0, out, position, _ => ⟨out.reverse, .ok position⟩
  | _ + 1, out, position, [] => ⟨out.reverse, .ok position⟩
  | room + 1, out, position, c :: cs =>
    if Character.isBlank c then readFrom room out (position + c.utf8Size) cs
    else
      match Token.read position c cs with
      | .token t next rest => readFrom room (⟨t, position⟩ :: out) next rest
      | .fault f => ⟨out.reverse, .error f⟩

/-- Cuts a text into tokens. -/
def ofText (cs : List Char) : Lexed := readFrom (cs.length + 1) [] 0 cs

/-- The tokens without their places. -/
def tokens (l : Lexed) : List Token := l.lexemes.map (·.token)

end Lexed

end FormulaSheet
