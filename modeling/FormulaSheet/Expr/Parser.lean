import FormulaSheet.Expr
import FormulaSheet.Token.Reader

/-!
# Parsing formulas

Recursive descent over tokens.  From loosest to tightest the levels are the
conditional `?:`, the six levels of infix operators of `infixOp?`, the sign
operators, and primaries; infix operators associate to the left and the
conditional to the right.  One semicolon may end a formula.

Parsing knows neither bytes nor text: `parseTokens` answers with a tree or
with the tokens at which it gave up.  `parse` reads the text and puts the two
together.  A text that stops being tokens is refused at that place, unless the
parser gives up before it has taken every token that was read.

Each step of the descent uses up one unit of `room`; between two tokens it
takes fewer than sixteen steps, which is what `parseTokens` provides for.
-/

namespace FormulaSheet

/-- What the parser was looking for where it gave up. -/
inductive Wanted where
  | item (description : String)
  | objectKey

/-- The tokens at which the parser gave up, and what it was looking for. -/
structure Stuck where
  rest : List Token
  wanted : Wanted

/-- What the parser makes of tokens: something and the tokens after it. -/
abbrev Parsed (α : Type) := Except Stuck (α × List Token)

/-- The number of levels of infix operators. -/
def infixLevels : Nat := 6

/-- The infix operator that a symbol is on a level, as it builds a tree. -/
def infixOp? : (level : Nat) → Symbol → Option (Expr → Expr → Expr)
  | 0, .either => some .or
  | 1, .both => some .and
  | 2, .equal => some (.binary .equal)
  | 2, .notEqual => some (.binary .notEqual)
  | 2, .identical => some (.binary .identical)
  | 2, .notIdentical => some (.binary .notIdentical)
  | 3, .less => some (.binary .less)
  | 3, .lessEqual => some (.binary .lessEqual)
  | 3, .greater => some (.binary .greater)
  | 3, .greaterEqual => some (.binary .greaterEqual)
  | 4, .plus => some (.binary .add)
  | 4, .minus => some (.binary .sub)
  | 5, .star => some (.binary .mul)
  | 5, .slash => some (.binary .div)
  | 5, .percent => some (.binary .rem)
  | _, _ => none

/-- The operator that a symbol is before an operand. -/
def prefixOp? : Symbol → Option UnaryOp
  | .minus => some .neg
  | .plus => some .plus
  | .bang => some .not
  | _ => none

/-- What a name stands for where it is not called. -/
def nameExpr (s : String) : Expr :=
  match reservedValue? s with
  | some v => .literal v
  | none => .name s

/-- The key that a token is in an object. -/
def keyOf? : Token → Option String
  | .text s => some s
  | .name s => some s
  | .number x => some (String.ofList (Number.text x))
  | .symbol _ => none

namespace Parser

/-- Gives up for want of something described in words. -/
def stuck {α : Type} (rest : List Token) (description : String) : Parsed α :=
  .error ⟨rest, .item description⟩

/-- Passes over the symbol `s`. -/
def expect (s : Symbol) (description : String) : List Token → Except Stuck (List Token)
  | .symbol t :: ts => if t = s then .ok ts else .error ⟨.symbol t :: ts, .item description⟩
  | ts => .error ⟨ts, .item description⟩

mutual

/-- A conditional or what is above it. -/
def ternary : (room : Nat) → List Token → Parsed Expr
  | 0, ts => stuck ts "a value"
  | room + 1, ts =>
    match level room 0 ts with
    | .error e => .error e
    | .ok (condition, .symbol .question :: ts) =>
      match ternary room ts with
      | .error e => .error e
      | .ok (yes, ts) =>
        match expect .colon "':'" ts with
        | .error e => .error e
        | .ok ts =>
          match ternary room ts with
          | .error e => .error e
          | .ok (no, ts) => .ok (.conditional condition yes no, ts)
    | .ok r => .ok r

/-- Operands of the level above with infix operators of level `k` between
them. -/
def level : (room : Nat) → (k : Nat) → List Token → Parsed Expr
  | 0, _, ts => stuck ts "a value"
  | room + 1, k, ts =>
    if k < infixLevels then
      match level room (k + 1) ts with
      | .error e => .error e
      | .ok (left, ts) => levelMore room k left ts
    else signed room ts

/-- Goes on after the operand `left` on level `k`. -/
def levelMore : (room : Nat) → (k : Nat) → (left : Expr) → List Token → Parsed Expr
  | 0, _, _, ts => stuck ts "a value"
  | room + 1, k, left, ts =>
    match ts with
    | .symbol s :: rest =>
      match infixOp? k s with
      | none => .ok (left, ts)
      | some build =>
        match level room (k + 1) rest with
        | .error e => .error e
        | .ok (right, ts) => levelMore room k (build left right) ts
    | _ => .ok (left, ts)

/-- A primary with any number of sign operators before it. -/
def signed : (room : Nat) → List Token → Parsed Expr
  | 0, ts => stuck ts "a value"
  | room + 1, ts =>
    match ts with
    | .symbol s :: rest =>
      match prefixOp? s with
      | some op =>
        match signed room rest with
        | .error e => .error e
        | .ok (operand, ts) => .ok (.unary op operand, ts)
      | none => primary room ts
    | _ => primary room ts

/-- A literal, a name, a call, or something in brackets. -/
def primary : (room : Nat) → List Token → Parsed Expr
  | 0, ts => stuck ts "a value"
  | room + 1, ts =>
    match ts with
    | .number x :: ts => .ok (.literal (.number (.of x)), ts)
    | .text s :: ts => .ok (.literal (.text s), ts)
    | .name s :: .symbol .openParen :: ts =>
      match list room .closeParen "')'" ts with
      | .error e => .error e
      | .ok (arguments, ts) => .ok (.call s arguments, ts)
    | .name s :: ts => .ok (nameExpr s, ts)
    | .symbol .openParen :: ts =>
      match ternary room ts with
      | .error e => .error e
      | .ok (e, ts) =>
        match expect .closeParen "')'" ts with
        | .error e => .error e
        | .ok ts => .ok (e, ts)
    | .symbol .openBracket :: ts =>
      match list room .closeBracket "']'" ts with
      | .error e => .error e
      | .ok (items, ts) => .ok (.array items, ts)
    | .symbol .openBrace :: ts =>
      match fields room ts with
      | .error e => .error e
      | .ok (fields, ts) => .ok (.object fields, ts)
    | ts => stuck ts "a value"

/-- Expressions with commas between them, up to the symbol `close`. -/
def list : (room : Nat) → (close : Symbol) → (description : String) → List Token →
    Parsed (List Expr)
  | 0, _, _, ts => stuck ts "a value"
  | room + 1, close, description, ts =>
    match ts with
    | .symbol s :: rest =>
      if s = close then .ok ([], rest) else listMore room close description [] ts
    | _ => listMore room close description [] ts

/-- One more expression of a list; `out` holds those before it in reverse. -/
def listMore : (room : Nat) → (close : Symbol) → (description : String) →
    (out : List Expr) → List Token → Parsed (List Expr)
  | 0, _, _, _, ts => stuck ts "a value"
  | room + 1, close, description, out, ts =>
    match ternary room ts with
    | .error e => .error e
    | .ok (e, .symbol .comma :: ts) => listMore room close description (e :: out) ts
    | .ok (e, ts) =>
      match expect close description ts with
      | .error e => .error e
      | .ok ts => .ok ((e :: out).reverse, ts)

/-- Fields with commas between them, up to the closing brace. -/
def fields : (room : Nat) → List Token → Parsed (List (String × Expr))
  | 0, ts => stuck ts "a value"
  | _ + 1, .symbol .closeBrace :: ts => .ok ([], ts)
  | room + 1, ts => fieldsMore room [] ts

/-- One more field; `out` holds those before it in reverse. -/
def fieldsMore : (room : Nat) → (out : List (String × Expr)) → List Token →
    Parsed (List (String × Expr))
  | 0, _, ts => stuck ts "a value"
  | _ + 1, _, [] => .error ⟨[], .objectKey⟩
  | room + 1, out, t :: ts =>
    match keyOf? t with
    | none => .error ⟨ts, .objectKey⟩
    | some key =>
      match expect .colon "':'" ts with
      | .error e => .error e
      | .ok ts =>
        match ternary room ts with
        | .error e => .error e
        | .ok (e, .symbol .comma :: ts) => fieldsMore room ((key, e) :: out) ts
        | .ok (e, ts) =>
          match expect .closeBrace "'\x7d'" ts with
          | .error e => .error e
          | .ok ts => .ok (((key, e) :: out).reverse, ts)

end

/-- A whole formula: an expression, perhaps a semicolon, and nothing else. -/
def parseTokens (ts : List Token) : Except Stuck Expr :=
  match ternary (16 * (ts.length + 1)) ts with
  | .error e => .error e
  | .ok (e, ts) =>
    let rest := match ts with
      | .symbol .semicolon :: ts => ts
      | ts => ts
    match rest with
    | [] => .ok e
    | rest => .error ⟨rest, .item "end of expression"⟩

/-- The error of a parser that is stuck among the tokens of a text. -/
def stuckError (l : Lexed) (s : Stuck) : FormulaError :=
  let here := (l.lexemes.drop (l.lexemes.length - s.rest.length)).head?
  match here, l.ending with
  | none, .error f => f.toError
  | _, ending =>
    let position := match here, ending with
      | some lexeme, _ => lexeme.start
      | none, .ok size => size
      | none, .error f => f.position
    match s.wanted with
    | .objectKey => .parse position .badKey
    | .item description => .parse position (.unexpected description (here.map (·.token)))

end Parser

namespace Expr

/-- Parses a formula. -/
def ofChars (cs : List Char) : Except FormulaError Expr :=
  let l := Lexed.ofText cs
  match Parser.parseTokens l.tokens with
  | .error s => .error (Parser.stuckError l s)
  | .ok e =>
    match l.ending with
    | .ok _ => .ok e
    | .error f => .error f.toError

/-- Parses a formula. -/
def parse (s : String) : Except FormulaError Expr := ofChars s.toList

end Expr

end FormulaSheet
