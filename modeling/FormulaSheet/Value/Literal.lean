import FormulaSheet.Character.Hexadecimal
import FormulaSheet.Value

/-!
# Literals

The literal of a value is formula text that reads back as the value.  Text is
quoted, with a backslash before quotes and backslashes and escapes for control
characters; a negative number is an application of minus, so next to an
operator it goes in parentheses (`Value.splice`).

Texts are produced from left to right onto a reversed list of the characters
before them, so long arrays take no stack.  `Value.literal` and
`Value.toText` read the result.
-/

namespace FormulaSheet

/-- One character of quoted text. -/
def escapeChar (c : Char) : List Char :=
  match c with
  | '"' => ['\\', '"']
  | '\\' => ['\\', '\\']
  | '\n' => ['\\', 'n']
  | '\r' => ['\\', 'r']
  | '\t' => ['\\', 't']
  | c => if Character.isControl c then '\\' :: 'u' :: Character.fourHex c.toNat else [c]

/-- Text between double quotes. -/
def quote (cs : List Char) : List Char := '"' :: cs.flatMap escapeChar ++ ['"']

namespace Value

mutual

/-- The literal of a value, reversed, before `out`. -/
def literalOnto (out : List Char) : Value → List Char
  | null => "null".toList.reverseAux out
  | bool b => (boolText b).toList.reverseAux out
  | number x => (Number.text x.float).reverseAux out
  | text s => (quote s.toList).reverseAux out
  | array vs => ']' :: itemLiteralsOnto ('[' :: out) vs
  | object fs => '\x7d' :: fieldLiteralsOnto ('\x7b' :: out) fs

/-- The literals of items, with a comma and a blank between them. -/
def itemLiteralsOnto (out : List Char) : List Value → List Char
  | [] => out
  | v :: vs => moreItemLiteralsOnto (literalOnto out v) vs

/-- The literals of items, with a comma and a blank before each. -/
def moreItemLiteralsOnto (out : List Char) : List Value → List Char
  | [] => out
  | v :: vs => moreItemLiteralsOnto (literalOnto (' ' :: ',' :: out) v) vs

/-- The literals of fields, with a comma and a blank between them. -/
def fieldLiteralsOnto (out : List Char) : List (String × Value) → List Char
  | [] => out
  | (k, v) :: fs =>
    moreFieldLiteralsOnto (literalOnto (' ' :: ':' :: (quote k.toList).reverseAux out) v) fs

/-- The literals of fields, with a comma and a blank before each. -/
def moreFieldLiteralsOnto (out : List Char) : List (String × Value) → List Char
  | [] => out
  | (k, v) :: fs =>
    moreFieldLiteralsOnto
      (literalOnto (' ' :: ':' :: (quote k.toList).reverseAux (' ' :: ',' :: out)) v) fs

end

/-- Formula text that reads back as the value. -/
def literal (v : Value) : List Char := (literalOnto [] v).reverse

/-- The literal as it is put next to operators: in parentheses where it
begins with a minus sign. -/
def splice (v : Value) : List Char :=
  match v.literal with
  | '-' :: cs => '(' :: '-' :: cs ++ [')']
  | cs => cs

mutual

/-- The text of a value, reversed, before `out`. -/
def textOnto (out : List Char) : Value → List Char
  | null => "null".toList.reverseAux out
  | bool b => (boolText b).toList.reverseAux out
  | number x => (Number.text x.float).reverseAux out
  | text s => s.toList.reverseAux out
  | array vs => itemTextsOnto out vs
  | object fs => literalOnto out (.object fs)

/-- The texts of items, with a comma between them. -/
def itemTextsOnto (out : List Char) : List Value → List Char
  | [] => out
  | null :: vs => moreItemTextsOnto out vs
  | v :: vs => moreItemTextsOnto (textOnto out v) vs

/-- The texts of items, with a comma before each. -/
def moreItemTextsOnto (out : List Char) : List Value → List Char
  | [] => out
  | null :: vs => moreItemTextsOnto (',' :: out) vs
  | v :: vs => moreItemTextsOnto (textOnto (',' :: out) v) vs

end

/-- The text that a value is taken for.  The items of an array stand between
commas, null as nothing; an object is written as its literal. -/
def toText (v : Value) : String := String.ofList (textOnto [] v).reverse

/-- The text of an item among others: nothing for null. -/
def itemText : Value → String
  | null => ""
  | v => v.toText

end Value

end FormulaSheet
