import FormulaSheet.Character.Blank
import FormulaSheet.Character.Word
import FormulaSheet.Expr
import FormulaSheet.Token.Reader

/-!
# The outline of a formula's text

Values take the place of names and calls in a formula's text before what is
left of it is parsed, so the text is looked at in outline: which parts of it
are words, which characters stand between them, and what is hidden inside
quotes.  Nothing in quotes is ever taken for a name, a bracket or a comma.

The outline has two layers.  `Item.ofText` cuts a text into words and single
characters, hidden ones told apart; `Piece.ofItems` then says of each word
whether it refers to a variable, is called as a function, or is neither.
Nothing is lost in either step: the texts of the items, and those of the
pieces, are the text again.

An identifier is a word of ASCII letters, digits and underscores that does not
begin with a digit and does not follow a point.
-/

namespace FormulaSheet

/-- Where a character stands: outside of quotes, inside of them, or inside of
them after a backslash. -/
inductive Quoting where
  | code
  | inside (quote : Char)
  | escaped (quote : Char)
deriving DecidableEq

namespace Quoting

/-- Where the character after `c` stands. -/
def after : Quoting → Char → Quoting
  | code, c => if c = '"' ∨ c = '\'' then inside c else code
  | inside q, c => if c = '\\' then escaped q else if c = q then code else inside q
  | escaped q, _ => inside q

/-- Whether `c` is hidden where it stands; quotes that open or close are
not. -/
def hides : Quoting → Char → Bool
  | code, _ => false
  | inside q, c => c = '\\' || c != q
  | escaped _, _ => true

end Quoting

/-- A part of a text: a longest run of word characters, another character, or
a character inside quotes. -/
inductive Item where
  | word (w : List Char)
  | mark (c : Char)
  | hidden (c : Char)
deriving DecidableEq

namespace Item

/-- The text of an item. -/
def text : Item → List Char
  | word w => w
  | mark c => [c]
  | hidden c => [c]

/-- The item with hidden characters blanked out, each byte by a blank. -/
def mask : Item → List Char
  | word w => w
  | mark c => [c]
  | hidden c => List.replicate c.utf8Size ' '

/-- A word in reverse, if there is one, before items in reverse. -/
def flush (word : List Char) (out : List Item) : List Item :=
  if word.isEmpty then out else .word word.reverse :: out

/-- Cuts on from a place in quotes or outside; `word` is the word that is
being read and `out` the items before it, both in reverse. -/
def readFrom (place : Quoting) (word : List Char) (out : List Item) : List Char → List Item
  | [] => (flush word out).reverse
  | c :: cs =>
    if place.hides c then readFrom (place.after c) [] (.hidden c :: flush word out) cs
    else if Character.isWord c then readFrom (place.after c) (c :: word) out cs
    else readFrom (place.after c) [] (.mark c :: flush word out) cs

/-- Cuts a text into items. -/
def ofText (cs : List Char) : List Item := readFrom .code [] [] cs

end Item

/-- A text with hidden characters blanked out, each byte by a blank. -/
def mask (cs : List Char) : List Char := (Item.ofText cs).flatMap Item.mask

/-- Whether a word is made like an identifier. -/
def isIdentifier : List Char → Bool
  | [] => false
  | c :: cs => isNameStart c && cs.all isNamePart

/-- A part of a text in outline: an identifier that refers to a variable, one
that is called as a function, or any other item.  Reserved words are neither
references nor calls. -/
inductive Piece where
  | reference (name : List Char)
  | callee (name : List Char)
  | plain (item : Item)
deriving DecidableEq

namespace Piece

/-- The text of a piece. -/
def text : Piece → List Char
  | reference w => w
  | callee w => w
  | plain i => i.text

/-- Whether an item is a blank between others. -/
def isGap : Item → Bool
  | .mark c => Character.isBlank c
  | _ => false

/-- Whether a parenthesis opens next. -/
def opens (items : List Item) : Bool := (items.dropWhile isGap).head? == some (.mark '(')

/-- What a word is, given whether it follows a point and what comes next. -/
def ofWord (afterPoint : Bool) (w : List Char) (next : List Item) : Piece :=
  if afterPoint || !isIdentifier w || isReserved (String.ofList w) then .plain (.word w)
  else if opens next then .callee w
  else .reference w

/-- Sorts the words among items; `out` holds the pieces before in reverse. -/
def readFrom (afterPoint : Bool) (out : List Piece) : List Item → List Piece
  | [] => out.reverse
  | .word w :: items => readFrom false (ofWord afterPoint w items :: out) items
  | .mark c :: items => readFrom (c == '.') (.plain (.mark c) :: out) items
  | .hidden c :: items => readFrom false (.plain (.hidden c) :: out) items

/-- Sorts the words among items. -/
def ofItems (items : List Item) : List Piece := readFrom false [] items

/-- The name that a piece refers to. -/
def reference? : Piece → Option String
  | reference w => some (String.ofList w)
  | _ => none

/-- The name that a piece calls. -/
def callee? : Piece → Option String
  | callee w => some (String.ofList w)
  | _ => none

/-- Whether a piece is an opening parenthesis or an identifier that is not
reserved. -/
def bounds : Piece → Bool
  | plain i => i == .mark '('
  | _ => true

end Piece

/-- A text in outline. -/
abbrev Outline := List Piece

namespace Outline

/-- The outline of a text. -/
def ofText (cs : List Char) : Outline := Piece.ofItems (Item.ofText cs)

/-- The text that an outline is of. -/
def text (o : Outline) : List Char := o.flatMap Piece.text

/-- Every name that is referred to, as often as it is. -/
def mentions (o : Outline) : List String := o.filterMap Piece.reference?

/-- The names that are called, in order. -/
def callees (o : Outline) : List String := o.filterMap Piece.callee?

/-- Appends a name in reverse to names that do not hold it. -/
def addName (names : List String) (name : String) : List String :=
  if names.contains name then names else name :: names

/-- The names that are referred to, in the order in which they first occur. -/
def references (o : Outline) : List String := (o.mentions.foldl addName []).reverse

end Outline

end FormulaSheet
