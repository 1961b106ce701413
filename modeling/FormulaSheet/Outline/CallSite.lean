import FormulaSheet.Outline

/-!
# The innermost call

Calls are resolved one at a time, and the one to resolve next is the first
that contains no other: the first call of the text, or the first call inside
of it, and so on.  `Outline.innermost` cuts the outline at that call.  It
fails where it meets a call whose parenthesis never closes, which can only be
the first call of the text.
-/

namespace FormulaSheet

/-- A call cut out of an outline: what is before the name, the name, the
blanks up to the parenthesis, what is between the parentheses, and what is
after them. -/
structure CallSite where
  before : Outline
  name : List Char
  gap : Outline
  inner : Outline
  after : Outline

namespace CallSite

/-- The byte at which the name starts. -/
def start (c : CallSite) : Nat := byteSize (Outline.text c.before)

/-- The byte of the opening parenthesis. -/
def opening (c : CallSite) : Nat := c.start + byteSize c.name + byteSize (Outline.text c.gap)

/-- The byte of the closing parenthesis. -/
def closing (c : CallSite) : Nat := c.opening + 1 + byteSize (Outline.text c.inner)

/-- The call inside the parentheses of another, seen from outside. -/
def within (outer inner : CallSite) : CallSite where
  before :=
    outer.before ++ .callee outer.name :: outer.gap ++ .plain (.mark '(') :: inner.before
  name := inner.name
  gap := inner.gap
  inner := inner.inner
  after := inner.after ++ .plain (.mark ')') :: outer.after

/-- The text with the call replaced by `replacement`. -/
def replace (c : CallSite) (replacement : List Char) : List Char :=
  Outline.text c.before ++ replacement ++ Outline.text c.after

end CallSite

namespace Outline

/-- An opening parenthesis. -/
def openParen : Piece := .plain (.mark '(')

/-- A closing parenthesis. -/
def closeParen : Piece := .plain (.mark ')')

/-- The first call: what is before its name in reverse, the name, and what is
after the name. -/
def firstCall? (before : Outline) : Outline → Option (Outline × List Char × Outline)
  | [] => none
  | .callee w :: ps => some (before, w, ps)
  | p :: ps => firstCall? (p :: before) ps

/-- Cuts at the parenthesis that closes the one before; `depth` more are open
and `inner` is what came before in reverse. -/
def close? (depth : Nat) (inner : Outline) : Outline → Option (Outline × Outline)
  | [] => none
  | p :: ps =>
    if p = openParen then close? (depth + 1) (p :: inner) ps
    else if p = closeParen then
      match depth with
      | 0 => some (inner.reverse, ps)
      | depth + 1 => close? depth (p :: inner) ps
    else close? depth (p :: inner) ps

/-- A call before it is known to close: what is before the name, the name, the
blanks up to the parenthesis, and what is after the parenthesis. -/
def openCall? (o : Outline) : Option (Outline × List Char × Outline × Outline) :=
  match firstCall? [] o with
  | none => none
  | some (before, name, rest) =>
    match rest.dropWhile (· != openParen) with
    | [] => none
    | _ :: inner => some (before.reverse, name, rest.takeWhile (· != openParen), inner)

/-- The innermost call, where calls are nested at most `room` deep. -/
def innermostFrom : (room : Nat) → Outline → Except FormulaError (Option CallSite)
  | 0, _ => .ok none
  | room + 1, o =>
    match openCall? o with
    | none => .ok none
    | some (before, name, gap, rest) =>
      match close? 0 [] rest with
      | none =>
        let position := byteSize (text before) + byteSize name + byteSize (text gap)
        .error (.parse position (.unclosedCall (String.ofList name)))
      | some (inner, after) =>
        let site : CallSite := ⟨before, name, gap, inner, after⟩
        match innermostFrom room inner with
        | .ok (some deeper) => .ok (some (site.within deeper))
        | _ => .ok (some site)

/-- The first call that contains no other. -/
def innermost (o : Outline) : Except FormulaError (Option CallSite) :=
  innermostFrom (o.length + 1) o

end Outline

end FormulaSheet
