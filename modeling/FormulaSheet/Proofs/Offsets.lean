import FormulaSheet.Proofs.Blanking

/-!
# Places in a masked text

Names, commas and parentheses are found in the mask of a text, which has no
quoted ones, and the text itself is cut where they are found.  A mask has a
blank for each byte that is hidden, so it is made of other characters than
the text, and a place in it need not be one between two characters of the
text.  The places where the text is cut are, and what is cut out is what the
outline of the text says.

* `slice?_eq_some_iff` — cutting a text between characters;
* `slice?_of_mem_identifiersIn` — the identifiers;
* `substituteAt?_eq` — substituted variables;
* `splitAt?_eq` — arguments;
* `Outline.innermost_ofMasked` — the innermost call;
* `mask_faithful` — all that a mask is used for.
-/

namespace FormulaSheet

/-! ## Cutting at bytes -/

/-- The text between two bytes, if characters begin at both. -/
def slice? (text : List Char) (start stop : Nat) : Option (List Char) :=
  (cut? stop text).bind fun p => (cut? start p.1).map Prod.snd

/-- Both places of a slice are between two characters. -/
theorem slice?_eq_some_iff {text b : List Char} {start stop : Nat} :
    slice? text start stop = some b ↔
      ∃ a c, text = a ++ (b ++ c) ∧ byteSize a = start ∧ byteSize (a ++ b) = stop := by
  constructor
  · intro h
    obtain ⟨⟨front, c⟩, cut, h⟩ := Option.bind_eq_some_iff.mp h
    obtain ⟨⟨a, b'⟩, cut', rfl⟩ := Option.map_eq_some_iff.mp h
    obtain ⟨rfl, rfl⟩ := cut?_eq_some_iff.mp cut
    obtain ⟨rfl, rfl⟩ := cut?_eq_some_iff.mp cut'
    exact ⟨a, c, List.append_assoc _ _ _, rfl, rfl⟩
  · rintro ⟨a, c, rfl, rfl, rfl⟩
    rw [slice?, ← List.append_assoc, cut?_append, Option.bind_some, cut?_append]
    rfl

/-- What stands between two offsets is cut out. -/
theorem slice?_between (a b c : List Char) :
    slice? (a ++ (b ++ c)) (byteSize a) (byteSize (a ++ b)) = some b :=
  slice?_eq_some_iff.mpr ⟨a, c, rfl, rfl, rfl⟩

/-- So is what stands at the end. -/
theorem slice?_behind (a b : List Char) :
    slice? (a ++ b) (byteSize a) (byteSize (a ++ b)) = some b := by
  have whole := slice?_between a b []
  rwa [List.append_nil] at whole

/-! ## Identifiers -/

/-- An identifier outside of quotes: its name, the bytes at which it starts and
ends, and whether it is called. -/
structure Identifier where
  name : List Char
  start : Nat
  stop : Nat
  called : Bool

namespace Item

/-- The identifiers among items that begin at the byte `position`. -/
def identifiersFrom (position : Nat) (afterPoint : Bool) : List Item → List Identifier
  | [] => []
  | .word w :: is =>
    let rest := identifiersFrom (position + byteSize w) false is
    if afterPoint || !isIdentifier w then rest
    else ⟨w, position, position + byteSize w, Piece.opens is⟩ :: rest
  | .mark c :: is => identifiersFrom (position + byteSize [c]) (c == '.') is
  | .hidden c :: is => identifiersFrom (position + byteSize [c]) false is

/-- The identifiers of a mask are those of its text. -/
theorem identifiersFrom_flatMap_blanked {place : Quoting} {is : List Item}
    (h : Fitting place is) (position : Nat) (afterPoint : Bool) :
    identifiersFrom position afterPoint (is.flatMap blanked) =
      identifiersFrom position afterPoint is := by
  have blanks : ∀ (n position : Nat) (is : List Item),
      identifiersFrom position false (List.replicate n (.mark ' ') ++ is) =
        identifiersFrom (position + n) false is := by
    intro n
    induction n with
    | zero => exact fun _ _ => rfl
    | succ n ih =>
        intro position is
        rw [List.replicate_succ, List.cons_append]
        exact (ih (position + 1) is).trans (by rw [Nat.add_assoc, Nat.add_comm 1])
  induction is generalizing place position afterPoint with
  | nil => rfl
  | cons i is ih =>
      obtain ⟨hi, -, rest⟩ := h
      rw [List.flatMap_cons]
      cases i with
      | word w =>
          rw [hi.afterAll_word] at rest
          simp only [blanked, List.singleton_append, identifiersFrom, ih rest,
            opens_flatMap_blanked rest]
      | mark c => exact ih rest _ _
      | hidden c =>
          obtain ⟨n, hn⟩ := exists_blanked_hidden c
          have size : 1 + n = byteSize [c] := by
            have same := congrArg List.length hn
            simp only [blanked, List.length_replicate, List.length_cons] at same
            simp [byteSize, same, Nat.add_comm]
          rw [hn, List.cons_append, identifiersFrom, identifiersFrom, ← ih rest, ← size,
            ← Nat.add_assoc]
          exact blanks n (position + 1) _

/-- An identifier is the text between its places. -/
theorem slice?_of_mem_identifiersFrom {is : List Item} (front : List Char) {afterPoint : Bool}
    {i : Identifier} (h : i ∈ identifiersFrom (byteSize front) afterPoint is) :
    slice? (front ++ is.flatMap text) i.start i.stop = some i.name := by
  induction is generalizing front afterPoint with
  | nil => cases h
  | cons j is ih =>
      have later : i ∈ identifiersFrom (byteSize front + byteSize j.text) j.isPoint is →
          slice? (front ++ (j :: is).flatMap text) i.start i.stop = some i.name := by
        intro h
        rw [← byteSize_append] at h
        rw [List.flatMap_cons, ← List.append_assoc]
        exact ih _ h
      cases j with
      | word w =>
          rw [identifiersFrom] at h
          split at h
          · exact later h
          · rcases List.mem_cons.mp h with rfl | h
            · rw [← byteSize_append]
              exact slice?_between front w _
            · exact later h
      | mark c => exact later h
      | hidden c => exact later h

end Item

/-- The identifiers in a masked text. -/
def identifiersIn (masked : List Char) : List Identifier :=
  Item.identifiersFrom 0 false (Item.ofMasked masked)

/-- The identifiers of a masked text are those outside of quotes. -/
theorem identifiersIn_mask (text : List Char) :
    identifiersIn (mask text) = Item.identifiersFrom 0 false (Item.ofText text) := by
  rw [identifiersIn, Item.ofMasked_mask]
  exact Item.identifiersFrom_flatMap_blanked (Item.fitting_ofText text) 0 false

/-- **What is found in the mask as an identifier is that identifier, in the mask
and in the text.** -/
theorem slice?_of_mem_identifiersIn {text : List Char} {i : Identifier}
    (h : i ∈ identifiersIn (mask text)) :
    slice? (mask text) i.start i.stop = some i.name ∧
      slice? text i.start i.stop = some i.name := by
  have masked := Item.slice?_of_mem_identifiersFrom [] h
  rw [identifiersIn_mask] at h
  have here := Item.slice?_of_mem_identifiersFrom [] h
  rw [List.nil_append, Item.flatMap_text_ofMasked] at masked
  rw [List.nil_append, Item.flatMap_text_ofText] at here
  exact ⟨masked, here⟩

/-! ## Substituted variables -/

section

variable {m : Type → Type} [Monad m] (lookup : String → m (Option Value))

/-- Substitutes at identifiers; `out` stands for the text up to the byte `last`,
`names` are the names substituted so far in reverse. -/
def substituteAtFrom? (text : List Char) (last : Nat) (out : List Char) (names : List String) :
    List Identifier → m (Option (List Char × List String))
  | [] => pure ((slice? text last (byteSize text)).map fun s => (out ++ s, names.reverse))
  | i :: is =>
    if i.called || isReserved (String.ofList i.name) then
      substituteAtFrom? text last out names is
    else do
      match ← lookup (String.ofList i.name) with
      | none => substituteAtFrom? text last out names is
      | some v =>
        match slice? text last i.start with
        | some s =>
          substituteAtFrom? text i.stop (out ++ s ++ v.splice)
            (Outline.addName names (String.ofList i.name)) is
        | none => pure none

/-- Substitutes variables in a text at the identifiers of its mask. -/
def substituteAt? (text : List Char) : m (Option (List Char × List String)) :=
  substituteAtFrom? lookup text 0 [] [] (identifiersIn (mask text))

variable [LawfulMonad m]

/-- To substitute at offsets in the text is to substitute in its outline. -/
theorem substituteAtFrom?_eq (items : List Item) (done gap out : List Char)
    (names : List String) (afterPoint : Bool) :
    substituteAtFrom? lookup (done ++ (gap ++ items.flatMap Item.text)) (byteSize done) out names
        (Item.identifiersFrom (byteSize (done ++ gap)) afterPoint items) =
      some <$> Outline.substituteFrom lookup (out ++ gap).reverse names
        (Piece.readFrom afterPoint [] items) := by
  induction items generalizing done gap out names afterPoint with
  | nil =>
      rw [List.flatMap_nil, List.append_nil, Item.identifiersFrom, substituteAtFrom?,
        slice?_behind, Piece.readFrom, List.reverse_nil, Outline.substituteFrom, map_pure,
        List.reverse_reverse]
      rfl
  | cons i items ih =>
      -- what stays as it is becomes a part of the gap
      have keep : ∀ afterPoint, substituteAtFrom? lookup
          (done ++ (gap ++ (i :: items).flatMap Item.text)) (byteSize done) out names
            (Item.identifiersFrom (byteSize (done ++ gap) + byteSize i.text) afterPoint items) =
          some <$> Outline.substituteFrom lookup (i.text.reverseAux (out ++ gap).reverse) names
            (Piece.readFrom afterPoint [] items) := by
        intro afterPoint
        have whole : done ++ (gap ++ (i :: items).flatMap Item.text) =
            done ++ (gap ++ i.text ++ items.flatMap Item.text) := by simp
        have next : byteSize (done ++ gap) + byteSize i.text =
            byteSize (done ++ (gap ++ i.text)) := by
          rw [← byteSize_append, List.append_assoc]
        have longer : i.text.reverseAux (out ++ gap).reverse =
            (out ++ (gap ++ i.text)).reverse := by
          rw [List.reverseAux_eq, ← List.reverse_append, List.append_assoc]
        rw [whole, next, longer]
        exact ih done (gap ++ i.text) out names afterPoint
      cases i with
      | mark c =>
          rw [Piece.readFrom_mark]
          exact keep _
      | hidden c =>
          rw [Piece.readFrom_hidden]
          exact keep _
      | word w =>
          rw [Piece.readFrom_word, Piece.ofWord, Item.identifiersFrom]
          cases apart : afterPoint || !isIdentifier w with
          | true => exact keep _
          | false =>
              rw [if_neg Bool.false_ne_true, substituteAtFrom?, Bool.false_or]
              cases reserved : isReserved (String.ofList w) with
              | true =>
                  rw [if_pos (Bool.or_true _), if_pos rfl]
                  exact keep false
              | false =>
                  rw [Bool.or_false, if_neg Bool.false_ne_true]
                  cases called : Piece.opens items with
                  | true => exact keep false
                  | false =>
                      rw [if_neg Bool.false_ne_true, if_neg Bool.false_ne_true,
                        Outline.substituteFrom, map_bind]
                      refine bind_congr fun found => ?_
                      cases found with
                      | none => exact keep false
                      | some v =>
                          have cut := slice?_between done gap ((.word w :: items).flatMap Item.text)
                          have whole : done ++ (gap ++ (Item.word w :: items).flatMap Item.text) =
                              (done ++ gap ++ w) ++ ([] ++ items.flatMap Item.text) := by
                            simp [Item.text]
                          have next := ih (done ++ gap ++ w) [] (out ++ gap ++ v.splice)
                            (Outline.addName names (String.ofList w)) false
                          simp only [cut]
                          rw [whole, ← byteSize_append, List.reverseAux_eq,
                            ← List.reverse_append]
                          rwa [List.append_nil, List.append_nil] at next

/-- **Substitution at the places that are found in the mask is substitution in
the outline.** -/
theorem substituteAt?_eq (text : List Char) :
    substituteAt? lookup text = some <$> (Outline.ofText text).substitute lookup := by
  have whole := substituteAtFrom?_eq lookup (Item.ofText text) [] [] [] [] false
  rw [List.nil_append, List.nil_append, Item.flatMap_text_ofText] at whole
  rw [substituteAt?, identifiersIn_mask]
  exact whole

end

/-! ## Arguments -/

/-- Cuts a text at the top-level commas of its mask; `depth` counts the brackets
that are open, `last` is the byte behind the comma before and `place` the one at
which the rest of the mask begins. -/
def splitAtFrom? (text : List Char) (depth : Int) (last place : Nat) (out : List (List Char)) :
    List Char → Option (List (List Char))
  | [] => (slice? text last (byteSize text)).map fun s => (Character.trim s :: out).reverse
  | c :: cs =>
    if c = ',' ∧ depth = 0 then
      match slice? text last place with
      | some s => splitAtFrom? text depth (place + 1) (place + 1) (Character.trim s :: out) cs
      | none => none
    else if c = '(' ∨ c = '[' ∨ c = '\x7b' then
      splitAtFrom? text (depth + 1) last (place + c.utf8Size) out cs
    else if c = ')' ∨ c = ']' ∨ c = '\x7d' then
      splitAtFrom? text (depth - 1) last (place + c.utf8Size) out cs
    else splitAtFrom? text depth last (place + c.utf8Size) out cs

/-- The arguments in a text, cut at the commas of its mask. -/
def splitAt? (text : List Char) : Option (List (List Char)) :=
  if (Character.trim text).isEmpty then some [] else splitAtFrom? text 0 0 0 [] (mask text)

/-- The commas and brackets, which is what arguments are cut by. -/
def cuttingMarks : List Char := [',', '(', '[', '\x7b', ')', ']', '\x7d']

/-- None of them is a character of words. -/
theorem notMem_cuttingMarks_of_isWord {c : Char} (h : Character.isWord c = true) :
    c ∉ cuttingMarks := by
  have apart : cuttingMarks.all (fun d => !Character.isWord d) = true := by decide
  intro mem
  have other := List.all_eq_true.mp apart c mem
  rw [h] at other
  cases other

/-- What is neither a comma nor a bracket is passed over. -/
theorem splitAtFrom?_plain {cs : List Char} (h : ∀ c ∈ cs, c ∉ cuttingMarks)
    (text : List Char) (depth : Int) (last place : Nat) (out : List (List Char))
    (rest : List Char) :
    splitAtFrom? text depth last place out (cs ++ rest) =
      splitAtFrom? text depth last (place + byteSize cs) out rest := by
  induction cs generalizing place with
  | nil => rfl
  | cons c cs ih =>
      obtain ⟨hc, hcs⟩ := List.forall_mem_cons.mp h
      simp only [cuttingMarks, List.mem_cons, List.not_mem_nil, or_false, not_or] at hc
      rw [List.cons_append, splitAtFrom?, if_neg (by simp [hc]), if_neg (by simp [hc]),
        if_neg (by simp [hc]), ih hcs, byteSize_cons, Nat.add_assoc]

/-- To split at offsets in the text is to split its items. -/
theorem splitAtFrom?_eq {place : Quoting} {items : List Item} (h : Item.Fitting place items)
    (done segment : List Char) (depth : Int) (out : List (List Char)) :
    splitAtFrom? (done ++ (segment ++ items.flatMap Item.text)) depth (byteSize done)
        (byteSize (done ++ segment)) out (items.flatMap Item.mask) =
      some (splitFrom depth segment.reverse out items) := by
  induction items generalizing place done segment depth out with
  | nil =>
      rw [List.flatMap_nil, List.append_nil, List.flatMap_nil, splitAtFrom?, slice?_behind,
        splitFrom, List.reverse_reverse]
      rfl
  | cons i items ih =>
      obtain ⟨hi, -, rest⟩ := h
      -- what is no comma becomes a part of the segment
      have keep : ∀ depth, splitAtFrom? (done ++ (segment ++ (i :: items).flatMap Item.text))
          depth (byteSize done) (byteSize (done ++ segment) + byteSize i.text) out
            (items.flatMap Item.mask) =
          some (splitFrom depth (i.text.reverseAux segment.reverse) out items) := by
        intro depth
        have whole : done ++ (segment ++ (i :: items).flatMap Item.text) =
            done ++ (segment ++ i.text ++ items.flatMap Item.text) := by simp
        rw [whole, ← byteSize_append, List.append_assoc done segment i.text, List.reverseAux_eq,
          ← List.reverse_append]
        exact ih rest done (segment ++ i.text) depth out
      rw [List.flatMap_cons (f := Item.mask)]
      cases i with
      | word w =>
          have plain : ∀ c ∈ w, c ∉ cuttingMarks :=
            fun c hc => notMem_cuttingMarks_of_isWord (hi.2.2 c hc)
          exact (splitAtFrom?_plain plain _ _ _ _ _ _).trans (keep depth)
      | hidden c =>
          have size : byteSize (List.replicate c.utf8Size ' ') = byteSize (Item.hidden c).text := by
            rw [byteSize_blanks, Item.text, byteSize_cons]
            rfl
          have plain : ∀ d ∈ List.replicate c.utf8Size ' ', d ∉ cuttingMarks := by
            intro d hd
            rw [List.eq_of_mem_replicate hd]
            decide
          rw [← size] at keep
          exact (splitAtFrom?_plain plain _ _ _ _ _ _).trans (keep depth)
      | mark c =>
          have one : byteSize (Item.mark c).text = c.utf8Size := by simp [Item.text, byteSize]
          rw [one] at keep
          change splitAtFrom? _ _ _ _ _ (c :: items.flatMap Item.mask) = _
          rw [splitAtFrom?, splitFrom]
          split
          · rename_i comma
            obtain ⟨rfl, rfl⟩ := comma
            have cut := slice?_between done segment ((.mark ',' :: items).flatMap Item.text)
            have whole : done ++ (segment ++ (Item.mark ',' :: items).flatMap Item.text) =
                (done ++ segment ++ [',']) ++ ([] ++ items.flatMap Item.text) := by
              simp [Item.text]
            have next : byteSize (done ++ segment) + 1 = byteSize (done ++ segment ++ [',']) := by
              rw [byteSize_append _ [',']]
              rfl
            have more := ih rest (done ++ segment ++ [',']) [] 0 (Character.trim segment :: out)
            rw [List.append_nil] at more
            simp only [cut]
            rw [whole, next, List.reverse_reverse]
            exact more
          · split
            · exact keep _
            · split
              · exact keep _
              · exact keep _

/-- **Arguments that are cut at the commas of the mask are those that are cut at
the commas outside of quotes.** -/
theorem splitAt?_eq (text : List Char) : splitAt? text = some (splitArguments text) := by
  rw [splitAt?, splitArguments]
  split
  · rfl
  · have whole := splitAtFrom?_eq (Item.fitting_ofText text) [] [] 0 []
    rw [List.nil_append, List.nil_append, Item.flatMap_text_ofText] at whole
    exact whole

/-! ## The innermost call -/

/-- A text at a call: what is before the name, the name, what is between the
parentheses, and what is after them, if the call cuts it between characters. -/
def CallSite.cut? (c : CallSite) (text : List Char) :
    Option (List Char × List Char × List Char × List Char) := do
  let before ← slice? text 0 c.start
  let name ← slice? text c.start (c.start + byteSize c.name)
  let inner ← slice? text (c.opening + 1) c.closing
  let after ← slice? text (c.closing + 1) (byteSize text)
  return (before, name, inner, after)

/-- A call is cut out of the text at the same offsets once it is blanked. -/
theorem CallSite.cut?_blanked (c : CallSite) (text : List Char) :
    c.blanked.cut? text = c.cut? text := by
  have start : c.blanked.start = c.start := Outline.byteSize_text_blanked c.before
  have opening : c.blanked.opening = c.opening := by
    rw [CallSite.opening, start, CallSite.opening]
    exact congrArg _ (Outline.byteSize_text_blanked c.gap)
  have closing : c.blanked.closing = c.closing := by
    rw [CallSite.closing, opening, CallSite.closing]
    exact congrArg _ (Outline.byteSize_text_blanked c.inner)
  rw [cut?, cut?, start, opening, closing]
  rfl

/-- A call cuts the text that it is in into the parts of its site. -/
theorem CallSite.cut?_eq {c : CallSite} {text : List Char}
    (found : (Outline.ofText text).innermost = .ok (some c)) :
    c.cut? text = some (Outline.text c.before, c.name, Outline.text c.inner,
      Outline.text c.after) := by
  have parts : text = Outline.text c.before ++ (c.name ++ (Outline.text c.gap ++ ['('] ++
      (Outline.text c.inner ++ ([')'] ++ Outline.text c.after)))) := by
    have whole := congrArg Outline.text (Outline.innermost_eq_some found)
    rw [Outline.text_ofText] at whole
    rw [whole]
    simp [Outline.text, Piece.text, Outline.openParen, Outline.closeParen, Item.text]
  have before : slice? text 0 c.start = some (Outline.text c.before) := by
    rw [parts]
    exact slice?_between [] _ _
  have name : slice? text c.start (c.start + byteSize c.name) = some c.name := by
    rw [parts, start, ← byteSize_append]
    exact slice?_between _ c.name _
  have opening : c.opening + 1 =
      byteSize (Outline.text c.before ++ (c.name ++ (Outline.text c.gap ++ ['(']))) := by
    simp only [byteSize_append, opening, start, Nat.add_assoc]
    rfl
  have inner : slice? text (c.opening + 1) c.closing = some (Outline.text c.inner) := by
    rw [closing, opening, parts, ← byteSize_append]
    have cut := slice?_between (Outline.text c.before ++ (c.name ++ (Outline.text c.gap ++ ['('])))
      (Outline.text c.inner) ([')'] ++ Outline.text c.after)
    simpa only [List.append_assoc] using cut
  have after : slice? text (c.closing + 1) (byteSize text) = some (Outline.text c.after) := by
    have place : c.closing + 1 = byteSize (Outline.text c.before ++ (c.name ++
        (Outline.text c.gap ++ ['('] ++ (Outline.text c.inner ++ [')'])))) := by
      rw [closing, opening]
      simp only [byteSize_append, Nat.add_assoc]
      rfl
    have cut := slice?_behind (Outline.text c.before ++ (c.name ++
      (Outline.text c.gap ++ ['('] ++ (Outline.text c.inner ++ [')'])))) (Outline.text c.after)
    rw [place, parts]
    simpa only [List.append_assoc] using cut
  simp only [cut?, before, name, inner, after]
  rfl

/-- **At the places of the innermost call of the mask the text is cut into the
parts of its own innermost call.** -/
theorem Outline.innermost_ofMasked (text : List Char) :
    (ofMasked (mask text)).innermost.map (Option.map (CallSite.cut? · text)) =
      (ofText text).innermost.map (Option.map fun c =>
        some (Outline.text c.before, c.name, Outline.text c.inner, Outline.text c.after)) := by
  rw [ofMasked_mask, innermost_blanked]
  rcases found : (ofText text).innermost with e | (_ | c)
  · rfl
  · rfl
  · exact congrArg (fun s => Except.ok (some s))
      ((c.cut?_blanked text).trans (CallSite.cut?_eq found))

/-- **A mask stands for its text.**  Its bytes are those of the text, but for some
that are blanks, and masking it again changes nothing.  The places of what is
found in it are between characters of the text: the identifiers are cut out
by their places, and substituting, splitting and resolving a call at the places
that are found in the mask is what the outline of the text says.  In a text
that is read to its end, what is blanked out is between the quotes of its text
tokens. -/
theorem mask_faithful {m : Type → Type} [Monad m] [LawfulMonad m]
    (lookup : String → m (Option Value)) (text : List Char) :
    List.Forall₂ (fun b c => b = c ∨ b = 32) (bytesOf (mask text)) (bytesOf text) ∧
    mask (mask text) = mask text ∧
    (∀ i ∈ identifiersIn (mask text), slice? (mask text) i.start i.stop = some i.name ∧
      slice? text i.start i.stop = some i.name) ∧
    substituteAt? lookup text = some <$> (Outline.ofText text).substitute lookup ∧
    splitAt? text = some (splitArguments text) ∧
    (Outline.ofMasked (mask text)).innermost.map (Option.map (CallSite.cut? · text)) =
      (Outline.ofText text).innermost.map (Option.map fun c =>
        some (Outline.text c.before, c.name, Outline.text c.inner, Outline.text c.after)) ∧
    ∀ size, (Lexed.ofText text).ending = .ok size →
      bytesOf (mask text) = (bytesOf text).mapIdx fun i b =>
        if InQuotes (quotedSpans text) i then 32 else b :=
  ⟨forall₂_bytesOf_mask text, mask_mask text, fun _ => slice?_of_mem_identifiersIn,
    substituteAt?_eq lookup text, splitAt?_eq text, Outline.innermost_ofMasked text,
    fun _ => bytesOf_mask⟩

/-- Quotes in quotes, an escaped code, and a backslash before a quote that
closes. -/
def ornateText : List Char := "f(x, 'é\\'(,\\u0041x', \"\\\\\")".toList

theorem mask_faithful_ornate :
    (Lexed.ofText ornateText).ending = .ok 27 ∧
    mask ornateText = "f(x, '             ', \"  \")".toList ∧
    bytesOf (mask ornateText) = (bytesOf ornateText).mapIdx fun i b =>
      if InQuotes [(5, 20), (22, 26)] i then 32 else b := by
  have read : (Lexed.ofText ornateText).ending = .ok 27 := by
    have size : (Lexed.ofText ornateText).ending.toOption = some 27 := by decide +kernel
    cases ending : (Lexed.ofText ornateText).ending with
    | error f =>
        rw [ending] at size
        cases size
    | ok n =>
        rw [ending] at size
        exact congrArg Except.ok (Option.some.inj size)
  have spans : quotedSpans ornateText = [(5, 20), (22, 26)] := by decide +kernel
  have masked : mask ornateText = "f(x, '             ', \"  \")".toList := by decide +kernel
  have faithful := (mask_faithful (m := StateM Nat) (fun _ => pure none) ornateText).2.2.2.2.2.2
  rw [spans] at faithful
  exact ⟨read, masked, faithful 27 read⟩

end FormulaSheet
