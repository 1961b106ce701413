import FormulaSheet.Proofs.Outlined
import FormulaSheet.Proofs.Pairing

/-!
# Masked texts

Masking blanks out what stands in quotes, byte for byte.  It goes by the
quotes and by one rule for a backslash, which takes whatever is behind it.
Reading tokens goes by the escapes of the language.  They agree on where each
quoted text ends, so in a text that is read to its end the bytes that are
blanked out are those between the quotes of its text tokens.

* `mask_eq_maskFrom` — masking character by character;
* `forall₂_bytesOf_mask` — every byte stays or becomes a blank;
* `mask_mask` — there is nothing left to mask in a masked text;
* `Token.next_of_read` — reading counts the bytes that it takes;
* `Lexed.exists_lexemes` — a text that is read to its end is a row of blocks, with
  its tokens where they are;
* `bytesOf_mask` — the bytes of its mask.
-/

namespace FormulaSheet

/-- The bytes of a text in UTF-8. -/
def bytesOf (cs : List Char) : List UInt8 := cs.flatMap String.utf8EncodeChar

/-- The bytes of two texts are put one after another. -/
theorem bytesOf_append (cs ds : List Char) : bytesOf (cs ++ ds) = bytesOf cs ++ bytesOf ds :=
  List.flatMap_append

/-- A text has as many bytes as its size says. -/
theorem length_bytesOf (cs : List Char) : (bytesOf cs).length = byteSize cs := by
  induction cs with
  | nil => rfl
  | cons c cs ih =>
      rw [bytesOf, List.flatMap_cons, List.length_append, String.length_utf8EncodeChar,
        byteSize_cons]
      exact congrArg _ ih

/-- A blank is one byte. -/
theorem bytesOf_blanks (n : Nat) : bytesOf (List.replicate n ' ') = List.replicate n 32 := by
  induction n with
  | zero => rfl
  | succ n ih =>
      rw [List.replicate_succ, List.replicate_succ, bytesOf, List.flatMap_cons]
      exact congrArg (32 :: ·) ih

/-- A blank is one byte. -/
theorem byteSize_blanks (n : Nat) : byteSize (List.replicate n ' ') = n := by
  rw [← length_bytesOf, bytesOf_blanks, List.length_replicate]

/-- Text in ASCII has as many bytes as characters. -/
theorem byteSize_eq_length {cs : List Char} (h : ∀ c ∈ cs, c.toNat < 128) :
    byteSize cs = cs.length := by
  induction cs with
  | nil => rfl
  | cons c cs ih =>
      obtain ⟨hc, hcs⟩ := List.forall_mem_cons.mp h
      have one : c.utf8Size = 1 :=
        Char.utf8Size_eq_one_iff.mpr (UInt32.le_iff_toNat_le.mpr (Nat.le_of_lt_succ hc))
      rw [byteSize_cons, ih hcs, one, List.length_cons, Nat.add_comm]

/-! ## Masking character by character -/

/-- A character as it is masked where it stands. -/
def Quoting.mask (place : Quoting) (c : Char) : List Char :=
  if place.hides c then List.replicate c.utf8Size ' ' else [c]

/-- A text masked from a place on. -/
def maskFrom : Quoting → List Char → List Char
  | _, [] => []
  | place, c :: cs => place.mask c ++ maskFrom (place.after c) cs

/-- An item is masked whether it joins the one after it or not. -/
theorem Item.flatMap_mask_meet (i : Item) (is : List Item) :
    (i.meet is).flatMap mask = i.mask ++ is.flatMap mask := by
  cases i with
  | word w =>
      cases is with
      | nil => rfl
      | cons j is => cases j <;> simp [meet, mask]
  | mark c => rfl
  | hidden c => rfl

/-- An item of one character is masked as the character is. -/
theorem Item.mask_ofChar (place : Quoting) (c : Char) : (ofChar place c).mask = place.mask c := by
  unfold ofChar Quoting.mask
  split
  · rfl
  · split <;> rfl

/-- The items that are read have the masked text. -/
theorem Item.flatMap_mask_readFrom (place : Quoting) (cs : List Char) :
    (readFrom place [] [] cs).flatMap mask = maskFrom place cs := by
  induction cs generalizing place with
  | nil => rfl
  | cons c cs ih => rw [readFrom_cons, flatMap_mask_meet, mask_ofChar, ih, maskFrom]

/-- A text is masked from outside of quotes. -/
theorem mask_eq_maskFrom (cs : List Char) : mask cs = maskFrom .code cs :=
  Item.flatMap_mask_readFrom .code cs

/-- A character stays, or each of its bytes becomes a blank. -/
theorem Quoting.forall₂_bytesOf_mask (place : Quoting) (c : Char) :
    List.Forall₂ (fun m b => m = b ∨ m = 32) (bytesOf (place.mask c)) (bytesOf [c]) := by
  have blanks : ∀ bs : List UInt8,
      List.Forall₂ (fun m b => m = b ∨ m = 32) (List.replicate bs.length 32) bs := by
    intro bs
    induction bs with
    | nil => exact .nil
    | cons b bs ih => exact .cons (.inr rfl) ih
  unfold mask
  split
  · have size : (bytesOf [c]).length = c.utf8Size := by
      rw [length_bytesOf, byteSize_cons]
      rfl
    rw [bytesOf_blanks, ← size]
    exact blanks _
  · exact List.forall₂_same.mpr fun _ _ => .inl rfl

/-- **Masking keeps every byte or makes a blank of it.** -/
theorem forall₂_bytesOf_mask (cs : List Char) :
    List.Forall₂ (fun m b => m = b ∨ m = 32) (bytesOf (mask cs)) (bytesOf cs) := by
  rw [mask_eq_maskFrom]
  generalize Quoting.code = place
  induction cs generalizing place with
  | nil => exact .nil
  | cons c cs ih =>
      rw [maskFrom, bytesOf_append, ← List.singleton_append, bytesOf_append]
      exact List.rel_append (place.forall₂_bytesOf_mask c) (ih _)

/-- Where a place is in the masked text, which has no backslashes in quotes. -/
def Quoting.masked : Quoting → Quoting
  | escaped q => inside q
  | place => place

/-- Blanks in quotes stay blanks. -/
theorem maskFrom_inside_blanks {q : Char} (hq : q = '"' ∨ q = '\'') (n : Nat) (cs : List Char) :
    maskFrom (.inside q) (List.replicate n ' ' ++ cs) =
      List.replicate n ' ' ++ maskFrom (.inside q) cs := by
  have blank : (Quoting.inside q).mask ' ' = [' '] ∧
      (Quoting.inside q).after ' ' = .inside q := by
    rcases hq with rfl | rfl <;> decide
  induction n with
  | zero => rfl
  | succ n ih =>
      rw [List.replicate_succ, List.cons_append, maskFrom, blank.1, blank.2, ih]
      rfl

/-- Masking a masked text changes nothing. -/
theorem maskFrom_maskFrom {place : Quoting} (proper : place.Proper) (cs : List Char) :
    maskFrom place.masked (maskFrom place cs) = maskFrom place cs := by
  induction cs generalizing place with
  | nil => rfl
  | cons c cs ih =>
      have rest := ih (proper.after c)
      -- what is hidden becomes blanks, which leave the place as it is
      have hidden : ∀ q, place.masked = .inside q → (q = '"' ∨ q = '\'') →
          place.hides c = true → (place.after c).masked = .inside q →
          maskFrom place.masked (maskFrom place (c :: cs)) = maskFrom place (c :: cs) := by
        intro q here quote hides there
        rw [there] at rest
        rw [maskFrom, Quoting.mask, if_pos hides, here, maskFrom_inside_blanks quote, rest]
      have shown : place.masked = place → (place.after c).masked = place.after c →
          place.hides c = false →
          maskFrom place.masked (maskFrom place (c :: cs)) = maskFrom place (c :: cs) := by
        intro here there hides
        have one : place.mask c = [c] := by
          rw [Quoting.mask, if_neg (by simp [hides])]
        rw [there] at rest
        rw [maskFrom, one, here, List.singleton_append, maskFrom, rest, one]
        rfl
      cases place with
      | code =>
          refine shown rfl ?_ rfl
          rw [Quoting.after]
          split <;> rfl
      | inside q =>
          by_cases slash : c = '\\'
          · exact hidden q rfl proper (by simp [Quoting.hides, slash])
              (by simp [Quoting.after, slash, Quoting.masked])
          · by_cases closing : c = q
            · subst closing
              exact shown rfl (by simp [Quoting.after, slash, Quoting.masked])
                (by simp [Quoting.hides, slash])
            · exact hidden q rfl proper (by simp [Quoting.hides, closing])
                (by simp [Quoting.after, slash, closing, Quoting.masked])
      | escaped q => exact hidden q rfl proper rfl rfl

/-- **A masked text is masked already.** -/
theorem mask_mask (cs : List Char) : mask (mask cs) = mask cs := by
  rw [mask_eq_maskFrom, mask_eq_maskFrom]
  exact maskFrom_maskFrom Quoting.proper_code cs

/-! ## The tokens in quotes -/

/-- Code without quotes stays as it is. -/
theorem maskFrom_code {cs : List Char} (h : ∀ c ∈ cs, ¬ (c = '"' ∨ c = '\''))
    (rest : List Char) : maskFrom .code (cs ++ rest) = cs ++ maskFrom .code rest := by
  induction cs with
  | nil => rfl
  | cons c cs ih =>
      obtain ⟨hc, hcs⟩ := List.forall_mem_cons.mp h
      rw [List.cons_append, maskFrom, Quoting.after_code hc, ih hcs]
      rfl

namespace Block

/-- The text of a block with what is in quotes blanked out. -/
def masked : Block → List Char
  | quoted q body _ => q :: (List.replicate (byteSize body) ' ' ++ [q])
  | b => b.text

/-- Hidden characters become a blank for each of their bytes. -/
theorem flatMap_mask_hidden (cs : List Char) :
    (cs.map Item.hidden).flatMap Item.mask = List.replicate (byteSize cs) ' ' := by
  induction cs with
  | nil => rfl
  | cons c cs ih =>
      rw [List.map_cons, List.flatMap_cons, ih, byteSize_cons, List.replicate_add]
      rfl

/-- A block is masked for itself. -/
theorem maskFrom_text {b : Block} (h : b.Valid) (rest : List Char) :
    maskFrom .code (b.text ++ rest) = b.masked ++ maskFrom .code rest := by
  cases b with
  | blank c =>
      refine maskFrom_code (fun d hd => ?_) rest
      rw [List.mem_singleton.mp hd]
      exact Character.not_quote_of_isBlank h
  | name w =>
      exact maskFrom_code (fun c hc => Quoting.not_quote_of_isWord (isWord_of_isIdentifier h c hc))
        rest
  | number cs x => exact maskFrom_code (numeral_code h.1) rest
  | quoted q body s =>
      obtain ⟨hq, quotes⟩ := h
      have inside : maskFrom (.inside q) (body ++ q :: rest) =
          List.replicate (byteSize body) ' ' ++ q :: maskFrom .code rest := by
        rw [← Item.flatMap_mask_readFrom, Item.readFrom_quotes hq quotes, List.flatMap_append,
          flatMap_mask_hidden, List.flatMap_cons, ← mask_eq_maskFrom]
        rfl
      have opening : Quoting.after .code q = .inside q := by rw [Quoting.after, if_pos hq]
      rw [text, masked, List.cons_append, List.append_assoc, List.singleton_append, maskFrom,
        opening, inside]
      simp [Quoting.mask, Quoting.hides]
  | sign cs s => exact maskFrom_code (fun c hc => (sign_marks h c hc).2.1) rest

/-- A row of blocks is masked block by block. -/
theorem mask_textOf {bs : List Block} (h : ∀ b ∈ bs, b.Valid) :
    mask (textOf bs) = bs.flatMap masked := by
  rw [mask_eq_maskFrom]
  induction bs with
  | nil => rfl
  | cons b bs ih =>
      obtain ⟨hb, hbs⟩ := List.forall_mem_cons.mp h
      rw [textOf_cons, maskFrom_text hb, ih hbs, List.flatMap_cons]

end Block

/-! ## Where the tokens are -/

/-- A digit of an escaped code is in ASCII. -/
theorem ascii_of_hexValue? {c : Char} {n : Nat} (h : Character.hexValue? c = some n) :
    c.toNat < 128 := by
  unfold Character.hexValue? at h
  split at h
  · rename_i digit
    exact ascii_of_isNamePart (isNamePart_of_isDigit digit)
  · split at h
    · rename_i small
      exact Nat.lt_of_le_of_lt (UInt32.le_iff_toNat_le.mp small.2) (by decide)
    · split at h
      · rename_i capital
        exact Nat.lt_of_le_of_lt (UInt32.le_iff_toNat_le.mp capital.2) (by decide)
      · cases h

/-- An escaped code is six bytes. -/
theorem byteSize_escapedCode {u v w x e : Char} (h : escapedCode? u v w x = some e)
    (cs : List Char) : byteSize ('\\' :: 'u' :: u :: v :: w :: x :: cs) = 6 + byteSize cs := by
  obtain ⟨first, digits⟩ := Item.digits_of_escapedCode? h
  have ascii : ∀ c ∈ ['\\', 'u', u, v, w, x], c.toNat < 128 := by
    refine List.forall_mem_cons.mpr ⟨by decide, List.forall_mem_cons.mpr ⟨by decide, ?_⟩⟩
    refine List.forall_mem_cons.mpr ⟨?_, fun c hc => ?_⟩
    · rcases first with ⟨n, hn⟩ | rfl
      · exact ascii_of_hexValue? hn
      · decide
    · obtain ⟨n, hn⟩ := digits c hc
      exact ascii_of_hexValue? hn
  exact (byteSize_append ['\\', 'u', u, v, w, x] cs).trans (by rw [byteSize_eq_length ascii]; rfl)

namespace Token

variable {start next : Nat} {cs rest : List Char} {t : Token}

/-- What is read in quotes is counted in bytes. -/
theorem next_of_readQuoted {q : Char} {position : Nat} {out : List Char}
    (h : readQuoted q start out position cs = .token t next rest) :
    position + byteSize cs = next + byteSize rest := by
  have slash : Char.utf8Size '\\' = 1 := by decide
  fun_induction readQuoted q start out position cs with
  | case1 => cases h
  | case2 out position cs =>
      cases h
      rw [byteSize_cons, Nat.add_assoc]
  | case3 => cases h
  | case4 out position u v w x cs e hcode _ ih =>
      rw [byteSize_escapedCode hcode, ← ih h, Nat.add_assoc]
  | case5 => cases h
  | case6 => cases h
  | case7 out position e cs _ hu _ ih =>
      rw [← ih h, byteSize_cons, byteSize_cons, slash, ← Nat.add_assoc, ← Nat.add_assoc]
  | case8 out position c cs hplain hslash ih =>
      rw [← ih h, byteSize_cons, Nat.add_assoc]

/-- So is a number. -/
theorem next_of_readNumber (h : readNumber start cs = .token t next rest) :
    start + byteSize cs = next + byteSize rest := by
  unfold readNumber at h
  dsimp only at h
  split at h
  · cases h
    obtain ⟨behind, isExponent⟩ := takeExponent_eq (cs.dropWhile fun c => c.isDigit || c == '.')
    generalize takeExponent (cs.dropWhile fun c => c.isDigit || c == '.') = taken at *
    have digit : ∀ {c : Char}, c.isDigit = true → c.toNat < 128 :=
      fun hc => ascii_of_isNamePart (isNamePart_of_isDigit hc)
    have body : ∀ c ∈ cs.takeWhile (fun c => c.isDigit || c == '.'), c.toNat < 128 := by
      intro c hc
      rcases Bool.or_eq_true_iff.mp (List.all_eq_true.mp List.all_takeWhile c hc) with hc | hc
      · exact digit hc
      · rw [beq_iff_eq.mp hc]
        decide
    have sign : ∀ c ∈ ['.', 'e', 'E', '+', '-'], c.toNat < 128 := by simp
    have exponent : ∀ c ∈ taken.1, c.toNat < 128 :=
      fun c hc => (Block.exponent_chars isExponent c hc).elim digit (sign c)
    rw [Nat.add_assoc, ← byteSize_eq_length (List.forall_mem_append.mpr ⟨body, exponent⟩),
      ← byteSize_append, List.append_assoc, ← behind, List.takeWhile_append_dropWhile]
  · cases h

/-- So is a name. -/
theorem next_of_readName (h : readName start cs = .token t next rest) :
    start + byteSize cs = next + byteSize rest := by
  unfold readName at h
  cases h
  have ascii : ∀ c ∈ cs.takeWhile isNamePart, c.toNat < 128 := fun c hc =>
    ascii_of_isNamePart (List.all_eq_true.mp List.all_takeWhile c hc)
  rw [Nat.add_assoc, ← byteSize_eq_length ascii, ← byteSize_append,
    List.takeWhile_append_dropWhile]

/-- So is a symbol. -/
theorem next_of_readSymbol {c : Char} (h : readSymbol start c cs = .token t next rest) :
    start + byteSize (c :: cs) = next + byteSize rest := by
  unfold readSymbol at h
  dsimp only at h
  split at h
  all_goals cases h
  all_goals simp only [byteSize_cons, Char.utf8Size, Nat.add_assoc]
  all_goals simp
  all_goals omega

/-- **Reading counts the bytes that it takes.** -/
theorem next_of_read {c : Char} (h : read start c cs = .token t next rest) :
    start + byteSize (c :: cs) = next + byteSize rest := by
  unfold read at h
  split at h
  · rename_i hq
    have one : c.utf8Size = 1 := by rcases hq with rfl | rfl <;> decide
    rw [← next_of_readQuoted h, byteSize_cons, one, Nat.add_assoc]
  · split at h
    · exact next_of_readNumber h
    · split at h
      · exact next_of_readNumber h
      · split at h
        · exact next_of_readName h
        · exact next_of_readSymbol h

end Token

namespace Block

/-- The tokens of blocks that begin at the byte `n`. -/
def lexemes : Nat → List Block → List Lexeme
  | _, [] => []
  | n, b :: bs => (b.token?.map (⟨·, n⟩)).toList ++ lexemes (n + byteSize b.text) bs

end Block

/-- A text that is read to its end is a row of blocks, with its tokens where
they begin. -/
theorem Lexed.exists_lexemes {cs : List Char} {size : Nat}
    (hend : (ofText cs).ending = .ok size) :
    ∃ bs, (∀ b ∈ bs, b.Valid) ∧ Block.textOf bs = cs ∧
      (ofText cs).lexemes = Block.lexemes 0 bs := by
  refine ofText_ok (P := fun n cs ls => ∃ bs, (∀ b ∈ bs, b.Valid) ∧ Block.textOf bs = cs ∧
    ls = Block.lexemes n bs) (fun _ => ⟨[], by simp, rfl, rfl⟩) ?_ ?_ hend
  · rintro n c cs ls hblank ⟨bs, valid, rfl, rfl⟩
    refine ⟨.blank c :: bs, List.forall_mem_cons.mpr ⟨hblank, valid⟩, rfl, ?_⟩
    rw [Block.lexemes, Block.text, byteSize_cons]
    rfl
  · rintro n next c cs rest t ls hread ⟨bs, valid, rfl, rfl⟩
    obtain ⟨b, hvalid, ht, cut, -⟩ := Token.exists_block hread
    have counted := Token.next_of_read hread
    rw [cut, byteSize_append, ← Nat.add_assoc] at counted
    obtain rfl := Nat.add_right_cancel counted
    rw [← Block.textOf_cons] at cut
    refine ⟨b :: bs, List.forall_mem_cons.mpr ⟨hvalid, valid⟩, cut.symm, ?_⟩
    rw [Block.lexemes, ht]
    rfl

/-! ## What is between the quotes -/

/-- A text before and from the byte `n` on, if a character begins there. -/
def cut? : Nat → List Char → Option (List Char × List Char)
  | 0, cs => some ([], cs)
  | _ + 1, [] => none
  | n + 1, c :: cs =>
    if c.utf8Size ≤ n + 1 then (cut? (n + 1 - c.utf8Size) cs).map fun (a, b) => (c :: a, b)
    else none

/-- A text can be cut after its first part. -/
theorem cut?_append (a b : List Char) : cut? (byteSize a) (a ++ b) = some (a, b) := by
  induction a with
  | nil => cases b <;> rfl
  | cons c a ih =>
      obtain ⟨n, hn⟩ := Nat.exists_eq_succ_of_ne_zero
        (by rw [byteSize_cons]; have := c.utf8Size_pos; omega : byteSize (c :: a) ≠ 0)
      rw [hn, List.cons_append, cut?, ← Nat.succ_eq_add_one, ← hn, byteSize_cons,
        if_pos (Nat.le_add_right _ _), Nat.add_sub_cancel_left, ih]
      rfl

/-- A text is cut at the bytes that are between two of its characters. -/
theorem cut?_eq_some_iff {n : Nat} {text a b : List Char} :
    cut? n text = some (a, b) ↔ text = a ++ b ∧ byteSize a = n := by
  refine ⟨fun h => ?_, fun ⟨whole, place⟩ => by rw [whole, ← place, cut?_append]⟩
  induction text generalizing n a b with
  | nil =>
      cases n with
      | zero =>
          cases h
          exact ⟨rfl, rfl⟩
      | succ n => cases h
  | cons c cs ih =>
      cases n with
      | zero =>
          cases h
          exact ⟨rfl, rfl⟩
      | succ n =>
          rw [cut?] at h
          split at h
          · rename_i fits
            obtain ⟨⟨front, rest⟩, cut, eq⟩ := Option.map_eq_some_iff.mp h
            cases eq
            obtain ⟨rfl, place⟩ := ih cut
            refine ⟨rfl, ?_⟩
            rw [byteSize_cons, place]
            omega
          · cases h

/-- The byte behind the token that begins at the byte `start`. -/
def stopOf? (text : List Char) (start : Nat) : Option Nat :=
  match cut? start text with
  | some (_, c :: cs) =>
    match Token.read start c cs with
    | .token _ stop _ => some stop
    | .fault _ => none
  | _ => none

/-- Where the text tokens of a text begin and end, their quotes with them. -/
def quotedSpans (text : List Char) : List (Nat × Nat) :=
  (Lexed.ofText text).lexemes.filterMap fun l =>
    match l.token with
    | .text _ => (stopOf? text l.start).map (l.start, ·)
    | _ => none

/-- Whether a byte is between the quotes of a text token. -/
def InQuotes (spans : List (Nat × Nat)) (i : Nat) : Prop :=
  ∃ s ∈ spans, s.1 < i ∧ i + 1 < s.2

instance (spans : List (Nat × Nat)) (i : Nat) : Decidable (InQuotes spans i) :=
  inferInstanceAs (Decidable (∃ s ∈ spans, s.1 < i ∧ i + 1 < s.2))

namespace Block

/-- Where a block begins and ends, if it is quoted and begins at the byte
`n`. -/
def span? (n : Nat) : Block → Option (Nat × Nat)
  | quoted q body s => some (n, n + byteSize (quoted q body s).text)
  | _ => none

/-- Where the quoted ones begin and end among blocks that begin at the byte
`n`. -/
def spans : Nat → List Block → List (Nat × Nat)
  | _, [] => []
  | n, b :: bs => (b.span? n).toList ++ spans (n + byteSize b.text) bs

/-- A quoted block ends where its token does. -/
theorem stopOf?_quoted {q : Char} {body s : List Char} (h : (quoted q body s).Valid)
    (front rest : List Char) :
    stopOf? (front ++ ((quoted q body s).text ++ rest)) (byteSize front) =
      some (byteSize front + byteSize (quoted q body s).text) := by
  obtain ⟨c, more, eq, -, reads⟩ := @Block.readsAs (quoted q body s) _ rest h trivial rfl
  obtain ⟨next, read⟩ := reads (byteSize front)
  have counted := Token.next_of_read read
  rw [← List.cons_append, ← eq, byteSize_append, ← Nat.add_assoc] at counted
  rw [Nat.add_right_cancel counted, stopOf?, cut?_append, eq, List.cons_append]
  simp only [read]

/-- The text tokens of blocks are the quoted ones. -/
theorem filterMap_lexemes {bs : List Block} (h : ∀ b ∈ bs, b.Valid) (front : List Char) :
    (lexemes (byteSize front) bs).filterMap (fun l =>
      match l.token with
      | .text _ => (stopOf? (front ++ textOf bs) l.start).map (l.start, ·)
      | _ => none) = spans (byteSize front) bs := by
  induction bs generalizing front with
  | nil => rfl
  | cons b bs ih =>
      obtain ⟨hb, hbs⟩ := List.forall_mem_cons.mp h
      have rest := ih hbs (front ++ b.text)
      rw [List.append_assoc, ← textOf_cons, byteSize_append] at rest
      rw [lexemes, List.filterMap_append, rest]
      cases b with
      | blank c => rfl
      | name w => rfl
      | number cs x => rfl
      | quoted q body s =>
          rw [spans, textOf_cons]
          simp [token?, span?, stopOf?_quoted hb]
      | sign cs s => rfl

/-- What is quoted later begins later. -/
theorem le_of_mem_spans {bs : List Block} {n : Nat} {p : Nat × Nat} (h : p ∈ spans n bs) :
    n ≤ p.1 := by
  induction bs generalizing n with
  | nil => cases h
  | cons b bs ih =>
      rcases List.mem_append.mp h with here | later
      · cases b with
        | quoted q body s =>
            obtain rfl := List.mem_singleton.mp here
            exact Nat.le_refl n
        | blank c => cases here
        | name w => cases here
        | number cs x => cases here
        | sign cs s => cases here
      · exact Nat.le_trans (Nat.le_add_right n _) (ih later)

/-- Inside of the first block only that block counts. -/
theorem inQuotes_first {b : Block} {bs : List Block} {n i : Nat} (h : i < byteSize b.text) :
    InQuotes (spans n (b :: bs)) (n + i) ↔ InQuotes (b.span? n).toList (n + i) := by
  refine ⟨fun ⟨p, hp, low, high⟩ => ?_,
    fun ⟨p, hp, inside⟩ => ⟨p, List.mem_append_left _ hp, inside⟩⟩
  rcases List.mem_append.mp hp with here | later
  · exact ⟨p, here, low, high⟩
  · have := le_of_mem_spans later
    omega

/-- And behind it only the others do. -/
theorem inQuotes_later {b : Block} {bs : List Block} {n i : Nat} :
    InQuotes (spans n (b :: bs)) (n + (byteSize b.text + i)) ↔
      InQuotes (spans (n + byteSize b.text) bs) (n + byteSize b.text + i) := by
  rw [Nat.add_assoc]
  refine ⟨fun ⟨p, hp, low, high⟩ => ?_,
    fun ⟨p, hp, inside⟩ => ⟨p, List.mem_append_right _ hp, inside⟩⟩
  rcases List.mem_append.mp hp with here | later
  · cases b with
    | quoted q body s =>
        obtain rfl := List.mem_singleton.mp here
        dsimp only at high
        omega
    | blank c => cases here
    | name w => cases here
    | number cs x => cases here
    | sign cs s => cases here
  · exact ⟨p, later, low, high⟩

/-- The bytes of a masked block. -/
theorem bytesOf_masked {b : Block} (h : b.Valid) (n : Nat) :
    bytesOf b.masked = (bytesOf b.text).mapIdx fun i x =>
      if InQuotes (b.span? n).toList (n + i) then 32 else x := by
  have unquoted : b.masked = b.text → b.span? n = none → bytesOf b.masked =
      (bytesOf b.text).mapIdx fun i x =>
        if InQuotes (b.span? n).toList (n + i) then 32 else x := by
    intro same none
    rw [same, none]
    exact (List.mapIdx_eq_iff.mpr (by simp [InQuotes])).symm
  cases b with
  | quoted q body s =>
      obtain ⟨x, hx⟩ : ∃ x, bytesOf [q] = [x] := by
        rcases h.1 with rfl | rfl <;> exact ⟨_, rfl⟩
      have masked : bytesOf (quoted q body s).masked =
          [x] ++ (List.replicate (byteSize body) 32 ++ [x]) := by
        rw [Block.masked, ← List.singleton_append, bytesOf_append, bytesOf_append,
          bytesOf_blanks, hx]
      have plain : bytesOf (quoted q body s).text = [x] ++ (bytesOf body ++ [x]) := by
        rw [text, ← List.singleton_append, bytesOf_append, bytesOf_append, hx]
      have size : byteSize (quoted q body s).text = byteSize body + 2 := by
        rw [← length_bytesOf, plain, ← length_bytesOf]
        simp only [List.length_append, List.length_singleton]
        omega
      have inside : ∀ i, InQuotes ((quoted q body s).span? n).toList (n + i) ↔
          0 < i ∧ i ≤ byteSize body := by
        intro i
        simp [InQuotes, span?, size]
        omega
      have blanks : ∀ f : Nat → UInt8 → UInt8, (∀ i < byteSize body, ∀ y, f i y = 32) →
          (bytesOf body).mapIdx f = List.replicate (byteSize body) 32 := by
        intro f hf
        rw [← length_bytesOf] at hf ⊢
        exact List.mapIdx_eq_replicate_iff.mpr fun i hi => hf i hi _
      simp only [masked, plain, inside]
      rw [List.mapIdx_append, List.mapIdx_append, blanks _ fun i hi y => by simp; omega]
      simp [length_bytesOf]
  | blank c => exact unquoted rfl rfl
  | name w => exact unquoted rfl rfl
  | number cs x => exact unquoted rfl rfl
  | sign cs s => exact unquoted rfl rfl

/-- A byte is masked just if it is in quotes, wherever the count begins. -/
theorem bytesOf_flatMap_masked {bs : List Block} (h : ∀ b ∈ bs, b.Valid) (n : Nat) :
    bytesOf (bs.flatMap masked) = (bytesOf (textOf bs)).mapIdx fun i x =>
      if InQuotes (spans n bs) (n + i) then 32 else x := by
  induction bs generalizing n with
  | nil => rfl
  | cons b bs ih =>
      obtain ⟨hb, hbs⟩ := List.forall_mem_cons.mp h
      rw [List.flatMap_cons, textOf_cons, bytesOf_append, bytesOf_append, List.mapIdx_append,
        bytesOf_masked hb n, ih hbs (n + byteSize b.text), length_bytesOf]
      congr 1
      · refine List.mapIdx_eq_mapIdx_iff.mpr fun i hi => ?_
        rw [length_bytesOf] at hi
        simp only [inQuotes_first hi]
      · simp only [Nat.add_comm _ (byteSize b.text), inQuotes_later]

end Block

/-- **In a text that is read to its end, the bytes that are blanked out are those
between the quotes of its text tokens.** -/
theorem bytesOf_mask {text : List Char} {size : Nat}
    (read : (Lexed.ofText text).ending = .ok size) :
    bytesOf (mask text) = (bytesOf text).mapIdx fun i x =>
      if InQuotes (quotedSpans text) i then 32 else x := by
  obtain ⟨bs, valid, rfl, same⟩ := Lexed.exists_lexemes read
  have spans : quotedSpans (Block.textOf bs) = Block.spans 0 bs := by
    rw [quotedSpans, same]
    exact Block.filterMap_lexemes valid []
  rw [spans, Block.mask_textOf valid, Block.bytesOf_flatMap_masked valid 0]
  simp only [Nat.zero_add]

end FormulaSheet
