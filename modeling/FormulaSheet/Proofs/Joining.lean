import FormulaSheet.Builtin.Answer
import FormulaSheet.Proofs.Literal

/-!
# Splitting and joining

A text is cut where a separator first begins, and what is left of it after that
separator is cut in turn.  There is one way to do this, and the pieces with the
separator between them are the text again.  An empty separator leaves the
characters.  The text that an array is taken for is its items joined by commas.

* `Sequences.splits_cut` — the pieces of a text end where separators first begin;
* `Sequences.Splits.unique` — there is one way to cut a text;
* `Sequences.join_split_cancel` — joining what was split gives the text back;
* `Value.toText_array` — the text of an array joins those of its items;
* `PlainBuiltin.join_split` — `JOIN` undoes `SPLIT`, and writes arrays as texts.
-/

namespace FormulaSheet

namespace Sequences

section Splits

variable {separator piece cs : List Char} {pieces : List (List Char)}

/-- The pieces of a text between separators: each ends where the first separator
begins. -/
inductive Splits (separator : List Char) : List Char → List (List Char) → Prop
  | last {cs : List Char} : ¬ separator <:+: cs → Splits separator cs [cs]
  | more {piece cs : List Char} {pieces : List (List Char)} :
      ¬ separator <:+: piece ++ separator.dropLast → Splits separator cs pieces →
      Splits separator (piece ++ separator ++ cs) (piece :: pieces)

/-- Where no separator begins in a piece, there is none in it and less than a
separator after it. -/
theorem not_infix_of_clear (tail rest : List Char)
    (clear : ∀ i < piece.length, ¬ separator <+: (piece ++ (tail ++ rest)).drop i)
    (short : tail.length < separator.length) : ¬ separator <:+: piece ++ tail := by
  rintro ⟨before, after, eq⟩
  have count := congrArg List.length eq
  simp only [List.length_append] at count
  refine clear before.length (by omega) ⟨after ++ rest, ?_⟩
  rw [← List.append_assoc piece, ← eq]
  simp

/-- What is left of a separator is passed over. -/
theorem cut_skip (skipped piece cs : List Char) (out : List (List Char)) :
    cut separator skipped.length piece out (skipped ++ cs) = cut separator 0 piece out cs := by
  induction skipped with
  | nil => rfl
  | cons c skipped ih => rw [List.length_cons, List.cons_append, cut, ih]

/-- The pieces are cut off one after another.  No separator begins in the piece
so far, which is in reverse. -/
theorem splits_cut (hs : separator ≠ []) (piece cs : List Char) (out : List (List Char))
    (clear : ∀ i < piece.reverse.length, ¬ separator <+: (piece.reverse ++ cs).drop i) :
    ∃ pieces, cut separator 0 piece out cs = out.reverse ++ pieces ∧
      Splits separator (piece.reverse ++ cs) pieces := by
  have pos := List.length_pos_iff.mpr hs
  induction size : cs.length using Nat.strong_induction_on generalizing piece cs out with
  | _ n ih =>
  cases cs with
  | nil =>
      refine ⟨[piece.reverse], by simp [cut], ?_⟩
      have none : ¬ separator <:+: piece.reverse ++ [] := not_infix_of_clear [] [] clear pos
      simpa using Splits.last none
  | cons c cs =>
      rw [cut]
      by_cases stands : separator.isPrefixOf (c :: cs)
      · rw [if_pos stands]
        obtain ⟨rest, eq⟩ := List.isPrefixOf_iff_prefix.mp stands
        obtain ⟨d, skipped, rfl⟩ := List.exists_cons_of_ne_nil hs
        rw [List.cons_append] at eq
        obtain ⟨rfl, rfl⟩ : d = c ∧ skipped ++ rest = cs := List.cons.inj eq
        have short : rest.length < n := by
          rw [← size, List.length_cons, List.length_append]
          omega
        obtain ⟨pieces, cutOff, splits⟩ := ih rest.length short [] rest (piece.reverse :: out)
          (fun _ h => absurd h (Nat.not_lt_zero _)) rfl
        refine ⟨piece.reverse :: pieces, ?_, ?_⟩
        · rw [List.length_cons, Nat.add_sub_cancel, cut_skip, cutOff, List.reverse_cons,
            List.append_assoc, List.singleton_append]
        · have ends := List.dropLast_append_getLast hs
          rw [← List.cons_append, ← List.append_assoc]
          have none : ¬ d :: skipped <:+: piece.reverse ++ (d :: skipped).dropLast := by
            refine not_infix_of_clear _ ([(d :: skipped).getLast hs] ++ rest) ?_ (by simp)
            rwa [← List.append_assoc _ _ rest, ends]
          exact .more none splits
      · rw [if_neg stands]
        have next : piece.reverse ++ c :: cs = (c :: piece).reverse ++ cs := by simp
        rw [next]
        refine ih cs.length (by simp [← size]) (c :: piece) cs out ?_ rfl
        intro i hi
        rw [← next]
        rcases Nat.lt_or_eq_of_le (Nat.le_of_lt_succ (by simpa using hi)) with earlier | here
        · exact clear i (by simpa using earlier)
        · rw [here, ← List.length_reverse, List.drop_left]
          exact fun h => stands (List.isPrefixOf_iff_prefix.mpr h)

/-- Where a separator ends a shorter piece of the same text, it stands in the
longer one. -/
theorem infix_of_shorter {longer text : List Char} (hs : separator ≠ [])
    (short : piece ++ separator <+: text) (long : longer ++ separator <+: text)
    (lt : piece.length < longer.length) : separator <:+: longer ++ separator.dropLast := by
  have pos := List.length_pos_iff.mpr hs
  have cut : longer ++ separator.dropLast <+: text :=
    ((List.prefix_append_right_inj longer).mpr separator.dropLast_prefix).trans long
  have within : piece ++ separator <+: longer ++ separator.dropLast := by
    refine List.prefix_of_prefix_length_le short cut ?_
    rw [List.length_append, List.length_append, List.length_dropLast]
    omega
  exact (List.suffix_append piece separator).isInfix.trans within.isInfix

/-- **There is one way to cut a text.** -/
theorem Splits.unique {others : List (List Char)} (hs : separator ≠ [])
    (h : Splits separator cs pieces) (h' : Splits separator cs others) : pieces = others := by
  induction h generalizing others with
  | last none =>
      cases h' with
      | last _ => rfl
      | more _ _ => exact absurd ⟨_, _, rfl⟩ none
  | @more piece cs pieces none splits ih =>
      generalize eq : piece ++ separator ++ cs = text at h'
      cases h' with
      | last none' => exact absurd ⟨_, _, eq⟩ none'
      | @more piece' cs' others none' splits' =>
          have first : piece ++ separator <+: piece' ++ separator ++ cs' := ⟨cs, eq⟩
          have second := List.prefix_append (piece' ++ separator) cs'
          have same : piece.length = piece'.length := by
            refine Nat.le_antisymm (Nat.not_lt.mp fun lt => ?_) (Nat.not_lt.mp fun lt => ?_)
            · exact none (infix_of_shorter hs second first lt)
            · exact none' (infix_of_shorter hs first second lt)
          obtain ⟨rfl, rfl⟩ : piece = piece' ∧ cs = cs' := by
            rw [List.append_assoc, List.append_assoc] at eq
            obtain ⟨rfl, rest⟩ := List.append_inj eq same
            exact ⟨rfl, List.append_cancel_left rest⟩
          rw [ih splits']

/-- Putting the separator between the pieces gives the text back. -/
theorem Splits.intercalate (h : Splits separator cs pieces) :
    separator.intercalate pieces = cs := by
  induction h with
  | last _ => simp
  | @more piece cs pieces _ splits ih =>
      have some : pieces ≠ [] := by cases splits <;> simp
      obtain ⟨p, ps, rfl⟩ := List.exists_cons_of_ne_nil some
      rw [List.intercalate_cons_cons, ih]

end Splits

/-- Joining puts the separator between the texts. -/
theorem join_eq_intercalate (separator : String) (ss : List String) :
    join separator ss = separator.intercalate ss := by
  have onwards (out : String) (ss : List String) :
      ss.foldl (fun out t => out ++ separator ++ t) out = separator.intercalate (out :: ss) := by
    induction ss generalizing out with
    | nil => simp
    | cons s ss ih =>
        rw [List.foldl_cons, ih, String.intercalate_cons_append, String.intercalate_cons_cons]
  cases ss with
  | nil => simp [join]
  | cons s ss => exact onwards s ss

/-- Without a separator a text is split into its characters. -/
theorem split_empty (text : String) : split text "" = text.toList.map String.singleton := rfl

/-- Else the parts split the text at every separator. -/
theorem splits_split {separator : String} (hs : separator ≠ "") (text : String) :
    Splits separator.toList text.toList ((split text separator).map String.toList) := by
  have given : separator.toList ≠ [] := mt String.toList_eq_nil_iff.mp hs
  obtain ⟨pieces, cutOff, splits⟩ := splits_cut given [] text.toList []
    (fun _ h => absurd h (Nat.not_lt_zero _))
  have answered : split text separator = pieces.map String.ofList := by
    rw [split, if_neg (mt String.isEmpty_iff.mp hs), cutOff, List.reverse_nil, List.nil_append]
  rw [answered, List.map_map]
  simpa using splits

/-- The parts of a text: what is between separators, or its characters if the
separator is empty. -/
def Parts (separator text : String) (parts : List String) : Prop :=
  if separator = "" then parts = text.toList.map String.singleton
  else Splits separator.toList text.toList (parts.map String.toList)

/-- **There is one way to split a text.** -/
theorem parts_iff {separator text : String} {parts : List String} :
    Parts separator text parts ↔ parts = split text separator := by
  rw [Parts]
  by_cases empty : separator = ""
  · rw [if_pos empty, empty, split_empty]
  · rw [if_neg empty]
    have splits := splits_split empty text
    constructor
    · intro h
      have same := h.unique (mt String.toList_eq_nil_iff.mp empty) splits
      exact List.map_injective_iff.mpr (fun _ _ => String.toList_inj.mp) same
    · rintro rfl
      exact splits

/-- Of separators that overlap the leftmost count. -/
example : split "aaaaa" "aa" = ["", "", "a"] := by decide

/-- Characters with nothing between them are the text again. -/
theorem intercalate_singletons (cs : List Char) :
    ([] : List Char).intercalate (cs.map fun c => [c]) = cs := by
  induction cs with
  | nil => rfl
  | cons c cs ih =>
      cases cs with
      | nil => rfl
      | cons d cs =>
          rw [List.map_cons] at ih
          rw [List.map_cons, List.map_cons, List.intercalate_cons_cons, ih]
          rfl

/-- **Joining what was split gives the text back.** -/
theorem join_split_cancel (text separator : String) :
    join separator (split text separator) = text := by
  rw [join_eq_intercalate, ← String.toList_inj, String.toList_intercalate]
  by_cases empty : separator = ""
  · have apart : String.toList ∘ String.singleton = fun c => [c] :=
      funext fun c => String.toList_singleton c
    rw [empty, split_empty, List.map_map, String.toList_empty, apart, intercalate_singletons]
  · exact (splits_split empty text).intercalate

end Sequences

namespace Value

section Items

variable (out : List Char) (v : Value) (vs : List Value)

/-- The text of an item, reversed, before `out`. -/
def itemOnto : Value → List Char
  | null => out
  | v => textOnto out v

theorem itemOnto_nil : itemOnto [] v = v.itemText.toList.reverse := by
  cases v <;> simp [itemOnto, itemText, toText]

theorem itemTextsOnto_cons :
    itemTextsOnto out (v :: vs) = moreItemTextsOnto (itemOnto out v) vs := by
  cases v <;> simp [itemOnto, itemTextsOnto]

theorem moreItemTextsOnto_cons :
    moreItemTextsOnto out (v :: vs) = moreItemTextsOnto (itemOnto (',' :: out) v) vs := by
  cases v <;> simp [itemOnto, moreItemTextsOnto]

variable {v} in
/-- The text of an item is put before what is there, if that of its value is. -/
theorem itemOnto_eq_append (h : ∀ out, textOnto out v = textOnto [] v ++ out) :
    itemOnto out v = itemOnto [] v ++ out := by
  cases v with
  | null => rfl
  | _ => exact h out

end Items

mutual

/-- The text of a value is put before what is there. -/
theorem textOnto_eq_append (out : List Char) : ∀ v : Value,
    textOnto out v = textOnto [] v ++ out
  | null => by simp [textOnto]
  | bool b => by simp [textOnto]
  | number x => by simp [textOnto]
  | text s => by simp [textOnto]
  | array vs => by rw [textOnto, textOnto, itemTextsOnto_eq_append]
  | object fs => by rw [textOnto, textOnto, literalOnto_eq_append]

/-- So are those of items. -/
theorem itemTextsOnto_eq_append (out : List Char) : ∀ vs : List Value,
    itemTextsOnto out vs = itemTextsOnto [] vs ++ out
  | [] => by simp [itemTextsOnto]
  | v :: vs => by
    rw [itemTextsOnto_cons, itemTextsOnto_cons, moreItemTextsOnto_eq_append,
      moreItemTextsOnto_eq_append (itemOnto [] v),
      itemOnto_eq_append out fun out => textOnto_eq_append out v]
    simp

/-- So are those of the items after the first. -/
theorem moreItemTextsOnto_eq_append (out : List Char) : ∀ vs : List Value,
    moreItemTextsOnto out vs = moreItemTextsOnto [] vs ++ out
  | [] => by simp [moreItemTextsOnto]
  | v :: vs => by
    rw [moreItemTextsOnto_cons, moreItemTextsOnto_cons, moreItemTextsOnto_eq_append,
      moreItemTextsOnto_eq_append (itemOnto [','] v),
      itemOnto_eq_append (',' :: out) fun out => textOnto_eq_append out v,
      itemOnto_eq_append [','] fun out => textOnto_eq_append out v]
    simp

end

/-- The texts of items stand with commas between. -/
theorem itemTextsOnto_nil (vs : List Value) :
    itemTextsOnto [] vs = ([','].intercalate (vs.map fun v => v.itemText.toList)).reverse := by
  induction vs with
  | nil => rfl
  | cons v vs ih =>
      rw [itemTextsOnto_cons, itemOnto_nil]
      cases vs with
      | nil => simp [moreItemTextsOnto]
      | cons w vs =>
          rw [moreItemTextsOnto_cons, ← itemTextsOnto_cons, itemTextsOnto_eq_append, ih]
          simp

/-- **The text of an array** is the texts of its items with commas between them. -/
theorem toText_array (vs : List Value) :
    (array vs).toText = Sequences.join "," (vs.map itemText) := by
  rw [Sequences.join_eq_intercalate, ← String.toList_inj, String.toList_intercalate, List.map_map]
  simp [toText, textOnto, itemTextsOnto_nil, Function.comp_def]

end Value

namespace PlainBuiltin

section Join

variable (nan : NanChoice) (t : String) (v : Value) (rest : List Value)

/-- What the arguments after the first ask for as a separator: the text of the
first of them, or a comma for null or for none. -/
def separatorOf : String :=
  match rest with
  | [] | .null :: _ => ","
  | s :: _ => s.toText

/-- The separator that is given, or a comma. -/
theorem textOr_comma : Arguments.textOr (v :: rest) 1 "," = separatorOf rest := by
  cases rest with
  | nil => rfl
  | cons s rest => cases s <;> rfl

/-- What splitting answers. -/
theorem answer_split : split.answer nan (.text t :: rest) =
    .ok (.array ((Sequences.split t (separatorOf rest)).map .text)) := by
  have read : (Value.text t).toText = t := by simp [Value.toText, Value.textOnto]
  have answered : split.answer nan (.text t :: rest) = .ok (.array
    ((Sequences.split (Value.text t).toText
      (Arguments.textOr (.text t :: rest) 1 ",")).map .text)) := rfl
  rw [answered, textOr_comma, read]

/-- What joining answers. -/
theorem answer_join (vs : List Value) : join.answer nan (.array vs :: rest) =
    .ok (.text (Sequences.join (separatorOf rest) (vs.map Value.itemText))) := by
  have answered : join.answer nan (.array vs :: rest) = .ok (.text
    (Sequences.join (Arguments.textOr (.array vs :: rest) 1 ",") (vs.map Value.itemText))) := rfl
  rw [answered, textOr_comma]

end Join

/-- **Joining a split restores the text.** Whatever the separator, the answer to a
text is the one list of its parts, and joined they are the text; arrays joined
without a separator are the texts that they are taken for. -/
theorem join_split (nan : NanChoice) :
    (∀ (t : String) (rest : List Value), ∃ parts : List String,
      (∀ others, Sequences.Parts (separatorOf rest) t others ↔ others = parts) ∧
      split.answer nan (.text t :: rest) = .ok (.array (parts.map .text)) ∧
      join.answer nan (.array (parts.map .text) :: rest) = .ok (.text t)) ∧
    ∀ vs, join.answer nan [.array vs] = .ok (.text (Value.array vs).toText) ∧
      join.answer nan [.array vs, .null] = .ok (.text (Value.array vs).toText) := by
  constructor
  · intro t rest
    refine ⟨Sequences.split t (separatorOf rest), fun _ => Sequences.parts_iff,
      answer_split nan t rest, ?_⟩
    have read : Value.itemText ∘ Value.text = id := by
      funext s
      simp [Value.itemText, Value.toText, Value.textOnto]
    rw [answer_join, List.map_map, read, List.map_id, Sequences.join_split_cancel]
  · intro vs
    rw [answer_join, answer_join, Value.toText_array]
    exact ⟨rfl, rfl⟩

end PlainBuiltin

end FormulaSheet
