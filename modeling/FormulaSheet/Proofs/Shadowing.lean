import FormulaSheet.Proofs.Application
import FormulaSheet.Proofs.Rebuilding
import FormulaSheet.Proofs.Statements

/-!
# A call in a formula and in a body

A call in a formula is cut out of the text and looked up in the registry; one
in the body of a function is evaluated as a part of its tree.  A function
without parameters whose body is a call on data wraps the call: what it comes
to is what the call comes to in a formula, whichever function the name stands
for, built in or defined in place of one.

There are exceptions.  A body chooses by `IF` itself, so a function defined in
place of `IF` is called by formulas only.  A body may be written as a
statement, so `return(…)` is no call in it.  In a formula an unquoted key is
taken for a variable, and a name that is no identifier of ASCII letters, or is
reserved, is not called by it.

* `statementBody_callText` — a call as the body of a function;
* `Setting.sameUnless_wrapper` — a wrapper and what it wraps;
* `Library.outcome_wrapper` — the two formulas.
-/

namespace FormulaSheet

/-- A call stands for itself in a body, if it is not written as a statement. -/
theorem statementBody_callText {f : List Char} (hf : isIdentifier f = true)
    (notReturn : f ≠ "return".toList) (text : List Char) :
    statementBody (callText f text) = callText f text := by
  have trimmed := (trim_callText hf text).1
  have last : ∀ (p : Char → Bool), p ')' = false →
      Character.dropEndWhile p (callText f text) = callText f text := by
    intro p hp
    have ends : callText f text = (f ++ '(' :: text) ++ [')'] := by simp [callText]
    rw [ends, Character.dropEndWhile_concat, if_neg (by simp [hp])]
  rw [statementBody_of_noWord, trimmed, unended, trimmed, last _ (by decide)]
  · exact last _ (by decide)
  · intro c rest eq
    rw [trimmed] at eq
    rw [Bool.eq_false_iff]
    intro ends
    -- the name would be that of the statement
    have word : EndsWord (c :: rest) := endsWord_of_ends ends
    have cut := (takeWhile_name (w := "return".toList) (by decide) word).1
    have paren : EndsWord ('(' :: (text ++ [')'])) := endsWord_of_ends (by decide)
    have own := (takeWhile_name hf paren).1
    exact notReturn (own.symm.trans ((congrArg _ eq).trans cut))

namespace Library

/-- The wrapper of a call: a function without parameters, with the call as its
body. -/
def wrapper (w : List Char) (description : String) (f text : List Char) : Definition :=
  ⟨String.ofList w, description, [], String.ofList (callText f text)⟩

/-- The wrapper of a call as it is accepted. -/
def wrapped (w : List Char) (description : String) (f text : List Char) (es : List Expr) :
    CompiledFunction where
  definition := { wrapper w description f text with name := capitals (String.ofList w) }
  body := .call (String.ofList f) es

variable {w f text : List Char} {es : List Expr} {description : String}

/-- A wrapper of a call can be compiled. -/
theorem compile_wrapper (hw : isIdentifier w = true) (hf : isIdentifier f = true)
    (notReturn : f ≠ "return".toList)
    (parsed : Expr.ofChars (callText f text) = .ok (.call (String.ofList f) es)) :
    (wrapper w description f text).compile = .ok (wrapped w description f text es) := by
  refine Definition.compile_eq_ok_iff.mpr ⟨(isIdentifier_iff.mp hw).1, rfl, _, ?_, rfl⟩
  rw [wrapper, String.toList_ofList, statementBody_callText hf notReturn]
  exact parsed

/-- Once it is added it is found under its name. -/
theorem find?_registry_add_wrapped (l : Library) (name : String) :
    (l.add (wrapped w description f text es)).registry.find? name =
      if capitals name = capitals (String.ofList w) then
        some (wrapped w description f text es).callable
      else l.registry.find? name := by
  have filed : (wrapped w description f text es).callable.name = capitals (String.ofList w) :=
    capitals_capitals (String.ofList w)
  rw [add, Registry.find?_register, filed]
  simp only [eq_comm]

end Library

namespace Setting

variable {s s' : Setting} {f : String} {es : List Expr} {vs : List Value}

/-- A call on data, and the call of a function whose body it is, one call farther
down.  The registries have the same under all names but one that nothing calls. -/
theorem sameUnless_wrapper (supplied : s'.SuppliesAs s) {wrapped : String} {g : Callable}
    (found : s'.registry.find? wrapped = some g)
    (body : g.body = .formula [] (.call f es)) (data : Expr.Data s.host.nan es vs)
    {P : String → Prop}
    (same : ∀ name, P (capitals name) → s'.registry.find? name = s.registry.find? name)
    (closed : ∀ name h, P (capitals name) → s.registry.find? name = some h →
      ∀ other, h.Calls other → P other)
    (lazy : isConditional f = true →
      s.registry.find? "IF" = some (Builtin.plain .choose).callable) (hf : P (capitals f)) :
    Run.SameUnless (· = Run.limit) (s.call maxCallDepth f vs)
      (s'.call maxCallDepth wrapped []) := by
  have run : s'.call maxCallDepth wrapped [] =
      (Expr.call f es).evaluate (s'.call 127) (Table.ofList []) := by
    rw [maxCallDepth, call_succ]
    simp only [found, Callable.run, body]
    rfl
  have nan : (s'.call 127).nan = s.host.nan := (s'.nan_call 127).trans supplied.nan
  rw [run]
  cases kind : isConditional f with
  | true =>
      intro r
      have chosen := from_call_conditional (lazy kind) kind 127 vs r
      rw [Expr.evaluate, if_pos kind]
      exact .inl ((Expr.YieldsItems.evaluateChoice (Expr.serves_noAnswers nan r) _ es vs data).trans
        chosen.symm)
  | false =>
      have called := sameUnless_call supplied same closed (Nat.le_succ 127) f vs hf
      intro r
      rw [Expr.evaluate_call _ _ kind, Run.from_bind_ok (data.evaluateItems nan _ r)]
      exact called r

end Setting

namespace Library

/-- Nothing that is registered calls a function, unless it is that function. -/
def Unreferenced (l : Library) (name : String) : Prop :=
  ∀ other f, l.registry.find? other = some f → capitals other ≠ capitals name →
    ¬ f.Calls (capitals name)

/-- `IF` is the built-in function where none was defined in its place. -/
theorem Overlaid.find?_registry_if {l : Library} (h : l.Overlaid) (free : l.find? "IF" = none) :
    l.registry.find? "IF" = some (Builtin.plain .choose).callable := by
  have covered := h.registry (capitals "IF")
  rw [show l.functions.get? (capitals "IF") = none from free] at covered
  exact covered.trans rfl

section Wrapper

variable {l : Library} {host : Host} {c : Context} {f w text : List Char} {es : List Expr}
  {vs : List Value} {description : String}

/-- What the wrapper of a call on data comes to by itself is what the call came to
before the wrapper was defined. -/
theorem sameUnless_before (data : Expr.Data host.nan es vs)
    (further : capitals (String.ofList f) ≠ capitals (String.ofList w))
    (unreferenced : l.Unreferenced (String.ofList w))
    (lazy : isConditional (String.ofList f) = true →
      l.registry.find? "IF" = some (Builtin.plain .choose).callable) :
    Run.SameUnless (· = Run.limit)
      ((l.evaluator host c).setting.call maxCallDepth (String.ofList f) vs)
      (((l.add (wrapped w description f text es)).evaluator host c).setting.call maxCallDepth
        (String.ofList w) []) := by
  have found : ∀ name, (l.add (wrapped w description f text es)).registry.find? name = _ :=
    l.find?_registry_add_wrapped
  refine Setting.sameUnless_wrapper (s := (l.evaluator host c).setting)
    (P := (· ≠ capitals (String.ofList w))) ?_ ((found _).trans (if_pos rfl)) rfl data ?_ ?_
    lazy further
  · exact .of_eq rfl rfl
  · exact fun name other => (found name).trans (if_neg other)
  · intro name g other registered called calls eq
    exact unreferenced name g registered other (eq ▸ calls)

/-- It is also what the call comes to once the wrapper is defined. -/
theorem sameUnless_after (data : Expr.Data host.nan es vs)
    (further : capitals (String.ofList f) ≠ capitals (String.ofList w))
    (lazy : isConditional (String.ofList f) = true →
      l.registry.find? "IF" = some (Builtin.plain .choose).callable) :
    let s := ((l.add (wrapped w description f text es)).evaluator host c).setting
    Run.SameUnless (· = Run.limit) (s.call maxCallDepth (String.ofList f) vs)
      (s.call maxCallDepth (String.ofList w) []) := by
  have found : ∀ name, (l.add (wrapped w description f text es)).registry.find? name = _ :=
    l.find?_registry_add_wrapped
  refine Setting.sameUnless_wrapper (P := fun _ => True) (.of_eq rfl rfl)
    ((found _).trans (if_pos rfl)) rfl data (fun _ _ => rfl) (fun _ _ _ _ _ _ => trivial) ?_ trivial
  intro kind
  refine ((found "IF").trans (if_neg ?_)).trans (lazy kind)
  intro eq
  refine further (Eq.trans ?_ eq)
  rw [beq_iff_eq.mp kind]
  decide

/-- A formula that calls a function on data comes to what one comes to that calls
another function without arguments, if the calls do. -/
theorem outcome_eq_of_sameUnless {l' : Library} (named : isIdentifier w = true)
    (unreserved : isReserved (String.ofList w) = false)
    (parsed : Expr.ofChars (callText f text) = .ok (.call (String.ofList f) es))
    (function : isReserved (String.ofList f) = false) (data : Expr.Data host.nan es vs)
    (unbound : ∀ name ∈ (Outline.ofText (callText f text)).mentions, c.bindings.get? name = none)
    (same : Run.SameUnless (· = Run.limit)
      ((l.evaluator host c).setting.call maxCallDepth (String.ofList f) vs)
      ((l'.evaluator host c).setting.call maxCallDepth (String.ofList w) []))
    (short : ((l'.evaluator host c).evaluate (String.ofList (callText w []))).1.outcome ≠
      .error Run.limit) :
    ((l.evaluator host c).evaluate (String.ofList (callText f text))).1.outcome =
      ((l'.evaluator host c).evaluate (String.ofList (callText w []))).1.outcome := by
  have alone : ∀ name ∈ (Outline.ofText (callText w [])).mentions,
      c.bindings.get? name = none := by
    rw [mentions_callText named (Bare.nil.mark (by decide) (by decide) (by decide))]
    exact fun name hname => by cases hname
  have noData : Expr.Data host.nan [] [] := rfl
  have parsedAlone : Expr.ofChars (callText w []) = .ok (.call (String.ofList w) []) :=
    ofChars_callText named []
  have one := ((l.evaluator host c).evaluate_call rfl parsed function data unbound).1
  have other := ((l'.evaluator host c).evaluate_call rfl parsedAlone unreserved noData alone).1
  rw [other] at short
  rw [one, other]
  have whole := same.bind fun v =>
    Run.SameUnless.refl ((l'.evaluator host c).setting.finish v.splice)
  have finish : ∀ v : Value, (l.evaluator host c).setting.finish v.splice =
      (l'.evaluator host c).setting.finish v.splice := Setting.finish_splice rfl
  simp only [finish]
  exact congrArg Prod.fst (whole.from_eq short).symm

end Wrapper

/-- **A call comes to the same in a formula and in a body**, whatever has been
defined.  A function without parameters is defined with a call on plain data as
its body.  What a formula comes to that calls it is what the call comes to by
itself, before and after the definition, unless the limit of calls is reached.

The function that is called is another one, and nothing else calls the new one.
If the call is of `IF`, that is the built-in function; the name is not
`return`; and nothing that the call mentions, which can only be unquoted keys,
has a value in the context. -/
theorem outcome_wrapper (requests : List Request) (host : Host) (c : Context)
    {f w text : List Char} {es : List Expr} (description : String)
    (parsed : Expr.ofChars (callText f text) = .ok (.call (String.ofList f) es))
    (plain : ∀ e ∈ es, e.asLiteral?.isSome = true)
    (function : isReserved (String.ofList f) = false) (notReturn : f ≠ "return".toList)
    (named : isIdentifier w = true) (unreserved : isReserved (String.ofList w) = false)
    (further : capitals (String.ofList f) ≠ capitals (String.ofList w))
    (unreferenced : (after requests).Unreferenced (String.ofList w))
    (lazy : isConditional (String.ofList f) = true → (after requests).find? "IF" = none)
    (unbound : ∀ name ∈ (Outline.ofText (callText f text)).mentions, c.bindings.get? name = none) :
    ∃ l, (after requests).define (wrapper w description f text) = .ok l ∧
      let alone := (l.evaluator host c).evaluate (String.ofList (callText w []))
      alone.1.outcome ≠ .error (.callDepthExceeded maxCallDepth) →
        (((after requests).evaluator host c).evaluate (String.ofList (callText f text))).1.outcome =
          alone.1.outcome ∧
        ((l.evaluator host c).evaluate (String.ofList (callText f text))).1.outcome =
          alone.1.outcome := by
  obtain ⟨inner, items, spelled, -⟩ := exists_blocks_of_call parsed
  have compiled : (wrapper w description f text).compile = _ :=
    compile_wrapper named spelled.1 notReturn parsed
  have data := Expr.data_of_asLiteral? host.nan plain
  have builtin := fun kind => (overlaid_after requests).find?_registry_if (lazy kind)
  generalize after requests = l at *
  refine ⟨l.add (wrapped w description f text es), by rw [define, compiled]; rfl, fun short => ?_⟩
  exact ⟨outcome_eq_of_sameUnless named unreserved parsed function data unbound
      (sameUnless_before data further unreferenced builtin) short,
    outcome_eq_of_sameUnless named unreserved parsed function data unbound
      (sameUnless_after data further builtin) short⟩

/-- A sum that has the tenfold of its first argument in place of the sum. -/
def tenfold : Definition := ⟨"sum", "", ["first"], "first * 10"⟩

/-- The names that a function may call, unless it is one of the host. -/
def callNames? (f : Callable) : Option (List String) :=
  match f.body with
  | .builtin b => some b.callNames
  | .formula _ e => some e.callNames
  | .host _ => none

theorem unreferenced_of_all {l : Library} {name : String}
    (h : ∀ f ∈ l.registry.all, (callNames? f).any (capitals name ∉ ·) = true) :
    l.Unreferenced name := by
  intro other f found _ calls
  have names := h f (List.mem_map.mpr ⟨(capitals other, f),
    (Table.mem_entries_iff _ _ _).mpr found, rfl⟩)
  unfold callNames? at names
  unfold Callable.Calls at calls
  split at names <;> rename_i body <;> rw [body] at calls
  · exact of_decide_eq_true names calls
  · exact of_decide_eq_true names calls
  · cases names

/-- Arguments of which it takes the first. -/
def tenfoldArguments : List Char := "-3, [1, \x7b\"k\": null\x7d]".toList

/-- The wrapper of a call of it comes to the tenfold too. -/
theorem outcome_wrapper_tenfold : ∃ l, (after [.define tenfold]).define
      (wrapper "TOTAL".toList "" "Sum".toList tenfoldArguments) = .ok l ∧
    ((l.evaluator .still .empty).evaluate
      (String.ofList (callText "TOTAL".toList []))).1.value.splice = "(-30)".toList ∧
    (((after [.define tenfold]).evaluator .still .empty).evaluate
        (String.ofList (callText "Sum".toList tenfoldArguments))).1.outcome =
      ((l.evaluator .still .empty).evaluate
        (String.ofList (callText "TOTAL".toList []))).1.outcome ∧
    ((l.evaluator .still .empty).evaluate
        (String.ofList (callText "Sum".toList tenfoldArguments))).1.outcome =
      ((l.evaluator .still .empty).evaluate
        (String.ofList (callText "TOTAL".toList []))).1.outcome := by
  obtain ⟨f, es, parsed, shape⟩ := Expr.exists_call
    (r := Expr.ofChars (callText "Sum".toList tenfoldArguments))
    (p := fun c => c.1 == "Sum" && c.2.all fun e => e.asLiteral?.isSome) (by decide +kernel)
  simp only [Bool.and_eq_true, beq_iff_eq, List.all_eq_true] at shape
  obtain ⟨rfl, plain⟩ := shape
  have ends : (((after [.define tenfold]).define
      (wrapper "TOTAL".toList "" "Sum".toList tenfoldArguments)).toOption.any fun l =>
        ((l.evaluator .still .empty).evaluate
          (String.ofList (callText "TOTAL".toList []))).1.value.splice == "(-30)".toList) =
      true := by decide +kernel
  obtain ⟨l, accepted, rest⟩ := outcome_wrapper [.define tenfold] .still .empty
    (w := "TOTAL".toList) "" parsed plain (by decide +kernel) (by decide) (by decide +kernel)
    (by decide +kernel) (by decide +kernel) (unreferenced_of_all (by decide +kernel))
    (fun kind => absurd kind (by decide +kernel)) (fun _ _ => rfl)
  rw [accepted] at ends
  have ends := beq_iff_eq.mp ends
  refine ⟨l, accepted, ends, rest fun failed => ?_⟩
  -- a formula that fails has the value `null`
  rw [Evaluated.value, failed] at ends
  exact absurd ends (by decide)

/-- An outcome as it is shown: the encoding of the value, or the message. -/
def shown : Outcome → String
  | .ok v => String.ofList v.literal
  | .error e => e.message

/-- What a call comes to in a formula and what a wrapper of it comes to, if the
wrapper is accepted. -/
def compared (requests : List Request) (c : Context) (f text w : String) :
    Option (String × String) :=
  ((after requests).define (wrapper w.toList "" f.toList text.toList)).toOption.map fun l =>
    let outcome (chars : List Char) :=
      ((l.evaluator .still c).evaluate (String.ofList chars)).1.outcome
    (shown (outcome (callText f.toList text.toList)), shown (outcome (callText w.toList [])))

/-- The exceptions: a function in place of `IF`, or called `return`; a wrapper
whose name is no identifier of ASCII letters or is reserved; an unquoted key
that is bound. -/
theorem outcome_wrapper_exceptions :
    compared [.define ⟨"IF", "", ["a", "b", "c"], "c"⟩] .empty "IF" "true, 1, 2" "W" =
      some ("2", "1") ∧
    compared [.define ⟨"return", "", ["a"], "a * 10"⟩] .empty "return" "1" "W" =
      some ("10", "1") ∧
    compared [] .empty "ABS" "1" "ſ" = some ("1",
      "Failed to evaluate expression \"ſ()\": Parse error at position 0: " ++
        "unexpected character 'ſ'") ∧
    compared [] .empty "NOPE" "1" "true" = some ("Unknown function: NOPE",
      "Failed to evaluate expression \"true()\": Unknown function: NOPE") ∧
    compared [] ⟨.ofList [("a", .array [])], none, none⟩ "LENGTH" "\x7ba: 1\x7d" "W" =
      some ("7", "8") := by
  decide +kernel

end Library

end FormulaSheet
