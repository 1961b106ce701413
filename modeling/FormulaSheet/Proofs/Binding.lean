import FormulaSheet.Proofs.Application
import FormulaSheet.Proofs.Orderliness
import FormulaSheet.Proofs.ReadBack
import FormulaSheet.Proofs.Rebuilding

/-!
# Arguments are bound to parameters by their places

A formula that calls a defined function on values writes them as literals,
which are cut apart, read and bound to the parameters.  The formula of the
function is evaluated in that scope, one call down, and its value is written,
spliced and read once more.  All of this leaves the values as they are, but
for the signs of negative zeros and of NaNs.  A parameter without an argument is null, and
an argument without a parameter is dropped.

* `Binds` — what it is to bind parameters by their places;
* `Evaluator.evaluate_values` — a call of any function on values;
* `Library.call_defined` — a defined function in its scope;
* `Library.outcome_call` — the formula, end to end.
-/

namespace FormulaSheet

open Run (Always)

/-- The parameters are bound to arguments by their places, those without one to
null, and nothing else is bound. -/
structure Binds (scope : Scope) (ps : List String) (vs : List Value) : Prop where
  bound : ∀ i (h : i < ps.length), scope.get? ps[i] = some (vs.getD i .null)
  unbound : ∀ name ∉ ps, scope.get? name = none

theorem bindParameters_cons (p : String) (ps : List String) (vs : List Value) :
    bindParameters (p :: ps) vs = (p, vs.headD .null) :: bindParameters ps vs.tail := by
  cases vs <;> rfl

theorem map_fst_bindParameters (ps : List String) (vs : List Value) :
    (bindParameters ps vs).map Prod.fst = ps := by
  induction ps generalizing vs with
  | nil => rfl
  | cons p ps ih => rw [bindParameters_cons, List.map_cons, ih]

theorem find?_bindParameters_of_not_mem {ps : List String} {name : String} (absent : name ∉ ps)
    (vs : List Value) : Entries.find? name (bindParameters ps vs).reverse = none := by
  refine Option.eq_none_iff_forall_ne_some.mpr fun v found => absent ?_
  have among := List.mem_reverse.mp (Entries.mem_of_find? found)
  rw [← map_fst_bindParameters ps vs]
  exact List.mem_map_of_mem among

theorem find?_bindParameters {ps : List String} (nodup : ps.Nodup) (vs : List Value) (i : Nat)
    (h : i < ps.length) :
    Entries.find? ps[i] (bindParameters ps vs).reverse = some (vs.getD i .null) := by
  induction ps generalizing vs i with
  | nil => cases h
  | cons p ps ih =>
      obtain ⟨first, others⟩ := List.nodup_cons.mp nodup
      rw [bindParameters_cons, List.reverse_cons, Entries.find?_append]
      cases i with
      | zero =>
          rw [List.getElem_cons_zero, find?_bindParameters_of_not_mem first]
          cases vs <;> simp [Entries.find?]
      | succ i =>
          rw [List.getElem_cons_succ, ih others vs.tail i (Nat.lt_of_succ_lt_succ h)]
          cases vs <;> simp

/-- Distinct parameters are bound in the scope of a call. -/
theorem binds_bindParameters {ps : List String} (nodup : ps.Nodup) (vs : List Value) :
    Binds (Table.ofList (bindParameters ps vs)) ps vs where
  bound i h := (Entries.find?_ofList _ _).trans (find?_bindParameters nodup vs i h)
  unbound _ absent := (Entries.find?_ofList _ _).trans (find?_bindParameters_of_not_mem absent vs)

/-- There is one way to bind parameters. -/
theorem Binds.unique {scope scope' : Scope} {ps : List String} {vs : List Value}
    (h : Binds scope ps vs) (h' : Binds scope' ps vs) : scope = scope' := by
  refine Table.ext_get? fun name => ?_
  by_cases among : name ∈ ps
  · obtain ⟨i, hi, rfl⟩ := List.mem_iff_getElem.mp among
    rw [h.bound i hi, h'.bound i hi]
  · rw [h.unbound name among, h'.unbound name among]

theorem Binds.ordered {scope : Scope} {ps : List String} {vs : List Value}
    (h : Binds scope ps vs) (hvs : Value.AllOrdered vs) {name : String} {v : Value}
    (found : scope.get? name = some v) : v.Ordered := by
  by_cases among : name ∈ ps
  · obtain ⟨i, hi, rfl⟩ := List.mem_iff_getElem.mp among
    rw [h.bound i hi] at found
    cases found
    exact hvs.getD i
  · rw [h.unbound name among] at found
    cases found

/-- The parameters of an accepted definition are distinct. -/
theorem Definition.nodup_of_parameterFault? {owner : String} {seen ps : List String}
    (h : parameterFault? owner seen ps = none) : ps.Nodup ∧ ∀ p ∈ ps, p ∉ seen := by
  induction ps generalizing seen with
  | nil => exact ⟨List.nodup_nil, List.forall_mem_nil _⟩
  | cons p ps ih =>
      rw [parameterFault?] at h
      split_ifs at h with invalid again
      obtain ⟨nodup, apart⟩ := ih h
      refine ⟨List.nodup_cons.mpr ⟨fun again => apart p again List.mem_cons_self, nodup⟩, ?_⟩
      refine List.forall_mem_cons.mpr ⟨by simpa using again, fun q hq among => ?_⟩
      exact apart q hq (List.mem_cons_of_mem _ among)

/-- No reserved word is in capitals. -/
theorem isReserved_eq_false_of_capitals {s : String} (h : capitals s = s) :
    isReserved s = false := by
  have lower : ∀ w ∈ reservedWords, capitals w ≠ w := by decide
  refine Bool.eq_false_iff.mpr fun reserved => ?_
  exact lower s (List.contains_iff_mem.mp reserved) h

namespace Value

/-- Values without negative zeros and other NaNs are written. -/
theorem exists_writings {vs : List Value} (ordered : AllOrdered vs)
    (plain : ∀ v ∈ vs, ∀ x ∈ v.numbers, x.float ≠ -0.0 ∧ x.Regular) :
    ∃ ws : List Writing, ws.map (·.value) = vs := by
  refine exists_map_eq fun v hv => ?_
  have legible := (ordered v hv).legible_withoutNegativeZero fun x _ => Number.readsBack
  rw [v.withoutNegativeZero_eq_self (plain v hv)] at legible
  exact legible.exists_writing

/-- What is spliced for a value is plain data with the value, negative zeros
without their sign and NaNs as they are read. -/
theorem Ordered.ofChars_splice {v : Value} (h : v.Ordered) :
    ∃ e, Expr.ofChars v.splice = .ok e ∧ e.asLiteral? = some v.withoutNegativeZero := by
  obtain ⟨p, value⟩ := (h.legible_withoutNegativeZero fun x _ => Number.readsBack).exists_patch
  have same : v.withoutNegativeZero.splice = v.splice := by
    rw [splice, splice, h.literal_withoutNegativeZero]
  have parsed := Expr.parse_textOf (spelled_alone p.spelled) (Derives.base p.derived).conditional
  rw [Expr.parse, String.toList_ofList, p.text_eq, value, same] at parsed
  exact ⟨p.tree, parsed, by rw [p.plain, value]⟩

end Value

/-- The literal of a value comes to the value without negative zeros. -/
theorem Setting.finish_splice_of_ordered (s : Setting) {v : Value} (h : v.Ordered) :
    s.finish v.splice = pure v.withoutNegativeZero := by
  obtain ⟨e, parsed, plain⟩ := h.ofChars_splice
  unfold finish
  rw [if_neg (Expr.not_blank_of_parsed parsed)]
  simp only [parsed, evaluate, Expr.evaluate_of_asLiteral? _ _ e _ plain]
  rfl

/-- Splicing what a run comes to takes the signs off its negative zeros and its
NaNs. -/
theorem Setting.from_bind_finish (s : Setting) {m : Run Value} (h : Always Value.Ordered m)
    (r : RandomSource) : Run.from (m >>= fun v => s.finish v.splice) r =
      ((Run.from m r).1.map Value.withoutNegativeZero, (Run.from m r).2) := by
  rcases run : Run.from m r with ⟨e | v, r'⟩
  · rw [Run.from_bind_error run]
    rfl
  · rw [Run.from_bind_ok run, s.finish_splice_of_ordered (h r v (by rw [run]))]
    rfl

namespace Evaluator

/-- In a new evaluator a formula that calls a function on values, none with a
negative zero or another NaN in it, makes the call and splices its value. -/
theorem evaluate_values {E : Evaluator} (fresh : E.memo.results = .empty) {f : List Char}
    (hf : isIdentifier f = true) (notReserved : isReserved (String.ofList f) = false)
    {vs : List Value} (ordered : Value.AllOrdered vs)
    (plain : ∀ v ∈ vs, ∀ x ∈ v.numbers, x.float ≠ -0.0 ∧ x.Regular) :
    let formula := String.ofList (callText f (Value.listed (vs.map Value.literal)))
    let made := Run.from (E.setting.call maxCallDepth (String.ofList f) vs >>= fun v =>
      E.setting.finish v.splice) E.memo.random
    (E.evaluate formula).1.outcome = made.1 ∧ (E.evaluate formula).2.memo.random = made.2 := by
  obtain ⟨ws, rfl⟩ := Value.exists_writings ordered plain
  have trees : (ws.map (·.tree)).filterMap Expr.asLiteral? = ws.map (·.value) := by
    rw [List.filterMap_map]
    exact List.filterMap_eq_map_iff_forall_eq_some.mpr fun w _ => w.plain
  have data : Expr.Data E.setting.host.nan (ws.map (·.tree)) (ws.map (·.value)) := by
    rw [← trees]
    refine Expr.data_of_asLiteral? _ fun e he => ?_
    obtain ⟨w, -, rfl⟩ := List.mem_map.mp he
    rw [w.plain]
    rfl
  have bare : Bare (Value.listed ((ws.map (·.value)).map Value.literal) ++ [')']) := by
    refine Bare.listed (fun t ht => ?_) (by decide) (by decide) (by decide)
    obtain ⟨v, -, rfl⟩ := List.mem_map.mp ht
    exact v.bare_literal
  have literals : (ws.map (·.value)).map Value.literal = ws.map fun w => w.value.literal :=
    List.map_map
  have parsed := ofChars_callText hf ws
  rw [← literals] at parsed
  refine E.evaluate_call fresh parsed notReserved data fun name mentioned => ?_
  rw [mentions_callText hf bare] at mentioned
  cases mentioned

end Evaluator

namespace Library

variable {requests : List Request} {name : String} {f : CompiledFunction}

/-- A function that was defined is registered, under its name in capitals. -/
theorem find?_registry_of_defined (found : (after requests).find? name = some f) :
    (after requests).registry.find? f.definition.name = some f.callable ∧
      capitals f.definition.name = f.definition.name := by
  have overlaid := overlaid_after requests
  have named := overlaid.named found
  have capital : capitals f.definition.name = f.definition.name := by
    rw [named, capitals_capitals]
  refine ⟨?_, capital⟩
  have covered := overlaid.registry (capitals name)
  rw [show (after requests).functions.get? (capitals name) = some f from found] at covered
  rw [Registry.find?, capital, named]
  exact covered

/-- A call of a defined function is the evaluation of its formula, one call
down, with the arguments bound to its parameters. -/
theorem call_defined (host : Host) (c : Context) (found : (after requests).find? name = some f)
    (vs : List Value) :
    ∃ scope, Binds scope f.definition.parameters vs ∧
      let setting := ((after requests).evaluator host c).setting
      setting.call maxCallDepth f.definition.name vs =
        f.body.evaluate (setting.call (maxCallDepth - 1)) scope := by
  obtain ⟨-, parameters, -⟩ := Definition.compile_eq_ok_iff.mp (compile_of_find?_after found)
  obtain ⟨nodup, -⟩ := Definition.nodup_of_parameterFault? parameters
  refine ⟨_, binds_bindParameters nodup vs, ?_⟩
  have registered : ((after requests).evaluator host c).setting.registry.find?
      f.definition.name = some f.callable := (find?_registry_of_defined found).1
  rw [maxCallDepth]
  dsimp only
  rw [Setting.call_succ, registered]
  rfl

/-- **A call of a defined function binds its arguments by their places, end to
end.**  A formula calls the function by its name, in ASCII letters, digits and
underscores, on the literals of values without negative zeros and NaNs other
than the one that is read.  It comes to what the formula of the function comes
to one call down, where the parameters are bound to the values, and to null
beyond them: to its value, negative zeros without their sign and NaNs as they
are read, or to its error. -/
theorem outcome_call (requests : List Request) (host : Host) (c : Context) {name : String}
    {f : CompiledFunction} (found : (after requests).find? name = some f)
    (ascii : ∀ ch ∈ f.definition.name.toList, isNamePart ch = true) {vs : List Value}
    (ordered : ∀ v ∈ vs, v.Ordered)
    (plain : ∀ v ∈ vs, ∀ x ∈ v.numbers, x.float ≠ -0.0 ∧ x.Regular) :
    ∃ scope, Binds scope f.definition.parameters vs ∧
      let E := (after requests).evaluator host c
      let formula := callText f.definition.name.toList (Value.listed (vs.map Value.literal))
      let evaluated := E.evaluate (String.ofList formula)
      let made := Run.from (f.body.evaluate (E.setting.call (maxCallDepth - 1)) scope)
        E.memo.random
      evaluated.1.outcome = made.1.map Value.withoutNegativeZero ∧
        evaluated.2.memo.random = made.2 := by
  obtain ⟨scope, binds, called⟩ := call_defined host c found vs
  refine ⟨scope, binds, ?_⟩
  obtain ⟨isName, -, e, parsed, compiled⟩ :=
    Definition.compile_eq_ok_iff.mp (compile_of_find?_after found)
  rw [← String.ofList_toList (s := f.definition.name)] at isName
  have identifier := isIdentifier_iff.mpr ⟨isName, ascii⟩
  have notReserved := isReserved_eq_false_of_capitals (find?_registry_of_defined found).2
  rw [← String.ofList_toList (s := f.definition.name)] at notReserved
  have ordinary : Always Value.Ordered (f.body.evaluate
      (((after requests).evaluator host c).setting.call (maxCallDepth - 1)) scope) := by
    refine Expr.ordered_evaluate (ordered_call requests host c _)
      (fun _ _ => binds.ordered ordered) f.body ?_
    rw [compiled]
    exact Expr.ordered_of_parsed parsed
  have evaluated := ((after requests).evaluator host c).evaluate_values rfl identifier notReserved
    ordered plain
  rwa [String.ofList_toList, called, Setting.from_bind_finish _ ordinary] at evaluated

/-- A function that gives its arguments back from the last to the first, with a
negative zero among them. -/
def turned : Definition :=
  ⟨"Turned_3", "", ["first", "second", "third"], "return [third, second, 0 * -1, first];"⟩

/-- One argument less than it has parameters. -/
def turnedArguments : List Value :=
  [.number (-2.5), .array [.object [("true", .text "a, b"), ("two words", .null)], .array []]]

theorem ordered_turnedArguments : ∀ v ∈ turnedArguments, v.Ordered := by
  simp only [turnedArguments, List.forall_mem_cons, List.not_mem_nil, false_implies, implies_true,
    and_true, Value.ordered_array_iff, Value.ordered_object_iff, Value.Ordered.null,
    Value.Ordered.number, Value.Ordered.text]
  decide

/-- The third parameter is null, and the negative zero comes back as zero. -/
theorem outcome_call_turned : ∃ f scope, (after [.define turned]).find? "turned_3" = some f ∧
    Binds scope turned.parameters turnedArguments ∧
    let E := (after [.define turned]).evaluator .still .empty
    let formula := callText "TURNED_3".toList (Value.listed (turnedArguments.map Value.literal))
    let evaluated := E.evaluate (String.ofList formula)
    let made := Run.from (f.body.evaluate (E.setting.call (maxCallDepth - 1)) scope) E.memo.random
    evaluated.1.value.literal =
      "[null, [\x7b\"true\": \"a, b\", \"two words\": null\x7d, []], 0, -2.5]".toList ∧
    evaluated.1.outcome = made.1.map Value.withoutNegativeZero ∧
      evaluated.2.memo.random = made.2 := by
  have accepted : ((after [.define turned]).find? "turned_3").map
      (fun f => (f.definition.name, f.definition.parameters)) =
        some ("TURNED_3", turned.parameters) := by decide +kernel
  obtain ⟨f, found, stored⟩ := Option.map_eq_some_iff.mp accepted
  obtain ⟨name, parameters⟩ := Prod.mk.inj stored
  have called := outcome_call [.define turned] .still .empty found
    (by rw [name]; exact List.all_eq_true.mp rfl) ordered_turnedArguments (by decide +kernel)
  rw [name, parameters] at called
  obtain ⟨scope, binds, outcome⟩ := called
  exact ⟨f, scope, found, binds, by decide +kernel, outcome⟩

/-- A function that sorts its argument into a list. -/
def ranked : Definition := ⟨"RANKED", "", ["loss"], "SORT([1, loss])"⟩

/-- The literal of a NaN has no sign, so a formula passes on another NaN than is
bound in the body, where the one with a sign comes before the number. -/
theorem outcome_call_ranked : ∃ f scope, (after [.define ranked]).find? "RANKED" = some f ∧
    f.definition.name = "RANKED" ∧
    let loss : Value := .number (-.of Number.nan)
    Binds scope f.definition.parameters [loss] ∧ (∀ x ∈ loss.numbers, x.float ≠ -0.0) ∧
    let E := (after [.define ranked]).evaluator .still .empty
    let formula := callText "RANKED".toList (Value.listed [loss.literal])
    let made := Run.from (f.body.evaluate (E.setting.call (maxCallDepth - 1)) scope) E.memo.random
    (E.evaluate (String.ofList formula)).1.outcome.toOption.map Value.toText = some "1,NaN" ∧
      made.1.toOption.map Value.toText = some "NaN,1" := by
  let scope : Scope := .ofList (bindParameters ["loss"] [.number (-.of Number.nan)])
  have checked : (((after [.define ranked]).find? "RANKED").any fun f =>
      f.definition = { ranked with name := "RANKED" } ∧
        let E := (after [.define ranked]).evaluator .still .empty
        (Run.from (f.body.evaluate (E.setting.call (maxCallDepth - 1)) scope)
          E.memo.random).1.toOption.map Value.toText = some "NaN,1") = true := by decide +kernel
  obtain ⟨f, found, both⟩ := (Option.any_eq_true _ _).mp checked
  obtain ⟨stored, made⟩ := of_decide_eq_true both
  have binds : Binds scope ["loss"] [.number (-.of Number.nan)] :=
    binds_bindParameters (by decide) _
  exact ⟨f, scope, found, by rw [stored], by rw [stored]; exact binds, by decide +kernel,
    by decide +kernel, made⟩

end Library

end FormulaSheet
