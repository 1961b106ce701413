import FormulaSheet.Proofs.Freshness
import FormulaSheet.Proofs.Innermost
import FormulaSheet.Proofs.RoundTrip

/-!
# Resolving calls on the text agrees with the tree

An evaluator never evaluates the tree of a formula as it stands.  It resolves
calls on the text, innermost first, and puts the literal of each result in the
place of the call.  Where every call of a formula is answered without a draw
and by a value that reads back, this comes to what evaluating the tree comes
to.

The invariant is that the text parses to a tree that yields the value of the
formula.  One step keeps it: the call is found by `Outline.innermost_textOf`,
its arguments by `splitArguments_textOf`, and the literal, a primary, takes
its place by `Parser.focused_of_parseTokens`.

* `Setting.Comes` — the invariant;
* `Setting.Comes.resolveOne` — a step keeps it;
* `Setting.Comes.steady` — what a text comes to;
* `Evaluator.outcome_evaluateWith_empty` — an evaluator and the tree.
-/

namespace FormulaSheet

/-- A patch takes the place of a call in a spelled text. -/
theorem Spelled.exchange {w : List Char} {front rest back : List Block} (p : Patch)
    (h : Spelled (front ++ .name w :: rest)) (hback : Spelled back)
    (ends : EndsWord (Block.textOf back)) : Spelled (front ++ (p.blocks ++ back)) := by
  induction front with
  | nil => exact p.spelled back hback ends
  | cons b front ih =>
      obtain ⟨hvalid, hfits, hfront⟩ := h
      have fits : b.Fits (Block.textOf (front ++ .name w :: rest)) := hfits
      have kept : b.Fits (Block.textOf (front ++ (p.blocks ++ back))) := by
        cases front with
        | nil =>
            rw [List.nil_append, Block.textOf_append]
            exact fits.patch hfront.1 p _
        | cons c front => exact fits.behind hfront.1 _
      exact ⟨hvalid, kept, ih hfront⟩

namespace Setting

/-- The answers of calls that come from the source `r` without a draw, and
read back where they are spliced into a text. -/
def answers (s : Setting) (r : RandomSource) : Answers where
  answer f vs v := Run.from (s.call maxCallDepth f vs) r = (.ok v, r) ∧ v.Legible
  nan := s.host.nan

/-- A text parses to a tree that yields a value. -/
def Comes (s : Setting) (r : RandomSource) (text : List Char) (v : Value) : Prop :=
  ∃ e, Expr.ofChars text = .ok e ∧ e.Yields (s.answers r) v

variable {s : Setting} {r : RandomSource}

/-- Where `IF` is the built-in function, a call of it comes to the value that it
chooses. -/
theorem from_call_conditional
    (builtin : s.registry.find? "IF" = some (Builtin.plain .choose).callable) {f : String}
    (choosing : isConditional f = true) (room : Nat) (vs : List Value) (r : RandomSource) :
    Run.from (s.call (room + 1) f vs) r =
      (.ok (if (Arguments.value vs 0).isTruthy then Arguments.value vs 1
        else Arguments.value vs 2), r) := by
  have found : s.registry.find? f = some (Builtin.plain .choose).callable := by
    have same : capitals f = capitals "IF" := by
      rw [beq_iff_eq.mp choosing]
      decide
    rw [← builtin, Registry.find?, Registry.find?, same]
  rw [call_succ, found]
  rfl

/-- Calls serve their answers, where `IF` is the built-in function. -/
theorem serves (builtin : s.registry.find? "IF" = some (Builtin.plain .choose).callable)
    (r : RandomSource) : Expr.Serves (s.call maxCallDepth) r (s.answers r) where
  nan := s.nan_call maxCallDepth
  from_call := fun answer => answer.1
  choice := by
    intro f vs v choosing answer
    have both := (from_call_conditional builtin choosing 127 vs r).symm.trans answer.1
    exact (Except.ok.inj (Prod.mk.inj both).1).symm

/-- The value of an argument is what its tokens yield. -/
theorem from_argument {answers : Answers} (serves : Expr.Serves (s.call maxCallDepth) r answers)
    {part : List Block} (h : Spelled part) {e : Expr} {v : Value}
    (derived : Derives .conditional (Block.tokens part) e) (yields : e.Yields answers v) :
    Run.from (s.argument (Character.trim (Block.textOf part))) r = (.ok v, r) := by
  have parsed := h.ofChars_trim derived
  have value := yields.evaluate serves .empty
  unfold argument
  simp only [parsed]
  cases plain : e.asLiteral? with
  | some w =>
      rw [Expr.evaluate_of_asLiteral? _ _ e w plain] at value
      exact value
  | none =>
      show Run.from (tryCatch (s.evaluate .empty e) _) r = _
      rw [Run.from_tryCatch, evaluate, value]

/-- The values of arguments are what their tokens yield. -/
theorem from_arguments {answers : Answers} (serves : Expr.Serves (s.call maxCallDepth) r answers)
    {items : List ItemPhrase} (hitems : ∀ i ∈ items, Derives .conditional i.tokens i.tree)
    {parts : List (List Block)} (hparts : ∀ part ∈ parts, Spelled part)
    (eq : parts.map Block.tokens = items.map ItemPhrase.tokens) {vs : List Value}
    (yields : Expr.YieldsItems answers (items.map ItemPhrase.tree) vs) :
    Run.from ((parts.map fun part => Character.trim (Block.textOf part)).mapM s.argument) r =
      (.ok vs, r) := by
  induction items generalizing parts vs with
  | nil =>
      obtain rfl : parts = [] := by simpa using eq
      cases yields
      rfl
  | cons i items ih =>
      cases parts with
      | nil => cases eq
      | cons part parts =>
          obtain ⟨hpart, heq⟩ := List.cons.inj eq
          obtain ⟨w, ws, hw, hws, rfl⟩ := yields
          have first := from_argument serves (hparts part List.mem_cons_self)
            (by rw [hpart]; exact hitems i List.mem_cons_self) hw
          have rest := ih (fun j hj => hitems j (List.mem_cons_of_mem _ hj))
            (fun p hp => hparts p (List.mem_cons_of_mem _ hp)) heq hws
          rw [List.map_cons, List.mapM_cons, Run.from_bind_ok first, Run.from_bind_ok rest]
          rfl

namespace Comes

variable {text : List Char} {v : Value}

/-- Resolving one call keeps what a text comes to. -/
theorem resolveOne (serves : Expr.Serves (s.call maxCallDepth) r (s.answers r))
    (h : s.Comes r text v) :
    Run.from (s.resolveOne text) r = (.ok none, r) ∨
      ∃ next, Run.from (s.resolveOne text) r = (.ok (some next), r) ∧ s.Comes r next v := by
  obtain ⟨e, hparsed, yields⟩ := h
  obtain ⟨bs, spelled, rfl, parsed⟩ := Expr.ofChars_eq_ok_iff.mp hparsed
  unfold Setting.resolveOne
  rcases Outline.innermost_textOf spelled (Parser.closed_of_parseTokens parsed) with
    none | ⟨site, front, gap, inner, back, found, cuts⟩
  · left
    rw [none]
    rfl
  · right
    have tokens_eq : Block.tokens bs = Block.tokens front ++ .name (String.ofList site.name) ::
        .symbol .openParen :: (Block.tokens inner ++ .symbol .closeParen :: Block.tokens back) := by
      rw [cuts.blocks_eq]
      simp [cuts.tokens_gap]
    obtain ⟨items, post, C, hrest, hitems, rfl, hole, exchange⟩ :=
      Parser.focused_of_parseTokens parsed tokens_eq
    obtain ⟨hinner, rfl⟩ := cuts.neutral.closing_unique (neutral_joined hitems) hrest
    obtain ⟨w, ⟨vs, hvs, answer⟩, keep⟩ := hole _ _ _ yields
    obtain ⟨p, rfl⟩ := answer.2.exists_patch
    rw [cuts.blocks_eq] at spelled
    have hinnerSpelled : Spelled inner := spelled.back.2.2.back.2.2.front
    have hback : Spelled back := spelled.back.2.2.back.2.2.back.2.2
    obtain ⟨parts, hparts, hpartsSpelled, hsplit⟩ :=
      splitArguments_textOf hitems hinnerSpelled hinner
    have arguments := from_arguments serves hitems hpartsSpelled hparts hvs
    -- whatever primary stands for the call, the tokens behind it begin with a symbol
    have ends : EndsWord (Block.textOf back) := by
      have apart := Parser.separated_of_parseTokens (exchange _ _ (.number 0))
      rw [List.append_assoc] at apart
      exact hback.endsWord (by simp) (List.isChain_append.mp apart).2.1
    refine ⟨Block.textOf (front ++ (p.blocks ++ back)), ?_, C p.tree, ?_, ?_⟩
    · rw [found]
      show Run.from (_ >>= _) r = _
      rw [cuts.text_inner, hsplit, Run.from_bind_ok arguments, Run.from_bind_ok answer.1]
      simp [CallSite.replace, cuts.text_before, cuts.text_after, p.text_eq]
    · have spelled' := spelled.exchange p hback ends
      refine Expr.ofChars_eq_ok_iff.mpr ⟨_, spelled', rfl, ?_⟩
      have parsed' := exchange _ _ p.derived
      rw [List.append_assoc] at parsed'
      simpa using parsed'
    · exact keep _ (Expr.yields_of_asLiteral? _ _ _ p.plain)

/-- Resolving calls keeps what a text comes to, however many are resolved. -/
theorem resolveFrom (serves : Expr.Serves (s.call maxCallDepth) r (s.answers r))
    (h : s.Comes r text v) (room : Nat) :
    ∃ last, Run.from (s.resolveFrom room text) r = (.ok last, r) ∧ s.Comes r last v := by
  induction room generalizing text with
  | zero => exact ⟨text, rfl, h⟩
  | succ room ih =>
      rw [Setting.resolveFrom]
      rcases h.resolveOne serves with done | ⟨next, step, hnext⟩
      · exact ⟨text, by rw [Run.from_bind_ok done]; rfl, h⟩
      · obtain ⟨last, rest, hlast⟩ := ih hnext
        exact ⟨last, by rw [Run.from_bind_ok step]; exact rest, hlast⟩

/-- The value of a text is what it comes to. -/
theorem finish (serves : Expr.Serves (s.call maxCallDepth) r (s.answers r))
    (h : s.Comes r text v) : Run.from (s.finish text) r = (.ok v, r) := by
  obtain ⟨e, hparsed, yields⟩ := h
  unfold Setting.finish
  rw [if_neg (Expr.not_blank_of_parsed hparsed)]
  simp only [hparsed]
  rw [Run.from_tryCatch, evaluate, yields.evaluate serves]

/-- A text is steady with what it comes to. -/
theorem steady (serves : Expr.Serves (s.call maxCallDepth) r (s.answers r))
    (h : s.Comes r text v) : s.Steady text (.ok v) := by
  obtain ⟨last, resolved, hlast⟩ := h.resolveFrom serves (callBound text)
  have reduced : Run.from (s.reduce text) r = (.ok v, r) := by
    unfold reduce resolve
    rw [Run.from_bind_ok resolved]
    exact hlast.finish serves
  have quiet : s.Steady text (Run.from (s.reduce text) r).1 := steady_of_drawn (by rw [reduced])
  rwa [reduced] at quiet

end Comes

end Setting

namespace Expr

/-- The body of a formula parses to the formula's tree. -/
theorem ofChars_formulaBody {cs : List Char} {e : Expr} (h : ofChars cs = .ok e) :
    ofChars (formulaBody cs) = .ok e := by
  obtain ⟨bs, spelled, rfl, parsed⟩ := ofChars_eq_ok_iff.mp h
  obtain ⟨core, hcore, htext, htokens⟩ := spelled.exists_trimmed
  obtain ⟨body, hbody, htext', htokens'⟩ := hcore.exists_trimmed
  rw [← htokens] at parsed
  have head : ∀ s rest, Block.tokens core = .symbol s :: rest → s.BeginsPhrase := by
    intro s rest eq
    rw [eq] at parsed
    exact Parser.head_symbol_of_parseTokens parsed
  have notEquals : ∀ more, Character.trim (Block.textOf bs) ≠ '=' :: more := by
    intro more eq
    rw [← htext] at eq
    exact (hcore.head_ne head eq).1 rfl
  have trimmed : formulaBody (Block.textOf bs) = Block.textOf body := by
    unfold formulaBody
    split
    · rename_i more eq
      exact absurd eq (notEquals more)
    · rw [htext', htext]
  rw [trimmed]
  exact ofChars_eq_ok_iff.mpr ⟨body, hbody, rfl, by rw [htokens']; exact parsed⟩

end Expr

/-- Where nothing that is mentioned has a value, the text stays as it is. -/
theorem Outline.textWith_of_unbound {value? : String → Option Value} {o : Outline}
    (h : ∀ name ∈ o.mentions, value? name = none) : o.textWith value? = o.text := by
  have quiet : o.textWith value? = o.textWith fun _ => none := textWith_congr h
  rw [quiet]
  clear h quiet
  induction o with
  | nil => rfl
  | cons p ps ih =>
      have rest : Outline.text (p :: ps) = p.text ++ Outline.text ps := List.flatMap_cons
      rw [rest, ← ih]
      cases p <;> rfl

/-- Without variables a spelled text stays as it is. -/
theorem Spelled.substituteTable_empty {bs : List Block} (h : Spelled bs) :
    ((Outline.ofText (Block.textOf bs)).substituteTable .empty).1 = Block.textOf bs := by
  rw [Outline.fst_substituteTable,
    Outline.textWith_of_unbound (fun name _ => Table.get?_empty name), h.outline,
    Block.text_outline]

namespace Evaluator

/-- The evaluators that come about: one is made new, concludes what its
formulas come to, and is changed, while the host's clock moves on. -/
inductive Arises : Evaluator → Prop
  | create (host : Host) (registry : Registry) (c : Context) : Arises (.create host registry c)
  | conclude {E : Evaluator} (text : List Char) : Arises E →
      Arises { E with memo := (E.setting.conclude text E.memo).2 }
  | clear {E : Evaluator} : Arises E → Arises E.clear
  | update {E : Evaluator} (u : ContextUpdate) : Arises E → Arises (E.update u)
  | withRegistry {E : Evaluator} (registry : Registry) : Arises E →
      Arises (E.withRegistry registry)
  | wait {E : Evaluator} (clock : Float) : Arises E →
      Arises { E with setting := E.setting.atClock clock }

/-- An evaluator that was given its time remembers nothing wrong. -/
theorem Arises.sound {E : Evaluator} (h : E.Arises) (timed : E.setting.currentTime.isSome = true) :
    E.memo.Sound E.setting := by
  have empty : ∀ (s : Setting) (m : Memo), m.results = .empty → m.Sound s := by
    intro s m none key outcome outcome' _ held
    rw [none] at held
    cases held
  induction h with
  | create host registry c => exact empty _ _ rfl
  | conclude text _ ih => exact (ih timed).conclude text
  | clear _ _ => exact empty _ _ rfl
  | update u _ _ =>
      exact empty _ _ (Evaluator.results_update _ u)
  | withRegistry registry _ _ => exact empty _ _ rfl
  | @wait E clock _ ih =>
      have timed' : E.setting.currentTime.isSome = true := timed
      intro key outcome outcome' steady held
      refine ih timed' _ _ _ ?_ held
      intro r
      rw [← Setting.reduce_congr (Setting.call_atClock timed' clock maxCallDepth)]
      exact steady r

/-- **The text and the tree agree.**  An evaluator without variables, which
resolves the calls of a formula on its text, comes to what evaluation of its
tree comes to.  The formula has no names, `IF` is the built-in function, and
every call in the tree succeeds without a draw once its arguments have values,
also where evaluation skips it, with a value that reads back. -/
theorem Arises.outcome_evaluateWith_empty {E : Evaluator} (arises : E.Arises)
    (timed : E.setting.currentTime.isSome = true)
    (builtin : E.setting.registry.find? "IF" = some (Builtin.plain .choose).callable)
    {formula : String} {e : Expr} (parsed : Expr.parse formula = .ok e)
    (nameless : ∀ s, Expr.name s ∉ e.subterms)
    (answered : ∀ f args, Expr.call f args ∈ e.subterms → ∀ vs,
      Run.from (Expr.evaluateItems (E.setting.call maxCallDepth) .empty [] args) E.memo.random =
        (.ok vs, E.memo.random) →
      ∃ v, Run.from (E.setting.call maxCallDepth f vs) E.memo.random = (.ok v, E.memo.random) ∧
        v.Legible) :
    ∃ v, (E.evaluateWith .empty formula).1.outcome = .ok v ∧
      Run.from (E.setting.evaluate .empty e) E.memo.random = (.ok v, E.memo.random) := by
  have serves := Setting.serves builtin E.memo.random
  obtain ⟨v, yields⟩ : ∃ v, e.Yields (E.setting.answers E.memo.random) v := by
    refine Expr.exists_yields e fun t ht => ?_
    cases t with
    | name s => exact nameless s ht
    | call f args =>
        intro vs hvs
        exact answered f args ht vs (Expr.YieldsItems.evaluate serves .empty args vs [] hvs)
    | _ => trivial
  refine ⟨v, ?_, yields.evaluate serves .empty⟩
  have body := Expr.ofChars_formulaBody parsed
  obtain ⟨bs, spelled, text_eq, -⟩ := Expr.ofChars_eq_ok_iff.mp body
  have comes : E.setting.Comes E.memo.random (formulaBody formula.toList) v := ⟨e, body, yields⟩
  obtain ⟨concluded, -⟩ := Setting.conclude_steady (arises.sound timed) (comes.steady serves)
  unfold evaluateWith
  dsimp only
  rw [← text_eq, spelled.substituteTable_empty, text_eq]
  exact concluded

end Evaluator

/-- Whether a tree has no names and all its calls are answered from `r` without a
draw, with values of which `P` holds. -/
def Setting.resolves (s : Setting) (r : RandomSource) (P : Value → Prop) [DecidablePred P]
    (e : Expr) : Bool :=
  e.subterms.all fun t =>
    match t with
    | .name _ => false
    | .call f args =>
      match Run.from (Expr.evaluateItems (s.call maxCallDepth) .empty [] args) r with
      | (.ok vs, _) =>
        match Run.from (s.call maxCallDepth f vs) r with
        | (.ok v, after) => after = r ∧ P v
        | _ => false
      | _ => true
    | _ => true

theorem Setting.resolves_spec {s : Setting} {r : RandomSource} {P : Value → Prop}
    [DecidablePred P] {e : Expr} (h : s.resolves r P e = true) :
    (∀ name, Expr.name name ∉ e.subterms) ∧ ∀ f args, Expr.call f args ∈ e.subterms → ∀ vs,
      Run.from (Expr.evaluateItems (s.call maxCallDepth) .empty [] args) r = (.ok vs, r) →
      ∃ v, Run.from (s.call maxCallDepth f vs) r = (.ok v, r) ∧ P v := by
  have each := List.all_eq_true.mp h
  refine ⟨?_, ?_⟩
  · intro name hname
    cases each _ hname
  · intro f args hcall vs hvs
    have answer := each _ hcall
    simp only [hvs] at answer
    split at answer
    · rename_i v after hv
      obtain ⟨same, holds⟩ := of_decide_eq_true answer
      exact ⟨v, by rw [hv, same], holds⟩
    · cases answer

/-- An evaluator with the built-in functions, whose time stands still. -/
def stillEvaluator : Evaluator :=
  .create .still .builtins { Context.empty with currentTime := some 0 }

/-- A choice with a negative number for a call, and with a call that evaluation
skips. -/
def remainder : String := "IF(COUNT([1, 2]) > 1, 10 - SUM(-2, -1), UPPER('x('))"

/-- The text and the tree of a formula with a negative result in it, and with a
branch that is not chosen. -/
theorem outcome_remainder : ∃ e, Expr.parse remainder = .ok e ∧
    ∃ v, (stillEvaluator.evaluateWith .empty remainder).1.outcome = .ok v ∧
      Run.from (stillEvaluator.setting.evaluate .empty e) stillEvaluator.memo.random =
        (.ok v, stillEvaluator.memo.random) := by
  have checked : ((Expr.parse remainder).toOption.any fun e =>
        stillEvaluator.setting.resolves stillEvaluator.memo.random Value.Legible e) = true := by
    decide +kernel
  have arises : stillEvaluator.Arises := .create _ _ _
  have timed : stillEvaluator.setting.currentTime.isSome = true := rfl
  have builtin : stillEvaluator.setting.registry.find? "IF" =
      some (Builtin.plain .choose).callable := rfl
  obtain ⟨e, parsed, resolved⟩ := exists_ok_of_any checked
  obtain ⟨nameless, answered⟩ := Setting.resolves_spec resolved
  exact ⟨e, parsed, arises.outcome_evaluateWith_empty timed builtin parsed nameless answered⟩

/-- A list with a NaN that was negated, sorted twice. -/
def sortedTwice : String := "SORT(SORT([1, -NaN]))"

/-- The text and the tree disagree where a NaN has a sign: the list of the inner
call has it in front, but its text has a NaN without a sign, which is sorted
behind the number.  No call in the formula gives a negative zero. -/
theorem outcome_sortedTwice : ∃ e, Expr.parse sortedTwice = .ok e ∧
    (∀ s, Expr.name s ∉ e.subterms) ∧
    (∀ f args, Expr.call f args ∈ e.subterms → ∀ vs,
      Run.from (Expr.evaluateItems (stillEvaluator.setting.call maxCallDepth) .empty [] args)
          stillEvaluator.memo.random = (.ok vs, stillEvaluator.memo.random) →
      ∃ v, Run.from (stillEvaluator.setting.call maxCallDepth f vs) stillEvaluator.memo.random =
          (.ok v, stillEvaluator.memo.random) ∧ ∀ x ∈ v.numbers, x.float ≠ -0.0) ∧
    (stillEvaluator.evaluateWith .empty sortedTwice).1.outcome.toOption.map Value.toText =
      some "1,NaN" ∧
    (Run.from (stillEvaluator.setting.evaluate .empty e)
      stillEvaluator.memo.random).1.toOption.map Value.toText = some "NaN,1" := by
  have checked : ((Expr.parse sortedTwice).toOption.any fun e =>
      stillEvaluator.setting.resolves stillEvaluator.memo.random
        (fun v => ∀ x ∈ v.numbers, x.float ≠ -0.0) e &&
      (Run.from (stillEvaluator.setting.evaluate .empty e)
        stillEvaluator.memo.random).1.toOption.map Value.toText == some "NaN,1") = true := by
    decide +kernel
  obtain ⟨e, parsed, both⟩ := exists_ok_of_any checked
  obtain ⟨resolved, sorted⟩ := Bool.and_eq_true_iff.mp both
  obtain ⟨nameless, answered⟩ := Setting.resolves_spec resolved
  exact ⟨e, parsed, nameless, answered, by decide +kernel, beq_iff_eq.mp sorted⟩

end FormulaSheet
