import Mathlib
import FormulaSheet.Evaluator

/-!
# Libraries lie over the built-in functions

A library keeps what was defined in two tables: the definitions by themselves,
and a registry in which they stand in place of built-in functions of the same
name.  The two are updated one after the other, and a removal has to bring back
what was covered.  Whatever is defined, replaced, refused and removed, in any
order, the registry is the built-in functions with the definitions over them.

What a history leaves of a name is said without the tables, going over the
history once (`Library.latest?`).

* `Library.Overlaid` — the registry is the built-in functions and, over them,
  the definitions;
* `Library.overlaid_after` — every history leads to such a library;
* `Library.install_eq_evaluator` — it makes no difference whether an evaluator
  is made from the registry or gets the definitions afterwards;
* `Library.find?_registry_after` — what is found is what the history says.
-/

namespace FormulaSheet

/-- In capitals nothing is left to be put in capitals. -/
theorem capitals_capitals (s : String) : capitals (capitals s) = capitals s := by
  unfold capitals
  rw [String.toList_ofList, List.map_map]
  congr 2
  funext c
  exact Char.toUpper_toUpper_eq_toUpper c

/-- A built-in function is filed under its own name. -/
theorem Registry.name_of_builtins {key : String} {f : Callable}
    (h : builtins.functions.get? key = some f) : f.name = key := by
  have named : ∀ e ∈ builtins.functions.entries, e.2.name = e.1 := by decide +kernel
  exact named (key, f) ((Table.mem_entries_iff _ _ _).mpr h)

/-- What is compiled goes by the name of its definition, in capitals. -/
theorem Definition.name_of_compile {d : Definition} {f : CompiledFunction}
    (h : d.compile = .ok f) : f.definition.name = capitals d.name := by
  unfold compile at h
  split at h
  · split at h
    · cases h
    · cases parsed : Expr.ofChars (statementBody d.body.toList) with
      | error e => rw [parsed] at h; cases h
      | ok e => rw [parsed] at h; cases h; rfl
  · cases h

namespace Library

/-- What a library is asked to do. -/
inductive Request where
  | define (d : Definition)
  | remove (name : String)
  /-- Define those of the definitions that nothing is wrong with. -/
  | addAll (ds : List Definition)

/-- The library that a request leads to.  A definition that is refused leaves
it as it was. -/
def perform (l : Library) : Request → Library
  | .define d => (l.define d).toOption.getD l
  | .remove name => (l.remove name).2
  | .addAll ds => (l.addAll ds).2

/-- The library that requests lead to, one after another, from a new one. -/
def after (requests : List Request) : Library := requests.foldl perform .empty

/-- A definition compiled, if it is accepted and is one of the name, in any
case. -/
def accepted? (name : String) (d : Definition) : Option CompiledFunction :=
  if capitals d.name = capitals name then d.compile.toOption else none

/-- What is defined under a name once a request was made, if `known` was
before. -/
def Request.leaves? (name : String) (known : Option CompiledFunction) :
    Request → Option CompiledFunction
  | define d => (accepted? name d).or known
  | remove gone => if capitals gone = capitals name then none else known
  | addAll ds => (ds.reverse.findSome? (accepted? name)).or known

/-- The definition of a name that was accepted last and was not removed
since. -/
def latest? (requests : List Request) (name : String) : Option CompiledFunction :=
  requests.foldl (Request.leaves? name) none

/-- Definitions are filed under their names in capitals, and the registry is
the built-in functions with the definitions over them. -/
structure Overlaid (l : Library) : Prop where
  named : ∀ {key f}, l.functions.get? key = some f → f.definition.name = key
  capital : ∀ {key f}, l.functions.get? key = some f → capitals key = key
  registry : ∀ key, l.registry.functions.get? key =
    ((l.functions.get? key).map CompiledFunction.callable).or
      (Registry.builtins.functions.get? key)

/-- A function that was accepted is called by the name of its definition. -/
theorem name_callable {f : CompiledFunction} (capital : capitals f.definition.name =
    f.definition.name) : f.callable.name = f.definition.name := capital

/-- Where nothing is defined nothing is removed. -/
theorem remove_of_none {l : Library} {name : String} (h : l.find? name = none) :
    (l.remove name).2 = l := by
  simp [remove, h]

theorem get?_functions_remove (l : Library) (name key : String) :
    (l.remove name).2.functions.get? key =
      if key = capitals name then none else l.functions.get? key := by
  cases defined : l.find? name with
  | none =>
      rw [remove_of_none defined]
      split
      · rename_i eq
        rw [eq]
        exact defined
      · rfl
  | some f => simp [remove, defined, Table.get?_erase]

/-- A removal brings back what the built-in functions have under the name. -/
theorem get?_registry_remove {l : Library} {name : String} {f : CompiledFunction}
    (h : l.find? name = some f) (key : String) : (l.remove name).2.registry.functions.get? key =
      if key = capitals name then Registry.builtins.functions.get? key
      else l.registry.functions.get? key := by
  have look : Registry.builtins.find? (capitals name) =
      Registry.builtins.functions.get? (capitals name) := by
    rw [Registry.find?, capitals_capitals]
  simp only [remove, h, Option.isSome_some, if_true, look]
  split
  · rename_i b hb
    simp only [Registry.register, Registry.unregister, Table.get?_insert, Table.get?_erase,
      capitals_capitals, Registry.name_of_builtins hb]
    by_cases eq : key = capitals name
    · simp [eq, hb]
    · simp [eq, Ne.symm eq]
  · rename_i uncovered
    simp only [Registry.unregister, Table.get?_erase, capitals_capitals]
    by_cases eq : key = capitals name
    · simp [eq, uncovered]
    · simp [eq]

/-- A definition is accepted if it can be compiled, and then what it is compiled
to is added. -/
theorem define_eq_ok_iff {l l' : Library} {d : Definition} :
    l.define d = .ok l' ↔ ∃ f, d.compile = .ok f ∧ l.add f = l' := by
  rw [define]
  cases d.compile <;> simp [Except.map]

/-- What is added is found under its name, in any case. -/
theorem find?_add_self {l : Library} {f : CompiledFunction} {name : String}
    (h : f.definition.name = capitals name) : (l.add f).find? name = some f := by
  rw [find?, add, Table.get?_insert, if_pos h]

namespace Overlaid

variable {l : Library}

/-- A new library lies over the built-in functions. -/
theorem empty : Overlaid .empty where
  named := by rintro key f ⟨⟩
  capital := by rintro key f ⟨⟩
  registry := fun _ => rfl

/-- So does one with a function more. -/
theorem add (hl : l.Overlaid) {f : CompiledFunction}
    (capital : capitals f.definition.name = f.definition.name) : (l.add f).Overlaid where
  named := by
    intro key g h
    rw [Library.add, Table.get?_insert] at h
    split at h
    · rename_i eq
      cases h
      exact eq
    · exact hl.named h
  capital := by
    intro key g h
    rw [Library.add, Table.get?_insert] at h
    split at h
    · rename_i eq
      exact eq ▸ capital
    · exact hl.capital h
  registry := by
    intro key
    simp only [Library.add, Registry.register, name_callable capital, Table.get?_insert]
    by_cases eq : f.definition.name = key
    · simp [eq]
    · simp [eq, hl.registry key]

/-- So does one with a definition more. -/
theorem define (hl : l.Overlaid) {d : Definition} {l' : Library} (h : l.define d = .ok l') :
    l'.Overlaid := by
  obtain ⟨f, compiled, rfl⟩ := define_eq_ok_iff.mp h
  apply hl.add
  rw [Definition.name_of_compile compiled, capitals_capitals]

/-- So does one with a definition less. -/
theorem remove (hl : l.Overlaid) (name : String) : (l.remove name).2.Overlaid := by
  cases defined : l.find? name with
  | none =>
      rw [remove_of_none defined]
      exact hl
  | some f =>
      refine ⟨?_, ?_, ?_⟩
      · intro key g h
        rw [get?_functions_remove] at h
        split at h
        · cases h
        · exact hl.named h
      · intro key g h
        rw [get?_functions_remove] at h
        split at h
        · cases h
        · exact hl.capital h
      · intro key
        rw [get?_registry_remove defined, get?_functions_remove]
        by_cases eq : key = capitals name
        · simp [eq]
        · simp [eq, hl.registry key]

end Overlaid

/-- Definitions are accepted one after another, and counted from any number
on. -/
theorem foldl_define (ds : List Definition) (n : Nat) (l : Library) :
    ds.foldl (fun (n, l) d =>
      match l.define d with
      | .ok l => (n + 1, l)
      | .error _ => (n, l)) (n, l) =
    (n + ds.countP fun d => d.compile.isOk, ds.foldl (fun l d => l.perform (.define d)) l) := by
  induction ds generalizing n l with
  | nil => rfl
  | cons d ds ih =>
      rw [List.foldl_cons, List.foldl_cons, List.countP_cons]
      cases compiled : d.compile with
      | error e =>
          have refused : l.define d = .error e := by rw [define, compiled]; rfl
          simp only [refused, perform]
          exact ih n l
      | ok f =>
          have defined : l.define d = .ok (l.add f) := by rw [define, compiled]; rfl
          simp only [defined, perform]
          rw [ih, Nat.add_assoc, Nat.add_comm 1]
          rfl

/-- Importing definitions defines one after another, and counts those that are
accepted. -/
theorem addAll_eq (l : Library) (ds : List Definition) :
    l.addAll ds = (ds.countP fun d => d.compile.isOk,
      ds.foldl (fun l d => l.perform (.define d)) l) := by
  have whole := foldl_define ds 0 l
  rw [Nat.zero_add] at whole
  exact whole

/-- Every request leaves the definitions over the built-in functions. -/
theorem Overlaid.perform {l : Library} (hl : l.Overlaid) (r : Request) :
    (l.perform r).Overlaid := by
  have define : ∀ {l : Library}, l.Overlaid → ∀ d, (l.perform (.define d)).Overlaid := by
    intro l hl d
    change ((l.define d).toOption.getD l).Overlaid
    cases h : l.define d with
    | error e => exact hl
    | ok l' => exact hl.define h
  cases r with
  | define d => exact define hl d
  | remove name => exact hl.remove name
  | addAll ds =>
      rw [Library.perform, addAll_eq]
      exact List.foldlRecOn ds _ hl fun l hl d _ => define hl d

/-- **Whatever is asked of a new library, its registry is the built-in
functions with its definitions over them.** -/
theorem overlaid_after (requests : List Request) : (after requests).Overlaid :=
  List.foldlRecOn requests perform Overlaid.empty fun _ hl r _ => hl.perform r

/-- A definition that is accepted is found under its name, and under no
other. -/
theorem find?_perform_define (l : Library) (d : Definition) (name : String) :
    (l.perform (.define d)).find? name = (accepted? name d).or (l.find? name) := by
  cases compiled : d.compile with
  | error e => simp [perform, define, accepted?, compiled, Except.map, Except.toOption]
  | ok f =>
      have own := Definition.name_of_compile compiled
      simp only [perform, define, accepted?, compiled, Except.map, Except.toOption,
        Option.getD_some, find?, add, Table.get?_insert, own]
      by_cases eq : capitals d.name = capitals name <;> simp [eq]

/-- What is found after a request. -/
theorem find?_perform (l : Library) (r : Request) (name : String) :
    (l.perform r).find? name = r.leaves? name (l.find? name) := by
  cases r with
  | define d => exact l.find?_perform_define d name
  | remove gone =>
      rw [Request.leaves?, perform, find?, get?_functions_remove, find?]
      by_cases eq : capitals gone = capitals name
      · simp [eq]
      · simp [eq, Ne.symm eq]
  | addAll ds =>
      rw [Request.leaves?, perform, addAll_eq]
      dsimp only
      induction ds generalizing l with
      | nil => rfl
      | cons d ds ih =>
          rw [List.foldl_cons, ih, find?_perform_define, List.reverse_cons,
            List.findSome?_append, Option.or_assoc]
          cases h : accepted? name d <;> simp [h]

/-- What is found is what the history says. -/
theorem find?_after (requests : List Request) (name : String) :
    (after requests).find? name = latest? requests name := by
  have go : ∀ (requests : List Request) (l : Library),
      (requests.foldl perform l).find? name =
        requests.foldl (Request.leaves? name) (l.find? name) := by
    intro requests
    induction requests with
    | nil => exact fun l => rfl
    | cons r requests ih =>
        intro l
        rw [List.foldl_cons, List.foldl_cons, ih, find?_perform]
  exact go requests .empty

/-- Registering functions in an evaluator that remembers nothing registers
them in its registry. -/
theorem foldl_register (fs : List Callable) {e : Evaluator} (blank : e.memo.clear = e.memo) :
    fs.foldl Evaluator.register e =
      { e with setting := { e.setting with
        registry := fs.foldl Registry.register e.setting.registry } } := by
  induction fs generalizing e with
  | nil => rfl
  | cons f fs ih =>
      rw [List.foldl_cons, ih (e := e.register f) rfl, Evaluator.register, Evaluator.withRegistry,
        blank]
      rfl

/-- Functions that are registered one after another, each under the key that it
is filed under, hide those before. -/
theorem get?_foldl_register (r : Registry) (key : String) {es : Entries CompiledFunction}
    (asc : es.Ascending) (named : ∀ e ∈ es, e.2.callable.name = e.1) :
    ((es.map fun e => e.2.callable).foldl Registry.register r).functions.get? key =
      ((es.find? key).map CompiledFunction.callable).or (r.functions.get? key) := by
  induction es generalizing r with
  | nil => rfl
  | cons e es ih =>
      obtain ⟨k, f⟩ := e
      have own : f.callable.name = k := named (k, f) List.mem_cons_self
      rw [List.map_cons, List.foldl_cons, ih _ (List.pairwise_cons.mp asc).2
        fun e he => named e (List.mem_cons_of_mem _ he), Registry.register, own,
        Table.get?_insert, Entries.find?]
      by_cases hk : k = key
      · subst hk
        simp [Entries.find?_tail_eq_none asc]
      · simp [hk]

/-- An evaluator made from the registry of a library is one with the built-in
functions in which the library was installed. -/
theorem Overlaid.install_eq_evaluator {l : Library} (hl : l.Overlaid) (host : Host)
    (c : Context) : l.install (.create host .builtins c) = l.evaluator host c := by
  have listed : l.callables = l.functions.entries.map fun e => e.2.callable := List.map_map
  have named : ∀ e ∈ l.functions.entries, e.2.callable.name = e.1 := by
    intro e he
    have filed := (Table.mem_entries_iff _ _ _).mp he
    have own := hl.named filed
    rw [name_callable (own.symm ▸ hl.capital filed), own]
  have registry : l.callables.foldl Registry.register .builtins = l.registry := by
    have functions : (l.callables.foldl Registry.register .builtins).functions =
        l.registry.functions := by
      apply Table.ext_get?
      intro key
      rw [listed, get?_foldl_register .builtins key l.functions.ascending named, hl.registry]
      rfl
    exact congrArg Registry.mk functions
  rw [install, foldl_register l.callables rfl, evaluator]
  unfold Evaluator.create
  rw [registry]

/-- **The registry of a library is the built-in functions with what is defined
over them.**  After any requests to a new library, a look-up in any case finds
the definition of the name that was accepted last and not removed since, and
if there is none the built-in function of the name; a definition is refused
exactly if it does not compile, and then changes nothing; importing counts the
definitions that are accepted; and a formula comes to the same in an evaluator
made from the library as in a plain one in which it was installed. -/
theorem find?_registry_after (requests : List Request) :
    (∀ name, (after requests).find? name = latest? requests name ∧
      (after requests).registry.find? name =
        ((latest? requests name).map CompiledFunction.callable).or
          (Registry.builtins.find? name)) ∧
    (∀ d, ((after requests).define d).isOk = d.compile.isOk ∧
      ∀ cause, (after requests).define d = .error cause →
        (after requests).perform (.define d) = after requests) ∧
    (∀ ds, ((after requests).addAll ds).1 = ds.countP fun d => d.compile.isOk) ∧
    ∀ host c formula, ((after requests).evaluator host c).evaluate formula =
      ((after requests).install (.create host .builtins c)).evaluate formula := by
  have overlaid := overlaid_after requests
  refine ⟨?_, ?_, ?_, ?_⟩
  · intro name
    refine ⟨find?_after requests name, ?_⟩
    rw [← find?_after]
    exact overlaid.registry (capitals name)
  · intro d
    refine ⟨?_, ?_⟩
    · unfold define
      cases d.compile <;> rfl
    · intro cause refused
      rw [perform, refused]
      rfl
  · intro ds
    rw [addAll_eq]
  · intro host c formula
    rw [overlaid.install_eq_evaluator]

/-- A name is defined, defined again in another case, removed and then covered
by an import, of which one definition is refused. -/
example :
    let history : List Request :=
      [.define ⟨"abs", "", ["x"], "x"⟩, .define ⟨"Abs", "", ["x"], "-x"⟩, .remove "aBs",
        .addAll [⟨"ABS", "", [], "1"⟩, ⟨"two words", "", [], "2"⟩]]
    ((latest? history "abs").map fun f => f.definition.body) = some "1" ∧
      ((latest? (history.take 3) "abs").isNone ∧ (latest? history "two words").isNone) := by
  decide +kernel

end Library

end FormulaSheet
