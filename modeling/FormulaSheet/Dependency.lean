import FormulaSheet.Outline
import FormulaSheet.Table

/-!
# Dependencies

A formula depends on every variable whose name it refers to.  What depends on
what is kept as a graph on ids, which is walked in two ways: along
dependencies in search of a cycle (`Graph.cycleFrom?`), and along dependents
to find everything that a change reaches (`Graph.reached`).
-/

namespace FormulaSheet

/-- The ids of the variables that a formula refers to, in the order in which
they first occur; `names` holds the ids of names. -/
def Outline.dependencies (names : Table String) (o : Outline) : List String :=
  o.references.filterMap names.get?

/-- The ids of the variables that a formula's text refers to. -/
def dependenciesOf (names : Table String) (formula : String) : List String :=
  (Outline.ofText formula.toList).dependencies names

/-- Edges from ids to ids.  An id without an entry has no edges. -/
abbrev Graph := Table (List String)

namespace Graph

/-- The ids that an id has edges to. -/
def next (g : Graph) (id : String) : List String := (Table.get? g id).getD []

/-- How many edges there are. -/
def edgeCount (g : Graph) : Nat := (Table.values g).foldl (fun n ids => n + ids.length) 0

/-- Adds an edge, unless it is there. -/
def addEdge (g : Graph) (source target : String) : Graph :=
  if (g.next source).contains target then g
  else Table.insert g source (g.next source ++ [target])

/-- The graph with every edge turned around. -/
def inverse (g : Graph) : Graph :=
  g.entries.foldl (fun h e => e.2.foldl (fun h target => addEdge h target e.1) h) Table.empty

/-- Walks on from an id, depth first; `path` holds the ids on the way to it,
the last first, and at most `room` ids more can be entered. -/
def walk (g : Graph) : (room : Nat) → (path : List String) → String → Option (List String)
  | room, path, id =>
    if path.contains id then some (id :: path).reverse
    else
      match room, Table.get? g id with
      | room + 1, some ids => ids.findSome? (walk g room (id :: path))
      | _, _ => none

/-- A way from an id into a cycle, which ends with the id that closes it. -/
def cycleFrom? (g : Graph) (start : String) : Option (List String) :=
  g.walk (Table.size g) [] start

/-- The ids reached from those pending, and those seen before. -/
def spread (g : Graph) : (room : Nat) → (pending seen : List String) → List String
  | 0, _, seen => seen
  | _, [], seen => seen
  | room + 1, id :: pending, seen =>
    if seen.contains id then spread g room pending seen
    else spread g room (g.next id ++ pending) (id :: seen)

/-- The ids reached from an id by one or more edges. -/
def reached (g : Graph) (start : String) : List String :=
  g.spread ((g.next start).length + g.edgeCount + 1) (g.next start) []

end Graph

end FormulaSheet
