import StubTree.Document.Text

/-! # Graphs of values

A value that shares its parts, or holds itself, is a place in a graph of values. Shown in a
message, a collection stands only once on every way down from where the showing starts; where it
would start again inside itself, dots stand for it.
-/

namespace StubTree

abbrev Ref := Nat

/-- Values by their places. The parts of a value are given by theirs. -/
structure Graph where
  cells : Array (Shape Ref)

namespace Graph

/-- What stands at a place; nothing stands outside the graph. -/
def cell (g : Graph) (r : Ref) : Shape Ref := g.cells.getD r .null

/-- The literal of the value at a place, inside the collections at the places `around`. A way
down holds every place at most once, so the number of places bounds its length. It has no other
limit here: what a long one takes of a stack of calls is part of what reading takes. -/
def literal? (g : Graph) : Nat → List Ref → Ref → Option String
  | 0, _, _ => none
  | fuel + 1, around, r =>
    if around.contains r then some (g.cell r).closedLiteral
    else do ((← (g.cell r).mapM? (literal? g fuel (r :: around))).literal?)

end Graph

structure SharedValue where
  graph : Graph
  place : Ref

namespace SharedValue

def shape (v : SharedValue) : Shape SharedValue :=
  (v.graph.cell v.place).map (⟨v.graph, ·⟩)

/-- The value as it would be written in a program. -/
def literal? (v : SharedValue) : Option String :=
  v.graph.literal? (v.graph.cells.size + 1) [] v.place

instance : Readable SharedValue where
  shape := shape
  literal? := literal?

end SharedValue

end StubTree
