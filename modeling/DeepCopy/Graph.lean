-- The objects that can be reached from values, nearest first.
import DeepCopy.Heap

namespace DeepCopy.Heap

/-- The objects that values refer to, in order. -/
def refs (vs : List Value) : List ObjectId := vs.filterMap Value.object?

/-- Visits the first waiting object that was not seen, and lets those it refers to wait behind the
others. Each turn sees one more object. -/
def visit (h : Heap) : (turns : Nat) → (seen waiting : List ObjectId) → List ObjectId
  | 0, seen, _ => seen
  | turns + 1, seen, waiting =>
    match waiting.dropWhile fun o => seen.contains o with
    | [] => seen
    | o :: rest => visit h turns (seen ++ [o]) (rest ++ refs (h.body o).values)

/-- The objects that can be reached from a value, breadth first. -/
def breadthFirst (h : Heap) (v : Value) : List ObjectId := h.visit h.size [] (refs [v])

end DeepCopy.Heap
