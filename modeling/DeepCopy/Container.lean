-- The contents of built-in containers: lists, sets and maps by the entries they
-- hold, and calendars by the moment they show.
import DeepCopy.Assoc
import DeepCopy.Key

namespace DeepCopy

/-- A moment with the offset from universal time at which it is shown. -/
structure Moment where
  /-- Seconds since the beginning of 1970, universal time. -/
  seconds : Int
  nanoseconds : Nat
  offsetSeconds : Int
deriving DecidableEq, Repr

/-- The kinds of built-in containers. -/
inductive Container.Kind where
  | arrayList | linkedList | hashSet | hashMap | treeMap | calendar
deriving DecidableEq, Repr

/-- The contents of a container. Sets and hash maps keep their entries in the order in which the
keys first came, tree maps in key order. -/
inductive Container where
  | list (items : List Value)
  | linked (items : List Value)
  | hashSet (keys : List Key)
  | hashMap (entries : Assoc Key Value)
  | treeMap (entries : Assoc Key Value)
  | calendar (moment : Moment)
deriving DecidableEq, Repr

namespace Container

namespace Kind

/-- All kinds, in the order in which a registry has their classes. -/
def all : List Kind := [arrayList, linkedList, hashSet, hashMap, treeMap, calendar]

/-- The name of the class of a kind. -/
def className : Kind → String
  | arrayList => "ArrayList"
  | linkedList => "LinkedList"
  | hashSet => "HashSet"
  | hashMap => "HashMap"
  | treeMap => "TreeMap"
  | calendar => "Calendar"

/-- The kind of a class name. -/
def ofClassName? (name : String) : Option Kind := all.find? fun k => k.className == name

end Kind

/-- The container of a kind with nothing in it. A calendar shows the beginning of 1970. -/
def empty : Kind → Container
  | .arrayList => list []
  | .linkedList => linked []
  | .hashSet => hashSet []
  | .hashMap => hashMap []
  | .treeMap => treeMap []
  | .calendar => calendar ⟨0, 0, 0⟩

/-- The kind of a container. -/
def kind : Container → Kind
  | list _ => .arrayList
  | linked _ => .linkedList
  | hashSet _ => .hashSet
  | hashMap _ => .hashMap
  | treeMap _ => .treeMap
  | calendar _ => .calendar

/-- How many entries a container has. A calendar counts as one. -/
def size : Container → Nat
  | list items | linked items => items.length
  | hashSet keys => keys.length
  | hashMap entries | treeMap entries => entries.length
  | calendar _ => 1

/-- The set of some values. -/
def setOf (items : List Value) : Container := hashSet (Key.distinct (items.map Key.ofValue))

/-- The hash map of some entries, the last value for each key. -/
def mapOf (entries : List (Value × Value)) : Container :=
  hashMap (Assoc.ofPairs (entries.map fun e => (Key.ofValue e.1, e.2)))

/-- The tree map of some entries, the last value for each key. -/
def sortedMapOf (entries : List (Value × Value)) : Container :=
  treeMap (Key.sorted Key.compare (entries.map fun e => (Key.ofValue e.1, e.2)))

/-- The values a container holds, each key before its value. -/
def values : Container → List Value
  | list items | linked items => items
  | hashSet keys => keys.map (·.value)
  | hashMap entries | treeMap entries => entries.flatMap fun e => [e.1.value, e.2]
  | calendar _ => []

/-- The container with more in it: lists take all items at their end, a set takes each, and a map
takes the second item for the first. Nothing can be added to a calendar, nor can anything but a
pair to a map. -/
def push? (items : List Value) : Container → Option Container
  | list old => some (list (old ++ items))
  | linked old => some (linked (old ++ items))
  | hashSet keys => some (hashSet (items.foldl (fun s v => Key.insert (.ofValue v) s) keys))
  | hashMap entries =>
    match items with
    | k :: v :: _ => some (hashMap (Assoc.put (.ofValue k) v entries))
    | _ => none
  | treeMap entries =>
    match items with
    | k :: v :: _ => some (treeMap (Key.putSorted Key.compare (.ofValue k) v entries))
    | _ => none
  | calendar _ => none

/-! ## Laws -/

theorem kind_empty (kind : Kind) : (empty kind).kind = kind := by
  cases kind <;> rfl

theorem kind_of_push? {items : List Value} {c d : Container} (h : c.push? items = some d) :
    d.kind = c.kind := by
  cases c <;> simp only [push?] at h
  case hashMap => split at h <;> simp_all [kind]; subst h; rfl
  case treeMap => split at h <;> simp_all [kind]; subst h; rfl
  all_goals simp_all [kind]
  all_goals (subst h; rfl)

end Container

end DeepCopy
