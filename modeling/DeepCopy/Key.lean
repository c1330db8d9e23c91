-- Keys of sets and maps: values told apart bit for bit, and ordered first by
-- their type and then by their content.
import DeepCopy.Value

namespace DeepCopy

/-- A key of a set or a map, of one of the types of values. Two keys are equal when they hold the
same bit for bit, so a floating point key that is no number equals itself, and the two zeros are
different keys. -/
inductive Key where
  | null
  | bool (b : Bool)
  | int (n : Int64)
  | bits (bits : UInt64)
  | char (c : Char)
  | text (s : String)
  | constant (c : EnumConstant)
  | ref (object : ObjectId)
deriving DecidableEq, Repr

namespace Key

/-- The key that a value is used as. -/
def ofValue : Value → Key
  | .null => null
  | .bool b => bool b
  | .int n => int n
  | .float b => bits b
  | .char c => char c
  | .text s => text s
  | .constant c => constant c
  | .ref o => ref o

/-- The value of a key. -/
def value : Key → Value
  | null => .null
  | bool b => .bool b
  | int n => .int n
  | bits b => .float b
  | char c => .char c
  | text s => .text s
  | constant c => .constant c
  | ref o => .ref o

/-- The place of a type in the order of keys. -/
def rank : Key → Nat
  | null => 0
  | bool _ => 1
  | int _ => 2
  | bits _ => 3
  | char _ => 4
  | text _ => 5
  | constant _ => 6
  | ref _ => 7

/-- The order of enum constants: by class, then place, then name. -/
def compareConstants (a b : EnumConstant) : Ordering :=
  (compareOfLessAndEq a.cls b.cls).then
    ((compareOfLessAndEq a.ordinal b.ordinal).then (compareOfLessAndEq a.name b.name))

/-- The order of keys. Floating point keys are ordered by their bits as whole numbers, texts by
their code points, objects by the order in which they came to be. -/
def compare : Key → Key → Ordering
  | bool a, bool b => compareOfLessAndEq a.toNat b.toNat
  | int a, int b => compareOfLessAndEq a.toInt b.toInt
  | bits a, bits b => compareOfLessAndEq a.toNat b.toNat
  | char a, char b => compareOfLessAndEq a.toNat b.toNat
  | text a, text b => compareOfLessAndEq a b
  | constant a, constant b => compareConstants a b
  | ref a, ref b => compareOfLessAndEq a b
  | a, b => compareOfLessAndEq (rank a) (rank b)

/-- A map with a value for a key, where an order of keys puts it. A key that is there keeps its
place. -/
def putSorted {ν : Type} (order : Key → Key → Ordering) (k : Key) (v : ν) :
    List (Key × ν) → List (Key × ν)
  | [] => [(k, v)]
  | (k', v') :: m =>
    match order k k' with
    | .lt => (k, v) :: (k', v') :: m
    | .eq => (k', v) :: m
    | .gt => (k', v') :: putSorted order k v m

/-- The map in an order of keys that holds pairs, the last value for each key. -/
def sorted {ν : Type} (order : Key → Key → Ordering) (pairs : List (Key × ν)) : List (Key × ν) :=
  pairs.foldl (fun m e => putSorted order e.1 e.2 m) []

/-- A set with a key, at the end if it is new. -/
def insert (k : Key) (keys : List Key) : List Key := if k ∈ keys then keys else keys ++ [k]

/-- The set of some keys, each once, in the order in which they first came. -/
def distinct (keys : List Key) : List Key := keys.foldl (fun s k => insert k s) []

/-! ## Laws -/

@[simp] theorem value_ofValue (v : Value) : (ofValue v).value = v := by
  cases v <;> rfl

@[simp] theorem ofValue_value (k : Key) : ofValue k.value = k := by
  cases k <;> rfl

theorem ofValue_injective : Function.Injective ofValue :=
  Function.LeftInverse.injective value_ofValue

theorem value_injective : Function.Injective value :=
  Function.LeftInverse.injective ofValue_value

end Key

end DeepCopy
