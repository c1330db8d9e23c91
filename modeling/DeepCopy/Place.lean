-- Places inside an instance: bytes of its block, or one of its slots. Reading
-- and writing a place fails only on a body of another shape and past the end.
import DeepCopy.Heap

namespace DeepCopy

/-- Where a field of an instance is kept. -/
inductive Place where
  | bytes (offset : Nat) (kind : Primitive.Kind)
  | slot (index : Nat)
deriving DecidableEq, Repr

/-- Why a place could not be reached. -/
inductive Miss where
  /-- The body is not that of an instance. -/
  | notRecord
  /-- The place begins at or reaches past the end. -/
  | outside (index length : Nat)
deriving DecidableEq, Repr

/-- A miss as an error about a class. -/
def Miss.error (cls : String) : Miss → HeapError
  | notRecord => .wrongBody cls .record
  | outside index length => .outOfBounds index length

namespace Body

/-- The bytes at a place of a block. -/
def readBytes (offset width : Nat) : Body → Except Miss (List UInt8)
  | record block _ =>
    match Bytes.window? offset width block with
    | some bytes => .ok bytes
    | none => .error (.outside offset block.length)
  | _ => .error .notRecord

/-- The body with other bytes at a place of its block. -/
def writeBytes (offset : Nat) (bytes : List UInt8) : Body → Except Miss Body
  | record block refs =>
    if offset + bytes.length ≤ block.length then
      .ok (record (Bytes.overwrite offset bytes block) refs)
    else .error (.outside offset block.length)
  | _ => .error .notRecord

/-- The value in a slot. -/
def readSlot (index : Nat) : Body → Except Miss Value
  | record _ refs =>
    match refs[index]? with
    | some v => .ok v
    | none => .error (.outside index refs.length)
  | _ => .error .notRecord

/-- The body with another value in a slot. -/
def writeSlot (index : Nat) (v : Value) : Body → Except Miss Body
  | record block refs =>
    if index < refs.length then .ok (record block (refs.set index v))
    else .error (.outside index refs.length)
  | _ => .error .notRecord

/-! ## Laws -/

theorem shape_writeBytes {offset : Nat} {bytes : List UInt8} {b b' : Body}
    (h : writeBytes offset bytes b = .ok b') : b'.shape = b.shape := by
  cases b <;> simp only [writeBytes] at h
  case record => split at h <;> simp_all; subst h; rfl
  all_goals simp at h

theorem shape_writeSlot {index : Nat} {v : Value} {b b' : Body}
    (h : writeSlot index v b = .ok b') : b'.shape = b.shape := by
  cases b <;> simp only [writeSlot] at h
  case record => split at h <;> simp_all; subst h; rfl
  all_goals simp at h

theorem readSlot_writeSlot {index : Nat} {v : Value} {b b' : Body}
    (h : writeSlot index v b = .ok b') : readSlot index b' = .ok v := by
  cases b <;> simp only [writeSlot] at h
  case record block refs =>
    split at h
    · rename_i hi
      injection h with h
      subst h
      simp [readSlot, hi]
    · simp at h
  all_goals simp at h

theorem readBytes_writeBytes {offset : Nat} {bytes : List UInt8} {b b' : Body}
    (h : writeBytes offset bytes b = .ok b') : readBytes offset bytes.length b' = .ok bytes := by
  cases b <;> simp only [writeBytes] at h
  case record block refs =>
    split at h
    · rename_i hi
      injection h with h
      subst h
      simp [readBytes, Bytes.window?_overwrite_same hi]
    · simp at h
  all_goals simp at h

end Body

end DeepCopy
