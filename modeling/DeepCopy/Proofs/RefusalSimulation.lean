-- Two clones of one heap, one by direct and one by checked access, whose heaps
-- differ in nothing but the bytes of blocks. Implementors take part that answer
-- what they like, but go by the objects there were and by those they have had
-- made. A step ends well on both sides, or on neither, or checked access refuses
-- what direct access lets pass.
import DeepCopy.Proofs.ArrayFields
import DeepCopy.Proofs.InstanceWrites
import DeepCopy.Proofs.Orderly

namespace DeepCopy

open CloneM

/-! ## Bodies -/

/-- Two bodies hold the same, but for the bytes of a block. -/
def Body.Akin : Body → Body → Prop
  | .record block refs, .record block' refs' => block'.length = block.length ∧ refs' = refs
  | b, b' => b' = b

/-- An object that gets another body stays of the same shape, and an instance of the same size. -/
structure Body.Steady (b b' : Body) : Prop where
  shape : b'.shape = b.shape
  sized : ∀ blockSize slotCount, b.Sized blockSize slotCount → b'.Sized blockSize slotCount

/-- Both go well with what is related, or both fail with one error. -/
inductive Both {ε α : Type} (R : α → α → Prop) : Except ε α → Except ε α → Prop where
  | ok {x y : α} (h : R x y) : Both R (.ok x) (.ok y)
  | error (e : ε) : Both R (.error e) (.error e)

theorem Both.mapError {ε ε' α : Type} {R : α → α → Prop} {x y : Except ε α} (h : Both R x y)
    (f : ε → ε') : Both R (x.mapError f) (y.mapError f) := by
  cases h with
  | ok h => exact .ok h
  | error e => exact .error (f e)

namespace Body

variable {b b' : Body} {blockSize slotCount : Nat}

theorem Akin.refl (b : Body) : b.Akin b := by
  cases b with
  | record block refs => exact ⟨rfl, rfl⟩
  | _ => rfl

theorem Akin.symm (h : b.Akin b') : b'.Akin b := by
  cases b with
  | record block refs =>
    cases b' with
    | record block' refs' => exact ⟨h.1.symm, h.2.symm⟩
    | _ => cases h
  | _ =>
    cases h
    exact .refl _

theorem Steady.refl (b : Body) : b.Steady b := ⟨rfl, fun _ _ h => h⟩

theorem Steady.trans {b'' : Body} (h : b.Steady b') (h' : b'.Steady b'') : b.Steady b'' :=
  ⟨h'.shape.trans h.shape, fun _ _ hs => h'.sized _ _ (h.sized _ _ hs)⟩

namespace Akin

variable (h : b.Akin b')
include h

theorem readSlot_eq (index : Nat) : b'.readSlot index = b.readSlot index := by
  cases b with
  | record block refs =>
    cases b' with
    | record block' refs' =>
      obtain ⟨-, rfl⟩ := h
      rfl
    | _ => cases h
  | _ =>
    cases h
    rfl

theorem eq_of_shape (hb : b.shape ≠ .record) : b' = b := by
  cases b with
  | record block refs => exact absurd rfl hb
  | _ => exact h

theorem sized (hb : b.Sized blockSize slotCount) : b'.Sized blockSize slotCount := by
  obtain ⟨block, refs, rfl, rfl, rfl⟩ := hb.exists_record
  cases b' with
  | record block' refs' =>
    obtain ⟨hlen, rfl⟩ := h
    exact ⟨hlen, rfl⟩
  | _ => cases h

theorem writeBytes (offset : Nat) (bytes : List UInt8) :
    Both Akin (b.writeBytes offset bytes) (b'.writeBytes offset bytes) := by
  cases b with
  | record block refs =>
    cases b' with
    | record block' refs' =>
      obtain ⟨hlen, rfl⟩ := h
      simp only [Body.writeBytes, hlen]
      split
      · rename_i hfits
        refine .ok ⟨?_, rfl⟩
        rw [Bytes.length_overwrite hfits, Bytes.length_overwrite (hlen.symm ▸ hfits), hlen]
      · exact .error _
    | _ => cases h
  | _ =>
    cases h
    exact .error _

theorem writeSlot (index : Nat) (v : Value) :
    Both Akin (b.writeSlot index v) (b'.writeSlot index v) := by
  cases b with
  | record block refs =>
    cases b' with
    | record block' refs' =>
      obtain ⟨hlen, rfl⟩ := h
      simp only [Body.writeSlot]
      split
      · exact .ok ⟨hlen, rfl⟩
      · exact .error _
    | _ => cases h
  | _ =>
    cases h
    exact .error _

theorem withSlot (index : Nat) (v : Value) : (b.withSlot index v).Akin (b'.withSlot index v) := by
  cases b with
  | record block refs =>
    cases b' with
    | record block' refs' =>
      obtain ⟨hlen, rfl⟩ := h
      exact ⟨hlen, rfl⟩
    | _ => cases h
  | _ =>
    cases h
    rfl

/-- Bytes are put on the second side only, if they fit. -/
theorem withBytes_right (hb : b.Sized blockSize slotCount) {offset : Nat} {bytes : List UInt8}
    (hw : offset + bytes.length ≤ blockSize) : b.Akin (b'.withBytes offset bytes) := by
  have hs := (h.sized hb).withBytes hw
  cases b with
  | record block refs =>
    cases b' with
    | record block' refs' => exact ⟨hs.1.trans hb.1.symm, h.2⟩
    | _ => cases h
  | _ => exact hb.elim

/-- Whatever bytes are put on either side, if they fit. -/
theorem withBytes (hb : b.Sized blockSize slotCount) {offset : Nat} {bytes bytes' : List UInt8}
    (hw : offset + bytes.length ≤ blockSize) (hw' : offset + bytes'.length ≤ blockSize) :
    (b.withBytes offset bytes).Akin (b'.withBytes offset bytes') := by
  have hright := h.withBytes_right hb hw'
  exact (hright.symm.withBytes_right (hright.sized hb) hw).symm

/-- A block of the same size is put on the first side only. -/
theorem withBlock (hb : b.Sized blockSize slotCount) {block : List UInt8}
    (hlen : block.length = blockSize) : (b.withBlock block).Akin b' := by
  cases b with
  | record old refs =>
    cases b' with
    | record block' refs' => exact ⟨h.1.trans (hb.1.trans hlen.symm), h.2⟩
    | _ => cases h
  | _ => exact hb.elim

theorem cleared (hb : b.Sized blockSize slotCount) {p : Place}
    (hw : p.Within blockSize slotCount) : (p.cleared b).Akin (p.cleared b') := by
  cases p with
  | bytes offset kind =>
    have hlen : (Bytes.zeros kind.width).length = kind.width := by simp [Bytes.zeros]
    have hfits : offset + (Bytes.zeros kind.width).length ≤ blockSize := by
      rw [hlen]
      exact hw
    exact h.withBytes hb hfits hfits
  | slot index => exact h.withSlot index .null

end Akin

/-- Between two bodies of one size all is steady. -/
theorem Sized.steady (h : b.Sized blockSize slotCount) (h' : b'.Sized blockSize slotCount) :
    b.Steady b' := by
  obtain ⟨block, refs, rfl, rfl, rfl⟩ := h.exists_record
  obtain ⟨block', refs', rfl, hb, hr⟩ := h'.exists_record
  refine ⟨rfl, ?_⟩
  rintro m n ⟨rfl, rfl⟩
  exact ⟨hb, hr⟩

/-- What is no instance has no size to keep. -/
theorem steady_of_shape (hb : b.shape ≠ .record) (h : b'.shape = b.shape) : b.Steady b' := by
  refine ⟨h, ?_⟩
  intro m n hs
  obtain ⟨block, refs, rfl, -⟩ := hs.exists_record
  exact absurd rfl hb

end Body

/-! ## Heaps -/

/-- Two objects have the same header and hold the same, but for the bytes of a block. -/
structure Object.Akin (x y : Object) : Prop where
  cls : y.cls = x.cls
  shape : y.shape = x.shape
  body : x.body.Akin y.body

theorem Object.Akin.refl (x : Object) : x.Akin x := ⟨rfl, rfl, .refl _⟩

/-- Two heaps have the same objects, but for the bytes of blocks. -/
structure Heap.Akin (h h' : Heap) : Prop where
  size : h'.size = h.size
  get : ∀ o, (h.get o).Akin (h'.get o)

/-- All objects that were there keep their shape and size. -/
def Heap.Steady (h h' : Heap) : Prop := ∀ o < h.size, (h.body o).Steady (h'.body o)

namespace Heap

variable {h h' : Heap}

theorem Akin.refl (h : Heap) : h.Akin h := ⟨rfl, fun _ => .refl _⟩

theorem Akin.cls_eq (ha : h.Akin h') (o : ObjectId) : h'.cls o = h.cls o := (ha.get o).cls

theorem Akin.shape_eq (ha : h.Akin h') (o : ObjectId) : h'.shape o = h.shape o := (ha.get o).shape

theorem Akin.body (ha : h.Akin h') (o : ObjectId) : (h.body o).Akin (h'.body o) := (ha.get o).body

theorem Akin.takesArray (ha : h.Akin h') (v : Value) :
    Field.takesArray h' v = Field.takesArray h v := by
  cases v with
  | ref o => simp only [Field.takesArray, isArrayRef, ha.shape_eq]
  | _ => rfl

/-- Array fields are not in blocks. -/
theorem Akin.holdsArrays {r : Registry} (ha : h.Akin h') (hh : h'.HoldsArrays r) :
    h.HoldsArrays r := by
  intro o e he f hf index v hp ht hr
  rw [← ha.takesArray]
  refine hh o e ?_ f hf index v hp ht ?_
  · rw [ha.cls_eq]
    exact he
  · rw [(ha.body o).readSlot_eq]
    exact hr

theorem Akin.setBody (ha : h.Akin h') (t : ObjectId) {b b' : Body} (hb : b.Akin b') :
    (h.setBody t b).Akin (h'.setBody t b') := by
  refine ⟨?_, fun o => ?_⟩
  · rw [size_setBody, size_setBody, ha.size]
  · by_cases ho : o = t
    · subst ho
      by_cases hlt : o < h.size
      · rw [get_setBody_self b hlt, get_setBody_self b' (ha.size.symm ▸ hlt)]
        exact ⟨ha.cls_eq o, ha.shape_eq o, hb⟩
      · have hle := Nat.not_lt.mp hlt
        rw [get_of_le ((h.size_setBody o b).symm ▸ hle),
          get_of_le ((h'.size_setBody o b').symm ▸ ha.size.symm ▸ hle)]
        exact .refl _
    · rw [get_setBody_of_ne b ho, get_setBody_of_ne b' ho]
      exact ha.get o

theorem setBody_body (h : Heap) (o : ObjectId) : h.setBody o (h.body o) = h := by
  obtain ⟨objects⟩ := h
  simp only [setBody, Heap.mk.injEq]
  apply Array.ext
  · simp
  · intro i hi hi'
    rw [Array.getElem_modify]
    split
    · rename_i ho
      subst ho
      simp [Heap.body, Heap.get, Array.getElem?_eq_getElem hi']
    · rfl

theorem Akin.add (ha : h.Akin h') (x : Object) : (h.add x).Akin (h'.add x) := by
  refine ⟨?_, fun o => ?_⟩
  · rw [size_add, size_add, ha.size]
  · rcases Nat.lt_trichotomy o h.size with ho | rfl | ho
    · rw [get_add_of_lt x ho, get_add_of_lt x (ha.size.symm ▸ ho)]
      exact ha.get o
    · have hnew := h'.get_add_new x
      rw [ha.size] at hnew
      rw [get_add_new, hnew]
      exact .refl _
    · have hle : (h.add x).size ≤ o := (h.size_add x).symm ▸ ho
      have hle' : (h'.add x).size ≤ o := (h'.size_add x).symm ▸ ha.size.symm ▸ ho
      rw [get_of_le hle, get_of_le hle']
      exact .refl _

theorem Akin.addAll (ha : h.Akin h') (xs : List Object) : (h.addAll xs).Akin (h'.addAll xs) := by
  induction xs generalizing h h' with
  | nil => exact ha
  | cons x xs ih => exact ih (ha.add x)

theorem Steady.refl (h : Heap) : h.Steady h := fun _ _ => .refl _

theorem Steady.trans {h'' : Heap} {own : ObjectId → Prop} (hs : h.Steady h')
    (hs' : h'.Steady h'') (hle : Spared own h h') : h.Steady h'' :=
  fun o ho => (hs o ho).trans (hs' o (Nat.lt_of_lt_of_le ho hle.size_le))

theorem Steady.of_spared (hs : Spared (fun _ => False) h h') : h.Steady h' := by
  intro o ho
  rw [hs.body_eq o ho id]
  exact .refl _

theorem steady_setBody {t : ObjectId} {b : Body} (hb : t < h.size → (h.body t).Steady b) :
    h.Steady (h.setBody t b) := by
  intro o ho
  by_cases hot : o = t
  · subst hot
    rw [body_setBody ho]
    exact hb ho
  · have hsame : (h.setBody t b).body o = h.body o := congrArg Object.body (get_setBody_of_ne b hot)
    rw [hsame]
    exact .refl _

theorem spared_addAll {own : ObjectId → Prop} (xs : List Object) : Spared own h (h.addAll xs) := by
  induction xs generalizing h with
  | nil => exact Spared.refl _
  | cons x xs ih => exact (Spared.of_add x).trans ih

end Heap

/-- Of a heap in order, an object of a class of arrays is an array, and no other is. -/
theorem Heap.Orderly.takesArray_iff {r : Registry} {h : Heap} {o : ObjectId} {e : Registry.Entry}
    (hh : h.Orderly r) (ho : o < h.size) (he : r.get? (h.cls o) = some e) :
    Field.takesArray h (.ref o) = true ↔ ∃ c, e.decl.kind = .array c := by
  obtain ⟨e', he', ha⟩ := hh.admits o ho
  cases he.symm.trans he'
  simp only [Field.takesArray, Heap.isArrayRef, hh.header o ho]
  cases hb : h.body o with
  | record block refs => simp [(ha.record (by rw [hb]; rfl)).1, Body.shape, Shape.isArray]
  | packed kind bytes =>
    rw [hb] at ha
    simp [ha.packed.1, Body.shape, Shape.isArray]
  | slots items =>
    rw [hb] at ha
    obtain ⟨c, hk⟩ := ha.slots
    simp [hk, Body.shape, Shape.isArray]
  | container c =>
    rw [hb] at ha
    simp [ha.container, Body.shape, Shape.isArray]

/-- In a heap in order, array fields hold arrays. -/
theorem Heap.Orderly.holdsArrays {r : Registry} {h : Heap} (hh : h.Orderly r) :
    h.HoldsArrays r := by
  intro o e he
  by_cases ho : o < h.size
  · obtain ⟨e', he', ha⟩ := hh.admits o ho
    cases he.symm.trans he'
    by_cases hb : (h.body o).shape = .record
    · exact (ha.record hb).2.2
    · exact .of_hollow (Body.hollow_of_shape hb)
  · rw [Heap.body, Heap.get_of_le (Nat.not_lt.mp ho)]
    exact .of_hollow (Body.hollow_bareRecord 0 0)

/-! ## Checked access to fields -/

section Access

variable {h h' : Heap} {o : ObjectId} {v : Value}

theorem Field.steady_of_writeTo {f : Field} {b b' : Body} (hw : f.writeTo h v b = .ok b') :
    b.Steady b' := by
  unfold writeTo at hw
  split at hw
  · rename_i offset kind hp
    split at hw
    · rename_i p hu
      have hw := Backend.ok_of_mapError hw
      have hlen : p.encode.length = kind.width := by
        rw [Primitive.length_encode, Primitive.kind_of_unbox? hu]
      exact ⟨Body.shape_writeBytes hw, (Body.alters_writeBytes hlen hw).sized⟩
    · cases hw
  · split at hw
    · cases hw
    · have hw := Backend.ok_of_mapError hw
      exact ⟨Body.shape_writeSlot hw, (Body.alters_writeSlot hw).sized⟩

/-- What a field takes depends on the headers of objects only. -/
theorem Field.writeTo_akin (f : Field) (ha : h.Akin h') {b b' : Body} (hb : b.Akin b') :
    Both Body.Akin (f.writeTo h v b) (f.writeTo h' v b') := by
  unfold writeTo
  rw [ha.takesArray]
  split
  · split
    · exact (hb.writeBytes _ _).mapError _
    · exact .error _
  · split
    · exact .error _
    · exact (hb.writeSlot _ _).mapError _

/-- What is read depends on the object only. -/
theorem Registry.getField_congr {r : Registry} {name : String} (hg : h'.get o = h.get o) :
    r.getField h' o name = r.getField h o name := by
  have hcls : h'.cls o = h.cls o := congrArg Object.cls hg
  have hbody : h'.body o = h.body o := congrArg Object.body hg
  simp only [getField, Field.get, hcls, hbody]

/-- A field that is found by name is set on both sides or on neither. -/
theorem Registry.setField_akin (r : Registry) (ha : h.Akin h') (o : ObjectId) (name : String) :
    Both (fun w w' => w.object = o ∧ w'.object = o ∧ w.body.Akin w'.body ∧
      (h'.body o).Steady w'.body) (r.setField h o name v) (r.setField h' o name v) := by
  unfold setField
  rw [ha.cls_eq]
  cases r.layout (h.cls o) with
  | error e => exact .error e
  | ok l =>
    simp only [bind, Except.bind]
    cases l.field name with
    | error e => exact .error e
    | ok f =>
      have hboth := f.writeTo_akin (v := v) ha (ha.body o)
      simp only [Field.set]
      generalize f.writeTo h v (h.body o) = x at hboth ⊢
      generalize hy : f.writeTo h' v (h'.body o) = y at hboth ⊢
      cases hboth with
      | ok hxy => exact .ok ⟨rfl, rfl, hxy, Field.steady_of_writeTo hy⟩
      | error e => exact .error e

end Access

/-! ## Routines that go by what was there -/

/-- What a routine may ask for that goes by the objects there were at the beginning and by those it
has had made. If arrays are to be left alone, it lets nothing stand for one. -/
def Request.GoesBy (r : Registry) (base : Heap) (leaves : Prop) (own : List ObjectId) :
    Request → Prop
  | .clone v => base.Has v
  | .cloneFields source target => source < base.size ∧ target ∈ own
  | .register o _ => leaves → Field.takesArray base (.ref o) = false
  | .allocate cls => ∀ e c, r.get? cls = some e → e.decl.kind ≠ .array c
  | .backend => False
  | .look o => o < base.size
  | .overwrite _ _ => False
  | .getField o _ => o < base.size
  | .setField o _ _ => o ∈ own
  | _ => True

/-- What a reply says of objects there were at the beginning. -/
def Request.Tells (r : Registry) (base : Heap) : (q : Request) → q.Reply → Prop
  | .look o, x => x = base.get o
  | .getField o name, v => v = r.getField base o name
  | _, _ => True

/-- The objects that a routine has had made, after a reply. -/
def Request.gains (own : List ObjectId) : (q : Request) → q.Reply → List ObjectId
  | .allocate _, .ok o => o :: own
  | _, _ => own

/-- The failure that a reply tells of. -/
def Request.failure? : (q : Request) → q.Reply → Option CloneError
  | .clone _, .error e => some e
  | .cloneFields _ _, .error e => some e
  | .allocate _, .error e => some e
  | .plan _, .error e => some e
  | _, _ => none

/-- A routine that goes by the objects there were at the beginning and by those it has had made, and
passes on every failure of the clone. What it returns, registers and writes to fields is free. -/
inductive Routine.GoesBy (r : Registry) (base : Heap) (leaves : Prop) :
    List ObjectId → Routine → Prop where
  | finish {own : List ObjectId} (result : Except CloneError Value) :
    GoesBy r base leaves own (.finish result)
  | ask {own : List ObjectId} (q : Request) (next : q.Reply → Routine)
    (hq : q.GoesBy r base leaves own)
    (hf : ∀ reply e, q.failure? reply = some e → next reply = .finish (.error e))
    (hn : ∀ reply, q.Tells r base reply → GoesBy r base leaves (q.gains own reply) (next reply)) :
    GoesBy r base leaves own (.ask q next)

/-! ## Two clones alongside -/

/-- Two clones that were begun with one heap, as far as they have come: the first by direct access
and the second by checked access. They know the same, have left alone what was there, and their
heaps differ in the bytes of blocks only. If arrays are left alone, arrays stand for arrays. -/
structure Alongside (s : Setting) (base : Heap) (leaves : Prop) (a b : Run) : Prop where
  plans : b.plans = a.plans
  answers : b.answers = a.answers
  resolved : b.resolved = a.resolved
  copies : b.copies = a.copies
  heap : a.heap.Akin b.heap
  left : Spared (base.size ≤ ·) base a.heap
  right : Spared (base.size ≤ ·) base b.heap
  fit : Plans.Fit s.registry a.plans
  keeps : s.KeepsTo (fun _ r => r.GoesBy s.registry base leaves []) a
  arrays : leaves → ∀ o v, a.copies.find? o = some v → Field.takesArray base (.ref o) = true →
    Field.takesArray a.heap v = true

/-- From one point of two clones to a later one. -/
structure Ahead (s : Setting) (base : Heap) (leaves : Prop) (a b a' b' : Run) : Prop where
  along : Alongside s base leaves a' b'
  left : Spared (base.size ≤ ·) a.heap a'.heap
  right : Spared (base.size ≤ ·) b.heap b'.heap
  steady : b.heap.Steady b'.heap

namespace Alongside

variable {s : Setting} {base : Heap} {leaves : Prop} {a b : Run} {o : ObjectId}
  (h : Alongside s base leaves a b)
include h

theorem refl : Ahead s base leaves a b a b := ⟨h, Spared.refl _, Spared.refl _, .refl _⟩

theorem get_left (ho : o < base.size) : a.heap.get o = base.get o :=
  h.left.get_eq ho (Nat.not_le.mpr ho)

theorem get_right (ho : o < base.size) : b.heap.get o = base.get o :=
  h.right.get_eq ho (Nat.not_le.mpr ho)

theorem body_left (ho : o < base.size) : a.heap.body o = base.body o :=
  congrArg Object.body (h.get_left ho)

theorem body_right (ho : o < base.size) : b.heap.body o = base.body o :=
  congrArg Object.body (h.get_right ho)

theorem cls_left (ho : o < base.size) : a.heap.cls o = base.cls o :=
  congrArg Object.cls (h.get_left ho)

theorem cls_right (ho : o < base.size) : b.heap.cls o = base.cls o :=
  congrArg Object.cls (h.get_right ho)

/-- A step on both sides that changes the heaps alike. -/
theorem memory {m m' : Memory} (heap : m.heap.Akin m'.heap)
    (hl : Spared (base.size ≤ ·) a.heap m.heap) (hr : Spared (base.size ≤ ·) b.heap m'.heap)
    (hs : b.heap.Steady m'.heap) :
    Ahead s base leaves a b { a with memory := m } { b with memory := m' } := by
  refine ⟨⟨h.plans, h.answers, h.resolved, h.copies, heap, h.left.trans hl, h.right.trans hr, h.fit,
    h.keeps.of_resolved rfl, ?_⟩, hl, hr, hs⟩
  intro hleaves o v hv ha
  exact takesArray_mono hl (h.arrays hleaves o v hv ha)

/-- A step on both sides by which they find out the same. -/
theorem learned {a' b' : Run} (ha : a'.memory = a.memory ∧ a'.copies = a.copies)
    (hb : b'.memory = b.memory ∧ b'.copies = b.copies) (plans : b'.plans = a'.plans)
    (answers : b'.answers = a'.answers) (resolved : b'.resolved = a'.resolved)
    (fit : Plans.Fit s.registry a'.plans)
    (keeps : s.KeepsTo (fun _ r => r.GoesBy s.registry base leaves []) a') :
    Ahead s base leaves a b a' b' := by
  have hl : a'.heap = a.heap := congrArg Memory.heap ha.1
  have hr : b'.heap = b.heap := congrArg Memory.heap hb.1
  refine ⟨⟨plans, answers, resolved, ?_, hl ▸ hr ▸ h.heap, hl ▸ h.left, hr ▸ h.right, fit, keeps,
    ?_⟩, hl ▸ Spared.refl _, hr ▸ Spared.refl _, hr ▸ .refl _⟩
  · rw [ha.2, hb.2, h.copies]
  · rw [ha.2, hl]
    exact h.arrays

/-- A value is let stand for an object on both sides. -/
theorem registered (o : ObjectId) {v : Value}
    (hv : leaves → Field.takesArray base (.ref o) = true → Field.takesArray a.heap v = true) :
    Ahead s base leaves a b { a with copies := a.copies.put o v }
      { b with copies := b.copies.put o v } := by
  refine ⟨⟨h.plans, h.answers, h.resolved, ?_, h.heap, h.left, h.right, h.fit,
    h.keeps.of_resolved rfl, ?_⟩, Spared.refl _, Spared.refl _, .refl _⟩
  · show b.copies.put o v = a.copies.put o v
    rw [h.copies]
  · intro hleaves o' w hw ha
    by_cases ho : o' = o
    · subst ho
      rw [Copies.find?_put] at hw
      cases hw
      exact hv hleaves ha
    · rw [Copies.find?_put_ne _ _ ho] at hw
      exact h.arrays hleaves o' w hw ha

end Alongside

theorem Ahead.trans {s : Setting} {base : Heap} {leaves : Prop} {a b a' b' a'' b'' : Run}
    (h : Ahead s base leaves a b a' b') (h' : Ahead s base leaves a' b' a'' b'') :
    Ahead s base leaves a b a'' b'' :=
  ⟨h'.along, h.left.trans h'.left, h.right.trans h'.right, h.steady.trans h'.steady h.right⟩

/-! ## How two clones end -/

/-- The error that a field for arrays has refused a value. -/
def CloneError.IsRefusal : CloneError → Prop
  | .access _ _ _ (.typeMismatch _ _ .array (.value _)) => True
  | _ => False

/-- Whose work it happens in does not hide a refusal. -/
theorem CloneError.IsRefusal.blame {e : CloneError} (h : e.IsRefusal) (cls : String) :
    (Setting.blame cls e).IsRefusal := by
  cases e with
  | access => exact h
  | _ => cases h

/-- A clone that is ended by a refusal. -/
def Refuses {α : Type} (y : CloneM α) (b : Run) : Prop :=
  ∃ e b', y b = .error (.failed e) b' ∧ e.IsRefusal

theorem refuses_of_ends {α : Type} {y : CloneM α} {b : Run}
    (h : Ends y b (fun _ _ => False) fun e _ => ∃ cause, e = .failed cause ∧ cause.IsRefusal) :
    Refuses y b := by
  cases hy : y b with
  | ok v b' => exact ((ends_of_ok hy).mp h).elim
  | error e b' =>
    obtain ⟨cause, rfl, hr⟩ := (ends_of_error hy).mp h
    exact ⟨cause, b', hy, hr⟩

/-- From two runs both steps end well with one result, or both fail, or the second refuses a value,
which it does not if arrays are left alone. -/
def Setting.Meets {α : Type} (s : Setting) (base : Heap) (leaves : Prop) (x y : CloneM α)
    (a b : Run) (Q : α → Run → Run → Prop) : Prop :=
  (¬ leaves ∧ Refuses y b) ∨
    Tandem x y a b (fun u v a' b' => v = u ∧ Ahead s base leaves a b a' b' ∧ Q u a' b')
      fun _ _ _ _ => True

namespace Setting

variable {α β : Type} {s : Setting} {base : Heap} {leaves : Prop} {a b : Run}
  {Q : α → Run → Run → Prop}

theorem Meets.bind {x y : CloneM β} {f g : β → CloneM α} {R : β → Run → Run → Prop}
    (h : s.Meets base leaves x y a b R)
    (hf : ∀ u a' b', Ahead s base leaves a b a' b' → R u a' b' →
      s.Meets base leaves (f u) (g u) a' b' Q) :
    s.Meets base leaves (x >>= f) (y >>= g) a b Q := by
  rcases h with ⟨hl, e, b', hy, he⟩ | h
  · exact Or.inl ⟨hl, e, b', bind_of_error hy, he⟩
  · rcases tandem_iff.mp h with ⟨_, a', u, b', hx, hy, rfl, ha, hr⟩ | ⟨e, a', e', b', hx, hy, -⟩
    · rcases hf u a' b' ha hr with ⟨hl, e, b'', hg, he⟩ | hnext
      · exact Or.inl ⟨hl, e, b'', (bind_of_ok hy).trans hg, he⟩
      · right
        unfold Tandem
        simp only [ends_bind, ends_of_ok hx, ends_of_ok hy]
        exact hnext.mono (fun _ _ _ _ h => ⟨h.1, ha.trans h.2.1, h.2.2⟩) fun _ _ _ _ h => h
    · exact Or.inr ((tandem_of_error (bind_of_error hx) (bind_of_error hy)).mpr trivial)

theorem Meets.mono {x y : CloneM α} {Q' : α → Run → Run → Prop}
    (h : s.Meets base leaves x y a b Q)
    (hq : ∀ u a' b', Ahead s base leaves a b a' b' → Q u a' b' → Q' u a' b') :
    s.Meets base leaves x y a b Q' :=
  h.imp_right fun ht => ht.mono
    (fun u _ a' b' h => ⟨h.1, h.2.1, hq u a' b' h.2.1 h.2.2⟩) fun _ _ _ _ h => h

/-- A step that goes well on the first side only. -/
theorem Meets.bind_left {x : CloneM β} {f : β → CloneM α} {y : CloneM α} {P : β → Run → Prop}
    (hx : Succeeds x a P)
    (hf : ∀ u a', P u a' → Ahead s base leaves a b a' b ∧ s.Meets base leaves (f u) y a' b Q) :
    s.Meets base leaves (x >>= f) y a b Q := by
  obtain ⟨u, a', hx, hu⟩ := hx.exists_ok
  obtain ⟨ha, hnext⟩ := hf u a' hu
  refine hnext.imp_right fun hnext => ?_
  unfold Tandem at hnext ⊢
  simp only [ends_bind, ends_of_ok hx]
  exact Tandem.mono hnext (fun _ _ _ _ h => ⟨h.1, ha.trans h.2.1, h.2.2⟩) fun _ _ _ _ h => h

theorem meets_pure (h : Alongside s base leaves a b) {u : α} (hq : Q u a b) :
    s.Meets base leaves (pure u) (pure u) a b Q := Or.inr ⟨rfl, h.refl, hq⟩

/-- From points at which more is known, sequences of steps meet if the steps do, as long as that
lasts. -/
theorem sequential_meets {G : Run → Run → Prop}
    (hG : ∀ {a b}, G a b → Alongside s base leaves a b)
    (hlast : ∀ {a b a' b'}, G a b → Ahead s base leaves a b a' b' → G a' b') :
    Sequential fun α (x : Bool → CloneM α) => ∀ a b, G a b →
      s.Meets base leaves (x false) (x true) a b fun _ _ _ => True where
  pure _ _ _ h := meets_pure (hG h) trivial
  bind hx hf a b h := (hx a b h).bind fun u a' b' h' _ => hf u a' b' (hlast h h')

theorem meets_fail (e e' : CloneError) : s.Meets base leaves (fail e) (fail e') a b Q :=
  Or.inr trivial

theorem meets_ofExcept (h : Alongside s base leaves a b) (result : Except CloneError α) :
    s.Meets base leaves (ofExcept result) (ofExcept result) a b fun _ _ _ => True := by
  cases result with
  | ok u => exact meets_pure h trivial
  | error e => exact meets_fail e e

theorem meets_heap {f g : Heap → CloneM α}
    (h : s.Meets base leaves (f a.heap) (g b.heap) a b Q) :
    s.Meets base leaves (heap >>= f) (heap >>= g) a b Q := h

/-- A step that both sides do well. -/
theorem meets_of_succeeds {x y : CloneM α} {P P' : α → Run → Prop} (hx : Succeeds x a P)
    (hy : Succeeds y b P')
    (h : ∀ u v a' b', P u a' → P' v b' → v = u ∧ Ahead s base leaves a b a' b' ∧ Q u a' b') :
    s.Meets base leaves x y a b Q := Or.inr (tandem_of_succeeds hx hy h)

/-- A step that fails on both sides. -/
theorem meets_of_fails {x y : CloneM α} (hx : Ends x a (fun _ _ => False) fun _ _ => True)
    (hy : Ends y b (fun _ _ => False) fun _ _ => True) : s.Meets base leaves x y a b Q :=
  Or.inr (ends_mono hx (fun _ _ h => h.elim) fun _ _ _ => hy)

/-- What goes on from an outcome passes a failure on, and a refusal as one. -/
def PassesOn (k : Except CloneError β → CloneM α) : Prop :=
  ∀ e run, ∃ e' run', k (.error e) run = .error (.failed e') run' ∧ (e.IsRefusal → e'.IsRefusal)

theorem Meets.outcome {x y : CloneM β} {f g : Except CloneError β → CloneM α}
    {R : β → Run → Run → Prop} (h : s.Meets base leaves x y a b R) (hf : PassesOn f)
    (hg : PassesOn g)
    (hok : ∀ u a' b', Ahead s base leaves a b a' b' → R u a' b' →
      s.Meets base leaves (f (.ok u)) (g (.ok u)) a' b' Q) :
    s.Meets base leaves (CloneM.outcome x >>= f) (CloneM.outcome y >>= g) a b Q := by
  -- Where a step fails, so does the step after it.
  have failing : ∀ {x : CloneM β} {f : Except CloneError β → CloneM α} {run run' : Run} {e : Stop},
      PassesOn f → x run = .error e run' →
        ∃ e' run'', (CloneM.outcome x >>= f) run = .error e' run'' := by
    intro x f run run' e hf hx
    cases e with
    | failed e =>
      obtain ⟨e', run'', he, -⟩ := hf e run'
      exact ⟨_, run'', (bind_of_ok (outcome_of_failed hx)).trans he⟩
    | _ => exact ⟨_, run', bind_of_error (outcome_of_stop hx (by simp))⟩
  rcases h with ⟨hl, e, b', hy, he⟩ | h
  · obtain ⟨e', b'', hk, hr⟩ := hg e b'
    exact Or.inl ⟨hl, e', b'', (bind_of_ok (outcome_of_failed hy)).trans hk, hr he⟩
  · rcases tandem_iff.mp h with ⟨_, a', u, b', hx, hy, rfl, ha, hr⟩ | ⟨e, a', e', b', hx, hy, -⟩
    · refine Meets.bind (R := fun v a'' b'' => v = .ok u ∧ R u a'' b'') (Or.inr ?_) ?_
      · exact (tandem_of_ok (outcome_of_ok hx) (outcome_of_ok hy)).mpr ⟨rfl, ha, rfl, hr⟩
      · rintro _ a'' b'' ha' ⟨rfl, hr'⟩
        exact hok u a'' b'' ha' hr'
    · obtain ⟨e₁, a₁, hx₁⟩ := failing hf hx
      obtain ⟨e₂, b₂, hy₂⟩ := failing hg hy
      exact Or.inr ((tandem_of_error hx₁ hy₂).mpr trivial)

end Setting

end DeepCopy
