-- The copies of one instance, filled on both sides field by field. By direct
-- access the whole block may be carried over at once; by checked access each
-- primitive is read and written. After the last field both hold the same.
import DeepCopy.Proofs.BackendSimulation

namespace DeepCopy

/-! ## Two bodies -/

namespace Place.Same

variable {p : Place} {b b' b'' : Body}

theorem symm (h : p.Same b b') : p.Same b' b := by
  cases p <;> exact Eq.symm h

theorem trans (h : p.Same b b') (h' : p.Same b' b'') : p.Same b b'' := by
  cases p <;> exact Eq.trans h' h

end Place.Same

namespace Body

theorem Alters.refl (p : Place) (b : Body) : Alters p b b :=
  ⟨fun _ _ h => h, fun q _ => Place.Same.refl q b⟩

/-- A slot that is written on two bodies with the same values leaves them with the same values. -/
theorem values_eq_of_writeSlot {b b' c c' : Body} {index : Nat} {v : Value}
    (h : b.values = c.values) (hb : b.writeSlot index v = .ok b')
    (hc : c.writeSlot index v = .ok c') : b'.values = c'.values := by
  have set : ∀ {x y : Body}, x.writeSlot index v = .ok y → y.values = x.values.set index v := by
    intro x y hx
    cases x <;> simp only [writeSlot] at hx
    case record block refs =>
      split at hx
      · cases hx
        rfl
      · cases hx
    all_goals cases hx
  rw [set hb, set hc, h]

/-- On the body of an instance a place is missed by lying outside, and in no other way. -/
theorem error_of_readBytes {block : List UInt8} {refs : List Value} {offset width : Nat}
    {miss : Miss} (h : (record block refs).readBytes offset width = .error miss) :
    miss = .outside offset block.length := by
  simp only [readBytes] at h
  split at h
  · cases h
  · cases h
    rfl

theorem error_of_readSlot {block : List UInt8} {refs : List Value} {index : Nat} {miss : Miss}
    (h : (record block refs).readSlot index = .error miss) :
    miss = .outside index refs.length := by
  simp only [readSlot] at h
  split at h
  · cases h
  · cases h
    rfl

end Body

/-- The two copies of an instance, where the fields of `todo` are still to come. -/
structure Filling (s : Setting) (l : Layout) (source : Body) (bulk : Bool) (todo : List Field)
    (x y : Body) : Prop where
  left : x.Sized l.blockSize l.slotCount
  right : y.Sized l.blockSize l.slotCount
  values : y.values = x.values
  /-- Where the whole block was carried over, the primitives of the source are on the left from the
  start. -/
  carried : bulk = true → ∀ f ∈ l.fields, s.policy.resets f.marks = false →
    ∀ offset kind, f.place = .bytes offset kind →
      x.readBytes offset kind.width = source.readBytes offset kind.width
  done : ∀ f ∈ l.fields, f ∉ todo → f.place.Same x y

namespace Filling

variable {s : Setting} {l : Layout} {source x y x' y' : Body} {bulk : Bool} {f : Field}
  {fs : List Field} {offset : Nat} {kind : Primitive.Kind}

/-- A field is done on both sides, and no other place has changed. -/
theorem step (h : Filling s l source bulk (f :: fs) x y) (hl : l.Sound) (hf : f ∈ l.fields)
    (hx : Body.Alters f.place x x') (hy : Body.Alters f.place y y') (hv : y'.values = x'.values)
    (hs : f.place.Same x' y')
    (hc : bulk = true → s.policy.resets f.marks = false → ∀ offset kind,
      f.place = .bytes offset kind →
        x'.readBytes offset kind.width = source.readBytes offset kind.width) :
    Filling s l source bulk fs x' y' := by
  refine ⟨hx.sized _ _ h.left, hy.sized _ _ h.right, hv, ?_, ?_⟩
  · intro hb g hg hr offset kind hp
    rcases hl.eq_or_apart hf hg with rfl | hap
    · exact hc hb hr offset kind hp
    · have hsame := hx.same g.place hap
      rw [hp] at hsame
      exact Eq.trans hsame (h.carried hb g hg hr offset kind hp)
  · intro g hg hn
    by_cases he : g = f
    · rw [he]
      exact hs
    · have hap := (hl.eq_or_apart hf hg).resolve_left fun h => he h.symm
      have hold : g.place.Same x y := h.done g hg (by simp [he, hn])
      exact ((hx.same g.place hap).symm.trans hold).trans (hy.same g.place hap)

/-- The same bytes are written on both sides. -/
theorem writeBytes (h : Filling s l source bulk (f :: fs) x y) (hl : l.Sound) (hf : f ∈ l.fields)
    (hp : f.place = .bytes offset kind) {bytes : List UInt8} (hlen : bytes.length = kind.width)
    (hc : bulk = true → s.policy.resets f.marks = true) :
    ∃ x' y', x.writeBytes offset bytes = .ok x' ∧ y.writeBytes offset bytes = .ok y' ∧
      Filling s l source bulk fs x' y' := by
  have hw : offset + bytes.length ≤ l.blockSize := by
    rw [hlen]
    exact hl.bytes_within hf hp
  obtain ⟨x', hx⟩ := h.left.exists_writeBytes hw
  obtain ⟨y', hy⟩ := h.right.exists_writeBytes hw
  refine ⟨x', y', hx, hy, h.step hl hf ?_ ?_ ?_ ?_ ?_⟩
  · rw [hp]
    exact Body.alters_writeBytes hlen hx
  · rw [hp]
    exact Body.alters_writeBytes hlen hy
  · rw [Body.values_writeBytes hx, Body.values_writeBytes hy, h.values]
  · rw [hp]
    have hrx := Body.readBytes_writeBytes hx
    have hry := Body.readBytes_writeBytes hy
    rw [hlen] at hrx hry
    exact hry.trans hrx.symm
  · intro hb hr
    rw [hc hb] at hr
    cases hr

/-- The same value is put into a slot on both sides. -/
theorem writeSlot (h : Filling s l source bulk (f :: fs) x y) (hl : l.Sound) (hf : f ∈ l.fields)
    {index : Nat} (hp : f.place = .slot index) (v : Value) :
    ∃ x' y', x.writeSlot index v = .ok x' ∧ y.writeSlot index v = .ok y' ∧
      Filling s l source bulk fs x' y' := by
  have hw := hl.slot_within hf hp
  obtain ⟨x', hx⟩ := h.left.exists_writeSlot hw v
  obtain ⟨y', hy⟩ := h.right.exists_writeSlot hw v
  refine ⟨x', y', hx, hy, h.step hl hf ?_ ?_ ?_ ?_ ?_⟩
  · rw [hp]
    exact Body.alters_writeSlot hx
  · rw [hp]
    exact Body.alters_writeSlot hy
  · exact Body.values_eq_of_writeSlot h.values hy hx
  · rw [hp]
    exact (Body.readSlot_writeSlot hy).trans (Body.readSlot_writeSlot hx).symm
  · intro _ _ offset kind hp'
    rw [hp] at hp'
    cases hp'

/-- A primitive that was carried over on the left is written on the right. -/
theorem catchUp (h : Filling s l source true (f :: fs) x y) (hl : l.Sound) (hf : f ∈ l.fields)
    (hp : f.place = .bytes offset kind) (hr : s.policy.resets f.marks = false) :
    ∃ bytes y', source.readBytes offset kind.width = .ok bytes ∧
      y.writeBytes offset bytes = .ok y' ∧ Filling s l source true fs x y' := by
  have hw := hl.bytes_within hf hp
  obtain ⟨bytes, hread⟩ := h.left.exists_readBytes hw
  have hlen := Body.length_of_readBytes hread
  have hcarried := h.carried rfl f hf hr offset kind hp
  have hw' : offset + bytes.length ≤ l.blockSize := by rw [hlen]; exact hw
  obtain ⟨y', hy⟩ := h.right.exists_writeBytes hw'
  refine ⟨bytes, y', hcarried.symm.trans hread, hy, h.step hl hf ?_ ?_ ?_ ?_ ?_⟩
  · exact Body.Alters.refl _ _
  · rw [hp]
    exact Body.alters_writeBytes hlen hy
  · rw [Body.values_writeBytes hy, h.values]
  · rw [hp]
    have hry := Body.readBytes_writeBytes hy
    rw [hlen] at hry
    exact hry.trans hread.symm
  · intro _ hr' offset' kind' hp'
    exact h.carried rfl f hf hr' offset' kind' hp'

/-- When all fields are done, the copies hold the same. -/
theorem agrees (h : Filling s l source bulk [] x y) : x.Agrees l.fields y := by
  obtain ⟨block, refs, rfl, hb, -⟩ := h.left.exists_record
  obtain ⟨block', refs', rfl, hb', -⟩ := h.right.exists_record
  exact ⟨hb'.trans hb.symm, h.values, fun f hf => h.done f hf List.not_mem_nil⟩

end Filling

/-! ## Access that goes well -/

section Access

variable {h : Heap} {o : ObjectId} {b : Body} {v : Value} {offset index : Nat}
  {kind : Primitive.Kind} {bytes : List UInt8}

theorem Direct.writeReference_eq {f : PlannedField} (hp : f.place = .slot index)
    (hb : (h.body o).writeSlot index v = .ok b) : Direct.writeReference f h o v = .ok ⟨o, b⟩ := by
  simp only [writeReference, hp, hb]
  rfl

theorem Direct.resetField_eq {f : PlannedField} (hp : f.place = .bytes offset kind)
    (hb : (h.body o).writeBytes offset (Bytes.zeros kind.width) = .ok b) :
    Direct.resetField f h o = .ok ⟨o, b⟩ := by
  simp only [resetField, hp, hb]
  rfl

theorem Direct.copyPrimitive_eq {f : PlannedField} {source : ObjectId}
    (hp : f.place = .bytes offset kind)
    (hr : (h.body source).readBytes offset kind.width = .ok bytes)
    (hb : (h.body o).writeBytes offset bytes = .ok b) :
    Direct.copyPrimitive f h source o = .ok ⟨o, b⟩ := by
  simp only [copyPrimitive, hp, hr]
  show Write.mk o <$> ((h.body o).writeBytes offset bytes).mapError (f.missed o) = _
  rw [hb]
  rfl

theorem Field.set_of_slot {f : Field} (hp : f.place = .slot index)
    (ha : f.type.category = .array → takesArray h v = true)
    (hb : (h.body o).writeSlot index v = .ok b) : f.set h o v = .ok ⟨o, b⟩ := by
  have hn : ¬ (f.type.category = .array ∧ takesArray h v = false) := by
    rintro ⟨hc, hv⟩
    rw [ha hc] at hv
    cases hv
  simp only [set, writeTo, hp, if_neg hn, hb]
  rfl

theorem Field.reset_of_bytes {f : Field} (hp : f.place = .bytes offset kind)
    (hb : (h.body o).writeBytes offset (Bytes.zeros kind.width) = .ok b) :
    f.reset h o = .ok ⟨o, b⟩ := by
  simp only [reset, hp, hb]
  rfl

theorem Field.reset_of_slot {f : Field} (hp : f.place = .slot index)
    (hb : (h.body o).writeSlot index .null = .ok b) : f.reset h o = .ok ⟨o, b⟩ := by
  simp only [reset, hp]
  exact set_of_slot hp (fun _ => rfl) hb

/-- A primitive that is read and written by checked access is carried over byte by byte, if it
stands as it is written and is no 32-bit pattern that is no number. -/
theorem PlannedField.get_set_eq {f : PlannedField} {p : Primitive} {source : ObjectId}
    (hp : f.place = .bytes offset kind) (hk : p.kind = kind) (hn : p.IsNumber)
    (hr : (h.body source).readBytes offset kind.width = .ok p.encode)
    (hb : (h.body o).writeBytes offset p.encode = .ok b) :
    (do
      let v ← (f.get h source).mapError (f.fault source)
      (f.set h o v).mapError (f.fault o) : Except CloneError Write) = .ok ⟨o, b⟩ := by
  subst hk
  have hget : f.get h source = .ok p.box := by
    rw [Field.get, Field.readFrom_of_bytes hp hr, Primitive.decode_encode]
    rfl
  have hset : f.set h o p.box = .ok ⟨o, b⟩ := by
    simp only [Field.set, Field.writeTo, hp, Primitive.unbox?_box hn, hb]
    rfl
  rw [hget]
  show (f.set h o p.box).mapError (f.fault o) = _
  rw [hset]
  rfl

end Access

/-! ## One field on both sides -/

namespace Setting

open CloneM

/-- The copies of one instance in two clones that are abreast, where the fields of `todo` are still
to come. -/
structure FillsBoth (s : Setting) (base : Run) (busy : ObjectId → Prop) (source t : ObjectId)
    (l : Layout) (bulk : Bool) (todo : List Field) (a b : Run) : Prop where
  abreast : Abreast s base busy a b
  new : base.heap.size ≤ t
  lt : t < a.heap.size
  busy : busy t
  filling : Filling s l (base.heap.body source) bulk todo (a.heap.body t) (b.heap.body t)

section Fields

variable {s : Setting} {base a b : Run} {busy : ObjectId → Prop} {source t : ObjectId} {l : Layout}
  {bulk : Bool} {f : Field} {fs : List Field}

/-- Both sides write to an object that is being filled. -/
theorem matches_update {change change' : Heap → Except CloneError Write} {x y : Body}
    (h : Abreast s base busy a b) (hnew : base.heap.size ≤ t) (hlt : t < a.heap.size)
    (hbusy : busy t) (hl : change a.heap = .ok ⟨t, x⟩) (hr : change' b.heap = .ok ⟨t, y⟩) :
    Matches (onMemory (CopyM.update change)) (onMemory (CopyM.update change')) a b
      fun _ _ a' b' => Abreast s base busy a' b' ∧ a'.copies = a.copies ∧ t < a'.heap.size ∧
        a'.heap.body t = x ∧ b'.heap.body t = y := by
  unfold Matches Tandem
  simp only [ends_onMemory, ends_copy_update, hl, hr]
  have hlt' : t < b.heap.size := by
    rw [h.size]
    exact hlt
  refine ⟨h.touched hnew hbusy (Or.inr ⟨x, rfl⟩) (Or.inr ⟨y, rfl⟩), trivial, ?_,
    Heap.body_setBody hlt x, Heap.body_setBody hlt' y⟩
  exact Nat.lt_of_lt_of_eq hlt (Heap.size_write _ _).symm

namespace FillsBoth

/-- The copies are as they were after nested values have been cloned. -/
theorem onward {a' b' : Run} (h : s.FillsBoth base busy source t l bulk fs a b)
    (ho : Onward s base busy a b a' b') : s.FillsBoth base busy source t l bulk fs a' b' := by
  refine ⟨ho.abreast, h.new, Nat.lt_of_lt_of_le h.lt ho.left.heap.size_le, h.busy, ?_⟩
  rw [ho.body_left h.lt, ho.body_right h.lt]
  exact h.filling

/-- A field of the copies is done. -/
theorem touched {m m' : Memory} (h : s.FillsBoth base busy source t l bulk (f :: fs) a b)
    (hl : Touched t a.heap m.heap) (hr : Touched t b.heap m'.heap)
    (hf : Filling s l (base.heap.body source) bulk fs (m.heap.body t) (m'.heap.body t)) :
    s.FillsBoth base busy source t l bulk fs { a with memory := m } { b with memory := m' } := by
  refine ⟨h.abreast.touched h.new h.busy hl hr, h.new, ?_, h.busy, hf⟩
  have hs : Spared (· = t) a.heap m.heap := Spared.of_touched hl rfl
  exact Nat.lt_of_lt_of_le h.lt hs.size_le

/-- Both sides write to their copies. -/
theorem wrote {change change' : Heap → Except CloneError Write} {x y : Body}
    (h : s.FillsBoth base busy source t l bulk (f :: fs) a b)
    (hl : change a.heap = .ok ⟨t, x⟩) (hr : change' b.heap = .ok ⟨t, y⟩)
    (hf : Filling s l (base.heap.body source) bulk fs x y) :
    Matches (onMemory (CopyM.update change)) (onMemory (CopyM.update change')) a b
      fun _ _ a' b' => s.FillsBoth base busy source t l bulk fs a' b' ∧ a'.copies = a.copies := by
  refine (matches_update h.abreast h.new h.lt h.busy hl hr).mono ?_ fun _ _ _ _ h => h
  intro _ _ a' b' hpost
  rcases hpost with ⟨h', hcopies, hlt, hx, hy⟩
  refine ⟨⟨h', h.new, hlt, h.busy, ?_⟩, hcopies⟩
  rw [hx, hy]
  exact hf

end FillsBoth

/-- Both sides fail with one error. -/
theorem matches_update_error {change change' : Heap → Except CloneError Write} {e : CloneError}
    {Q : Unit → Unit → Run → Run → Prop} (hl : change a.heap = .error e)
    (hr : change' b.heap = .error e) :
    Matches (onMemory (CopyM.update change)) (onMemory (CopyM.update change')) a b Q := by
  unfold Matches Tandem
  simp only [ends_onMemory, ends_copy_update, hl, hr]
  exact CloneError.Alike.refl e

variable {block : List UInt8} {refs : List Value} {depth : Nat} {r : Registry} {name : String}

theorem matches_resetField (hl : l.Sound) (hf : f ∈ l.fields)
    (hr : s.policy.resets f.marks = true)
    (h : s.FillsBoth base busy source t l bulk (f :: fs) a b) :
    Matches (onMemory (Backend.fast.resetField ⟨f, name⟩ t))
      (onMemory ((Backend.portable r).resetField ⟨f, name⟩ t)) a b
      fun _ _ a' b' => s.FillsBoth base busy source t l bulk fs a' b' ∧ a'.copies = a.copies := by
  cases hp : f.place with
  | bytes offset kind =>
    have hlen : (Bytes.zeros kind.width).length = kind.width := by simp [Bytes.zeros]
    obtain ⟨x, y, hx, hy, hfill⟩ := h.filling.writeBytes hl hf hp hlen fun _ => hr
    refine h.wrote (Direct.resetField_eq (f := ⟨f, name⟩) hp hx) ?_ hfill
    rw [Field.reset_of_bytes hp hy]
    rfl
  | slot index =>
    obtain ⟨x, y, hx, hy, hfill⟩ := h.filling.writeSlot hl hf hp .null
    refine h.wrote (x := x) (y := y) ?_ ?_ hfill
    · simp only [Direct.resetField, hp]
      exact Direct.writeReference_eq hp hx
    · rw [Field.reset_of_slot hp hy]
      rfl

/-- A primitive that is carried over on both sides. An instance that is too short is found out on
both sides alike. -/
theorem matches_copyPrimitive (hl : l.Sound) (hf : f ∈ l.fields)
    (hs : source < base.heap.size) (hb : base.heap.body source = .record block refs)
    (hc : l.Canonical base.heap (.record block refs)) (hprim : f.type.category = .primitive)
    (h : s.FillsBoth base busy source t l false (f :: fs) a b) :
    Matches (onMemory (Backend.fast.copyPrimitive ⟨f, name⟩ source t))
      (onMemory ((Backend.portable r).copyPrimitive ⟨f, name⟩ source t)) a b
      fun _ _ a' b' => s.FillsBoth base busy source t l false fs a' b' ∧
        a'.copies = a.copies := by
  have hbl : a.heap.body source = .record block refs := (h.abreast.body_left hs).trans hb
  have hbr : b.heap.body source = .record block refs := (h.abreast.body_right hs).trans hb
  cases hp : f.place with
  | slot index =>
    exact absurd hprim (hl.category_of_slot hf hp)
  | bytes offset kind =>
    cases hr : (Body.record block refs).readBytes offset kind.width with
    | error miss =>
      have hm := Body.error_of_readBytes hr
      subst hm
      have hget : f.get b.heap source = .error (.outOfBounds offset block.length) := by
        simp only [Field.get, Field.readFrom, hp, hbr, hr]
        rfl
      refine matches_update_error
        (e := PlannedField.fault ⟨f, name⟩ source (.outOfBounds offset block.length)) ?_ ?_
      · simp only [Direct.copyPrimitive, hp, hbl, hr]
        rfl
      · rw [hget]
        rfl
    | ok bytes =>
      obtain ⟨p, hk, hn, rfl⟩ := hc.primitives f hf offset kind bytes hp hr
      have hlen : p.encode.length = kind.width := by rw [Primitive.length_encode, hk]
      obtain ⟨x, y, hx, hy, hfill⟩ := h.filling.writeBytes hl hf hp hlen fun hb => by cases hb
      exact h.wrote (Direct.copyPrimitive_eq (f := ⟨f, name⟩) hp (hbl ▸ hr) hx)
        (PlannedField.get_set_eq (f := ⟨f, name⟩) hp hk hn (hbr ▸ hr) hy) hfill

/-- A primitive that was carried over with the whole block on the left. -/
theorem matches_carried (hl : l.Sound) (hf : f ∈ l.fields)
    (hs : source < base.heap.size) (hb : base.heap.body source = .record block refs)
    (hc : l.Canonical base.heap (.record block refs)) (hprim : f.type.category = .primitive)
    (hr : s.policy.resets f.marks = false)
    (h : s.FillsBoth base busy source t l true (f :: fs) a b) :
    Matches (pure () : CloneM Unit)
      (onMemory ((Backend.portable r).copyPrimitive ⟨f, name⟩ source t)) a b
      fun _ _ a' b' => s.FillsBoth base busy source t l true fs a' b' ∧ a'.copies = a.copies := by
  have hbr : b.heap.body source = .record block refs := (h.abreast.body_right hs).trans hb
  cases hp : f.place with
  | slot index =>
    exact absurd hprim (hl.category_of_slot hf hp)
  | bytes offset kind =>
    obtain ⟨bytes, y, hread, hy, hfill⟩ := h.filling.catchUp hl hf hp hr
    rw [hb] at hread
    obtain ⟨p, hk, hn, rfl⟩ := hc.primitives f hf offset kind bytes hp hread
    have hright := PlannedField.get_set_eq (f := ⟨f, name⟩) (h := b.heap) hp hk hn (hbr ▸ hread) hy
    have hlt : t < b.heap.size := by
      rw [h.abreast.size]
      exact h.lt
    have hdone : s.FillsBoth base busy source t l true fs a
        { b with memory.heap := b.heap.setBody t y } := by
      apply h.touched (Or.inl rfl) (Or.inr ⟨y, rfl⟩)
      rw [Heap.body_setBody hlt]
      exact hfill
    unfold Matches Tandem
    rw [ends_pure, ends_onMemory, Backend.copyPrimitive, ends_copy_update, hright]
    exact ⟨hdone, rfl⟩

theorem matches_readField (hl : l.Sound) (hf : f ∈ l.fields) (h : Abreast s base busy a b)
    (hs : source < base.heap.size) (hb : base.heap.body source = .record block refs)
    (hprim : f.type.category ≠ .primitive) :
    Matches (onMemory (Backend.fast.readField ⟨f, name⟩ source))
      (onMemory ((Backend.portable r).readField ⟨f, name⟩ source)) a b
      fun v v' a' b' => v' = v ∧ (∃ index, f.place = .slot index ∧
        (base.heap.body source).readSlot index = .ok v) ∧ a' = a ∧ b' = b := by
  have hbl : a.heap.body source = .record block refs := (h.body_left hs).trans hb
  have hbr : b.heap.body source = .record block refs := (h.body_right hs).trans hb
  cases hp : f.place with
  | bytes offset kind =>
    exact absurd (hl.category_of_bytes hf hp) hprim
  | slot index =>
    unfold Matches Tandem
    simp only [ends_onMemory, Backend.readField, ends_copy_read, Direct.readField, Field.get,
      Field.readFrom, hp, hbl, hbr]
    cases hr : (Body.record block refs).readSlot index with
    | error miss =>
      have hm := Body.error_of_readSlot hr
      subst hm
      exact CloneError.Alike.refl
        (PlannedField.fault ⟨f, name⟩ source (.outOfBounds index refs.length))
    | ok v => exact ⟨rfl, ⟨index, rfl, hb ▸ hr⟩, trivial, trivial⟩

theorem matches_writeReference (hl : l.Sound) (hf : f ∈ l.fields) {index : Nat}
    (hp : f.place = .slot index) {v : Value}
    (ha : f.type.category = .array → Field.takesArray b.heap v = true)
    (h : s.FillsBoth base busy source t l bulk (f :: fs) a b) :
    Matches (onMemory (Backend.fast.writeReference ⟨f, name⟩ t v))
      (onMemory ((Backend.portable r).writeReference ⟨f, name⟩ t v)) a b
      fun _ _ a' b' => s.FillsBoth base busy source t l bulk fs a' b' ∧ a'.copies = a.copies := by
  obtain ⟨x, y, hx, hy, hfill⟩ := h.filling.writeSlot hl hf hp v
  refine h.wrote (Direct.writeReference_eq (f := ⟨f, name⟩) hp hx) ?_ hfill
  rw [Field.set_of_slot hp ha hy]
  rfl

end Fields

/-! ## All fields on both sides -/

section Instances

variable {s : Setting} {base a b : Run} {busy : ObjectId → Prop} {source t : ObjectId} {l : Layout}
  {bulk : Bool} {block : List UInt8} {refs : List Value} {depth : Nat}
  {nested nested' : Value → CloneM Value}
  (hc : s.Comparable base) (hn : s.Pairs base depth nested nested') (hl : l.Sound)
  (hs : source < base.heap.size) (hb : base.heap.body source = .record block refs)
  (hcan : l.Canonical base.heap (.record block refs))
include hc hn hl hs hb hcan

theorem matches_copyField {f : Field} {fs : List Field} (hf : f ∈ l.fields) (name : String)
    (h : s.FillsBoth base busy source t l bulk (f :: fs) a b)
    (hd : a.copies.missing base.heap.size ≤ depth) :
    Matches (s.direct.copyField nested source t bulk ⟨f, name⟩)
      (s.checked.copyField nested' source t false ⟨f, name⟩) a b
      fun _ _ a' b' => s.FillsBoth base busy source t l bulk fs a' b' ∧
        a'.copies.missing base.heap.size ≤ depth := by
  have same : ∀ {a' b' : Run}, s.FillsBoth base busy source t l bulk fs a' b' ∧
      a'.copies = a.copies → s.FillsBoth base busy source t l bulk fs a' b' ∧
        a'.copies.missing base.heap.size ≤ depth := by
    rintro a' b' ⟨h', hcopies⟩
    exact ⟨h', hcopies ▸ hd⟩
  unfold copyField
  by_cases hr : s.policy.resets f.marks = true
  · rw [if_pos hr, if_pos hr]
    exact (matches_resetField hl hf hr h).mono (fun _ _ _ _ => same) fun _ _ _ _ h => h
  · rw [if_neg hr, if_neg hr]
    by_cases hprim : f.type.category = .primitive
    · rw [if_pos hprim, if_pos hprim]
      cases bulk with
      | true =>
        have hr' : s.policy.resets f.marks = false := by simpa using hr
        exact (matches_carried hl hf hs hb hcan hprim hr' h).mono (fun _ _ _ _ => same)
          fun _ _ _ _ h => h
      | false =>
        exact (matches_copyPrimitive hl hf hs hb hcan hprim h).mono (fun _ _ _ _ => same)
          fun _ _ _ _ h => h
    · rw [if_neg hprim, if_neg hprim]
      apply (matches_readField hl hf h.abreast hs hb hprim).bind
      intro _ v a₁ b₁ hpost
      rcases hpost with ⟨rfl, ⟨index, hp, hv⟩, rfl, rfl⟩
      have hhas := hc.heap.closed source hs v (Body.mem_values_of_readSlot hv)
      apply (hn.clone hc.tame h.abreast hhas hd).bind
      intro _ w a₂ b₂ hpost
      rcases hpost with ⟨rfl, ho, ha⟩
      have harray : f.type.category = .array → Field.takesArray b₂.heap w = true := by
        intro hcat
        rw [ho.abreast.takesArray_right]
        exact ha (hcan.arrays f hf index v hp hcat (hb ▸ hv))
      rw [Backend.copyField_some _ hprim, Backend.copyField_some _ hprim]
      refine (matches_writeReference hl hf hp harray (h.onward ho)).mono ?_ fun _ _ _ _ h => h
      rintro _ _ a₃ b₃ ⟨h₃, hcopies⟩
      exact ⟨h₃, hcopies ▸ Nat.le_trans (ho.missing_le _) hd⟩

theorem matches_copyFieldsFrom (name : String) (fs : List Field) (hfs : ∀ f ∈ fs, f ∈ l.fields)
    (h : s.FillsBoth base busy source t l bulk fs a b)
    (hd : a.copies.missing base.heap.size ≤ depth) :
    Matches
      (s.direct.copyFieldsFrom nested source t bulk (fs.map fun f => ⟨f, name⟩))
      (s.checked.copyFieldsFrom nested' source t false (fs.map fun f => ⟨f, name⟩)) a b
      fun _ _ a' b' => s.FillsBoth base busy source t l bulk [] a' b' := by
  induction fs generalizing a b with
  | nil => exact h
  | cons f fs ih =>
    have hf := hfs f List.mem_cons_self
    apply (matches_copyField hc hn hl hs hb hcan hf name h hd).bind
    rintro _ _ a₁ b₁ ⟨h₁, hd₁⟩
    exact ih (fun g hg => hfs g (List.mem_cons_of_mem f hg)) h₁ hd₁

omit hc hn hl hcan in
/-- Two bare copies are ready to be filled. By direct access the block of the source is carried over
if it is as long as the class says. -/
theorem matches_copyBlock (h : Abreast s base busy a b) (hnew : base.heap.size ≤ t)
    (hlt : t < a.heap.size) (hbusy : busy t)
    (hbl : a.heap.body t = Body.bareRecord l.blockSize l.slotCount)
    (hbr : b.heap.body t = Body.bareRecord l.blockSize l.slotCount) :
    Matches (onMemory (Backend.fast.copyBlock source t))
      (onMemory ((Backend.portable s.registry).copyBlock source t)) a b
      fun bulk bulk' a' b' => bulk' = false ∧
        s.FillsBoth base busy source t l bulk l.fields a' b' ∧ a'.copies = a.copies := by
  have hne : ¬ source = t := fun he => absurd hs (Nat.not_lt.mpr (he ▸ hnew))
  have hsl : a.heap.body source = .record block refs := (h.body_left hs).trans hb
  have hbare : (Body.bareRecord l.blockSize l.slotCount).Sized l.blockSize l.slotCount := by
    simp [Body.bareRecord, Body.Sized, Bytes.zeros]
  have hzeros : (Bytes.zeros l.blockSize).length = l.blockSize := by simp [Bytes.zeros]
  unfold Matches Tandem
  simp only [ends_onMemory, Backend.copyBlock, if_neg hne, ends_bind, ends_get, ends_pure]
  by_cases hlen : l.blockSize = block.length
  · have hblock : Direct.copyBlock? a.memory.heap source t =
        some ⟨t, .record block (List.replicate l.slotCount .null)⟩ := by
      simp only [Direct.copyBlock?, hsl, hbl, Body.bareRecord, hzeros, if_pos hlen]
    simp only [hblock, ends_bind, ends_modify, ends_pure]
    refine ⟨trivial, ⟨h.touched hnew hbusy (Or.inr ⟨_, rfl⟩) (Or.inl rfl), hnew, ?_, hbusy, ?_⟩,
      trivial⟩
    · exact Nat.lt_of_lt_of_eq hlt (Heap.size_write _ _).symm
    · show Filling s l _ true l.fields ((a.heap.setBody t _).body t) (b.heap.body t)
      rw [Heap.body_setBody hlt, hbr, hb]
      refine ⟨⟨hlen.symm, List.length_replicate⟩, hbare, rfl, ?_, fun f hf hn => absurd hf hn⟩
      intro _ f hf hr offset kind hp
      rfl
  · have hblock : Direct.copyBlock? a.memory.heap source t = none := by
      simp only [Direct.copyBlock?, hsl, hbl, Body.bareRecord, hzeros, if_neg hlen]
    simp only [hblock, ends_pure]
    refine ⟨trivial, ⟨h, hnew, hlt, hbusy, ?_⟩, trivial⟩
    rw [hbl, hbr]
    refine ⟨hbare, hbare, rfl, ?_, fun f hf hn => absurd hf hn⟩
    intro hbulk
    cases hbulk

/-- The fields of an instance are cloned into two bare copies: after that the copies hold the
same. -/
theorem matches_copyFields {e : Registry.Entry} {cls : ClassId} {p : Plan}
    (hd : p.Describes cls e) (hle : e.layout = l) (h : Abreast s base busy a b)
    (hmiss : a.copies.missing base.heap.size ≤ depth) (hnew : base.heap.size ≤ t)
    (hlt : t < a.heap.size) (hbusy : busy t)
    (hbl : a.heap.body t = Body.bareRecord l.blockSize l.slotCount)
    (hbr : b.heap.body t = Body.bareRecord l.blockSize l.slotCount) :
    Matches (s.direct.copyFields nested source t p) (s.checked.copyFields nested' source t p) a b
      fun _ _ a' b' => Abreast s base busy a' b' ∧
        (a'.heap.body t).Agrees l.fields (b'.heap.body t) := by
  unfold copyFields
  apply (matches_copyBlock hs hb h hnew hlt hbusy hbl hbr).bind
  intro bulk _ a₁ b₁ hpost
  rcases hpost with ⟨rfl, h₁, hcopies⟩
  rw [hd.fields_eq, hle]
  refine (matches_copyFieldsFrom hc hn hl hs hb hcan e.decl.name l.fields (fun _ hf => hf) h₁
    (hcopies ▸ hmiss)).mono ?_ fun _ _ _ _ h => h
  intro _ _ a₂ b₂ h₂
  exact ⟨h₂.abreast, h₂.filling.agrees⟩

end Instances

end Setting

end DeepCopy
