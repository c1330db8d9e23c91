-- What a backend has done when it succeeds, down to the field: the field that
-- was written holds what was to be written, and every other field of the
-- instance is as it was. New objects are as bare as their classes say.
import DeepCopy.Proofs.RoundTrip
import DeepCopy.Proofs.Writes

namespace DeepCopy

/-! ## One place of a body -/

/-- Two bodies hold the same at a place. -/
def Place.Same (b b' : Body) : Place → Prop
  | .bytes offset kind => b'.readBytes offset kind.width = b.readBytes offset kind.width
  | .slot index => b'.readSlot index = b.readSlot index

/-- An instance with a block and slots of certain sizes. -/
def Body.Sized (blockSize slotCount : Nat) : Body → Prop
  | .record block refs => block.length = blockSize ∧ refs.length = slotCount
  | _ => False

/-- A body of which at most one place was changed. -/
structure Body.Alters (p : Place) (b b' : Body) : Prop where
  sized : ∀ blockSize slotCount, b.Sized blockSize slotCount → b'.Sized blockSize slotCount
  same : ∀ q : Place, p.Apart q → q.Same b b'

theorem Field.readFrom_of_same {f : Field} {b b' : Body} (h : f.place.Same b b') :
    f.readFrom b' = f.readFrom b := by
  unfold readFrom
  cases hp : f.place with
  | bytes offset kind =>
    rw [hp] at h
    simp only [Place.Same] at h
    simp only [h]
  | slot index =>
    rw [hp] at h
    exact h

namespace Body

theorem alters_writeBytes {offset : Nat} {kind : Primitive.Kind} {bytes : List UInt8} {b b' : Body}
    (hlen : bytes.length = kind.width) (h : b.writeBytes offset bytes = .ok b') :
    Alters (.bytes offset kind) b b' := by
  cases b <;> simp only [writeBytes] at h
  case record block refs =>
    split at h
    · rename_i hfit
      cases h
      refine ⟨?_, ?_⟩
      · rintro m n ⟨hb, hr⟩
        exact ⟨(Bytes.length_overwrite hfit).trans hb, hr⟩
      · intro q hq
        cases q with
        | bytes offset' kind' =>
          simp only [Place.Same, readBytes]
          rw [Bytes.window?_overwrite_outside hfit (hlen.symm ▸ hq.symm),
            Bytes.length_overwrite hfit]
        | slot index => rfl
    · cases h
  all_goals cases h

theorem alters_writeSlot {index : Nat} {v : Value} {b b' : Body}
    (h : b.writeSlot index v = .ok b') : Alters (.slot index) b b' := by
  cases b <;> simp only [writeSlot] at h
  case record block refs =>
    split at h
    · cases h
      refine ⟨?_, ?_⟩
      · rintro m n ⟨hb, hr⟩
        exact ⟨hb, by simpa using hr⟩
      · intro q hq
        cases q with
        | bytes offset kind => rfl
        | slot index' =>
          simp only [Place.Same, readSlot, List.getElem?_set_ne hq, List.length_set]
    · cases h
  all_goals cases h

theorem length_of_readBytes {offset width : Nat} {bytes : List UInt8} {b : Body}
    (h : b.readBytes offset width = .ok bytes) : bytes.length = width := by
  cases b <;> simp only [readBytes] at h
  case record block refs =>
    cases hw : Bytes.window? offset width block with
    | none =>
      rw [hw] at h
      cases h
    | some bytes' =>
      rw [hw] at h
      cases h
      unfold Bytes.window? at hw
      split at hw
      · cases hw
        simp only [List.length_take, List.length_drop]
        omega
      · cases hw
  all_goals cases h

section Sized

variable {blockSize slotCount : Nat} {b : Body}

theorem Sized.exists_record (h : b.Sized blockSize slotCount) : ∃ block refs,
    b = .record block refs ∧ block.length = blockSize ∧ refs.length = slotCount := by
  cases b with
  | record block refs => exact ⟨block, refs, rfl, h.1, h.2⟩
  | _ => exact h.elim

theorem Sized.exists_readBytes (h : b.Sized blockSize slotCount) {offset width : Nat}
    (hw : offset + width ≤ blockSize) : ∃ bytes, b.readBytes offset width = .ok bytes := by
  obtain ⟨block, refs, rfl, rfl, rfl⟩ := h.exists_record
  refine ⟨(block.drop offset).take width, ?_⟩
  simp only [readBytes, Bytes.window?, if_pos hw]

theorem Sized.exists_readSlot (h : b.Sized blockSize slotCount) {index : Nat}
    (hw : index < slotCount) : ∃ v, b.readSlot index = .ok v := by
  obtain ⟨block, refs, rfl, rfl, rfl⟩ := h.exists_record
  refine ⟨refs[index], ?_⟩
  simp only [readSlot, List.getElem?_eq_getElem hw]

theorem Sized.exists_writeBytes (h : b.Sized blockSize slotCount) {offset : Nat}
    {bytes : List UInt8} (hw : offset + bytes.length ≤ blockSize) :
    ∃ b', b.writeBytes offset bytes = .ok b' := by
  obtain ⟨block, refs, rfl, rfl, rfl⟩ := h.exists_record
  refine ⟨record (Bytes.overwrite offset bytes block) refs, ?_⟩
  simp only [writeBytes, if_pos hw]

theorem Sized.exists_writeSlot (h : b.Sized blockSize slotCount) {index : Nat}
    (hw : index < slotCount) (v : Value) : ∃ b', b.writeSlot index v = .ok b' := by
  obtain ⟨block, refs, rfl, rfl, rfl⟩ := h.exists_record
  refine ⟨record block (refs.set index v), ?_⟩
  simp only [writeSlot, if_pos hw]

end Sized

end Body

namespace Field

/-- What a field holds before anything is written to it. -/
def default (f : Field) : Value :=
  match f.place with
  | .bytes _ kind => (Primitive.zero kind).box
  | .slot _ => .null

theorem readFrom_of_bytes {f : Field} {offset : Nat} {kind : Primitive.Kind} {bytes : List UInt8}
    {b : Body} (hp : f.place = .bytes offset kind)
    (h : b.readBytes offset kind.width = .ok bytes) :
    f.readFrom b = .ok (Primitive.decode kind bytes).box := by
  unfold readFrom
  simp only [hp, h]
  rfl

theorem readFrom_of_slot {f : Field} {index : Nat} (hp : f.place = .slot index) (b : Body) :
    f.readFrom b = b.readSlot index := by
  unfold readFrom
  simp only [hp]

theorem object?_of_readFrom {f : Field} {offset : Nat} {kind : Primitive.Kind} {b : Body}
    {v : Value} (hp : f.place = .bytes offset kind) (h : f.readFrom b = .ok v) :
    v.object? = none := by
  unfold readFrom at h
  simp only [hp] at h
  obtain ⟨p, rfl⟩ := Body.box_of_readBytes h
  exact Primitive.object?_box p

/-- An object that a field refers to is among those that the instance refers to. -/
theorem mem_values_of_readFrom {f : Field} {b : Body} {o : ObjectId}
    (h : f.readFrom b = .ok (.ref o)) : Value.ref o ∈ b.values := by
  cases hp : f.place with
  | bytes offset kind => cases object?_of_readFrom hp h
  | slot index => exact Body.mem_values_of_readSlot ((readFrom_of_slot hp b).symm.trans h)

/-- A field of a primitive type refers to no object. -/
theorem object?_of_primitive {f : Field} {l : Layout} {b : Body} {v : Value} (hl : l.Sound)
    (hf : f ∈ l.fields) (hprim : f.type.category = .primitive) (h : f.readFrom b = .ok v) :
    v.object? = none := by
  cases hp : f.place with
  | bytes offset kind => exact object?_of_readFrom hp h
  | slot index => exact absurd hprim (hl.category_of_slot hf hp)

/-- A field inside an instance can be read. -/
theorem exists_readFrom {f : Field} {blockSize slotCount : Nat} {b : Body}
    (hw : f.place.Within blockSize slotCount) (hb : b.Sized blockSize slotCount) :
    ∃ v, f.readFrom b = .ok v := by
  cases hp : f.place with
  | bytes offset kind =>
    rw [hp] at hw
    obtain ⟨bytes, hread⟩ := hb.exists_readBytes hw
    exact ⟨_, readFrom_of_bytes hp hread⟩
  | slot index =>
    rw [hp] at hw
    obtain ⟨v, hread⟩ := hb.exists_readSlot hw
    exact ⟨v, (readFrom_of_slot hp b).trans hread⟩

/-- A primitive field reads as the primitive whose bytes were written. -/
theorem readFrom_writeBytes {f : Field} {offset : Nat} {kind : Primitive.Kind} {p : Primitive}
    {b b' : Body} (hp : f.place = .bytes offset kind) (hk : p.kind = kind)
    (h : b.writeBytes offset p.encode = .ok b') : f.readFrom b' = .ok p.box := by
  have hr := Body.readBytes_writeBytes h
  rw [Primitive.length_encode, hk] at hr
  rw [readFrom_of_bytes hp hr, ← hk, Primitive.decode_encode]

end Field

/-! ## One field of an object -/

/-- At most one field of one object has changed. -/
structure Rewrites (f : Field) (target : ObjectId) (h h' : Heap) : Prop where
  touched : Touched target h h'
  alters : Body.Alters f.place (h.body target) (h'.body target)

theorem Heap.body_setBody {h : Heap} {o : ObjectId} (ho : o < h.size) (b : Body) :
    (h.setBody o b).body o = b := by
  rw [Heap.body, Heap.get_setBody_self b ho]

theorem rewrites_of_alters {f : Field} {target : ObjectId} {h : Heap} {b : Body}
    (ht : target < h.size) (ha : Body.Alters f.place (h.body target) b) :
    Rewrites f target h (h.setBody target b) := by
  refine ⟨Or.inr ⟨b, rfl⟩, ?_⟩
  rw [Heap.body_setBody ht]
  exact ha

namespace Backend

variable {r : Registry} {m : Memory} {b : Backend} {f : PlannedField} {source target : ObjectId}

/-- A field now reads as a value, and no other field of the object has changed. -/
def Puts (f : Field) (target : ObjectId) (v : Value) (m m' : Memory) : Prop :=
  Rewrites f target m.heap m'.heap ∧ f.readFrom (m'.heap.body target) = .ok v

theorem yields_update {change : Heap → Except CloneError Write} {Q : Unit → Memory → Prop}
    (h : ∀ w, change m.heap = .ok w → Q () { m with heap := m.heap.write w }) :
    Yields (CopyM.update change) m Q := by
  unfold Yields
  rw [ends_copy_update]
  cases hc : change m.heap with
  | ok w => exact h w hc
  | error e => trivial

theorem puts_of_writeBytes {f : Field} {offset : Nat} {kind : Primitive.Kind} {p : Primitive}
    {body : Body} (ht : target < m.heap.size) (hp : f.place = .bytes offset kind)
    (hk : p.kind = kind) (h : (m.heap.body target).writeBytes offset p.encode = .ok body) :
    Puts f target p.box m { m with heap := m.heap.setBody target body } := by
  refine ⟨rewrites_of_alters ht ?_, ?_⟩
  · rw [hp]
    exact Body.alters_writeBytes (by rw [Primitive.length_encode, hk]) h
  · rw [Heap.body_setBody ht]
    exact Field.readFrom_writeBytes hp hk h

theorem puts_of_writeSlot {f : Field} {index : Nat} {v : Value} {body : Body}
    (ht : target < m.heap.size) (hp : f.place = .slot index)
    (h : (m.heap.body target).writeSlot index v = .ok body) :
    Puts f target v m { m with heap := m.heap.setBody target body } := by
  refine ⟨rewrites_of_alters ht ?_, ?_⟩
  · rw [hp]
    exact Body.alters_writeSlot h
  · rw [Heap.body_setBody ht, Field.readFrom_of_slot hp]
    exact Body.readSlot_writeSlot h

/-- Checked access to a slot puts the value there. -/
theorem puts_of_set {f : Field} {index : Nat} {v : Value} {w : Write} (ht : target < m.heap.size)
    (hp : f.place = .slot index) (h : f.set m.heap target v = .ok w) :
    Puts f target v m { m with heap := m.heap.write w } := by
  obtain ⟨body, hb, rfl⟩ := write_of_map h
  unfold Field.writeTo at hb
  simp only [hp] at hb
  split at hb
  · cases hb
  · exact puts_of_writeSlot ht hp (ok_of_mapError hb)

theorem yields_writeReference (hb : b.Over r) (ht : target < m.heap.size) {index : Nat}
    (hp : f.place = .slot index) (v : Value) :
    Yields (b.writeReference f target v) m fun _ m' => Puts f.toField target v m m' := by
  rcases hb with rfl | rfl
  · refine yields_update fun w hw => ?_
    obtain ⟨index', body, hp', hx, rfl⟩ := slot_of_writeReference hw
    exact puts_of_writeSlot ht hp' hx
  · exact yields_update fun w hw => puts_of_set ht hp (ok_of_mapError hw)

theorem yields_resetField (hb : b.Over r) (ht : target < m.heap.size) :
    Yields (b.resetField f target) m
      fun _ m' => Puts f.toField target f.toField.default m m' := by
  have bytes : ∀ {offset kind body}, f.place = .bytes offset kind →
      (m.heap.body target).writeBytes offset (Bytes.zeros kind.width) = .ok body →
      Puts f.toField target f.toField.default m { m with heap := m.heap.setBody target body } := by
    intro offset kind body hp h
    rw [← Primitive.encode_zero] at h
    have := puts_of_writeBytes ht hp (Primitive.kind_zero kind) h
    simpa only [Field.default, hp] using this
  have slot : ∀ {index}, f.place = .slot index → f.toField.default = .null := by
    intro index hp
    simp only [Field.default, hp]
  rcases hb with rfl | rfl
  · refine yields_update fun w hw => ?_
    unfold Direct.resetField at hw
    split at hw
    · rename_i offset kind hp
      obtain ⟨body, hb, rfl⟩ := write_of_map hw
      exact bytes hp (ok_of_mapError hb)
    · rename_i index hp
      obtain ⟨index', body, hp', hx, rfl⟩ := slot_of_writeReference hw
      rw [slot hp']
      exact puts_of_writeSlot ht hp' hx
  · refine yields_update fun w hw => ?_
    have hw := ok_of_mapError hw
    unfold Field.reset at hw
    split at hw
    · rename_i offset kind hp
      obtain ⟨body, hb, rfl⟩ := write_of_map hw
      exact bytes hp (ok_of_mapError hb)
    · rename_i index hp
      rw [slot hp]
      exact puts_of_set ht hp hw

theorem yields_readField (hb : b.Over r) :
    Yields (b.readField f source) m
      fun v m' => f.toField.readFrom (m.heap.body source) = .ok v ∧ m' = m := by
  rcases hb with rfl | rfl
  · refine ends_mono (ends_read _) ?_ (fun _ _ _ => trivial)
    rintro v _ ⟨hv, rfl⟩
    obtain ⟨index, hp, hx⟩ := slot_of_readField hv
    exact ⟨(Field.readFrom_of_slot hp _).trans hx, rfl⟩
  · refine ends_mono (ends_read _) ?_ (fun _ _ _ => trivial)
    rintro v _ ⟨hv, rfl⟩
    exact ⟨ok_of_mapError (ok_of_mapError hv), rfl⟩

/-- Direct access carries what is at the place of a field, byte by byte. -/
theorem puts_of_copyPrimitive {w : Write} (ht : target < m.heap.size)
    (h : Direct.copyPrimitive f m.heap source target = .ok w) : ∃ v,
    f.toField.readFrom (m.heap.body source) = .ok v ∧
      Puts f.toField target v m { m with heap := m.heap.write w } := by
  unfold Direct.copyPrimitive at h
  split at h
  · cases hr : Direct.readField f m.heap source with
    | error e =>
      rw [hr] at h
      cases h
    | ok v =>
      rw [hr] at h
      obtain ⟨index, body, hp, hx, rfl⟩ := slot_of_writeReference h
      obtain ⟨index', hp', hy⟩ := slot_of_readField hr
      exact ⟨v, (Field.readFrom_of_slot hp' _).trans hy, puts_of_writeSlot ht hp hx⟩
  · rename_i offset kind hp
    cases hr : ((m.heap.body source).readBytes offset kind.width).mapError (f.missed source) with
    | error e =>
      rw [hr] at h
      cases h
    | ok bytes =>
      rw [hr] at h
      have hr := ok_of_mapError hr
      obtain ⟨body, hx, rfl⟩ := write_of_map h
      have hx := ok_of_mapError hx
      have hlen := Body.length_of_readBytes hr
      have hback := Body.readBytes_writeBytes hx
      rw [hlen] at hback
      refine ⟨_, Field.readFrom_of_bytes hp hr, rewrites_of_alters ht ?_, ?_⟩
      · rw [hp]
        exact Body.alters_writeBytes hlen hx
      · rw [Heap.write, Heap.body_setBody ht]
        exact Field.readFrom_of_bytes hp hback

/-- Checked access puts back what it has read, if that is no 32-bit pattern that is no number. -/
theorem puts_of_readFrom {f : Field} {v : Value} {w : Write} (ht : target < m.heap.size)
    (hn : ∀ offset kind bytes, f.place = .bytes offset kind →
      (m.heap.body source).readBytes offset kind.width = .ok bytes →
      (Primitive.decode kind bytes).IsNumber)
    (hr : f.readFrom (m.heap.body source) = .ok v) (h : f.set m.heap target v = .ok w) :
    Puts f target v m { m with heap := m.heap.write w } := by
  cases hp : f.place with
  | slot index => exact puts_of_set ht hp h
  | bytes offset kind =>
    obtain ⟨body, hx, rfl⟩ := write_of_map h
    unfold Field.writeTo at hx
    unfold Field.readFrom at hr
    simp only [hp] at hx hr
    cases hread : (m.heap.body source).readBytes offset kind.width with
    | error miss =>
      rw [hread] at hr
      cases hr
    | ok bytes =>
      rw [hread] at hr
      cases hr
      have hu := Primitive.unbox?_box (hn offset kind bytes hp hread)
      rw [Primitive.kind_decode] at hu
      simp only [hu] at hx
      exact puts_of_writeBytes ht hp (Primitive.kind_decode kind bytes) (ok_of_mapError hx)

/-- A primitive that is carried reads the same at the target. -/
theorem yields_copyPrimitive (hb : b.Over r) (ht : target < m.heap.size)
    (hn : ∀ offset kind bytes, f.place = .bytes offset kind →
      (m.heap.body source).readBytes offset kind.width = .ok bytes →
      (Primitive.decode kind bytes).IsNumber) :
    Yields (b.copyPrimitive f source target) m fun _ m' => ∃ v,
      f.toField.readFrom (m.heap.body source) = .ok v ∧ Puts f.toField target v m m' := by
  rcases hb with rfl | rfl
  · exact yields_update fun w hw => puts_of_copyPrimitive ht hw
  · refine yields_update fun w hw => ?_
    cases hr : ((f.get m.heap source).mapError (f.fault source)) with
    | error e =>
      rw [hr] at hw
      cases hw
    | ok v =>
      rw [hr] at hw
      have hread := ok_of_mapError (ok_of_mapError hr)
      exact ⟨v, hread, puts_of_readFrom ht hn hread (ok_of_mapError hw)⟩

/-- Where the whole block is carried at once, all primitive fields read the same at the target, and
the slots are as they were. -/
theorem yields_copyBlock (ht : target < m.heap.size) :
    Yields (b.copyBlock source target) m fun bulk m' =>
      Touched target m.heap m'.heap ∧
      (∀ blockSize slotCount, (m.heap.body target).Sized blockSize slotCount →
        (m'.heap.body target).Sized blockSize slotCount) ∧
      (bulk = true → ∀ f : Field, ∀ offset kind, f.place = .bytes offset kind →
        f.readFrom (m'.heap.body target) = f.readFrom (m.heap.body source)) := by
  cases b with
  | portable r => exact ⟨Or.inl rfl, fun _ _ h => h, fun h => by cases h⟩
  | fast =>
    simp only [copyBlock]
    split
    · rename_i heq
      subst heq
      exact ⟨Or.inl rfl, fun _ _ h => h, fun _ _ _ _ _ => rfl⟩
    · simp only [ends_bind, ends_get]
      cases hx : Direct.copyBlock? m.heap source target with
      | none => exact ⟨Or.inl rfl, fun _ _ h => h, fun h => by cases h⟩
      | some w =>
        unfold Direct.copyBlock? at hx
        split at hx
        · rename_i block refs old slots hbs hbt
          split at hx
          · rename_i hlen
            cases hx
            have hbody : (m.heap.setBody target (.record block slots)).body target =
                .record block slots := Heap.body_setBody ht _
            refine ⟨Or.inr ⟨_, rfl⟩, ?_, ?_⟩
            · intro blockSize slotCount hsized
              show ((m.heap.setBody target (.record block slots)).body target).Sized _ _
              rw [hbt] at hsized
              rw [hbody]
              exact ⟨hlen ▸ hsized.1, hsized.2⟩
            · intro _ f offset kind hp
              show f.readFrom ((m.heap.setBody target (.record block slots)).body target) = _
              rw [hbody, hbs]
              unfold Field.readFrom
              simp only [hp]
              rfl
          · cases hx
        · cases hx

/-! ## New objects -/

/-- There is one more object, of a class and with a body. -/
def Adds (cls : ClassId) (body : Body) (m : Memory) (o : ObjectId) (m' : Memory) : Prop :=
  o = m.heap.size ∧ m'.heap = m.heap.add (Object.new cls body)

section NewObjects

variable {cls : ClassId} {e : Registry.Entry}

theorem adds_packed (he : r.get? cls = some e) {kind : Primitive.Kind}
    (hk : e.decl.kind = .array (.primitive kind)) (length : Nat) :
    Succeeds (Allocator.allocateArray r cls length) m
      (Adds cls (.packed kind (Bytes.zeros (length * kind.width))) m) := by
  simp only [Succeeds, Allocator.allocateArray, ends_bind, ends_memory_read, decl_of_get? he, hk]
  exact ⟨rfl, rfl⟩

theorem adds_slots (he : r.get? cls = some e) {c : ClassId}
    (hk : e.decl.kind = .array (.reference c)) (length : Nat) :
    Succeeds (Allocator.allocateArray r cls length) m
      (Adds cls (.slots (List.replicate length .null)) m) := by
  simp only [Succeeds, Allocator.allocateArray, ends_bind, ends_memory_read, decl_of_get? he, hk]
  exact ⟨rfl, rfl⟩

/-- A bare instance has the sizes its layout says. -/
theorem adds_bare (hb : b.Over r) {p : Plan} (he : r.get? cls = some e)
    (hd : p.Describes cls e) (hk : e.decl.kind = .concrete) :
    Succeeds (b.allocate p) m
      (Adds cls (Body.bareRecord e.layout.blockSize e.layout.slotCount) m) := by
  rcases hb with rfl | rfl
  · simp only [allocate, hd.kind_eq, hd.cls_eq, hd.blockSize_eq, hd.slotCount_eq, hk]
    exact ⟨rfl, rfl⟩
  · simp only [Succeeds, allocate, ends_allocating, hd.cls_eq, Allocator.allocate, ends_bind,
      ends_memory_read, decl_of_get? he, layout_of_get? he, hk]
    exact ⟨rfl, rfl⟩

theorem adds_container (hb : b.Over r) {p : Plan} (he : r.get? cls = some e)
    (hd : p.Describes cls e) {kind : Container.Kind} (hk : e.decl.kind = .container kind) :
    Succeeds (b.allocate p) m (Adds cls (.container (.empty kind)) m) := by
  rcases hb with rfl | rfl
  · simp only [allocate, hd.kind_eq, hd.cls_eq, hk]
    exact ⟨rfl, rfl⟩
  · simp only [Succeeds, allocate, ends_allocating, hd.cls_eq, Allocator.allocate, ends_bind,
      ends_memory_read, decl_of_get? he, hk]
    exact ⟨rfl, rfl⟩

theorem adds_allocateSlots (hb : b.Over r) (he : r.get? cls = some e) {c : ClassId}
    (hk : e.decl.kind = .array (.reference c)) (length : Nat) :
    Succeeds (b.allocateSlots cls length) m
      (Adds cls (.slots (List.replicate length .null)) m) := by
  rcases hb with rfl | rfl
  · exact ⟨rfl, rfl⟩
  · simp only [Succeeds, allocateSlots, ends_allocating]
    exact adds_slots he hk length

/-- The duplicate of a primitive array has its bytes, if the array is of the kind its class says. -/
theorem yields_duplicatePacked (hb : b.Over r) (he : r.get? (m.heap.cls source) = some e)
    (hk : ∀ kind bytes, m.heap.body source = .packed kind bytes →
      e.decl.kind = .array (.primitive kind)) :
    Yields (b.duplicatePacked source) m fun o m' => ∃ kind bytes,
      m.heap.body source = .packed kind bytes ∧
        Adds (m.heap.cls source) (.packed kind bytes) m o m' := by
  simp only [Yields, duplicatePacked, ends_bind, ends_get]
  rcases hb with rfl | rfl
  · cases hx : m.heap.body source with
    | packed kind bytes => exact ⟨kind, bytes, rfl, rfl, rfl⟩
    | _ => trivial
  · cases hx : m.heap.body source with
    | packed kind bytes =>
      simp only [ends_bind, ends_allocating]
      refine ends_mono (adds_packed he (hk kind bytes hx) _) ?_ (fun _ _ _ => trivial)
      rintro o m' ⟨rfl, hm⟩
      simp only [fillPacked, ends_bind, ends_get, hm, Heap.body, Heap.get_add_new, Object.new]
      split
      · refine ⟨kind, bytes, rfl, rfl, ?_⟩
        show m'.heap.setBody m.heap.size (.packed kind bytes) = _
        rw [hm, Heap.setBody_add_new]
        rfl
      · trivial
    | _ => trivial

/-- An array of whole elements, of the kind its class says, is duplicated. -/
theorem adds_duplicatePacked (hb : b.Over r) (he : r.get? cls = some e)
    (hc : m.heap.cls source = cls) {kind : Primitive.Kind} {bytes : List UInt8}
    (hx : m.heap.body source = .packed kind bytes)
    (hk : e.decl.kind = .array (.primitive kind)) (hd : kind.width ∣ bytes.length) :
    Succeeds (b.duplicatePacked source) m (Adds cls (.packed kind bytes) m) := by
  subst hc
  simp only [Succeeds, duplicatePacked, ends_bind, ends_get]
  rcases hb with rfl | rfl
  · rw [hx]
    exact ⟨rfl, rfl⟩
  · rw [hx]
    simp only [ends_bind, ends_allocating]
    refine ends_mono (adds_packed he hk _) ?_ (fun _ _ h => h.elim)
    rintro o m' ⟨rfl, hm⟩
    have hlen : (Bytes.zeros (Packed.length kind bytes * kind.width)).length = bytes.length := by
      simp only [Bytes.zeros, List.length_replicate, Packed.length, Nat.div_mul_cancel hd]
    simp only [fillPacked, ends_bind, ends_get, hm, Heap.body, Heap.get_add_new, Object.new,
      if_pos hlen]
    refine ⟨rfl, ?_⟩
    show m'.heap.setBody m.heap.size (.packed kind bytes) = _
    rw [hm, Heap.setBody_add_new]
    rfl

end NewObjects

/-! ## Elements and contents -/

theorem yields_writeElement {index : Nat} {v : Value} {items : List Value}
    (hx : m.heap.body target = .slots items) :
    Yields (b.writeElement target index v) m
      fun _ m' => m'.heap = m.heap.setBody target (.slots (items.set index v)) := by
  cases b with
  | fast =>
    refine yields_update fun w hw => ?_
    unfold Direct.writeElement at hw
    rw [hx] at hw
    simp only at hw
    split at hw
    · cases hw
      rfl
    · cases hw
  | portable r =>
    refine yields_update fun w hw => ?_
    have hw := ok_of_mapError hw
    unfold Heap.setElement at hw
    obtain ⟨body, hs, rfl⟩ := write_of_map hw
    rw [hx] at hs
    simp only [Body.setElement] at hs
    split at hs
    · cases hs
      rfl
    · cases hs

theorem yields_setContents (p : Plan) (o : ObjectId) (c : Container) :
    Yields (CopyM.update fun h => (h.setContents o c).mapError (Setting.contentsFault p o)) m
      fun _ m' => m'.heap = m.heap.setBody o (.container c) := by
  refine yields_update fun w hw => ?_
  have hw := ok_of_mapError hw
  unfold Heap.setContents at hw
  cases hc : m.heap.contents o with
  | error e =>
    rw [hc] at hw
    cases hw
  | ok old =>
    rw [hc] at hw
    cases hw
    rfl

end Backend

end DeepCopy
