-- What the operations of a backend do to the heap: a new object behind all
-- others, or another body for the one object that is written to.
import DeepCopy.Proofs.Ending

namespace DeepCopy

/-- One object may have got another body, and nothing else has changed. -/
def Touched (target : ObjectId) (h h' : Heap) : Prop :=
  h' = h ∨ ∃ body, h' = h.setBody target body

/-- There may be one more object, and nothing else has changed. -/
def Grown (h h' : Heap) : Prop := h' = h ∨ ∃ x, h' = h.add x

/-- Every object that was there has the header it had, and the body too unless it may be written
to. -/
structure Spared (own : ObjectId → Prop) (h h' : Heap) : Prop where
  size_le : h.size ≤ h'.size
  cls_eq : ∀ o < h.size, h'.cls o = h.cls o
  shape_eq : ∀ o < h.size, h'.shape o = h.shape o
  body_eq : ∀ o < h.size, ¬ own o → h'.body o = h.body o

namespace Spared

variable {own own' : ObjectId → Prop} {h h' h'' : Heap}

theorem refl (h : Heap) : Spared own h h :=
  ⟨Nat.le_refl _, fun _ _ => rfl, fun _ _ => rfl, fun _ _ _ => rfl⟩

theorem trans (h₁ : Spared own h h') (h₂ : Spared own h' h'') : Spared own h h'' := by
  refine ⟨Nat.le_trans h₁.size_le h₂.size_le, ?_, ?_, ?_⟩
  · intro o ho
    rw [h₂.cls_eq o (Nat.lt_of_lt_of_le ho h₁.size_le), h₁.cls_eq o ho]
  · intro o ho
    rw [h₂.shape_eq o (Nat.lt_of_lt_of_le ho h₁.size_le), h₁.shape_eq o ho]
  · intro o ho hm
    rw [h₂.body_eq o (Nat.lt_of_lt_of_le ho h₁.size_le) hm, h₁.body_eq o ho hm]

/-- What may be written to may be more, as far as it was there. -/
theorem mono (h₁ : Spared own h h') (hm : ∀ o < h.size, own o → own' o) : Spared own' h h' := by
  refine ⟨h₁.size_le, h₁.cls_eq, h₁.shape_eq, ?_⟩
  intro o ho hn
  exact h₁.body_eq o ho fun h => hn (hm o ho h)

theorem get_eq (h₁ : Spared own h h') {o : ObjectId} (ho : o < h.size) (hm : ¬ own o) :
    h'.get o = h.get o := by
  have hc := h₁.cls_eq o ho
  have hs := h₁.shape_eq o ho
  have hb := h₁.body_eq o ho hm
  unfold Heap.cls at hc
  unfold Heap.shape at hs
  unfold Heap.body at hb
  cases hx : h.get o
  cases hy : h'.get o
  rw [hx, hy] at hc hs hb
  cases hc
  cases hs
  cases hb
  rfl

theorem of_get_eq (hs : h.size ≤ h'.size) (hg : ∀ o < h.size, h'.get o = h.get o) :
    Spared own h h' := by
  refine ⟨hs, ?_, ?_, ?_⟩
  · intro o ho
    exact congrArg Object.cls (hg o ho)
  · intro o ho
    exact congrArg Object.shape (hg o ho)
  · intro o ho _
    exact congrArg Object.body (hg o ho)

theorem of_add (x : Object) : Spared own h (h.add x) :=
  of_get_eq (by simp) fun _ ho => Heap.get_add_of_lt x ho

theorem of_grown (hg : Grown h h') : Spared own h h' := by
  rcases hg with rfl | ⟨x, rfl⟩
  · exact refl _
  · exact of_add x

theorem of_touched {target : ObjectId} (ht : Touched target h h') (hm : own target) :
    Spared own h h' := by
  rcases ht with rfl | ⟨body, rfl⟩
  · exact refl _
  · refine ⟨by simp, by simp, by simp, ?_⟩
    intro o _ ho
    exact congrArg Object.body (Heap.get_setBody_of_ne body fun he => ho (he ▸ hm))

end Spared

namespace Heap

theorem setBody_add_new (h : Heap) (x : Object) (body : Body) :
    (h.add x).setBody h.size body = h.add { x with body } := by
  simp only [setBody, add, size, Heap.mk.injEq]
  apply Array.ext
  · simp
  · intro i hi hi'
    simp only [Array.size_modify, Array.size_push] at hi
    rw [Array.getElem_modify, Array.getElem_push, Array.getElem_push]
    by_cases h' : i < h.objects.size
    · simp [h', Nat.ne_of_gt h']
    · have : i = h.objects.size := by omega
      simp [this]

end Heap

namespace Backend

variable {m : Memory} (b : Backend)

/-! ## New objects -/

theorem ends_allocateArray {Q : ObjectId → Memory → Prop} {E : HeapError → Memory → Prop}
    (r : Registry) (cls : ClassId) (length : Nat)
    (hQ : ∀ body tally, Q m.heap.size ⟨m.heap.add (Object.new cls body), tally⟩)
    (hE : ∀ e, E e m) : Ends (Allocator.allocateArray r cls length) m Q E := by
  simp only [Allocator.allocateArray, ends_bind, ends_memory_read]
  cases hd : r.decl cls with
  | error e => exact hE e
  | ok d =>
    simp only
    split
    · exact hQ _ _
    · exact hQ _ _
    · exact hE _

theorem ends_allocator {Q : ObjectId → Memory → Prop} {E : HeapError → Memory → Prop}
    (r : Registry) (cls : ClassId)
    (hQ : ∀ body tally, Q m.heap.size ⟨m.heap.add (Object.new cls body), tally⟩)
    (hE : ∀ e, E e m) : Ends (Allocator.allocate r cls) m Q E := by
  simp only [Allocator.allocate, ends_bind, ends_memory_read]
  cases hd : r.decl cls with
  | error e => exact hE e
  | ok d =>
    simp only
    split
    · simp only [ends_bind, ends_memory_read]
      cases hl : r.layout cls with
      | error e => exact hE e
      | ok l => exact hQ _ _
    · exact hQ _ _
    · exact ends_allocateArray r cls 0 hQ hE
    · exact hE _
    · exact hE _
    · exact hE _

/-- A bare object is new, and of the class of its plan. -/
theorem ends_allocate (p : Plan) :
    Ends (b.allocate p) m
      (fun o m' => o = m.heap.size ∧ ∃ body, m'.heap = m.heap.add (Object.new p.cls body))
      (fun e m' => (∃ c, e = .failed c) ∧ m'.heap = m.heap) := by
  cases b with
  | fast =>
    simp only [allocate]
    split
    · exact ⟨rfl, _, rfl⟩
    · exact ⟨rfl, _, rfl⟩
    · exact ⟨rfl, _, rfl⟩
    · exact ⟨⟨_, rfl⟩, rfl⟩
    · exact ⟨⟨_, rfl⟩, rfl⟩
    · exact ⟨⟨_, rfl⟩, rfl⟩
  | portable r =>
    simp only [allocate, ends_allocating]
    exact ends_allocator r p.cls (fun body _ => ⟨rfl, body, rfl⟩) (fun e => ⟨⟨_, rfl⟩, rfl⟩)

/-- A new array of references is new, and of the class that is asked for. -/
theorem ends_allocateSlots (cls : ClassId) (length : Nat) :
    Ends (b.allocateSlots cls length) m
      (fun o m' => o = m.heap.size ∧ ∃ body, m'.heap = m.heap.add (Object.new cls body))
      (fun e m' => (∃ c, e = .failed c) ∧ m'.heap = m.heap) := by
  cases b with
  | fast => exact ⟨rfl, _, rfl⟩
  | portable r =>
    simp only [allocateSlots, ends_allocating]
    exact ends_allocateArray r cls length (fun body _ => ⟨rfl, body, rfl⟩)
      (fun e => ⟨⟨_, rfl⟩, rfl⟩)

/-- Filling a new array gives it another body, and leaves all else. -/
theorem ends_fillPacked (copy : ObjectId) (bytes : List UInt8) :
    Ends (fillPacked copy bytes) m (fun _ m' => Touched copy m.heap m'.heap)
      (fun e m' => e = .aborted ∧ m' = m) := by
  simp only [fillPacked, ends_bind, ends_get]
  split
  · split
    · exact Or.inr ⟨_, rfl⟩
    · exact ⟨rfl, rfl⟩
  · exact Or.inl rfl

/-- The duplicate of a primitive array is new, and of the same class. One that breaks off may leave
an object behind. -/
theorem ends_duplicatePacked (source : ObjectId) :
    Ends (b.duplicatePacked source) m
      (fun o m' => o = m.heap.size ∧
        ∃ body shape, m'.heap = m.heap.add ⟨m.heap.cls source, shape, body⟩)
      (fun e m' => e ≠ .tooDeep ∧ Grown m.heap m'.heap) := by
  simp only [duplicatePacked, ends_bind, ends_get]
  cases b with
  | fast =>
    cases hb : m.heap.body source with
    | packed kind bytes => exact ⟨rfl, _, _, rfl⟩
    | _ => exact ⟨by simp, Or.inl rfl⟩
  | portable r =>
    cases hb : m.heap.body source with
    | packed kind bytes =>
      simp only [ends_bind, ends_allocating]
      refine ends_allocateArray r _ _ (fun body tally => ?_) (fun e => ⟨by simp, Or.inl rfl⟩)
      refine ends_mono (ends_fillPacked _ _) ?_ ?_
      · intro _ m' htouched
        rcases htouched with hm | ⟨body', hm⟩
        · exact ⟨rfl, _, _, hm⟩
        · exact ⟨rfl, _, _, by rw [hm, Heap.setBody_add_new]; rfl⟩
      · rintro _ m' ⟨rfl, rfl⟩
        exact ⟨by simp, Or.inr ⟨_, rfl⟩⟩
    | _ => exact ⟨by simp, Or.inl rfl⟩

/-! ## Writes to one object -/

theorem ends_read {α : Type} (look : Heap → Except CloneError α) :
    Ends (CopyM.read look) m (fun a m' => look m.heap = .ok a ∧ m' = m)
      (fun e m' => e ≠ .tooDeep ∧ m' = m) := by
  rw [ends_copy_read]
  cases look m.heap with
  | ok a => exact ⟨rfl, rfl⟩
  | error e => exact ⟨by simp, rfl⟩

theorem ends_update {target : ObjectId} {change : Heap → Except CloneError Write}
    (h : ∀ w, change m.heap = .ok w → w.object = target) :
    Ends (CopyM.update change) m (fun _ m' => Touched target m.heap m'.heap)
      (fun e m' => e ≠ .tooDeep ∧ m' = m) := by
  rw [ends_copy_update]
  cases hc : change m.heap with
  | ok w => exact Or.inr ⟨w.body, by rw [← h w hc]; rfl⟩
  | error e => exact ⟨by simp, rfl⟩

theorem ok_of_mapError {ε ε' α : Type} {x : Except ε α} {f : ε → ε'} {a : α}
    (h : x.mapError f = .ok a) : x = .ok a := by
  cases x with
  | ok b => cases h; rfl
  | error e => cases h

/-- A write that is made for an object is a write to that object. -/
theorem write_of_map {ε : Type} {target : ObjectId} {x : Except ε Body} {w : Write}
    (h : Write.mk target <$> x = .ok w) : ∃ b, x = .ok b ∧ w = ⟨target, b⟩ := by
  cases x with
  | ok b => cases h; exact ⟨b, rfl, rfl⟩
  | error e => cases h

theorem object_of_map {ε ε' : Type} {target : ObjectId} {x : Except ε Body} {f : ε → ε'} {w : Write}
    (h : Write.mk target <$> x.mapError f = .ok w) : w.object = target := by
  obtain ⟨b, -, rfl⟩ := write_of_map h
  rfl

theorem object_of_mk {ε ε' : Type} {target : ObjectId} {x : Except ε Body} {f : ε → ε'} {w : Write}
    (h : (Write.mk target <$> x).mapError f = .ok w) : w.object = target := by
  obtain ⟨b, -, rfl⟩ := write_of_map (ok_of_mapError h)
  rfl

theorem object_of_set {f : Field} {h : Heap} {o : ObjectId} {v : Value} {g : HeapError → CloneError}
    {w : Write} (hw : (f.set h o v).mapError g = .ok w) : w.object = o := object_of_mk hw

theorem object_of_writeReference {f : PlannedField} {h : Heap} {o : ObjectId} {v : Value}
    {w : Write} (hw : Direct.writeReference f h o v = .ok w) : w.object = o := by
  unfold Direct.writeReference at hw
  split at hw
  · exact object_of_map hw
  · cases hw

theorem object_of_writeElement {h : Heap} {o : ObjectId} {index : Nat} {v : Value} {w : Write}
    (hw : Direct.writeElement h o index v = .ok w) : w.object = o := by
  unfold Direct.writeElement at hw
  split at hw
  · split at hw
    · cases hw; rfl
    · cases hw
  · cases hw

theorem object_of_copyPrimitive {f : PlannedField} {h : Heap} {source target : ObjectId}
    {w : Write} (hw : Direct.copyPrimitive f h source target = .ok w) : w.object = target := by
  unfold Direct.copyPrimitive at hw
  split at hw
  · cases hr : Direct.readField f h source with
    | ok v =>
      simp only [hr, bind, Except.bind] at hw
      exact object_of_writeReference hw
    | error e => simp [hr, bind, Except.bind] at hw
  · rename_i offset kind _
    cases hr : (((h.body source).readBytes offset kind.width).mapError (f.missed source)) with
    | ok bytes =>
      simp only [hr, bind, Except.bind] at hw
      exact object_of_map hw
    | error e => simp [hr, bind, Except.bind] at hw

theorem object_of_resetField {f : PlannedField} {h : Heap} {o : ObjectId} {w : Write}
    (hw : Direct.resetField f h o = .ok w) : w.object = o := by
  unfold Direct.resetField at hw
  split at hw
  · exact object_of_map hw
  · exact object_of_writeReference hw

theorem object_of_reset {f : Field} {h : Heap} {o : ObjectId} {g : HeapError → CloneError}
    {w : Write} (hw : (f.reset h o).mapError g = .ok w) : w.object = o := by
  unfold Field.reset at hw
  split at hw
  · exact object_of_mk hw
  · exact object_of_mk hw

theorem object_of_setContents {h : Heap} {o : ObjectId} {c : Container} {g : HeapError → CloneError}
    {w : Write} (hw : (h.setContents o c).mapError g = .ok w) : w.object = o := by
  unfold Heap.setContents at hw
  cases hc : h.contents o with
  | ok old =>
    simp only [hc, bind, Except.bind] at hw
    cases hw
    rfl
  | error e =>
    simp only [hc, bind, Except.bind] at hw
    cases hw

theorem ends_readField (f : PlannedField) (o : ObjectId) :
    Ends (b.readField f o) m (fun _ m' => m' = m) (fun e m' => e ≠ .tooDeep ∧ m' = m) := by
  cases b with
  | fast => exact ends_mono (ends_read _) (fun _ _ h => h.2) (fun _ _ h => h)
  | portable r => exact ends_mono (ends_read _) (fun _ _ h => h.2) (fun _ _ h => h)

theorem ends_writeReference (f : PlannedField) (o : ObjectId) (v : Value) :
    Ends (b.writeReference f o v) m (fun _ m' => Touched o m.heap m'.heap)
      (fun e m' => e ≠ .tooDeep ∧ m' = m) := by
  cases b with
  | fast => exact ends_update fun _ => object_of_writeReference
  | portable r => exact ends_update fun _ => object_of_set

theorem ends_copyPrimitive (f : PlannedField) (source target : ObjectId) :
    Ends (b.copyPrimitive f source target) m (fun _ m' => Touched target m.heap m'.heap)
      (fun e m' => e ≠ .tooDeep ∧ m' = m) := by
  cases b with
  | fast => exact ends_update fun _ => object_of_copyPrimitive
  | portable r =>
    refine ends_update fun w hw => ?_
    cases hr : ((f.get m.heap source).mapError (f.fault source)) with
    | ok v =>
      simp only [hr, bind, Except.bind] at hw
      exact object_of_set hw
    | error e => simp [hr, bind, Except.bind] at hw

theorem ends_resetField (f : PlannedField) (o : ObjectId) :
    Ends (b.resetField f o) m (fun _ m' => Touched o m.heap m'.heap)
      (fun e m' => e ≠ .tooDeep ∧ m' = m) := by
  cases b with
  | fast => exact ends_update fun _ => object_of_resetField
  | portable r => exact ends_update fun _ => object_of_reset

theorem copyField_some {f : PlannedField} (hf : f.type.category ≠ .primitive)
    (source target : ObjectId) (v : Value) :
    b.copyField f source target (some v) = b.writeReference f target v := by
  unfold copyField
  cases hc : f.type.category with
  | primitive => exact absurd hc hf
  | array => rfl
  | object => rfl

theorem copyField_none {f : PlannedField} (hf : f.type.category ≠ .primitive)
    (source target : ObjectId) :
    b.copyField f source target none =
      (b.readField f source >>= fun v => b.writeReference f target v) := by
  unfold copyField
  cases hc : f.type.category with
  | primitive => exact absurd hc hf
  | array => rfl
  | object => rfl

theorem copyField_primitive {f : PlannedField} (hf : f.type.category = .primitive)
    (source target : ObjectId) (replacement : Option Value) :
    b.copyField f source target replacement = b.copyPrimitive f source target := by
  unfold copyField
  rw [hf]

theorem ends_copyField (f : PlannedField) (source target : ObjectId) (replacement : Option Value) :
    Ends (b.copyField f source target replacement) m (fun _ m' => Touched target m.heap m'.heap)
      (fun e m' => e ≠ .tooDeep ∧ m' = m) := by
  unfold copyField
  split
  · exact ends_copyPrimitive b f source target
  · exact ends_writeReference b f target _
  · simp only [ends_bind]
    refine ends_mono (ends_readField b f source) ?_ (fun _ _ h => h)
    rintro v m' rfl
    exact ends_writeReference b f target v

theorem ends_copyBlock (source target : ObjectId) :
    Ends (b.copyBlock source target) m (fun _ m' => Touched target m.heap m'.heap)
      (fun _ _ => False) := by
  cases b with
  | fast =>
    simp only [copyBlock]
    split
    · exact Or.inl rfl
    · simp only [ends_bind, ends_get]
      cases hw : Direct.copyBlock? m.heap source target with
      | none => exact Or.inl rfl
      | some w =>
        refine Or.inr ⟨w.body, ?_⟩
        have : w.object = target := by
          unfold Direct.copyBlock? at hw
          split at hw
          · split at hw
            · cases hw; rfl
            · cases hw
          · cases hw
        rw [← this]
        rfl
  | portable r => exact Or.inl rfl

theorem ends_writeElement (o : ObjectId) (index : Nat) (v : Value) :
    Ends (b.writeElement o index v) m (fun _ m' => Touched o m.heap m'.heap)
      (fun e m' => e ≠ .tooDeep ∧ m' = m) := by
  cases b with
  | fast => exact ends_update fun _ => object_of_writeElement
  | portable r => exact ends_update fun _ => object_of_mk

theorem ends_setContents (p : Plan) (o : ObjectId) (c : Container) :
    Ends (CopyM.update fun h => (h.setContents o c).mapError (Setting.contentsFault p o)) m
      (fun _ m' => Touched o m.heap m'.heap) (fun e m' => e ≠ .tooDeep ∧ m' = m) :=
  ends_update fun _ => object_of_setContents

end Backend

end DeepCopy
