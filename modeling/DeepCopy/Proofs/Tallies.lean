-- What allocators count. Whatever is made and written by way of an allocator, and
-- whatever fails on the way, its tally grows by what the new objects count, each
-- of them once: an object is counted when it is made, and what it counts for is
-- the same after every write.
import Mathlib.Algebra.BigOperators.Intervals
import DeepCopy.Proofs.Effects
import DeepCopy.Proofs.Runs

namespace DeepCopy

/-! ## Sums of tallies -/

attribute [ext] Tally

namespace Tally

instance : Add Tally :=
  ⟨fun t t' => ⟨t.instances + t'.instances, t.arrays + t'.arrays, t.bytes + t'.bytes⟩⟩

instance : Zero Tally := ⟨{}⟩

instance : AddCommMonoid Tally where
  add_assoc t t' t'' := by ext <;> exact Nat.add_assoc _ _ _
  zero_add t := by ext <;> exact Nat.zero_add _
  add_zero t := rfl
  add_comm t t' := by ext <;> exact Nat.add_comm _ _
  nsmul := nsmulRec

end Tally

/-! ## What a body counts for -/

namespace Body

/-- What a body counts for: an instance for its block and its slots, an array for its elements, and
a container for nothing but itself. -/
def counted : Body → Tally
  | record block refs => { instances := 1, bytes := block.length + refs.length * slotBytes }
  | packed _ bytes => { arrays := 1, bytes := bytes.length }
  | slots items => { arrays := 1, bytes := items.length * slotBytes }
  | container _ => { instances := 1 }

theorem counted_bareRecord (blockSize slotCount : Nat) :
    (bareRecord blockSize slotCount).counted =
      { instances := 1, bytes := blockSize + slotCount * slotBytes } := by
  simp [bareRecord, counted, Bytes.zeros]

variable {b b' : Body} {v : Value} {index : Nat}

theorem counted_of_writeBytes {offset : Nat} {bytes : List UInt8}
    (h : b.writeBytes offset bytes = .ok b') : b'.counted = b.counted := by
  cases b <;> simp only [writeBytes] at h
  case record block refs =>
    split at h
    · rename_i hfit
      cases h
      simp only [counted, Bytes.length_overwrite hfit]
    · cases h
  all_goals cases h

theorem counted_of_writeSlot (h : b.writeSlot index v = .ok b') : b'.counted = b.counted := by
  cases b <;> simp only [writeSlot] at h
  case record block refs =>
    split at h
    · cases h
      simp only [counted, List.length_set]
    · cases h
  all_goals cases h

theorem counted_of_setElement {cls : String} (h : b.setElement cls index v = .ok b') :
    b'.counted = b.counted := by
  cases b <;> simp only [setElement] at h
  case packed kind bytes =>
    split at h
    · rename_i p _
      cases hp : Packed.set kind bytes index p with
      | error e =>
        rw [hp] at h
        cases h
      | ok bytes' =>
        rw [hp] at h
        cases h
        simp only [counted, Packed.length_set hp]
    · cases h
  case slots items =>
    split at h
    · cases h
      simp only [counted, List.length_set]
    · cases h
  all_goals cases h

end Body

/-- A write after which its object counts for as much as before. -/
def Heap.Evens (h : Heap) (w : Write) : Prop := w.body.counted = (h.body w.object).counted

section Writes

variable {h : Heap} {o : ObjectId} {v : Value} {w : Write}

theorem Field.evens_of_set {f : Field} (hw : f.set h o v = .ok w) : h.Evens w := by
  obtain ⟨b, hb, rfl⟩ := Backend.write_of_map hw
  unfold Field.writeTo at hb
  split at hb
  · split at hb
    · exact Body.counted_of_writeBytes (Backend.ok_of_mapError hb)
    · cases hb
  · split at hb
    · cases hb
    · exact Body.counted_of_writeSlot (Backend.ok_of_mapError hb)

theorem Registry.evens_of_setField {r : Registry} {name : String}
    (hw : r.setField h o name v = .ok w) : h.Evens w := by
  obtain ⟨f, -, hw⟩ := exists_set_of_setField hw
  exact Field.evens_of_set hw

theorem Heap.evens_of_setElement {index : Nat} (hw : h.setElement o index v = .ok w) :
    h.Evens w := by
  obtain ⟨b, hb, rfl⟩ := Backend.write_of_map hw
  exact Body.counted_of_setElement hb

theorem Heap.evens_of_setContents {c : Container} (hw : h.setContents o c = .ok w) :
    h.Evens w := by
  unfold Heap.setContents Heap.contents at hw
  cases hc : h.contents? o with
  | none =>
    rw [hc] at hw
    cases hw
  | some old =>
    rw [hc] at hw
    cases hw
    show Body.counted (.container c) = (h.body o).counted
    rw [Heap.body_of_contents? hc]
    rfl

end Writes

/-! ## From one memory to a later one -/

/-- At most `n` objects were made, and each was counted once. What was there counts for as much as
before. -/
structure Memory.Tallies (n : Nat) (m m' : Memory) : Prop where
  size_le : m.heap.size ≤ m'.heap.size
  le_size : m'.heap.size ≤ m.heap.size + n
  old : ∀ o < m.heap.size, (m'.heap.body o).counted = (m.heap.body o).counted
  tally : m'.tally =
    m.tally + ∑ o ∈ Finset.Ico m.heap.size m'.heap.size, (m'.heap.body o).counted

namespace Memory.Tallies

variable {n k : Nat} {m m' m'' : Memory}

theorem refl (m : Memory) : Tallies 0 m m :=
  ⟨Nat.le_refl _, Nat.le_refl _, fun _ _ => rfl, by simp⟩

theorem mono (h : Tallies n m m') (hle : n ≤ k) : Tallies k m m' :=
  ⟨h.size_le, by have := h.le_size; omega, h.old, h.tally⟩

theorem trans (h₁ : Tallies n m m') (h₂ : Tallies k m' m'') : Tallies (n + k) m m'' := by
  refine ⟨Nat.le_trans h₁.size_le h₂.size_le, ?_, ?_, ?_⟩
  · have := h₁.le_size
    have := h₂.le_size
    omega
  · intro o ho
    rw [h₂.old o (Nat.lt_of_lt_of_le ho h₁.size_le), h₁.old o ho]
  · -- The objects that were made first count for as much now as then.
    have hfirst : ∑ o ∈ Finset.Ico m.heap.size m'.heap.size, (m'.heap.body o).counted =
        ∑ o ∈ Finset.Ico m.heap.size m'.heap.size, (m''.heap.body o).counted :=
      Finset.sum_congr rfl fun o ho => (h₂.old o (Finset.mem_Ico.mp ho).2).symm
    rw [h₂.tally, h₁.tally, hfirst, add_assoc,
      Finset.sum_Ico_consecutive _ h₁.size_le h₂.size_le]

/-- An object is made and counted. -/
theorem of_add {x : Object} (hheap : m'.heap = m.heap.add x)
    (htally : m'.tally = m.tally + x.body.counted) : Tallies 1 m m' := by
  have hsize : m'.heap.size = m.heap.size + 1 := by rw [hheap, Heap.size_add]
  refine ⟨by omega, by omega, ?_, ?_⟩
  · intro o ho
    rw [hheap, Heap.body, Heap.get_add_of_lt x ho]
    rfl
  · rw [hsize, Nat.Ico_succ_singleton, Finset.sum_singleton, hheap, Heap.body, Heap.get_add_new]
    exact htally

/-- An object is written to and counts for as much as before. -/
theorem of_write {w : Write} (hw : m.heap.Evens w) :
    Tallies 0 m { m with heap := m.heap.write w } := by
  have hsize : (m.heap.write w).size = m.heap.size := m.heap.size_write w
  refine ⟨by simp [hsize], by simp [hsize], ?_, by simp [hsize]⟩
  intro o ho
  by_cases heq : o = w.object
  · subst heq
    exact (congrArg Body.counted (Heap.body_setBody ho w.body)).trans hw
  · exact congrArg (fun x => x.body.counted) (Heap.get_write_of_ne heq)

/-- If only one object can have been made, either none was and nothing was counted, or one was and
it was counted. -/
theorem eq_or_eq_add (h : Tallies 1 m m') :
    (m'.heap.size = m.heap.size ∧ m'.tally = m.tally) ∨
    (m'.heap.size = m.heap.size + 1 ∧
      m'.tally = m.tally + (m'.heap.body m.heap.size).counted) := by
  have hle := h.size_le
  have hsize := h.le_size
  have htally := h.tally
  by_cases heq : m'.heap.size = m.heap.size
  · rw [heq, Finset.Ico_self, Finset.sum_empty, add_zero] at htally
    exact Or.inl ⟨heq, htally⟩
  · have hsucc : m'.heap.size = m.heap.size + 1 := by omega
    rw [hsucc, Nat.Ico_succ_singleton, Finset.sum_singleton] at htally
    exact Or.inr ⟨hsucc, htally⟩

end Memory.Tallies

/-! ## Work that counts what it makes -/

section Work

variable {ε σ α β : Type} {look : σ → Memory} {n k : Nat} {st : σ}

/-- Work that makes at most `n` objects and counts them, however it ends. What there is of memory in
a state is seen by `look`. -/
def Counts (look : σ → Memory) (n : Nat) (x : EStateM ε σ α) (st : σ) : Prop :=
  Ends x st (fun _ st' => (look st).Tallies n (look st')) fun _ st' =>
    (look st).Tallies n (look st')

theorem Counts.bind {x : EStateM ε σ β} {f : β → EStateM ε σ α} (hx : Counts look n x st)
    (hf : ∀ b st', Counts look k (f b) st') : Counts look (n + k) (x >>= f) st := by
  unfold Counts
  rw [ends_bind]
  refine ends_mono hx ?_ fun _ _ h => h.mono (Nat.le_add_right n k)
  intro b st' h
  exact ends_mono (hf b st') (fun _ _ h' => h.trans h') (fun _ _ h' => h.trans h')

theorem Counts.mono {x : EStateM ε σ α} (hx : Counts look n x st) (hle : n ≤ k) :
    Counts look k x st :=
  ends_mono hx (fun _ _ h => h.mono hle) (fun _ _ h => h.mono hle)

theorem Counts.discard {x : EStateM ε σ α} (hx : Counts look n x st) :
    Counts look n (discard x) st :=
  ends_discard.mpr hx

theorem counts_pure (a : α) : Counts look 0 (pure a : EStateM ε σ α) st := Memory.Tallies.refl _

end Work

/-! ## Allocators -/

namespace Allocator

variable {m : Memory} {cls : ClassId}

theorem counts_update {change : Heap → Except HeapError Write}
    (h : ∀ w, change m.heap = .ok w → m.heap.Evens w) : Counts id 0 (Memory.update change) m := by
  unfold Counts
  rw [ends_memory_update]
  split
  · rename_i w hw
    exact .of_write (h w hw)
  · exact .refl m

theorem counts_instance {bytes : Nat} {body : Body}
    (h : body.counted = { instances := 1, bytes }) :
    Counts id 1 (do Memory.countInstance bytes; Memory.create cls body : MemoryM HeapError ObjectId)
      m := by
  refine Memory.Tallies.of_add rfl ?_
  show _ = m.tally + body.counted
  rw [h]
  rfl

theorem counts_array {bytes : Nat} {body : Body} (h : body.counted = { arrays := 1, bytes }) :
    Counts id 1 (do Memory.countArray bytes; Memory.create cls body : MemoryM HeapError ObjectId)
      m := by
  refine Memory.Tallies.of_add rfl ?_
  show _ = m.tally + body.counted
  rw [h]
  rfl

theorem counts_allocateArray (r : Registry) (cls : ClassId) (length : Nat) :
    Counts id 1 (allocateArray r cls length) m := by
  simp only [Counts, allocateArray, ends_bind, ends_memory_read]
  cases r.decl cls with
  | error e => exact (Memory.Tallies.refl m).mono (Nat.zero_le 1)
  | ok d =>
    simp only
    split
    · exact counts_array (by simp [Body.counted, Bytes.zeros])
    · exact counts_array (by simp [Body.counted])
    · exact (Memory.Tallies.refl m).mono (Nat.zero_le 1)

theorem counts_allocate (r : Registry) (cls : ClassId) : Counts id 1 (allocate r cls) m := by
  have hnone : m.Tallies 1 m := (Memory.Tallies.refl m).mono (Nat.zero_le 1)
  simp only [Counts, allocate, ends_bind, ends_memory_read]
  cases r.decl cls with
  | error e => exact hnone
  | ok d =>
    simp only
    split
    · simp only [ends_bind, ends_memory_read]
      cases r.layout cls with
      | error e => exact hnone
      | ok l => exact counts_instance (Body.counted_bareRecord l.blockSize l.slotCount)
    · exact counts_instance rfl
    · exact counts_allocateArray r cls 0
    · exact hnone
    · exact hnone
    · exact hnone

theorem counts_setFields (r : Registry) (o : ObjectId) (fields : List (String × Value)) :
    Counts id 0 (setFields r o fields) m := by
  induction fields generalizing m with
  | nil => exact counts_pure ()
  | cons e fields ih => exact (counts_update fun _ => Registry.evens_of_setField).bind fun _ _ => ih

/-- A field that cannot be written leaves an object behind, which is counted. -/
theorem counts_instantiate (r : Registry) (cls : ClassId) (fields : List (String × Value)) :
    Counts id 1 (instantiate r cls fields) m :=
  (counts_allocate r cls).bind fun o _ =>
    (counts_setFields r o fields).bind fun _ _ => counts_pure o

theorem counts_setElements (o : ObjectId) (index : Nat) (items : List Value) :
    Counts id 0 (setElements o index items) m := by
  induction items generalizing m index with
  | nil => exact counts_pure ()
  | cons v items ih =>
    exact (counts_update fun _ => Heap.evens_of_setElement).bind fun _ _ => ih (index + 1)

theorem counts_fillArray (r : Registry) (cls : ClassId) (items : List Value) :
    Counts id 1 (fillArray r cls items) m :=
  (counts_allocateArray r cls items.length).bind fun o _ =>
    (counts_setElements o 0 items).bind fun _ _ => counts_pure o

theorem counts_newContainer (contents : Container) :
    Counts id 1 (newContainer contents : MemoryM HeapError ObjectId) m :=
  counts_instance rfl

end Allocator

/-! ## Workbenches -/

namespace Workbench

variable {α : Type} {n : Nat} {reg : String} {w : Workbench}

/-- The heap with the tally of a registry's allocator. -/
def memoryOf (reg : String) (w : Workbench) : Memory :=
  { heap := w.heap, tally := (Assoc.find? reg w.allocators).getD {} }

/-- Work that leaves the heap and the allocators alone. -/
theorem counts_aside {x : WorkM α}
    (h : Ends x w (fun _ w' => w'.heap = w.heap ∧ w'.allocators = w.allocators)
      (fun _ w' => w'.heap = w.heap ∧ w'.allocators = w.allocators)) :
    Counts (memoryOf reg) 0 x w := by
  have same : ∀ w' : Workbench, w'.heap = w.heap ∧ w'.allocators = w.allocators →
      (w.memoryOf reg).Tallies 0 (w'.memoryOf reg) := by
    rintro w' ⟨hheap, hall⟩
    rw [memoryOf, memoryOf, hheap, hall]
    exact .refl _
  exact ends_mono h (fun _ => same) (fun _ => same)

theorem counts_registry (reg : String) : Counts (memoryOf reg) 0 (registry reg) w :=
  Memory.Tallies.refl _

theorem counts_allocating {x : MemoryM HeapError α} (hx : ∀ m, Counts id n x m) :
    Counts (memoryOf reg) n (allocating reg x) w := by
  have put : ∀ m : Memory, (w.memoryOf reg).Tallies n m →
      (w.memoryOf reg).Tallies n (memoryOf reg
        { w with heap := m.heap, allocators := Assoc.put reg m.tally w.allocators }) := by
    intro m h
    unfold memoryOf
    simp only [Assoc.find?_put_self, Option.getD_some]
    exact h
  have hm := hx { heap := w.heap, tally := (Assoc.find? reg w.allocators).getD {} }
  unfold Counts Ends at hm
  simp only [Counts, allocating, tally, ends_bind, ends_get, ends_pure]
  cases hr : x { heap := w.heap, tally := (Assoc.find? reg w.allocators).getD {} } with
  | ok a m =>
    rw [hr] at hm
    exact put m hm
  | error e m =>
    rw [hr] at hm
    exact put m hm

theorem counts_updateHeap {change : Heap → Except HeapError Write}
    (h : ∀ heap write, change heap = .ok write → heap.Evens write) :
    Counts (memoryOf reg) 0 (updateHeap change) w := by
  simp only [Counts, updateHeap, ends_bind, ends_get, ends_ofHeap, ends_modify]
  cases hc : change w.heap with
  | ok write => exact Memory.Tallies.of_write (m := w.memoryOf reg) (h _ _ hc)
  | error e => exact .refl _

theorem counts_define (d : ClassDecl) : Counts (memoryOf reg) 0 (define reg d) w := by
  refine counts_aside ?_
  unfold define
  rw [ends_bind, ends_registry, ends_bind, ends_ofHeap]
  cases (w.registryOf reg).define d with
  | ok result => exact ⟨rfl, rfl⟩
  | error e => exact ⟨rfl, rfl⟩

theorem counts_arrayOf (component : Component) :
    Counts (memoryOf reg) 0 (arrayOf reg component) w := by
  refine counts_aside ?_
  unfold arrayOf
  rw [ends_bind, ends_registry, ends_bind, ends_ofHeap]
  cases (w.registryOf reg).arrayOf component with
  | ok result => exact ⟨rfl, rfl⟩
  | error e => exact ⟨rfl, rfl⟩

/-- An array is made after its class, which may be new, was asked for. -/
theorem counts_newArray (component : Component) (items : List Value) :
    Counts (memoryOf reg) 1 (newArray reg component items) w :=
  ((counts_arrayOf component).bind fun cls _ => (counts_registry reg).bind fun r _ =>
    counts_allocating fun _ => Allocator.counts_fillArray r cls items).mono (by simp)

theorem counts_push (o : ObjectId) (items : List Value) :
    Counts (memoryOf reg) 0 (push o items) w := by
  unfold push Counts
  rw [ends_bind, ends_get, ends_bind, ends_ofHeap]
  split
  · split
    · exact (counts_updateHeap fun _ _ => Heap.evens_of_setContents).bind fun _ _ =>
        counts_pure true
    · exact .refl _
  · exact .refl _

/-- What is done while no cloner is at work. -/
def Action.ByHand : Action → Prop
  | clone _ _ | shallow _ _ | copyInto _ _ _ => False
  | _ => True

/-- A call makes one object at most, and counts it. -/
theorem counts_perform (a : Action) (ha : a.ByHand) :
    Counts (memoryOf reg) 1 (a.perform reg) w := by
  have made : ∀ {x : Registry → MemoryM HeapError ObjectId}, (∀ r m, Counts id 1 (x r) m) →
      Counts (memoryOf reg) 1 (do Functor.discard (allocating reg (x (← registry reg)))) w := by
    intro x hx
    exact ((counts_registry reg).bind fun r _ => (counts_allocating (hx r)).discard).mono (by simp)
  have hnone : (w.memoryOf reg).Tallies 1 (w.memoryOf reg) :=
    (Memory.Tallies.refl _).mono (Nat.zero_le 1)
  cases a with
  | define d => exact (counts_define d).discard.mono (Nat.zero_le 1)
  | arrayOf component => exact (counts_arrayOf component).discard.mono (Nat.zero_le 1)
  | allocate cls => exact made fun r _ => Allocator.counts_allocate r cls
  | allocateArray cls length => exact made fun r _ => Allocator.counts_allocateArray r cls length
  | instantiate cls fields => exact made fun r _ => Allocator.counts_instantiate r cls fields
  | newArray component items => exact (counts_newArray component items).discard
  | newContainer contents =>
    exact (counts_allocating fun _ => Allocator.counts_newContainer contents).discard
  | setField o name v =>
    exact ((counts_registry reg).bind fun r _ =>
      counts_updateHeap fun _ _ => Registry.evens_of_setField).mono (Nat.zero_le 1)
  | setElement o index v =>
    exact (counts_updateHeap fun _ _ => Heap.evens_of_setElement).mono (Nat.zero_le 1)
  | push o items => exact (counts_push o items).discard.mono (Nat.zero_le 1)
  | setContents o c =>
    exact (counts_updateHeap fun _ _ => Heap.evens_of_setContents).mono (Nat.zero_le 1)
  | addStore classifier => exact hnone
  | addPortable => exact hnone
  | keepCloner name c => exact hnone
  | _ => exact ha.elim

/-- The workbench after some actions more. -/
def playOn (w : Workbench) (reg : String) (actions : List Action) : Workbench :=
  actions.foldl (fun w a => after (a.perform reg) w) w

/-- After any calls, whichever of them failed, all objects that they made are counted. -/
theorem tallies_playOn (actions : List Action) (ha : ∀ a ∈ actions, a.ByHand) :
    (w.memoryOf reg).Tallies actions.length ((w.playOn reg actions).memoryOf reg) := by
  induction actions generalizing w with
  | nil => exact .refl _
  | cons a actions ih =>
    have hstep : (w.memoryOf reg).Tallies 1 ((after (a.perform reg) w).memoryOf reg) :=
      ends_after (counts_perform a (ha a List.mem_cons_self))
    have hrest := ih (w := after (a.perform reg) w) fun b hb => ha b (List.mem_cons_of_mem _ hb)
    exact (hstep.trans hrest).mono (by simp [Nat.add_comm])

end Workbench

end DeepCopy
