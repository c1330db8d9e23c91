-- Two clones that go the same way, with the same objects at every step. What each
-- of them knows may differ, as may the plans it has kept; what they do may not.
import DeepCopy.Proofs.Frame
import DeepCopy.Proofs.PairedRuns

namespace DeepCopy

open CloneM

/-- Two runs have the same objects, and the same values stand for them. -/
structure Even (a b : Run) : Prop where
  memory : b.memory = a.memory
  copies : b.copies = a.copies

theorem Even.symm {a b : Run} (h : Even a b) : Even b a := ⟨h.memory.symm, h.copies.symm⟩

theorem Even.trans {a b c : Run} (h : Even a b) (h' : Even b c) : Even a c :=
  ⟨h'.memory.trans h.memory, h'.copies.trans h.copies⟩

/-- Two clones, begun in `base` and in `base'`, that have come equally far. Each knows what it knew
at the beginning, and what was there then is as it was. -/
structure Level (s t : Setting) (base base' a b : Run) : Prop extends Even a b where
  heap : Spared (base.heap.size ≤ ·) base.heap a.heap
  classShared : ∀ cls, s.classShared a cls = s.classShared base cls
  planOf : ∀ cls, s.planOf a cls = s.planOf base cls
  planOf' : ∀ cls, t.planOf b cls = t.planOf base' cls

/-- The two computations end well with one value, or with one error. If they end well, they are
level again. -/
def InStep {α : Type} (s t : Setting) (base base' : Run) (P : α → Prop) (x y : CloneM α)
    (a b : Run) : Prop :=
  Tandem x y a b (fun u v a' b' => v = u ∧ P u ∧ Level s t base base' a' b')
    fun e e' a' b' => e' = e ∧ Even a' b'

theorem Level.body_eq {s t : Setting} {base base' a b : Run} (hl : Level s t base base' a b)
    {o : ObjectId} (ho : o < base.heap.size) : a.heap.body o = base.heap.body o :=
  hl.heap.body_eq o ho (Nat.not_le.mpr ho)

/-- Asking whether a class is shared changes nothing of that. -/
theorem Level.asked {s t : Setting} {base base' a b : Run} (hl : Level s t base base' a b)
    (cls : ClassId) : Level s t base base' (s.asked a cls) b := by
  have hk : Kept s (fun _ => False) a (s.asked a cls) := Kept.of_asked cls
  have hmemory : (s.asked a cls).memory = a.memory := Setting.memory_asked cls
  refine ⟨⟨?_, ?_⟩, ?_, ?_, ?_, hl.planOf'⟩
  · rw [hmemory, hl.memory]
  · rw [Setting.copies_asked, hl.copies]
  · unfold Run.heap
    rw [hmemory]
    exact hl.heap
  · exact fun c => (hk.classShared c).trans (hl.classShared c)
  · exact fun c => (hk.planOf c).trans (hl.planOf c)

section Steps

variable {s t : Setting} {base base' a b : Run} {α β : Type} {P : α → Prop} {R : β → Prop}
  {x y : CloneM α} {f g : α → CloneM β}

theorem InStep.bind (h : InStep s t base base' P x y a b)
    (hf : ∀ u a' b', P u → Level s t base base' a' b' →
      InStep s t base base' R (f u) (g u) a' b') :
    InStep s t base base' R (x >>= f) (y >>= g) a b := by
  refine Tandem.bind h ?_
  rintro _ u a' b' ⟨rfl, hu, hl⟩
  exact hf u a' b' hu hl

theorem InStep.abides (h : InStep s t base base' P x y a b) :
    Tandem x y a b (fun u v a' b' => v = u ∧ Level s t base base' a' b')
      fun e e' a' b' => e' = e ∧ Even a' b' :=
  h.mono (fun _ _ _ _ h => ⟨h.1, h.2.2⟩) fun _ _ _ _ h => h

variable (hl : Level s t base base' a b)
include hl

theorem InStep.of_abides
    (h : Abides (Level s t base base') (fun e e' a b => e' = e ∧ Even a b) x y) :
    InStep s t base base' (fun _ => True) x y a b :=
  (h a b hl).mono (fun _ _ _ _ h => ⟨h.1, trivial, h.2⟩) fun _ _ _ _ h => h

theorem inStep_pure {u : α} (hu : P u) : InStep s t base base' P (pure u) (pure u) a b :=
  (tandem_pure u u).mpr ⟨rfl, hu, hl⟩

theorem inStep_throw (e : Stop) : InStep s t base base' P (throw e) (throw e) a b :=
  (tandem_throw e e).mpr ⟨rfl, hl.toEven⟩

theorem inStep_heap_bind {f g : Heap → CloneM β}
    (h : InStep s t base base' R (f a.heap) (g a.heap) a b) :
    InStep s t base base' R (heap >>= f) (heap >>= g) a b := by
  unfold InStep
  rw [tandem_heap, hl.memory]
  exact h

theorem inStep_copyOf_bind {o : ObjectId} {f g : Option Value → CloneM β}
    (h : InStep s t base base' R (f (a.copies.find? o)) (g (a.copies.find? o)) a b) :
    InStep s t base base' R (copyOf o >>= f) (copyOf o >>= g) a b := by
  unfold InStep Tandem
  simp only [ends_bind, ends_copyOf, hl.copies]
  exact h

theorem inStep_register (o : ObjectId) (v : Value) :
    InStep s t base base' (fun _ => True) (register o v) (register o v) a b := by
  have hcopies : b.copies.put o v = a.copies.put o v := by rw [hl.copies]
  exact ⟨rfl, trivial, ⟨hl.memory, hcopies⟩, hl.heap, hl.classShared, hl.planOf, hl.planOf'⟩

/-- The same work on one heap, that leaves alone what was there at the beginning. -/
theorem inStep_onMemory {z : CopyM α} {F : α → Memory → Prop} {E : Stop → Memory → Prop}
    (hz : Ends z a.memory F E)
    (hF : ∀ u m, F u m → P u ∧ Spared (base.heap.size ≤ ·) base.heap m.heap) :
    InStep s t base base' P (onMemory z) (onMemory z) a b := by
  unfold InStep Tandem
  simp only [ends_onMemory, hl.memory]
  unfold Ends at hz ⊢
  cases hr : z a.memory with
  | ok u m =>
    rw [hr] at hz
    obtain ⟨hu, hs⟩ := hF u m hz
    exact ⟨rfl, hu, ⟨rfl, hl.copies⟩, hs, hl.classShared, hl.planOf, hl.planOf'⟩
  | error e m => exact ⟨rfl, rfl, hl.copies⟩

/-- Work that writes to an object that was not there at the beginning. -/
theorem inStep_touching {z : CopyM α} {target : ObjectId} {E : Stop → Memory → Prop}
    (ht : base.heap.size ≤ target)
    (hz : Ends z a.memory (fun _ m => Touched target a.heap m.heap) E) :
    InStep s t base base' (fun _ => True) (onMemory z) (onMemory z) a b :=
  inStep_onMemory hl hz fun _ _ h => ⟨trivial, hl.heap.trans (Spared.of_touched h ht)⟩

/-- Work that makes an object. -/
theorem inStep_making {z : CopyM ObjectId} {E : Stop → Memory → Prop}
    (hz : Ends z a.memory (fun o m => o = a.heap.size ∧ ∃ x, m.heap = a.heap.add x) E) :
    InStep s t base base' (base.heap.size ≤ ·) (onMemory z) (onMemory z) a b := by
  refine inStep_onMemory hl hz ?_
  rintro _ m ⟨rfl, x, hm⟩
  exact ⟨hl.heap.size_le, hl.heap.trans (hm ▸ Spared.of_add x)⟩

end Steps

end DeepCopy
