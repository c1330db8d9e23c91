-- A clone as it grows. At every point of a run that goes well, the objects that
-- have copies are among those to be duplicated, their copies are new and all
-- different, and every copy that is not being filled holds what stands for what
-- its source holds.
import DeepCopy.Proofs.StandIns
import DeepCopy.Proofs.WellFormedClones

namespace DeepCopy

/-! ## Heaps that clones start from -/

/-- The body is of the kind that the class asks for. An instance has the sizes its layout says, and
holds no 32-bit patterns that are no numbers. -/
def Registry.Entry.Takes (e : Registry.Entry) (b : Body) : Prop :=
  match e.decl.kind, b with
  | .concrete, b => b.Sized e.layout.blockSize e.layout.slotCount ∧
    ∀ f ∈ e.layout.fields, ∀ offset kind bytes, f.place = .bytes offset kind →
      b.readBytes offset kind.width = .ok bytes → (Primitive.decode kind bytes).IsNumber
  | .array (.primitive kind), .packed kind' _ => kind' = kind
  | .array (.reference _), .slots _ => True
  | .container kind, .container c => c.kind = kind
  | _, _ => False

/-- All objects are of registered classes, have bodies of the kinds their classes ask for, and refer
only to what is there. -/
structure Heap.Typed (r : Registry) (h : Heap) : Prop where
  takes : ∀ o < h.size, ∃ e, r.get? (h.cls o) = some e ∧ e.Takes (h.body o)
  header : ∀ o < h.size, h.shape o = (h.body o).shape
  closed : ∀ o < h.size, ∀ v ∈ (h.body o).values, h.Has v

namespace Registry.Entry.Takes

variable {e : Registry.Entry} {b : Body}

theorem concrete (h : e.Takes b) (hb : b.shape = .record) : e.decl.kind = .concrete ∧
    b.Sized e.layout.blockSize e.layout.slotCount ∧
    ∀ f ∈ e.layout.fields, ∀ offset kind bytes, f.place = .bytes offset kind →
      b.readBytes offset kind.width = .ok bytes → (Primitive.decode kind bytes).IsNumber := by
  unfold Takes at h
  split at h
  · rename_i hk
    exact ⟨hk, h⟩
  all_goals first | cases hb | cases h

theorem packed {kind : Primitive.Kind} {bytes : List UInt8} (h : e.Takes (.packed kind bytes)) :
    e.decl.kind = .array (.primitive kind) := by
  unfold Takes at h
  cases hk : e.decl.kind with
  | array c => cases c <;> simp_all
  | _ => simp_all [Body.Sized]

theorem slots {items : List Value} (h : e.Takes (.slots items)) :
    ∃ c, e.decl.kind = .array (.reference c) := by
  unfold Takes at h
  cases hk : e.decl.kind with
  | array c => cases c <;> simp_all
  | _ => simp_all [Body.Sized]

theorem container {c : Container} (h : e.Takes (.container c)) :
    e.decl.kind = .container c.kind := by
  unfold Takes at h
  cases hk : e.decl.kind with
  | array c => cases c <;> simp_all
  | _ => simp_all [Body.Sized]

end Registry.Entry.Takes

/-! ## What is duplicated -/

namespace Setting

variable (s : Setting)

/-- The values that a clone meets when it duplicates an object: elements, entries, and fields that
are not reset. -/
inductive Follows (h : Heap) (o : ObjectId) : Value → Prop where
  | element {items : List Value} {v : Value} (hb : h.body o = .slots items) (hv : v ∈ items) :
    Follows h o v
  | entry {c : Container} {v : Value} (hb : h.body o = .container c) (hv : v ∈ c.values) :
    Follows h o v
  | field {e : Registry.Entry} {f : Field} {v : Value} (he : s.registry.get? (h.cls o) = some e)
    (hf : f ∈ e.layout.fields) (hr : s.policy.resets f.marks = false)
    (hv : f.readFrom (h.body o) = .ok v) : Follows h o v

/-- The objects that a clone of a value duplicates: those it comes to through objects that it
duplicates, unless the rules turn them into null or let them stand for themselves. -/
inductive Duplicates (h : Heap) (fate : ObjectId → Fate) (root : Value) : ObjectId → Prop where
  | root {o : ObjectId} (hr : root = .ref o) (hf : fate o = .copied) : Duplicates h fate root o
  | follow {o o' : ObjectId} (ho : Duplicates h fate root o) (hv : s.Follows h o (.ref o'))
    (hf : fate o' = .copied) : Duplicates h fate root o'

/-- The objects met in an object are among those it refers to. -/
theorem Follows.mem_values {s : Setting} {h : Heap} {o o' : ObjectId}
    (hv : s.Follows h o (.ref o')) : Value.ref o' ∈ (h.body o).values := by
  cases hv with
  | element hb hv =>
    rw [hb]
    exact hv
  | entry hb hv =>
    rw [hb]
    exact hv
  | field _ _ _ hv => exact Field.mem_values_of_readFrom hv

theorem Duplicates.fate_eq {s : Setting} {h : Heap} {fate : ObjectId → Fate} {root : Value}
    {o : ObjectId} (hd : s.Duplicates h fate root o) : fate o = .copied := by
  cases hd with
  | root hr hf => exact hf
  | follow ho hv hf => exact hf

end Setting

/-! ## What a copy holds -/

namespace Setting

variable (s : Setting)

/-- A field of a copy is at its default if the policy resets it, and otherwise holds what stands for
the value of the field of the source. -/
def FieldCopied (R : Value → Value → Prop) (b b' : Body) (f : Field) : Prop :=
  if s.policy.resets f.marks then f.readFrom b' = .ok f.default
  else ∃ v w, f.readFrom b = .ok v ∧ R v w ∧ f.readFrom b' = .ok w

/-- A body is a copy of another, where `R` says what stands for each value. -/
def Copied (l : Layout) (R : Value → Value → Prop) : Body → Body → Prop
  | b@(.record block refs), b' =>
    b'.Sized block.length refs.length ∧ ∀ f ∈ l.fields, s.FieldCopied R b b' f
  | .packed kind bytes, b' => b' = .packed kind bytes
  | .slots items, b' => ∃ items', List.Forall₂ R items items' ∧ b' = .slots items'
  | .container c, b' => ∃ c', c.Rebuilt R c' ∧ b' = .container c'

variable {s} {R R' : Value → Value → Prop} {b b' : Body}

theorem FieldCopied.of_reset {f : Field} (hr : s.policy.resets f.marks = true)
    (h : f.readFrom b' = .ok f.default) : s.FieldCopied R b b' f := by
  unfold FieldCopied
  rw [if_pos hr]
  exact h

theorem FieldCopied.of_readFrom {f : Field} {v w : Value} (hr : ¬ s.policy.resets f.marks = true)
    (hv : f.readFrom b = .ok v) (hR : R v w) (hw : f.readFrom b' = .ok w) :
    s.FieldCopied R b b' f := by
  unfold FieldCopied
  rw [if_neg hr]
  exact ⟨v, w, hv, hR, hw⟩

theorem FieldCopied.mono (hR : ∀ v w, R v w → R' v w) {f : Field} (h : s.FieldCopied R b b' f) :
    s.FieldCopied R' b b' f := by
  unfold FieldCopied at *
  split at h
  · rename_i hr
    rw [if_pos hr]
    exact h
  · rename_i hr
    rw [if_neg hr]
    obtain ⟨v, w, hv, hw, hb⟩ := h
    exact ⟨v, w, hv, hR v w hw, hb⟩

/-- A field of a copy is as good as it was, if nothing was written there. -/
theorem FieldCopied.of_same {b'' : Body} {f : Field} (h : s.FieldCopied R b b' f)
    (hs : f.place.Same b' b'') : s.FieldCopied R b b'' f := by
  unfold FieldCopied at *
  rw [Field.readFrom_of_same hs]
  exact h

theorem Copied.mono (hR : ∀ v w, R v w → R' v w) {l : Layout} (h : s.Copied l R b b') :
    s.Copied l R' b b' := by
  cases b with
  | record block refs => exact ⟨h.1, fun f hf => (h.2 f hf).mono hR⟩
  | packed kind bytes => exact h
  | slots items =>
    obtain ⟨items', hi, hb⟩ := h
    exact ⟨items', hi.imp hR, hb⟩
  | container c =>
    obtain ⟨c', hc, hb⟩ := h
    exact ⟨c', hc.mono hR, hb⟩

end Setting

/-! ## A clone as it grows -/

/-- A clone of `root`, begun in `base`, as far as it has come. The copies of `busy` are yet to be
filled. -/
structure Mirrors (s : Setting) (base : Run) (root : Value) (busy : ObjectId → Prop) (run : Run) :
    Prop where
  kept : Kept s (base.heap.size ≤ ·) base run
  /-- A copy is a new object with its source's header. -/
  copies : ∀ o v, run.copies.find? o = some v → ∃ t, v = .ref t ∧
    s.Duplicates base.heap (s.fate base) root o ∧ base.heap.size ≤ t ∧ t < run.heap.size ∧
    run.heap.cls t = base.heap.cls o ∧ run.heap.shape t = base.heap.shape o
  injective : ∀ o o' v, run.copies.find? o = some v → run.copies.find? o' = some v → o = o'
  /-- Every new object is a copy. -/
  covers : ∀ t, base.heap.size ≤ t → t < run.heap.size → ∃ o, run.copies.find? o = some (.ref t)
  done : ∀ o t, run.copies.find? o = some (.ref t) → ¬ busy t →
    ∀ e, s.registry.get? (base.heap.cls o) = some e →
      s.Copied e.layout (Stands (s.fate base) run.copies) (base.heap.body o) (run.heap.body t)

namespace Mirrors

variable {s : Setting} {base : Run} {root : Value} {busy : ObjectId → Prop} {run run' : Run}

/-- Objects that were there are as they were. -/
theorem get_eq (hm : Mirrors s base root busy run) {o : ObjectId} (ho : o < base.heap.size) :
    run.heap.get o = base.heap.get o :=
  hm.kept.heap.get_eq ho (Nat.not_le.mpr ho)

theorem body_eq (hm : Mirrors s base root busy run) {o : ObjectId} (ho : o < base.heap.size) :
    run.heap.body o = base.heap.body o := congrArg Object.body (hm.get_eq ho)

theorem cls_eq (hm : Mirrors s base root busy run) {o : ObjectId} (ho : o < base.heap.size) :
    run.heap.cls o = base.heap.cls o := congrArg Object.cls (hm.get_eq ho)

theorem shape_eq (hm : Mirrors s base root busy run) {o : ObjectId} (ho : o < base.heap.size) :
    run.heap.shape o = base.heap.shape o := congrArg Object.shape (hm.get_eq ho)

/-- A step that only finds something out. -/
theorem of_kept (hm : Mirrors s base root busy run)
    (hk : Kept s (base.heap.size ≤ ·) run run') (hmem : run'.memory = run.memory)
    (hc : run'.copies = run.copies) : Mirrors s base root busy run' := by
  have hheap : run'.heap = run.heap := congrArg Memory.heap hmem
  refine ⟨hm.kept.trans hk, ?_, ?_, ?_, ?_⟩
  · rw [hc, hheap]
    exact hm.copies
  · rw [hc]
    exact hm.injective
  · rw [hc, hheap]
    exact hm.covers
  · rw [hc, hheap]
    exact hm.done

/-- A step that writes to a copy that is being filled. -/
theorem touched (hm : Mirrors s base root busy run) {t : ObjectId} (hb : busy t)
    (ht : base.heap.size ≤ t) {memory : Memory} (h : Touched t run.heap memory.heap) :
    Mirrors s base root busy { run with memory } := by
  have hs : Spared (· = t) run.heap memory.heap := Spared.of_touched h rfl
  have hsize : memory.heap.size = run.heap.size := by
    rcases h with h | ⟨body, h⟩ <;> rw [h]
    exact Heap.size_setBody _ _ _
  refine ⟨hm.kept.trans (Kept.of_memory (Spared.of_touched h ht)), ?_, hm.injective, ?_, ?_⟩
  · intro o v hv
    obtain ⟨t', hv', hd, hle, hlt, hc, hsh⟩ := hm.copies o v hv
    refine ⟨t', hv', hd, hle, ?_, ?_, ?_⟩
    · rw [← hsize] at hlt
      exact hlt
    · exact (hs.cls_eq t' hlt).trans hc
    · exact (hs.shape_eq t' hlt).trans hsh
  · intro t' hle hlt
    exact hm.covers t' hle (hsize ▸ hlt)
  · intro o t' hf hnb e he
    obtain ⟨t'', hv', -, -, hlt, -⟩ := hm.copies o _ hf
    cases hv'
    have hne : ¬ t' = t := fun h => hnb (h ▸ hb)
    show s.Copied e.layout _ _ (memory.heap.body t')
    rw [hs.body_eq t' hlt hne]
    exact hm.done o t' hf hnb e he

/-- The next object will be behind all copies, so no object has it. -/
theorem find?_ne_next (hm : Mirrors s base root busy run) (o : ObjectId) :
    run.copies.find? o ≠ some (.ref run.heap.size) := by
  intro hf
  obtain ⟨t, hv, -, -, hlt, -⟩ := hm.copies o _ hf
  cases hv
  exact absurd hlt (Nat.lt_irrefl _)

/-- A step that makes a bare copy of an object, to be filled later. -/
theorem made (hm : Mirrors s base root busy run) {o : ObjectId} {body : Body} {memory : Memory}
    (hadd : memory.heap = run.heap.add (Object.new (base.heap.cls o) body))
    (hshape : body.shape = base.heap.shape o)
    (hd : s.Duplicates base.heap (s.fate base) root o) (hnew : run.copies.find? o = none) :
    Mirrors s base root (fun t => busy t ∨ t = run.heap.size)
      { run with memory, copies := run.copies.put o (.ref run.heap.size) } := by
  have hs : Spared (fun _ => False) run.heap memory.heap := hadd ▸ Spared.of_add _
  have hsize : memory.heap.size = run.heap.size + 1 := by rw [hadd, Heap.size_add]
  have hget : memory.heap.get run.heap.size = Object.new (base.heap.cls o) body := by
    rw [hadd, Heap.get_add_new]
  have hmem : Kept s (base.heap.size ≤ ·) run { run with memory } := Kept.of_memory
    (hs.mono fun _ _ h => h.elim)
  have hreg : Kept s (base.heap.size ≤ ·) run
      { run with memory, copies := run.copies.put o (.ref run.heap.size) } :=
    hmem.trans (Kept.of_register _ hnew)
  refine ⟨hm.kept.trans hreg, ?_, ?_, ?_, ?_⟩
  · intro o' v hv
    by_cases ho : o' = o
    · subst ho
      rw [Copies.find?_put] at hv
      cases hv
      refine ⟨_, rfl, hd, hm.kept.heap.size_le, ?_, ?_, ?_⟩
      · show run.heap.size < memory.heap.size
        omega
      · show (memory.heap.get run.heap.size).cls = _
        rw [hget]
        rfl
      · show (memory.heap.get run.heap.size).shape = _
        rw [hget]
        exact hshape
    · rw [Copies.find?_put_ne _ _ ho] at hv
      obtain ⟨t, hv', hd', hle, hlt, hc, hsh⟩ := hm.copies o' v hv
      refine ⟨t, hv', hd', hle, ?_, ?_, ?_⟩
      · exact Nat.lt_of_lt_of_le hlt hs.size_le
      · exact (hs.cls_eq t hlt).trans hc
      · exact (hs.shape_eq t hlt).trans hsh
  · exact Copies.injective_put hm.injective hm.find?_ne_next o
  · intro t hle hlt
    by_cases ht : t = run.heap.size
    · subst ht
      exact ⟨o, Copies.find?_put _ _ _⟩
    · have hlt' : t < run.heap.size := by
        have : t < memory.heap.size := hlt
        omega
      obtain ⟨o', ho'⟩ := hm.covers t hle hlt'
      exact ⟨o', hreg.copies o' _ ho'⟩
  · intro o' t hf hnb e he
    have hne : o' ≠ o := by
      rintro rfl
      rw [Copies.find?_put] at hf
      cases hf
      exact hnb (Or.inr rfl)
    rw [Copies.find?_put_ne _ _ hne] at hf
    obtain ⟨t', hv', -, -, hlt, -⟩ := hm.copies o' _ hf
    cases hv'
    show s.Copied e.layout _ _ (memory.heap.body t)
    rw [hs.body_eq t hlt (by simp)]
    exact (hm.done o' t hf (fun h => hnb (Or.inl h)) e he).mono fun v w =>
      Stands.mono hreg.copies

/-- A copy that was filled is no longer one to be filled. -/
theorem finish {t o : ObjectId} (hm : Mirrors s base root (fun x => busy x ∨ x = t) run)
    (hf : run.copies.find? o = some (.ref t))
    (hc : ∀ e, s.registry.get? (base.heap.cls o) = some e →
      s.Copied e.layout (Stands (s.fate base) run.copies) (base.heap.body o) (run.heap.body t)) :
    Mirrors s base root busy run := by
  refine ⟨hm.kept, hm.copies, hm.injective, hm.covers, ?_⟩
  intro o' t' hf' hnb e he
  by_cases ht : t' = t
  · subst ht
    cases hm.injective o o' _ hf hf'
    exact hc e he
  · exact hm.done o' t' hf' (fun h => h.elim hnb ht) e he

end Mirrors

end DeepCopy
