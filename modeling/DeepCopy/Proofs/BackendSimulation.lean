-- One clone by direct access and one by checked access, begun in one run, as
-- far as they have come. They know the same, have made the same objects, and
-- every new object that is not being filled holds the same on both sides.
import DeepCopy.Proofs.Effects
import DeepCopy.Proofs.Frame
import DeepCopy.Proofs.PairedRuns
import DeepCopy.Proofs.Rebuilding

namespace DeepCopy

/-! ## Bodies that hold the same -/

/-- The fields of a class's instances. -/
def Registry.fieldsOf (r : Registry) (cls : ClassId) : List Field :=
  match r.get? cls with
  | some e => e.layout.fields
  | none => []

theorem Registry.fieldsOf_of_get? {r : Registry} {cls : ClassId} {e : Registry.Entry}
    (h : r.get? cls = some e) : r.fieldsOf cls = e.layout.fields := by
  unfold fieldsOf
  rw [h]

/-- Two bodies hold the same elements, the same entries, or the same in every field. Of a block,
only bytes that belong to no field may differ. -/
def Body.Agrees (fields : List Field) : Body → Body → Prop
  | .record block refs, .record block' refs' => block'.length = block.length ∧ refs' = refs ∧
    ∀ f ∈ fields, f.place.Same (.record block refs) (.record block' refs')
  | b, b' => b' = b

theorem Place.Same.refl (p : Place) (b : Body) : p.Same b b := by
  cases p <;> rfl

theorem Body.Agrees.refl (fields : List Field) (b : Body) : b.Agrees fields b := by
  cases b with
  | record block refs => exact ⟨rfl, rfl, fun f _ => Place.Same.refl f.place _⟩
  | _ => rfl

/-- Where bodies agree, every field reads the same. -/
theorem Body.Agrees.readFrom_eq {fields : List Field} {b b' : Body} (h : b.Agrees fields b')
    {f : Field} (hf : f ∈ fields) : f.readFrom b' = f.readFrom b := by
  cases b with
  | record block refs =>
    cases b' with
    | record block' refs' => exact Field.readFrom_of_same (h.2.2 f hf)
    | _ => cases h
  | _ =>
    cases h
    rfl

/-! ## What two backends can be compared on -/

/-- The heap with further objects, one after the other. -/
def Heap.addAll (h : Heap) (xs : List Object) : Heap := xs.foldl Heap.add h

/-- A self-copy method that adds what it makes behind all objects, and goes by nothing but the
objects that a clone began with. -/
structure SelfCopy.GoesBy (method : SelfCopy) (base : Heap) : Prop where
  spares : method.Spares
  same : ∀ o < base.size, ∀ h h' : Heap, (∀ x < base.size, h.get x = base.get x) →
    (∀ x < base.size, h'.get x = base.get x) → h'.size = h.size →
    ∃ result made, method o h = (result, h.addAll made) ∧ method o h' = (result, h'.addAll made)

/-- What an instance holds where its class has fields: primitives as they are written, no 32-bit
patterns that are no numbers, and arrays or nothing where the class declares arrays. The instance
may be shorter or longer than the layout says. -/
structure Layout.Canonical (l : Layout) (h : Heap) (b : Body) : Prop where
  primitives : ∀ f ∈ l.fields, ∀ offset kind bytes, f.place = .bytes offset kind →
    b.readBytes offset kind.width = .ok bytes →
    ∃ p : Primitive, p.kind = kind ∧ p.IsNumber ∧ bytes = p.encode
  arrays : ∀ f ∈ l.fields, ∀ index v, f.place = .slot index → f.type.category = .array →
    b.readSlot index = .ok v → Field.takesArray h v = true

/-- A body is of the kind that the class asks for. -/
def Registry.Entry.Accepts (e : Registry.Entry) (h : Heap) : Body → Prop
  | .record block refs => e.decl.kind.isBuiltIn = false ∧ e.layout.Canonical h (.record block refs)
  | .packed kind bytes => e.decl.kind = .array (.primitive kind) ∧ kind.width ∣ bytes.length
  | .slots _ => ∃ c, e.decl.kind = .array (.reference c)
  | .container c => e.decl.kind = .container c.kind

/-- All objects have bodies of the kinds their classes ask for, and refer only to what is there. -/
structure Heap.Fitting (r : Registry) (h : Heap) : Prop where
  accepts : ∀ o < h.size, ∃ e, r.get? (h.cls o) = some e ∧ e.Accepts h (h.body o)
  closed : ∀ o < h.size, ∀ v ∈ (h.body o).values, h.Has v

/-- Headers say of what shape bodies are. -/
def Heap.Headed (h : Heap) : Prop := ∀ o < h.size, h.shape o = (h.body o).shape

/-- A setting and a run in which no routine takes part but the one that rebuilds containers, all
objects fit their classes, no tree map has to know which of two objects comes first, and self-copy
methods, if they are used, go by the objects there are. -/
structure Setting.Comparable (s : Setting) (base : Run) : Prop where
  registry : s.registry.Built
  overrides : s.policy.flags.useOverrides = true →
    ∀ cls i, s.policy.override? cls = some i → i = .containers
  named : ∀ cls e name maker, s.registry.get? cls = some e → e.decl.cloneWith = some name →
    Assoc.find? name s.catalog = some maker → maker.implementor = .containers
  methods : s.policy.flags.useSelfCopy = true → ∀ cls e method, s.registry.get? cls = some e →
    e.decl.selfCopy = some method → method.GoesBy base.heap
  plans : Plans.Fit s.registry base.plans
  resolved : ∀ cls i, Assoc.find? cls base.resolved = some i → i = .containers
  heap : base.heap.Fitting s.registry
  lone : ∀ o < base.heap.size, ∀ entries, base.heap.body o = .container (.treeMap entries) →
    Container.Lone (entries.map (·.1.value))

namespace Setting

/-- The setting with direct access. -/
abbrev direct (s : Setting) : Setting := { s with backend := .fast }

/-- The setting with checked access. -/
abbrev checked (s : Setting) : Setting := { s with backend := .portable s.registry }

theorem Comparable.tame {s : Setting} {base : Run} (h : s.Comparable base) : s.Tame base where
  overrides := h.overrides
  named := by
    intro cls p name maker hp hc hm
    obtain ⟨e, he, hd⟩ := describes_of_planOf h.plans hp
    exact h.named cls e name maker he (hd.cloneWith_eq ▸ hc) hm
  resolved := h.resolved
  methods := by
    intro hf cls p method hp hm
    obtain ⟨e, he, hd⟩ := describes_of_planOf h.plans hp
    exact (h.methods hf cls e method he (hd.selfCopy_eq ▸ hm)).spares

theorem Comparable.begun {s : Setting} {base : Run} (h : s.Comparable base) :
    s.Comparable { base with copies := {} } :=
  ⟨h.registry, h.overrides, h.named, h.methods, h.plans, h.resolved, h.heap, h.lone⟩

/-- What a setting would decide does not depend on the backend. -/
theorem Tame.over {s : Setting} {run : Run} (h : s.Tame run) (backend : Backend) :
    { s with backend }.Tame run := ⟨⟨h.overrides, h.named, h.resolved⟩, h.methods⟩

end Setting

theorem Kept.of_over {s : Setting} {backend : Backend} {own : ObjectId → Prop} {run run' : Run}
    (h : Kept { s with backend } own run run') : Kept s own run run' :=
  ⟨h.heap, h.copies, h.plans, h.planOf, h.classShared, h.resolved⟩

/-- An array is there, and stays an array. -/
theorem takesArray_mono {own : ObjectId → Prop} {h h' : Heap} {v : Value} (hs : Spared own h h')
    (hv : Field.takesArray h v = true) : Field.takesArray h' v = true := by
  cases v with
  | ref o =>
    by_cases ho : o < h.size
    · simp only [Field.takesArray, Heap.isArrayRef] at hv ⊢
      rw [hs.shape_eq o ho]
      exact hv
    · have : h.objects.size ≤ o := by simpa [Heap.size] using ho
      simp [Field.takesArray, Heap.isArrayRef, Heap.shape, Heap.get, Array.getElem?_eq_none this,
        Object.nothing, Object.new, Body.shape, Shape.isArray] at hv
  | null => rfl
  | _ => cases hv

/-! ## Two clones abreast -/

/-- Two clones that were begun in `base`, as far as they have come. The objects of `busy` are yet to
be filled. -/
structure Abreast (s : Setting) (base : Run) (busy : ObjectId → Prop) (a b : Run) : Prop where
  left : Kept s (base.heap.size ≤ ·) base a
  right : Kept s (base.heap.size ≤ ·) base b
  plans : b.plans = a.plans
  answers : b.answers = a.answers
  resolved : b.resolved = a.resolved
  copies : b.copies = a.copies
  size : b.heap.size = a.heap.size
  cls : ∀ o, b.heap.cls o = a.heap.cls o
  shape : ∀ o, b.heap.shape o = a.heap.shape o
  fit : Plans.Fit s.registry a.plans
  /-- What stands for an array can be put where an array was. -/
  arrays : ∀ o v, a.copies.find? o = some v → Field.takesArray base.heap (.ref o) = true →
    Field.takesArray a.heap v = true
  same : ∀ o, base.heap.size ≤ o → o < a.heap.size → ¬ busy o →
    (a.heap.body o).Agrees (s.registry.fieldsOf (a.heap.cls o)) (b.heap.body o)

namespace Abreast

variable {s : Setting} {base a b : Run} {busy : ObjectId → Prop}

theorem start {s : Setting} {base : Run} (h : s.Comparable base) (hc : base.copies = {}) :
    Abreast s base (fun _ => False) base base where
  left := Kept.refl base
  right := Kept.refl base
  plans := rfl
  answers := rfl
  resolved := rfl
  copies := rfl
  size := rfl
  cls := fun _ => rfl
  shape := fun _ => rfl
  fit := h.plans
  arrays := by
    intro o v hv
    rw [hc, Copies.find?_empty] at hv
    cases hv
  same := fun _ _ _ _ => Body.Agrees.refl _ _

theorem get_left (h : Abreast s base busy a b) {o : ObjectId} (ho : o < base.heap.size) :
    a.heap.get o = base.heap.get o := h.left.heap.get_eq ho (Nat.not_le.mpr ho)

theorem get_right (h : Abreast s base busy a b) {o : ObjectId} (ho : o < base.heap.size) :
    b.heap.get o = base.heap.get o := h.right.heap.get_eq ho (Nat.not_le.mpr ho)

theorem body_left (h : Abreast s base busy a b) {o : ObjectId} (ho : o < base.heap.size) :
    a.heap.body o = base.heap.body o := congrArg Object.body (h.get_left ho)

theorem body_right (h : Abreast s base busy a b) {o : ObjectId} (ho : o < base.heap.size) :
    b.heap.body o = base.heap.body o := congrArg Object.body (h.get_right ho)

theorem cls_left (h : Abreast s base busy a b) {o : ObjectId} (ho : o < base.heap.size) :
    a.heap.cls o = base.heap.cls o := congrArg Object.cls (h.get_left ho)

theorem shape_left (h : Abreast s base busy a b) {o : ObjectId} (ho : o < base.heap.size) :
    a.heap.shape o = base.heap.shape o := congrArg Object.shape (h.get_left ho)

theorem cls_right (h : Abreast s base busy a b) {o : ObjectId} (ho : o < base.heap.size) :
    b.heap.cls o = base.heap.cls o := congrArg Object.cls (h.get_right ho)

theorem takesArray_right (h : Abreast s base busy a b) (v : Value) :
    Field.takesArray b.heap v = Field.takesArray a.heap v := by
  cases v with
  | ref o => simp only [Field.takesArray, Heap.isArrayRef, h.shape]
  | _ => rfl

/-- A step on both sides that finds out the same. -/
theorem learned (h : Abreast s base busy a b) {a' b' : Run}
    (hl : Kept s (base.heap.size ≤ ·) a a') (hr : Kept s (base.heap.size ≤ ·) b b')
    (ha : a'.heap = a.heap) (hb : b'.heap = b.heap)
    (hc : a'.copies = a.copies ∧ b'.copies = b.copies) (plans : b'.plans = a'.plans)
    (answers : b'.answers = a'.answers) (resolved : b'.resolved = a'.resolved)
    (fit : Plans.Fit s.registry a'.plans) : Abreast s base busy a' b' := by
  refine ⟨h.left.trans hl, h.right.trans hr, plans, answers, resolved, ?_, ?_, ?_, ?_, fit, ?_, ?_⟩
  · rw [hc.1, hc.2, h.copies]
  · rw [ha, hb, h.size]
  · rw [ha, hb]
    exact h.cls
  · rw [ha, hb]
    exact h.shape
  · rw [hc.1, ha]
    exact h.arrays
  · rw [ha, hb]
    exact h.same

/-- A step on both sides that writes to an object that is being filled. -/
theorem touched (h : Abreast s base busy a b) {t : ObjectId} (ht : base.heap.size ≤ t) (hb : busy t)
    {m m' : Memory} (hl : Touched t a.heap m.heap) (hr : Touched t b.heap m'.heap) :
    Abreast s base busy { a with memory := m } { b with memory := m' } := by
  have sizes : ∀ {x y : Heap}, Touched t x y → y.size = x.size ∧ (∀ o, y.cls o = x.cls o) ∧
      (∀ o, y.shape o = x.shape o) ∧ ∀ o, o ≠ t → y.body o = x.body o := by
    intro x y htouched
    rcases htouched with rfl | ⟨body, rfl⟩
    · simp
    · refine ⟨Heap.size_setBody _ _ _, fun o => Heap.cls_setBody _ _ o _,
        fun o => Heap.shape_setBody _ _ o _, fun o ho => ?_⟩
      exact congrArg Object.body (Heap.get_setBody_of_ne body ho)
  obtain ⟨hsize, hcls, hshape, hbody⟩ := sizes hl
  obtain ⟨hsize', hcls', hshape', hbody'⟩ := sizes hr
  have hsl : Spared (base.heap.size ≤ ·) a.heap m.heap := Spared.of_touched hl ht
  have hsr : Spared (base.heap.size ≤ ·) b.heap m'.heap := Spared.of_touched hr ht
  refine ⟨h.left.trans (Kept.of_memory hsl), h.right.trans (Kept.of_memory hsr), h.plans, h.answers,
    h.resolved, h.copies, ?_, ?_, ?_, h.fit, ?_, ?_⟩
  · exact hsize'.trans (h.size.trans hsize.symm)
  · intro o
    exact (hcls' o).trans ((h.cls o).trans (hcls o).symm)
  · intro o
    exact (hshape' o).trans ((h.shape o).trans (hshape o).symm)
  · intro o v hv ha
    exact takesArray_mono hsl (h.arrays o v hv ha)
  · intro o hle hlt hn
    have hne : o ≠ t := by
      rintro rfl
      exact hn hb
    have hlt : o < m.heap.size := hlt
    show (m.heap.body o).Agrees (s.registry.fieldsOf (m.heap.cls o)) (m'.heap.body o)
    rw [hbody o hne, hbody' o hne, hcls]
    exact h.same o hle (hsize ▸ hlt) hn

/-- A step on both sides that makes an object, to be filled later. -/
theorem added (h : Abreast s base busy a b) {x y : Object} (hc : y.cls = x.cls)
    (hs : y.shape = x.shape) {m m' : Memory} (hl : m.heap = a.heap.add x)
    (hr : m'.heap = b.heap.add y) :
    Abreast s base (fun o => busy o ∨ o = a.heap.size) { a with memory := m }
      { b with memory := m' } := by
  have hsl : Spared (base.heap.size ≤ ·) a.heap m.heap := hl ▸ Spared.of_add x
  have hsr : Spared (base.heap.size ≤ ·) b.heap m'.heap := hr ▸ Spared.of_add y
  have headers : ∀ o, (m'.heap.get o).cls = (m.heap.get o).cls ∧
      (m'.heap.get o).shape = (m.heap.get o).shape := by
    intro o
    rw [hl, hr]
    rcases Nat.lt_trichotomy o a.heap.size with ho | rfl | ho
    · rw [Heap.get_add_of_lt x ho, Heap.get_add_of_lt y (h.size ▸ ho)]
      exact ⟨h.cls o, h.shape o⟩
    · rw [Heap.get_add_new, ← h.size, Heap.get_add_new]
      exact ⟨hc, hs⟩
    · have hx : (a.heap.add x).objects.size ≤ o := by
        have := a.heap.size_add x
        simp only [Heap.size] at this ho ⊢
        omega
      have hy : (b.heap.add y).objects.size ≤ o := by
        have := b.heap.size_add y
        have hsize := h.size
        simp only [Heap.size] at this ho hsize ⊢
        omega
      simp [Heap.get, Array.getElem?_eq_none hx, Array.getElem?_eq_none hy]
  refine ⟨h.left.trans (Kept.of_memory hsl), h.right.trans (Kept.of_memory hsr), h.plans, h.answers,
    h.resolved, h.copies, ?_, fun o => (headers o).1, fun o => (headers o).2, h.fit, ?_, ?_⟩
  · show m'.heap.size = m.heap.size
    rw [hl, hr, Heap.size_add, Heap.size_add, h.size]
  · intro o v hv ha
    exact takesArray_mono hsl (h.arrays o v hv ha)
  · intro o hle hlt hn
    have hlt : o < a.heap.size := by
      have hlt : o < m.heap.size := hlt
      rw [hl, Heap.size_add] at hlt
      have : o ≠ a.heap.size := fun he => hn (Or.inr he)
      omega
    show (m.heap.body o).Agrees (s.registry.fieldsOf (m.heap.cls o)) (m'.heap.body o)
    have hle' : ¬ b.heap.size ≤ o := by
      rw [h.size]
      exact Nat.not_le.mpr hlt
    rw [hl, hr, Heap.body, Heap.body, Heap.cls, Heap.get_add_of_lt x hlt,
      Heap.get_add_of_lt y (Nat.not_le.mp hle')]
    exact h.same o hle hlt fun hb => hn (Or.inl hb)

/-- An object that was filled, with the same on both sides. -/
theorem finish {t : ObjectId} (h : Abreast s base (fun o => busy o ∨ o = t) a b)
    (ht : (a.heap.body t).Agrees (s.registry.fieldsOf (a.heap.cls t)) (b.heap.body t)) :
    Abreast s base busy a b := by
  refine { h with same := ?_ }
  intro o hle hlt hn
  by_cases ho : o = t
  · subst ho
    exact ht
  · exact h.same o hle hlt fun hb => hb.elim hn ho

/-- A step on both sides that makes the same objects. -/
theorem addedAll (h : Abreast s base busy a b) (xs : List Object) {m m' : Memory}
    (hl : m.heap = a.heap.addAll xs) (hr : m'.heap = b.heap.addAll xs) :
    Abreast s base busy { a with memory := m } { b with memory := m' } := by
  induction xs generalizing a b with
  | nil =>
    exact h.learned (Kept.of_memory (hl ▸ Spared.refl _)) (Kept.of_memory (hr ▸ Spared.refl _)) hl
      hr ⟨rfl, rfl⟩ h.plans h.answers h.resolved h.fit
  | cons x xs ih =>
    have h₁ : Abreast s base (fun o => busy o ∨ o = a.heap.size)
        { a with memory.heap := a.heap.add x } { b with memory.heap := b.heap.add x } :=
      h.added rfl rfl rfl rfl
    have hnew : (b.heap.add x).body a.heap.size = (a.heap.add x).body a.heap.size := by
      rw [Heap.body, Heap.body, Heap.get_add_new, ← h.size, Heap.get_add_new]
    have h₂ := h₁.finish (hnew ▸ Body.Agrees.refl _ _)
    have h₃ := ih h₂ hl hr
    exact h₃

/-- A value is let stand for an object on both sides. -/
theorem register (h : Abreast s base busy a b) {o : ObjectId} {v : Value}
    (new : a.copies.find? o = none)
    (hv : Field.takesArray base.heap (.ref o) = true → Field.takesArray a.heap v = true) :
    Abreast s base busy { a with copies := a.copies.put o v }
      { b with copies := b.copies.put o v } := by
  have new' : b.copies.find? o = none := by
    rw [h.copies]
    exact new
  refine ⟨h.left.trans (Kept.of_register v new), h.right.trans (Kept.of_register v new'), h.plans,
    h.answers, h.resolved, ?_, h.size, h.cls, h.shape, h.fit, ?_, h.same⟩
  · show b.copies.put o v = a.copies.put o v
    rw [h.copies]
  · intro o' v' hf ha
    by_cases ho : o' = o
    · subst ho
      rw [Copies.find?_put] at hf
      cases hf
      exact hv ha
    · rw [Copies.find?_put_ne _ _ ho] at hf
      exact h.arrays o' v' hf ha

end Abreast

/-! ## How deep a clone can go -/

namespace Copies

/-- How many of the first objects have no copy. -/
def missing (n : Nat) (copies : Copies) : Nat :=
  (List.range n).countP fun o => (copies.find? o).isNone

theorem missing_le (n : Nat) (copies : Copies) : copies.missing n ≤ n := by
  have := List.countP_le_length (p := fun o => (copies.find? o).isNone) (l := List.range n)
  simpa [missing] using this

theorem missing_succ (n : Nat) (copies : Copies) :
    copies.missing (n + 1) = copies.missing n + if (copies.find? n).isNone then 1 else 0 := by
  simp [missing, List.range_succ, List.countP_append, List.countP_singleton]

theorem missing_mono {n : Nat} {copies copies' : Copies}
    (h : ∀ o v, copies.find? o = some v → copies'.find? o = some v) :
    copies'.missing n ≤ copies.missing n := by
  unfold missing
  apply List.countP_mono_left
  intro o _ ho
  cases hf : copies.find? o with
  | none => rfl
  | some v =>
    rw [h o v hf] at ho
    cases ho

/-- An object that gets a copy is no longer missing one. -/
theorem missing_put_lt {n : Nat} {copies : Copies} {o : ObjectId} (v : Value) (ho : o < n)
    (hf : copies.find? o = none) : (copies.put o v).missing n < copies.missing n := by
  induction n with
  | zero => exact absurd ho (Nat.not_lt_zero o)
  | succ n ih =>
    rw [missing_succ, missing_succ]
    by_cases hn : o = n
    · subst hn
      have hle : (copies.put o v).missing o ≤ copies.missing o := by
        apply missing_mono
        intro o' w hw
        have : o' ≠ o := by
          rintro rfl
          rw [hf] at hw
          cases hw
        rw [find?_put_ne _ _ this]
        exact hw
      simp only [find?_put, hf, Option.isNone_none, Option.isNone_some, if_true,
        Bool.false_eq_true, if_false]
      omega
    · have := ih (Nat.lt_of_le_of_ne (Nat.le_of_lt_succ ho) hn)
      rw [find?_put_ne _ _ (Ne.symm hn)]
      omega

end Copies

/-! ## Nested values -/

/-- From one point of two clones to a later one: they are still abreast, and each has left alone
what there was. -/
structure Onward (s : Setting) (base : Run) (busy : ObjectId → Prop) (a b a' b' : Run) : Prop where
  size : b.heap.size = a.heap.size
  abreast : Abreast s base busy a' b'
  left : Kept s (a.heap.size ≤ ·) a a'
  right : Kept s (a.heap.size ≤ ·) b b'

namespace Onward

variable {s : Setting} {base a b a' b' a'' b'' : Run} {busy : ObjectId → Prop}

theorem trans (h₁ : Onward s base busy a b a' b') (h₂ : Onward s base busy a' b' a'' b'') :
    Onward s base busy a b a'' b'' := by
  refine ⟨h₁.size, h₂.abreast, h₁.left.trans (h₂.left.mono ?_), h₁.right.trans (h₂.right.mono ?_)⟩
  · intro o _ ho
    exact Nat.le_trans h₁.left.heap.size_le ho
  · intro o _ ho
    exact Nat.le_trans h₁.left.heap.size_le ho

theorem refl (h : Abreast s base busy a b) : Onward s base busy a b a b :=
  ⟨h.size, h, Kept.refl a, Kept.refl b⟩

theorem missing_le (h : Onward s base busy a b a' b') (n : Nat) :
    a'.copies.missing n ≤ a.copies.missing n := Copies.missing_mono h.left.copies

theorem body_left (h : Onward s base busy a b a' b') {o : ObjectId} (ho : o < a.heap.size) :
    a'.heap.body o = a.heap.body o := h.left.heap.body_eq o ho (Nat.not_le.mpr ho)

theorem body_right (h : Onward s base busy a b a' b') {o : ObjectId} (ho : o < a.heap.size) :
    b'.heap.body o = b.heap.body o :=
  h.right.heap.body_eq o (h.size.symm ▸ ho) (Nat.not_le.mpr ho)

end Onward

/-- What comes out for a value is the same on both sides, which are still abreast. For an array it
is an array or nothing. -/
structure SameAnswer (s : Setting) (base : Run) (busy : ObjectId → Prop) (v w w' : Value)
    (a b : Run) : Prop where
  eq : w' = w
  abreast : Abreast s base busy a b
  array : Field.takesArray base.heap v = true → Field.takesArray a.heap w = true

/-- What the clones of a nested value do side by side, as long as no more objects than `depth` are
without a copy. -/
structure Setting.Pairs (s : Setting) (base : Run) (depth : Nat)
    (nested nested' : Value → CloneM Value) : Prop where
  left : s.direct.Nests nested
  right : s.checked.Nests nested'
  abreast : ∀ busy a b v, Abreast s base busy a b → base.heap.Has v →
    a.copies.missing base.heap.size ≤ depth →
    Matches (nested v) (nested' v) a b (SameAnswer s base busy v)

/-- What each side keeps by itself is added to what holds of both. -/
theorem Setting.Keeps.matches {α β : Type} {s : Setting} {own : ObjectId → Prop} {x : CloneM α}
    {y : CloneM β} {a b : Run} {Q : α → β → Run → Run → Prop} (h : Matches x y a b Q)
    (hx : s.direct.Keeps own x a) (hy : s.checked.Keeps own y b) :
    Matches x y a b fun u v a' b' => Q u v a' b' ∧ Kept s own a a' ∧ Kept s own b b' := by
  refine (h.and_ends hx hy).mono ?_ fun _ _ _ _ h => h.1
  intro u v a' b' hpost
  rcases hpost with ⟨hq, hk, hk'⟩
  exact ⟨hq, hk.of_over, hk'.of_over⟩

/-- What the clones of a nested value leave alone is left alone on both sides. -/
theorem Setting.Pairs.clone {s : Setting} {base a b : Run} {busy : ObjectId → Prop} {depth : Nat}
    {nested nested' : Value → CloneM Value} (hp : s.Pairs base depth nested nested')
    (ht : s.Tame base) (h : Abreast s base busy a b) {v : Value} (hv : base.heap.Has v)
    (hd : a.copies.missing base.heap.size ≤ depth) :
    Matches (nested v) (nested' v) a b fun w w' a' b' => w' = w ∧ Onward s base busy a b a' b' ∧
      (Field.takesArray base.heap v = true → Field.takesArray a'.heap w = true) := by
  have hl : s.direct.Keeps (a.heap.size ≤ ·) (nested v) a :=
    hp.left a v ((h.left.tame ht).over _)
  have hr : s.checked.Keeps (a.heap.size ≤ ·) (nested' v) b := by
    rw [← h.size]
    exact hp.right b v ((h.right.tame ht).over _)
  refine (Setting.Keeps.matches (hp.abreast busy a b v h hv hd) hl hr).mono ?_ fun _ _ _ _ h => h
  intro w w' a' b' hpost
  rcases hpost with ⟨⟨hw, h', ha⟩, hk, hk'⟩
  exact ⟨hw, ⟨h.size, h', hk, hk'⟩, ha⟩

end DeepCopy
