-- Heaps in order, and what can be reached in a heap. A heap is in order when
-- every body fits its registered class and no reference leads out of the heap.
-- Nothing is asked of the bytes of primitives, nor of those between them.
import DeepCopy.Proofs.Mirroring

namespace DeepCopy

namespace Heap

/-- The objects that can be reached from a value. -/
inductive Reaches (h : Heap) (v : Value) : ObjectId → Prop where
  | here {o : ObjectId} (hv : v = .ref o) : Reaches h v o
  | next {o o' : ObjectId} (ho : Reaches h v o) (hv : .ref o' ∈ (h.body o).values) : Reaches h v o'

/-- A value that a clone may come to: what it refers to can be reached. -/
def Meets (h : Heap) (root v : Value) : Prop := ∀ o, v = .ref o → h.Reaches root o

/-- Objects refer only to what is there. -/
def Closed (h : Heap) : Prop := ∀ o < h.size, ∀ v ∈ (h.body o).values, h.Has v

theorem Reaches.lt_size {h : Heap} {root : Value} (hc : h.Closed) (hv : h.Has root) {o : ObjectId}
    (ho : h.Reaches root o) : o < h.size := by
  induction ho with
  | here ho => exact hv _ ho
  | next _ hv ih => exact hc _ ih _ hv _ rfl

end Heap

/-! ## Bodies that fit their classes -/

/-- The body is of the kind that the class asks for. An instance has the sizes its layout says, and
holds arrays or nothing where the class declares arrays; a primitive array holds whole elements. -/
def Registry.Entry.Admits (e : Registry.Entry) (h : Heap) (b : Body) : Prop :=
  match e.decl.kind, b with
  | .concrete, b => b.Sized e.layout.blockSize e.layout.slotCount ∧
    ∀ f ∈ e.layout.fields, ∀ index v, f.place = .slot index → f.type.category = .array →
      b.readSlot index = .ok v → Field.takesArray h v = true
  | .array (.primitive kind), .packed kind' bytes => kind' = kind ∧ kind.width ∣ bytes.length
  | .array (.reference _), .slots _ => True
  | .container kind, .container c => c.kind = kind
  | _, _ => False

namespace Registry.Entry.Admits

variable {e : Registry.Entry} {h : Heap} {b : Body}

theorem record (ha : e.Admits h b) (hb : b.shape = .record) : e.decl.kind = .concrete ∧
    b.Sized e.layout.blockSize e.layout.slotCount ∧
    ∀ f ∈ e.layout.fields, ∀ index v, f.place = .slot index → f.type.category = .array →
      b.readSlot index = .ok v → Field.takesArray h v = true := by
  unfold Admits at ha
  split at ha
  · rename_i hk
    exact ⟨hk, ha⟩
  all_goals first | cases hb | cases ha

theorem packed {kind : Primitive.Kind} {bytes : List UInt8} (ha : e.Admits h (.packed kind bytes)) :
    e.decl.kind = .array (.primitive kind) ∧ kind.width ∣ bytes.length := by
  unfold Admits at ha
  cases hk : e.decl.kind with
  | array c => cases c <;> simp_all
  | _ => simp_all [Body.Sized]

theorem slots {items : List Value} (ha : e.Admits h (.slots items)) :
    ∃ c, e.decl.kind = .array (.reference c) := by
  unfold Admits at ha
  cases hk : e.decl.kind with
  | array c => cases c <;> simp_all
  | _ => simp_all [Body.Sized]

theorem container {c : Container} (ha : e.Admits h (.container c)) :
    e.decl.kind = .container c.kind := by
  unfold Admits at ha
  cases hk : e.decl.kind with
  | array c => cases c <;> simp_all
  | _ => simp_all [Body.Sized]

/-- Objects of container classes hold contents. -/
theorem contents (ha : e.Admits h b) {kind : Container.Kind} (hk : e.decl.kind = .container kind) :
    ∃ c, b = .container c := by
  unfold Admits at ha
  rw [hk] at ha
  cases b with
  | container c => exact ⟨c, rfl⟩
  | _ => exact ha.elim

/-- An instance whose class declares no arrays is in order if it has the right sizes. -/
theorem of_sized (hk : e.decl.kind = .concrete) (hs : b.Sized e.layout.blockSize e.layout.slotCount)
    (hf : ∀ f ∈ e.layout.fields, f.type.category ≠ .array) : e.Admits h b := by
  unfold Admits
  rw [hk]
  exact ⟨hs, fun f hmem _ _ _ hc _ => absurd hc (hf f hmem)⟩

/-- A container is in order in its own class. -/
theorem exists_container {r : Registry} (hr : r.Sound) (c : Container) :
    ∃ e, r.get? (Registry.containerClass c.kind) = some e ∧ e.Admits h (.container c) := by
  obtain ⟨e, he, hk⟩ := hr.containers c.kind
  refine ⟨e, he, ?_⟩
  unfold Admits
  rw [hk]

end Registry.Entry.Admits

/-- Every object is of a registered class, with a header and a body that fit it, and refers only to
what is there. -/
structure Heap.Orderly (r : Registry) (h : Heap) : Prop where
  admits : ∀ o < h.size, ∃ e, r.get? (h.cls o) = some e ∧ e.Admits h (h.body o)
  header : ∀ o < h.size, h.shape o = (h.body o).shape
  closed : h.Closed

theorem Heap.get_mem {h : Heap} {o : ObjectId} (ho : o < h.size) : h.get o ∈ h.objects.toList := by
  have hlt : o < h.objects.size := ho
  simp [Heap.get, Array.getElem?_eq_getElem hlt]

/-- Of a heap that is given, what headers and references ask can be checked object by object. -/
theorem Heap.Orderly.of_objects {r : Registry} {h : Heap}
    (hadmits : ∀ o < h.size, ∃ e, r.get? (h.cls o) = some e ∧ e.Admits h (h.body o))
    (hshape : ∀ x ∈ h.objects.toList, x.shape = x.body.shape)
    (hrefs : ∀ x ∈ h.objects.toList, ∀ v ∈ x.body.values, v.object?.all (· < h.size) = true) :
    h.Orderly r where
  admits := hadmits
  header := fun _ ho => hshape _ (Heap.get_mem ho)
  closed := by
    rintro o ho _ hv o' rfl
    exact of_decide_eq_true (hrefs _ (Heap.get_mem ho) _ hv)

/-! ## Settings without routines -/

/-- A setting and a run in which a clone of `root` needs no routine but the one that rebuilds
containers: no other is registered, no class that is duplicated names one, and self-copy methods
are off. All objects are in order. -/
structure Setting.Unaided (s : Setting) (base : Run) (root : Value) : Prop where
  registry : s.registry.Built
  backend : s.backend.Over s.registry
  plans : Plans.Fit s.registry base.plans
  overrides : s.policy.flags.useOverrides = true →
    ∀ cls i, s.policy.override? cls = some i → i = .containers
  native : s.policy.flags.useSelfCopy = false
  unnamed : ∀ o, s.Duplicates base.heap (s.fate base) root o →
    ∀ e, s.registry.get? (base.heap.cls o) = some e → e.decl.cloneWith = none
  heap : base.heap.Orderly s.registry
  root : base.heap.Has root

namespace Setting

variable {s : Setting} {base : Run} {root : Value} {o : ObjectId}

/-- What is duplicated can be reached. -/
theorem Duplicates.reaches {h : Heap} {fate : ObjectId → Fate} (hd : s.Duplicates h fate root o) :
    h.Reaches root o := by
  induction hd with
  | root hr _ => exact .here hr
  | follow _ hv _ ih => exact .next ih hv.mem_values

namespace Unaided

variable (hu : s.Unaided base root)
include hu

theorem lt_size (hd : s.Duplicates base.heap (s.fate base) root o) : o < base.heap.size :=
  hd.reaches.lt_size hu.heap.closed hu.root

theorem sought_root : s.Sought base root root := fun o ho => ⟨hu.root o ho, fun hf => .root ho hf⟩

theorem sought (hd : s.Duplicates base.heap (s.fate base) root o) {v : Value}
    (hv : s.Follows base.heap o v) : s.Sought base root v :=
  sought_of_follows hu.heap.closed (hu.lt_size hd) hd hv

/-- The class of an object that is duplicated is registered, and its plan says what it says. -/
theorem exists_entry (hd : s.Duplicates base.heap (s.fate base) root o) :
    ∃ e, s.registry.get? (base.heap.cls o) = some e ∧ e.Admits base.heap (base.heap.body o) ∧
      e.decl.cloneWith = none :=
  let ⟨e, he, ha⟩ := hu.heap.admits o (hu.lt_size hd)
  ⟨e, he, ha, hu.unnamed o hd e he⟩

omit hu in
/-- Whether the implementor of containers is asked for a class. -/
theorem eq_containers_of_judge (hu : s.Unaided base root) {run : Run} {cls : ClassId}
    {i : Implementor} (hj : s.judge run cls o = .overridden i) :
    s.policy.flags.useOverrides = true ∧ s.policy.override? cls = some i ∧ i = .containers := by
  obtain ⟨hf, hi⟩ := override_of_judge hj
  exact ⟨hf, hi, hu.overrides hf cls i hi⟩

omit hu in
/-- Where the policy leaves an object to the plan of its class, the object is shared or
duplicated. -/
theorem planVerdict_of_open (hu : s.Unaided base root) {e : Registry.Entry} {p : Plan}
    (hd : s.fate base o = .copied → s.Duplicates base.heap (s.fate base) root o)
    (he : s.registry.get? (base.heap.cls o) = some e) (hdesc : p.Describes (base.heap.cls o) e)
    (hj : s.judge base (base.heap.cls o) o = .open)
    (hof : s.planOf base (base.heap.cls o) = .ok p) :
    (s.planVerdict p = .shared ∧ s.fate base o = .shared) ∨
      (s.planVerdict p = .duplicated ∧ s.fate base o = .copied) := by
  have hfate : s.fate base o = _ := fateOf_of_open hj hof
  cases hv : s.planVerdict p with
  | shared =>
    simp only [hv] at hfate
    exact Or.inl ⟨rfl, hfate⟩
  | named name =>
    simp only [hv] at hfate
    obtain ⟨e', he', -, hnone⟩ := hu.exists_entry (hd hfate)
    cases he.symm.trans he'
    have hsome := cloneWith_of_planVerdict hv
    rw [hdesc.cloneWith_eq, hnone] at hsome
    cases hsome
  | selfCopied method =>
    have hflag := (selfCopy_of_planVerdict hv).1
    rw [hu.native] at hflag
    cases hflag
  | duplicated =>
    simp only [hv] at hfate
    exact Or.inr ⟨rfl, hfate⟩

/-- An object that is come to is left to no implementor but the one that rebuilds containers. -/
theorem employs {run : Run} (hk : Kept s (base.heap.size ≤ ·) base run)
    (ho : s.Sought base root (.ref o)) : s.Employs (· = .containers) run o := by
  obtain ⟨hlt, hd⟩ := ho o rfl
  refine ⟨fun hon i => hu.overrides hon _ i, fun hf p name hp hc => ?_⟩
  rw [hk.fate_eq hlt] at hf
  rw [hk.planOf, hk.heap.cls_eq o hlt] at hp
  obtain ⟨e, he, hdesc⟩ := describes_of_planOf hu.plans hp
  rw [hdesc.cloneWith_eq, hu.unnamed o (hd hf) e he] at hc
  cases hc

end Unaided

end Setting

end DeepCopy
