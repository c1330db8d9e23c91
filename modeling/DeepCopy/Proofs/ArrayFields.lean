-- Fields that hold arrays. By checked access a field of an array type takes an
-- array or nothing and refuses all else. So whatever implementors return or let
-- stand for objects, a clone by the portable backend leaves only arrays in such
-- fields, in its copies and everywhere else, and however it ends.
import DeepCopy.Proofs.BackendSimulation
import DeepCopy.Proofs.RegistrationRules

namespace DeepCopy

open CloneM

/-! ## Heaps -/

/-- Where the class declares an array, an instance holds an array or nothing. It need not fit its
class in any other way. -/
def Layout.HoldsArrays (l : Layout) (h : Heap) (b : Body) : Prop :=
  ∀ f ∈ l.fields, ∀ index v, f.place = .slot index → f.type.category = .array →
    b.readSlot index = .ok v → Field.takesArray h v = true

/-- All instances hold arrays or nothing where their classes declare arrays. -/
def Heap.HoldsArrays (r : Registry) (h : Heap) : Prop :=
  ∀ o e, r.get? (h.cls o) = some e → e.layout.HoldsArrays h (h.body o)

/-- A body with nothing in any slot: that of a bare instance, or of what is no instance. -/
def Body.Hollow (b : Body) : Prop := ∀ index v, b.readSlot index = .ok v → v = .null

/-- Where the class declares an array, an instance holds nothing. -/
def Layout.Vacant (l : Layout) (b : Body) : Prop :=
  ∀ f ∈ l.fields, ∀ index v, f.place = .slot index → f.type.category = .array →
    b.readSlot index = .ok v → v = .null

/-- Where no object is, there is nothing. -/
theorem Heap.get_of_le {h : Heap} {o : ObjectId} (ho : h.size ≤ o) : h.get o = Object.nothing := by
  have hnone : h.objects.size ≤ o := ho
  rw [get, Array.getElem?_eq_none hnone, Option.getD_none]

namespace Body

variable {b b' : Body}

theorem hollow_of_shape (h : b.shape ≠ .record) : b.Hollow := by
  cases b with
  | record block refs => exact absurd rfl h
  | _ => exact fun _ _ hr => by cases hr

theorem hollow_bareRecord (blockSize slotCount : Nat) :
    (bareRecord blockSize slotCount).Hollow := by
  intro index v hr
  exact List.eq_of_mem_replicate (mem_values_of_readSlot hr)

theorem readSlot_writeBytes {offset : Nat} {bytes : List UInt8}
    (h : b.writeBytes offset bytes = .ok b') (index : Nat) :
    b'.readSlot index = b.readSlot index := by
  cases b <;> simp only [writeBytes] at h
  case record block refs =>
    split at h
    · cases h
      rfl
    · cases h
  all_goals cases h

end Body

namespace Layout.HoldsArrays

variable {l : Layout} {h h' : Heap} {b b' : Body}

theorem of_vacant (hb : l.Vacant b) : l.HoldsArrays h b := by
  intro f hf index v hp ht hr
  rw [hb f hf index v hp ht hr]
  rfl

theorem of_hollow (hb : b.Hollow) : l.HoldsArrays h b :=
  of_vacant fun _ _ index v _ _ hr => hb index v hr

theorem grow {own : ObjectId → Prop} (hh : l.HoldsArrays h b) (hs : Spared own h h') :
    l.HoldsArrays h' b :=
  fun f hf index v hp ht hr => takesArray_mono hs (hh f hf index v hp ht hr)

theorem writeBytes (hh : l.HoldsArrays h b) {offset : Nat} {bytes : List UInt8}
    (hw : b.writeBytes offset bytes = .ok b') : l.HoldsArrays h b' := by
  intro f hf index v hp ht hr
  rw [Body.readSlot_writeBytes hw] at hr
  exact hh f hf index v hp ht hr

theorem writeSlot (hh : l.HoldsArrays h b) (hl : l.Sound) {f : Field} (hf : f ∈ l.fields)
    {index : Nat} {v : Value} (hp : f.place = .slot index)
    (hv : f.type.category = .array → Field.takesArray h v = true)
    (hw : b.writeSlot index v = .ok b') : l.HoldsArrays h b' := by
  intro g hg index' w hp' ht hr
  rcases hl.eq_or_apart hf hg with rfl | hapart
  · rw [hp] at hp'
    cases hp'
    rw [Body.readSlot_writeSlot hw] at hr
    cases hr
    exact hv ht
  · rw [hp, hp'] at hapart
    rw [(Body.alters_writeSlot hw).same (.slot index') hapart] at hr
    exact hh g hg index' w hp' ht hr

end Layout.HoldsArrays

namespace Heap.HoldsArrays

variable {r : Registry} {h : Heap} {o : ObjectId} {w : Write}

theorem add (hh : h.HoldsArrays r) {x : Object}
    (hx : ∀ e, r.get? x.cls = some e → e.layout.Vacant x.body) : (h.add x).HoldsArrays r := by
  have hs : Spared (fun _ => False) h (h.add x) := Spared.of_add x
  intro o e he
  rcases Nat.lt_trichotomy o h.size with ho | rfl | ho
  · have hcls := hs.cls_eq o ho
    rw [hs.body_eq o ho id]
    exact (hh o e (hcls ▸ he)).grow hs
  · rw [Heap.cls, get_add_new] at he
    rw [Heap.body, get_add_new]
    exact .of_vacant (hx e he)
  · have hle : (h.add x).size ≤ o := h.size_add x ▸ ho
    rw [Heap.body, Heap.get_of_le hle]
    exact .of_hollow (Body.hollow_bareRecord 0 0)

theorem setBody (hh : h.HoldsArrays r) {b : Body} (hb : ∀ e, r.get? (h.cls o) = some e →
    e.layout.HoldsArrays h (h.body o) → e.layout.HoldsArrays h b) :
    (h.setBody o b).HoldsArrays r := by
  have hs : Spared (· = o) h (h.setBody o b) := Spared.of_touched (Or.inr ⟨b, rfl⟩) rfl
  intro o' e he
  rw [cls_setBody] at he
  by_cases ho : o' = o
  · subst ho
    by_cases hlt : o' < h.size
    · rw [body_setBody hlt]
      exact (hb e he (hh o' e he)).grow hs
    · have hle : (h.setBody o' b).size ≤ o' := h.size_setBody o' b ▸ Nat.not_lt.mp hlt
      rw [Heap.body, Heap.get_of_le hle]
      exact .of_hollow (Body.hollow_bareRecord 0 0)
  · rw [Heap.body, get_setBody_of_ne b ho]
    exact (hh o' e he).grow hs

theorem setBody_hollow (hh : h.HoldsArrays r) {b : Body} (hb : b.Hollow) :
    (h.setBody o b).HoldsArrays r := hh.setBody fun _ _ _ => .of_hollow hb

/-- Checked access writes to an array field nothing but an array or null. -/
theorem set (hh : h.HoldsArrays r) (hr : r.Sound) {f : Field} (hf : f.Of r h o) {v : Value}
    (hw : f.set h o v = .ok w) : (h.write w).HoldsArrays r := by
  obtain ⟨b, hb, rfl⟩ := Backend.write_of_map hw
  obtain ⟨e, he, hmem⟩ := hf
  refine hh.setBody fun e' he' hold => ?_
  cases he.symm.trans he'
  unfold Field.writeTo at hb
  split at hb
  · split at hb
    · exact hold.writeBytes (Backend.ok_of_mapError hb)
    · cases hb
  · rename_i index hp
    split at hb
    · cases hb
    · rename_i hfits
      refine hold.writeSlot (hr.layouts _ _ he) hmem hp ?_ (Backend.ok_of_mapError hb)
      intro ht
      cases hv : Field.takesArray h v with
      | true => rfl
      | false => exact absurd ⟨ht, hv⟩ hfits

theorem reset (hh : h.HoldsArrays r) (hr : r.Sound) {f : Field} (hf : f.Of r h o)
    (hw : f.reset h o = .ok w) : (h.write w).HoldsArrays r := by
  unfold Field.reset at hw
  split at hw
  · obtain ⟨b, hb, rfl⟩ := Backend.write_of_map hw
    exact hh.setBody fun _ _ hold => hold.writeBytes (Backend.ok_of_mapError hb)
  · exact hh.set hr hf hw

theorem setField (hh : h.HoldsArrays r) (hr : r.Sound) {name : String} {v : Value}
    (hw : r.setField h o name v = .ok w) : (h.write w).HoldsArrays r := by
  obtain ⟨f, hf, hw⟩ := Registry.exists_set_of_setField hw
  exact hh.set hr hf hw

theorem setElement (hh : h.HoldsArrays r) {index : Nat} {v : Value}
    (hw : h.setElement o index v = .ok w) : (h.write w).HoldsArrays r := by
  obtain ⟨b, hb, rfl⟩ := Backend.write_of_map hw
  refine hh.setBody_hollow (Body.hollow_of_shape fun hshape => ?_)
  -- An element is written to an array, and that stays an array.
  obtain ⟨-, heq, -⟩ := Body.setElement_keeps hb
  obtain ⟨block, refs, hbody⟩ := Body.exists_record (heq.symm.trans hshape)
  rw [hbody] at hb
  cases hb

theorem setContents (hh : h.HoldsArrays r) {c : Container}
    (hw : h.setContents o c = .ok w) : (h.write w).HoldsArrays r := by
  unfold Heap.setContents at hw
  cases hc : h.contents o with
  | error e =>
    rw [hc] at hw
    cases hw
  | ok old =>
    rw [hc] at hw
    cases hw
    exact hh.setBody_hollow (Body.hollow_of_shape fun hshape => by cases hshape)

end Heap.HoldsArrays

/-! ## Backends -/

/-- There is one more object, of a class, and it holds nothing in slots. -/
def AddsHollow (cls : ClassId) (m : Memory) (o : ObjectId) (m' : Memory) : Prop :=
  o = m.heap.size ∧ ∃ x : Object, x.cls = cls ∧ x.body.Hollow ∧ m'.heap = m.heap.add x

theorem addsHollow_new {m : Memory} {body : Body} {tally : Tally} (cls : ClassId)
    (hb : body.Hollow) :
    AddsHollow cls m m.heap.size ⟨m.heap.add (Object.new cls body), tally⟩ :=
  ⟨rfl, Object.new cls body, rfl, hb, rfl⟩

theorem AddsHollow.holdsArrays {r : Registry} {cls : ClassId} {m m' : Memory} {o : ObjectId}
    (h : AddsHollow cls m o m') (hh : m.heap.HoldsArrays r) : m'.heap.HoldsArrays r := by
  obtain ⟨-, x, -, hx, heap⟩ := h
  exact heap ▸ hh.add fun _ _ _ _ index v _ _ hr => hx index v hr

namespace Backend

variable {r : Registry} {m : Memory}

theorem hollow_allocateArray (r : Registry) (cls : ClassId) (length : Nat) :
    Ends (Allocator.allocateArray r cls length) m (AddsHollow cls m) (fun _ m' => m' = m) := by
  simp only [Allocator.allocateArray, ends_bind, ends_memory_read]
  cases r.decl cls with
  | error e => trivial
  | ok d =>
    simp only
    split
    · exact addsHollow_new cls (Body.hollow_of_shape (by simp [Body.shape]))
    · exact addsHollow_new cls (Body.hollow_of_shape (by simp [Body.shape]))
    · exact rfl

theorem hollow_allocator (r : Registry) (cls : ClassId) :
    Ends (Allocator.allocate r cls) m (AddsHollow cls m) (fun _ m' => m' = m) := by
  simp only [Allocator.allocate, ends_bind, ends_memory_read]
  cases r.decl cls with
  | error e => trivial
  | ok d =>
    simp only
    split
    · simp only [ends_bind, ends_memory_read]
      cases r.layout cls with
      | error e => trivial
      | ok l => exact addsHollow_new cls (Body.hollow_bareRecord _ _)
    · exact addsHollow_new cls (Body.hollow_of_shape (by simp [Body.shape]))
    · exact hollow_allocateArray r cls 0
    · exact rfl
    · exact rfl
    · exact rfl

theorem hollow_allocate (r : Registry) (p : Plan) :
    Ends ((portable r).allocate p) m (AddsHollow p.cls m) (fun _ m' => m' = m) := by
  simp only [allocate, ends_allocating]
  exact hollow_allocator r p.cls

theorem hollow_allocateSlots (r : Registry) (cls : ClassId) (length : Nat) :
    Ends ((portable r).allocateSlots cls length) m (AddsHollow cls m) (fun _ m' => m' = m) := by
  simp only [allocateSlots, ends_allocating]
  exact hollow_allocateArray r cls length

/-- A primitive array is duplicated without a write to an instance, also where that breaks off. -/
theorem hollow_duplicatePacked (r : Registry) (source : ObjectId) :
    Ends ((portable r).duplicatePacked source) m (AddsHollow (m.heap.cls source) m)
      (fun _ m' => m' = m ∨ ∃ o, AddsHollow (m.heap.cls source) m o m') := by
  simp only [duplicatePacked, ends_bind, ends_get]
  cases m.heap.body source with
  | packed kind bytes =>
    simp only [ends_bind, ends_allocating]
    refine ends_mono (hollow_allocateArray r _ _) ?_ fun _ _ h => Or.inl h
    rintro o m₁ ⟨rfl, x, hcls, hx, heap⟩
    simp only [fillPacked, ends_bind, ends_get, ends_pure]
    split
    · split
      · rename_i kind' _ _ _
        refine ⟨rfl, { x with body := .packed kind' bytes }, hcls,
          Body.hollow_of_shape (by simp [Body.shape]), ?_⟩
        show m₁.heap.setBody m.heap.size _ = _
        rw [heap, Heap.setBody_add_new]
      · exact Or.inr ⟨_, rfl, x, hcls, hx, heap⟩
    · exact ⟨rfl, x, hcls, hx, heap⟩
  | _ => exact Or.inl rfl

theorem arrays_update {change : Heap → Except CloneError Write}
    (hc : ∀ w, change m.heap = .ok w → (m.heap.write w).HoldsArrays r) :
    Ends (CopyM.update change) m (fun _ m' => m'.heap.HoldsArrays r) (fun _ m' => m' = m) := by
  rw [ends_copy_update]
  split
  · rename_i w hw
    exact hc w hw
  · exact rfl

section Writes

variable (hr : r.Sound) (hh : m.heap.HoldsArrays r)
include hh

theorem arrays_writeElement (o : ObjectId) (index : Nat) (v : Value) :
    Ends ((portable r).writeElement o index v) m (fun _ m' => m'.heap.HoldsArrays r)
      (fun _ m' => m' = m) :=
  arrays_update fun _ hw => hh.setElement (ok_of_mapError hw)

theorem arrays_setContents (p : Plan) (o : ObjectId) (c : Container) :
    Ends (CopyM.update fun h => (h.setContents o c).mapError (Setting.contentsFault p o)) m
      (fun _ m' => m'.heap.HoldsArrays r) (fun _ m' => m' = m) :=
  arrays_update fun _ hw => hh.setContents (ok_of_mapError hw)

include hr

theorem arrays_resetField {f : PlannedField} {o : ObjectId} (hf : f.toField.Of r m.heap o) :
    Ends ((portable r).resetField f o) m (fun _ m' => m'.heap.HoldsArrays r)
      (fun _ m' => m' = m) :=
  arrays_update fun _ hw => hh.reset hr hf (ok_of_mapError hw)

theorem arrays_writeReference {f : PlannedField} {o : ObjectId} (hf : f.toField.Of r m.heap o)
    (v : Value) :
    Ends ((portable r).writeReference f o v) m (fun _ m' => m'.heap.HoldsArrays r)
      (fun _ m' => m' = m) :=
  arrays_update fun _ hw => hh.set hr hf (ok_of_mapError hw)

theorem arrays_copyPrimitive {f : PlannedField} (source : ObjectId) {target : ObjectId}
    (hf : f.toField.Of r m.heap target) :
    Ends ((portable r).copyPrimitive f source target) m (fun _ m' => m'.heap.HoldsArrays r)
      (fun _ m' => m' = m) := by
  refine arrays_update fun w hw => ?_
  cases hread : (f.get m.heap source).mapError (f.fault source) with
  | error e => simp [hread, bind, Except.bind] at hw
  | ok v =>
    simp only [hread, bind, Except.bind] at hw
    exact hh.set hr hf (ok_of_mapError hw)

end Writes

end Backend

/-! ## Plans -/

/-- The root class has no fields. -/
theorem Registry.Built.fields_rootClass {r : Registry} (h : r.Built) :
    ∃ e, r.get? rootClass = some e ∧ e.layout.fields = [] := by
  induction h with
  | initial => exact ⟨_, rfl, rfl⟩
  | define _ hd ih =>
    obtain ⟨e, he, hf⟩ := ih
    obtain ⟨-, superclass, -, -, rfl⟩ := eq_add_of_define hd
    exact ⟨e, extends_add _ _ _ _ he, hf⟩
  | arrayOf _ hc ih =>
    obtain ⟨e, he, hf⟩ := ih
    rcases eq_add_of_arrayOf hc with rfl | ⟨name, rfl⟩
    · exact ⟨e, he, hf⟩
    · exact ⟨e, extends_add _ _ _ _ he, hf⟩

/-- What is not there counts as an object of the root class. -/
theorem Plan.Describes.fields_of_absent {p : Plan} {h : Heap} {o : ObjectId} {e : Registry.Entry}
    {r : Registry} (hd : p.Describes (h.cls o) e) (hr : r.Built)
    (he : r.get? (h.cls o) = some e) (ho : h.size ≤ o) : p.fields = [] := by
  obtain ⟨root, hroot, hf⟩ := hr.fields_rootClass
  have hcls : h.cls o = Registry.rootClass := congrArg Object.cls (Heap.get_of_le ho)
  rw [hcls, hroot] at he
  cases he
  rw [hd.fields_eq, hf, List.map_nil]

/-! ## Self-copies and routines -/

/-- A self-copy method that leaves headers as they are, and no field of an array type with anything
but an array. -/
def SelfCopy.KeepsArrays (method : SelfCopy) (r : Registry) : Prop :=
  ∀ o h, h.HoldsArrays r →
    (method o h).2.HoldsArrays r ∧ Spared (fun _ => True) h (method o h).2

/-- A request that does not fill fields of array types but one by one. -/
def Request.FillsNoArrays (r : Registry) : Request → Prop
  | create cls body => ∀ e, r.get? cls = some e → e.layout.Vacant body
  | overwrite _ body => body.Hollow
  | _ => True

/-- A routine that fills fields of array types one by one only. It may return, register and write to
fields what it likes. -/
inductive Routine.WritesByField (r : Registry) : Routine → Prop where
  | finish (result : Except CloneError Value) : WritesByField r (.finish result)
  | ask (request : Request) (next : request.Reply → Routine) (hr : request.FillsNoArrays r)
    (hn : ∀ reply, WritesByField r (next reply)) : WritesByField r (.ask request next)

/-- A setting of the portable backend over one registry. Self-copy methods, where they are used,
keep arrays where they belong. -/
structure Setting.Checked (s : Setting) : Prop where
  backend : s.backend = .portable s.registry
  registry : s.registry.Built
  methods : s.policy.flags.useSelfCopy = true → ∀ cls e method, s.registry.get? cls = some e →
    e.decl.selfCopy = some method → method.KeepsArrays s.registry

/-! ## Runs -/

/-- At a point of a run all array fields hold arrays, and all implementors write field by field. -/
structure Tidy (s : Setting) (run : Run) : Prop where
  heap : run.heap.HoldsArrays s.registry
  plans : Plans.Fit s.registry run.plans
  keeps : s.KeepsTo (fun _ r => r.WritesByField s.registry) run

/-- From one point of a run to a later one: all is tidy, and headers are as they were. -/
structure Tidied (s : Setting) (run run' : Run) : Prop where
  tidy : Tidy s run'
  heap : Spared (fun _ => True) run.heap run'.heap

theorem Tidied.trans {s : Setting} {run run' run'' : Run} (h : Tidied s run run')
    (h' : Tidied s run' run'') : Tidied s run run'' := ⟨h'.tidy, h.heap.trans h'.heap⟩

namespace Tidy

variable {s : Setting} {run : Run}

theorem refl (h : Tidy s run) : Tidied s run run := ⟨h, Spared.refl _⟩

theorem memory (h : Tidy s run) {memory : Memory} (hh : memory.heap.HoldsArrays s.registry)
    (hs : Spared (fun _ => True) run.heap memory.heap) : Tidied s run { run with memory } :=
  ⟨⟨hh, h.plans, h.keeps.of_resolved rfl⟩, hs⟩

theorem learned (h : Tidy s run) {run' : Run} (hm : run'.memory = run.memory)
    (hp : Plans.Fit s.registry run'.plans)
    (hk : s.KeepsTo (fun _ r => r.WritesByField s.registry) run') :
    Tidied s run run' := by
  have heap : run'.heap = run.heap := congrArg Memory.heap hm
  exact ⟨⟨heap ▸ h.heap, hp, hk⟩, heap ▸ Spared.refl _⟩

theorem registered (h : Tidy s run) (o : ObjectId) (v : Value) :
    Tidied s run { run with copies := run.copies.put o v } :=
  h.learned rfl h.plans (h.keeps.of_resolved rfl)

end Tidy

theorem Tidy.of_finds {s : Setting} {run run' : Run} (h : Tidy s run)
    (hf : Finds s (·.KeepsTo (fun _ r => r.WritesByField s.registry) s.scope) run run') :
    Tidied s run run' :=
  h.learned hf.memory (hf.fit h.plans) (h.keeps.of_finds hf)

/-- From tidy runs on all stays tidy. -/
def Setting.tidying (s : Setting) : Invariant where
  Good := Tidy s
  Later := Tidied s
  Stopped run _ := Tidied s run
  Allows _ _ := True
  Gives _ _ _ := True
  refl h := h.refl
  trans := .trans
  good _ h := h.tidy
  stopped := .trans
  failed h _ := h.refl
  blamed h := h
  allows _ h := h
  gives _ h := h

namespace Setting

open Invariant

variable {α β : Type} {s : Setting} {run : Run} {Q : α → Run → Prop}

theorem tidies_ofExcept (result : Except CloneError α) :
    s.tidying.Maintains (ofExcept result) run fun _ _ => True := by
  cases result with
  | ok a => exact maintains_pure trivial
  | error e => exact maintains_fail e

theorem tidies_outcome {x : CloneM α} (hx : s.tidying.Maintains x run fun _ _ => True) :
    s.tidying.Maintains (outcome x) run fun _ _ => True := by
  intro ht
  rw [ends_outcome]
  refine ends_mono (hx ht) (fun _ _ h => h) ?_
  intro e run' h
  cases e with
  | failed e => exact ⟨h, trivial⟩
  | _ => exact h

/-- A step that writes to one object. -/
theorem tidies_touching {target : ObjectId} {x : CopyM α} {E : Stop → Prop}
    (hx : Ends x run.memory (fun _ m => Touched target run.heap m.heap)
      (fun e m => E e ∧ m = run.memory))
    (hw : run.heap.HoldsArrays s.registry →
      Ends x run.memory (fun _ m => m.heap.HoldsArrays s.registry) fun _ m => m = run.memory) :
    s.tidying.Maintains (onMemory x) run fun _ _ => True := by
  intro ht
  rw [ends_onMemory]
  refine ends_mono (ends_and hx (hw ht.heap)) ?_ ?_
  · rintro _ m ⟨htouched, hw⟩
    exact ⟨ht.memory hw (Spared.of_touched htouched trivial), trivial⟩
  · rintro _ m ⟨-, rfl⟩
    exact ht.refl

/-- A step that makes an object, which may be left behind if it fails. -/
theorem tidies_making {cls : ClassId} {x : CopyM ObjectId}
    (hx : Ends x run.memory (AddsHollow cls run.memory)
      fun _ m => m = run.memory ∨ ∃ o, AddsHollow cls run.memory o m) :
    s.tidying.Maintains (onMemory x) run fun o run' =>
      o < run'.heap.size ∧ run'.heap.cls o = cls := by
  intro ht
  have made : ∀ {o : ObjectId} {m : Memory}, AddsHollow cls run.memory o m →
      Tidied s run { run with memory := m } ∧ o < m.heap.size ∧ m.heap.cls o = cls := by
    intro o m hadds
    have hh := hadds.holdsArrays ht.heap
    obtain ⟨rfl, x, rfl, -, heap⟩ := hadds
    refine ⟨ht.memory hh (heap ▸ Spared.of_add x), ?_, ?_⟩
    · rw [heap, Heap.size_add]
      exact Nat.lt_succ_self _
    · rw [heap, Heap.cls, Heap.get_add_new]
  rw [ends_onMemory]
  refine ends_mono hx (fun _ _ h => made h) ?_
  rintro _ m (rfl | ⟨o, hadds⟩)
  · exact ht.refl
  · exact (made hadds).1

theorem tidies_plan (cls : ClassId) :
    s.tidying.Maintains (s.plan cls) run fun p run' =>
      (∃ e, s.registry.get? cls = some e ∧ p.Describes cls e) ∧ run'.memory = run.memory := by
  intro ht
  refine ends_mono
    (ends_plan_finds (A := (·.KeepsTo (fun _ r => r.WritesByField s.registry) s.scope)) _) ?_ ?_
  · rintro p run' ⟨hf, hp⟩
    exact ⟨ht.of_finds hf, describes_of_planOf ht.plans hp, hf.memory⟩
  · rintro _ _ ⟨-, rfl⟩
    exact ht.refl

/-! ## Filling copies -/

variable {nested : Value → CloneM Value} {source target : ObjectId} {p : Plan}
  {e : Registry.Entry}

section Filling

variable (hs : s.Checked) (hn : s.tidying.Clones nested)
include hs hn

/-- Only the class of the instance that is written to matters: where a value comes from is not
looked at, and what it is is checked. -/
theorem tidies_copyField (hlt : target < run.heap.size)
    (he : s.registry.get? (run.heap.cls target) = some e) (bulk : Bool) {f : PlannedField}
    (hf : f.toField ∈ e.layout.fields) :
    s.tidying.Maintains (s.copyField nested source target bulk f) run fun _ _ => True := by
  have hr := hs.registry.sound
  refine maintains_copyField hn (fun _ => ?_) (fun _ _ _ => trivial) (fun _ _ _ => ?_)
    fun _ _ ht => ?_
  · rw [hs.backend]
    exact tidies_touching (Backend.ends_resetField _ f target)
      fun hh => Backend.arrays_resetField hr hh ⟨e, he, hf⟩
  · rw [hs.backend]
    exact tidies_touching (Backend.ends_copyPrimitive _ f source target)
      fun hh => Backend.arrays_copyPrimitive hr hh source ⟨e, he, hf⟩
  · rw [ends_onMemory]
    refine ends_mono (Backend.ends_readField _ f source) ?_ ?_
    · rintro v m rfl
      refine ⟨ht.refl, trivial, fun w run₂ h₂ _ => ?_⟩
      have hcls : run₂.heap.cls target = run.heap.cls target := h₂.heap.cls_eq target hlt
      rw [hs.backend]
      exact tidies_touching (Backend.ends_writeReference _ f target w)
        fun hh => Backend.arrays_writeReference hr hh ⟨e, hcls ▸ he, hf⟩ w
    · rintro _ m ⟨-, rfl⟩
      exact ht.refl

/-- The fields of a class are written to an instance of that class. What is not there is of the root
class, which has no fields. -/
theorem tidies_copyFields (he : s.registry.get? (run.heap.cls target) = some e)
    (hd : p.Describes (run.heap.cls target) e) :
    s.tidying.Maintains (s.copyFields nested source target p) run fun _ _ => True := by
  unfold copyFields
  refine Maintains.bind (P := fun _ run₁ => run₁ = run) ?_ ?_
  · rw [hs.backend]
    exact fun ht => ⟨ht.refl, rfl⟩
  · rintro bulk run₁ - - rfl
    by_cases hlt : target < run₁.heap.size
    · refine (maintains_copyFieldsFrom (D := fun _ _ => True) (fun _ _ _ _ _ _ => trivial)
        fun f hf run₂ h₂ => ?_).mono fun _ _ _ _ _ => trivial
      have hcls : run₂.heap.cls target = run₁.heap.cls target := h₂.heap.cls_eq target hlt
      exact tidies_copyField hs hn (Nat.lt_of_lt_of_le hlt h₂.heap.size_le) (hcls ▸ he) bulk
        (hd.mem_layout hf)
    · rw [hd.fields_of_absent hs.registry he (Nat.not_lt.mp hlt)]
      exact maintains_pure trivial

end Filling

/-! ## Duplicates -/

theorem tidies_register (o : ObjectId) (v : Value) :
    s.tidying.Maintains (register o v) run fun _ run' => run'.memory = run.memory :=
  fun ht => ⟨ht.registered o v, rfl⟩

theorem tidies_allocate (hs : s.Checked) (p : Plan) :
    s.tidying.Maintains (onMemory (s.backend.allocate p)) run fun o run' =>
      o < run'.heap.size ∧ run'.heap.cls o = p.cls := by
  rw [hs.backend]
  exact tidies_making (ends_mono (Backend.hollow_allocate _ p) (fun _ _ h => h)
    fun _ _ h => Or.inl h)

/-- A copy is made tidily if it is filled so. -/
theorem tidies_makeCopy {make : CopyM ObjectId} {fill : ObjectId → CloneM Unit}
    {M : ObjectId → Memory → Prop}
    (hmake : s.tidying.Maintains (onMemory make) run fun o run' => M o run'.memory)
    (hfill : ∀ o run', M o run'.memory → s.tidying.Maintains (fill o) run' fun _ _ => True) :
    s.tidying.Maintains (makeCopy register source make fill) run fun _ _ => True := by
  refine hmake.bind fun o run₁ _ _ hmade => ?_
  refine (tidies_register source (.ref o)).bind fun _ run₂ _ _ hsame => ?_
  exact (hfill o run₂ (hsame ▸ hmade)).bind fun _ _ _ _ _ => maintains_pure trivial

section Duplicating

variable (hs : s.Checked) (hn : s.tidying.Clones nested)
include hs hn

theorem tidies_duplicateContainer (source : ObjectId) :
    s.tidying.Maintains (s.duplicateContainer nested source) run fun _ _ => True := by
  refine maintains_duplicateContainer (tidies_plan _) fun p run₁ contents _ _ _ => ?_
  refine tidies_makeCopy (M := fun _ _ => True)
    ((tidies_allocate hs p).mono fun _ _ _ _ _ => trivial) fun target run₂ _ => ?_
  refine (maintains_cloneContents hn fun _ _ => trivial).bind fun copies run₃ _ _ _ => ?_
  exact tidies_touching (Backend.ends_setContents p target copies)
    fun hh => Backend.arrays_setContents hh p target copies

theorem tidies_duplicateSlots (source : ObjectId) :
    s.tidying.Maintains (s.duplicateSlots nested source) run fun _ _ => True := by
  refine maintains_duplicateSlots fun items _ => ?_
  refine tidies_makeCopy (M := fun _ _ => True) ?_ fun target run₁ _ => ?_
  · rw [hs.backend]
    exact (tidies_making (ends_mono (Backend.hollow_allocateSlots _ _ _) (fun _ _ h => h)
      fun _ _ h => Or.inl h)).mono fun _ _ _ _ _ => trivial
  · refine (maintains_cloneElements hn (fun run₂ index _ copy _ => ?_) (fun _ _ => trivial) 0).mono
      fun _ _ _ _ _ => trivial
    rw [hs.backend]
    exact tidies_touching (Backend.ends_writeElement _ target index copy)
      fun hh => Backend.arrays_writeElement hh target index copy

theorem tidies_duplicate (source : ObjectId) (he : s.registry.get? p.cls = some e)
    (hd : p.Describes p.cls e) :
    s.tidying.Maintains (s.duplicate nested source p) run fun _ _ => True := by
  refine maintains_duplicate (fun _ => ?_) (fun _ => tidies_duplicateSlots hs hn source)
    (fun _ => tidies_duplicateContainer hs hn source) fun _ => ?_
  · refine tidies_makeCopy (M := fun _ _ => True) ?_ fun _ _ _ => maintains_pure trivial
    rw [hs.backend]
    exact (tidies_making (Backend.hollow_duplicatePacked _ source)).mono fun _ _ _ _ _ => trivial
  · refine tidies_makeCopy (M := fun o m => m.heap.cls o = p.cls)
      ((tidies_allocate hs p).mono fun _ _ _ _ h => h.2) fun target run₁ hcls => ?_
    have hcls : run₁.heap.cls target = p.cls := hcls
    exact tidies_copyFields hs hn (hcls.symm ▸ he) (hcls.symm ▸ hd)

theorem tidies_cloneFields (source target : ObjectId) :
    s.tidying.Maintains (s.cloneFields nested source target) run fun _ _ => True := by
  refine maintains_heap ((tidies_plan _).bind fun p run₁ _ _ hplan => ?_)
  obtain ⟨⟨e, he, hd⟩, hmem⟩ := hplan
  split
  · exact maintains_fail _
  · split
    · exact maintains_fail _
    · split
      · exact maintains_fail _
      · rename_i hsame
        have hcls : run₁.heap.cls target = run.heap.cls source := by
          rw [Run.heap, hmem]
          exact (Decidable.not_not.mp hsame).symm
        exact tidies_copyFields hs hn (hcls.symm ▸ he) (hcls.symm ▸ hd)

/-! ## Implementors -/

/-- Whatever a routine asks for, it is answered tidily. -/
theorem tidies_answer {q : Request} (hq : q.FillsNoArrays s.registry) :
    s.tidying.Maintains (s.answer nested q) run fun _ _ => True := by
  cases q with
  | clone v => exact tidies_outcome (hn run v trivial)
  | cloneFields source target => exact tidies_outcome (tidies_cloneFields hs hn source target)
  | register o copy => exact (tidies_register o copy).mono fun _ _ _ _ _ => trivial
  | allocate cls =>
    refine tidies_outcome ((tidies_plan cls).bind fun p run₁ _ _ _ => ?_)
    exact (tidies_allocate hs p).mono fun _ _ _ _ _ => trivial
  | plan cls => exact tidies_outcome ((tidies_plan cls).mono fun _ _ _ _ _ => trivial)
  | create cls body =>
    exact fun ht => ⟨ht.memory (ht.heap.add hq) (Spared.of_add _), trivial⟩
  | overwrite o body =>
    exact fun ht => ⟨ht.memory (ht.heap.setBody_hollow hq)
      (Spared.of_touched (Or.inr ⟨body, rfl⟩) trivial), trivial⟩
  | setField o name v =>
    refine maintains_heap ?_
    split
    · rename_i w hw
      intro ht
      have hh := ht.heap.setField hs.registry.sound hw
      have htouched : Touched w.object run.heap (run.heap.write w) := Or.inr ⟨w.body, rfl⟩
      exact ⟨ht.memory hh (Spared.of_touched htouched trivial), trivial⟩
    · exact maintains_pure trivial
  | note n => exact fun ht => ⟨ht.learned rfl ht.plans (ht.keeps.of_resolved rfl), trivial⟩
  | _ => exact fun ht => ⟨ht.refl, trivial⟩

theorem tidies_runRoutine {r : Routine} (hr : r.WritesByField s.registry) :
    s.tidying.Maintains (s.runRoutine nested r) run fun _ _ => True := by
  induction hr generalizing run with
  | finish result => exact tidies_ofExcept result
  | ask request next hq _ ih =>
    exact (tidies_answer hs hn hq).bind fun reply run₁ _ _ _ => ih reply

theorem tidies_implement {i : Implementor}
    (hi : i.KeepsTo (fun _ r => r.WritesByField s.registry) s.scope) (source : ObjectId) :
    s.tidying.Maintains (s.implement nested i source) run fun _ _ => True := by
  cases i with
  | containers => exact tidies_duplicateContainer hs hn source
  | script script => exact tidies_runRoutine hs hn (hi source)
  | routine f => exact tidies_runRoutine hs hn (hi source)

end Duplicating

/-! ## The rules -/

theorem tidies_copyItself {method : SelfCopy} (hm : method.KeepsArrays s.registry)
    (source : ObjectId) (p : Plan) :
    s.tidying.Maintains (copyItself method source p) run fun _ _ => True := by
  intro ht
  obtain ⟨hheap, hspared⟩ := hm source run.heap ht.heap
  have h₁ : Tidied s run { run with memory.heap := (method source run.heap).2 } :=
    ht.memory hheap hspared
  unfold copyItself
  simp only [ends_bind, ends_heap, ends_modify]
  cases (method source run.heap).1 with
  | ok copy => exact ⟨h₁.trans (h₁.tidy.registered source (.ref copy)), trivial⟩
  | error fault => cases fault <;> exact h₁

theorem tidies_cloneNew (hs : s.Checked) (hn : s.tidying.Clones nested) (source : ObjectId) :
    s.tidying.Maintains (s.cloneNew nested source) run fun _ _ => True := by
  intro ht
  refine maintains_cloneNewBy (ht.keeps.employs source) (fun _ hf => ht.of_finds hf)
    (fun _ _ _ => trivial) (fun _ _ _ => trivial) ?_ ?_ ?_ ht
  · intro _ i run' hi _
    refine maintains_delegateBy (tidies_implement hs hn hi source) fun copy run₁ _ ht₁ => ?_
    exact ends_settle (fun _ => ⟨ht₁.refl, trivial⟩) fun _ => ⟨ht₁.registered source copy, trivial⟩
  · intro _ p method run' _ hp hon hself
    obtain ⟨e, he, hd⟩ := describes_of_planOf ht.plans hp
    rw [hd.selfCopy_eq] at hself
    exact tidies_copyItself (hs.methods hon _ e method he hself) source p
  · intro _ p run' _ hp
    obtain ⟨e, he, hd⟩ := describes_of_planOf ht.plans hp
    rw [← hd.cls_eq] at he hd
    exact tidies_duplicate hs hn source he hd

/-- A clone leaves all tidy, however deep it goes and however it ends. -/
theorem tidying_cloneValue (hs : s.Checked) (depth : Nat) :
    s.tidying.Clones (cloneValue s depth) :=
  clones_cloneValue (ι := Unit) (I := fun _ => s.tidying) (fun _ _ _ _ _ => trivial)
    (fun _ _ _ _ _ _ _ => trivial) (fun _ _ ht => ht.refl)
    (fun _ hn _ _ o _ _ => tidies_cloneNew hs (hn ()) o) depth ()

theorem tidies_clone (hs : s.Checked) (v : Value) :
    s.tidying.Maintains (s.clone v) run fun _ _ => True := by
  intro ht
  have h₁ : Tidied s run { run with copies := {} } :=
    ht.learned rfl ht.plans (ht.keeps.of_resolved rfl)
  unfold clone begin
  refine Maintains.bind (P := fun _ _ => True) (fun _ => ⟨h₁, trivial⟩)
    (fun _ run₁ _ _ _ => maintains_heap ?_) ht
  exact tidying_cloneValue hs _ run₁ v trivial

end Setting

end DeepCopy
