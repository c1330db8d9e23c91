-- A clone keeps the heap well-formed, at every step and however it ends. What
-- comes out for a value can stand in its place: it is there, and where the value
-- is an array or nothing, so is what comes out.
import DeepCopy.Proofs.Contents
import DeepCopy.Proofs.Frame
import DeepCopy.Proofs.Writes

namespace DeepCopy

/-! ## Settings and runs -/

/-- A setting over one sound registry in which no routine takes part but the one that rebuilds
containers, and no self-copy method. -/
structure Setting.Plain (s : Setting) : Prop where
  backend : s.backend.Over s.registry
  registry : s.registry.Sound
  overrides : s.policy.flags.useOverrides = true →
    ∀ cls i, s.policy.override? cls = some i → i = .containers
  named : ∀ cls e name maker, s.registry.get? cls = some e → e.decl.cloneWith = some name →
    Assoc.find? name s.catalog = some maker → maker.implementor = .containers
  methods : s.policy.flags.useSelfCopy = true →
    ∀ cls e, s.registry.get? cls = some e → e.decl.selfCopy = none

theorem Setting.Plain.tame {s : Setting} {run : Run} (hp : s.Plain)
    (hplans : Plans.Fit s.registry run.plans)
    (hres : ∀ cls i, Assoc.find? cls run.resolved = some i → i = .containers) : s.Tame run where
  overrides := hp.overrides
  named := by
    intro cls p name maker hpl hc hm
    obtain ⟨e, he, hd⟩ := Setting.describes_of_planOf hplans hpl
    exact hp.named cls e name maker he (hd.cloneWith_eq ▸ hc) hm
  resolved := hres
  methods := by
    intro hf cls p method hpl hm
    obtain ⟨e, he, hd⟩ := Setting.describes_of_planOf hplans hpl
    rw [hd.selfCopy_eq, hp.methods hf cls e he] at hm
    cases hm

/-- A value stands for an object as its copy: a reference to an object of the same class. -/
def Twin (h : Heap) (o : ObjectId) (v : Value) : Prop :=
  ∃ t, v = .ref t ∧ o < h.size ∧ t < h.size ∧ h.cls t = h.cls o

/-- Everything in a run is in order: the heap, the plans, the implementors and the copies. -/
structure Lawful (s : Setting) (run : Run) : Prop where
  heap : run.heap.WellFormed s.registry
  plans : Plans.Fit s.registry run.plans
  resolved : ∀ cls i, Assoc.find? cls run.resolved = some i → i = .containers
  copies : ∀ o v, run.copies.find? o = some v → Twin run.heap o v

/-- From one point of a run to a later one: everything is in order, and headers are as they were. -/
structure Step (s : Setting) (run run' : Run) : Prop where
  lawful : Lawful s run'
  heap : Spared (fun _ => True) run.heap run'.heap

theorem Twin.grow {own : ObjectId → Prop} {h h' : Heap} {o : ObjectId} {v : Value}
    (ht : Twin h o v) (hs : Spared own h h') : Twin h' o v := by
  obtain ⟨t, rfl, ho, htl, hc⟩ := ht
  refine ⟨t, rfl, Nat.lt_of_lt_of_le ho hs.size_le, Nat.lt_of_lt_of_le htl hs.size_le, ?_⟩
  rw [hs.cls_eq t htl, hs.cls_eq o ho, hc]

theorem Replaces.refl {h : Heap} {v : Value} (hv : h.Has v) : Replaces h v v := ⟨hv, id⟩

theorem Replaces.grow {own : ObjectId → Prop} {h h' : Heap} {v copy : Value}
    (hr : Replaces h v copy) (hv : h.Has v) (hs : Spared own h h') : Replaces h' v copy := by
  refine ⟨hr.has.grow hs, ?_⟩
  rw [takesArray_grow hv hs, takesArray_grow hr.has hs]
  exact hr.takesArray

theorem Step.trans {s : Setting} {run run' run'' : Run} (h₁ : Step s run run')
    (h₂ : Step s run' run'') : Step s run run'' :=
  ⟨h₂.lawful, h₁.heap.trans h₂.heap⟩

namespace Lawful

variable {s : Setting} {run : Run}

theorem step (h : Lawful s run) : Step s run run := ⟨h, Spared.refl _⟩

theorem step_memory (h : Lawful s run) {memory : Memory}
    (hw : memory.heap.WellFormed s.registry) (hs : Spared (fun _ => True) run.heap memory.heap) :
    Step s run { run with memory } :=
  ⟨⟨hw, h.plans, h.resolved, fun o v hv => (h.copies o v hv).grow hs⟩, hs⟩

theorem step_finds (h : Lawful s run) {run' : Run} (hf : Finds s (· = .containers) run run') :
    Step s run run' := by
  refine ⟨⟨hf.heap ▸ h.heap, hf.fit h.plans, ?_, ?_⟩, hf.heap ▸ Spared.refl _⟩
  · exact fun cls i hi => (hf.resolved cls i hi).elim (h.resolved cls i) id
  · rw [hf.copies, hf.heap]
    exact h.copies

theorem step_register (h : Lawful s run) {o : ObjectId} {v : Value} (ht : Twin run.heap o v) :
    Step s run { run with copies := run.copies.put o v } := by
  refine ⟨⟨h.heap, h.plans, h.resolved, ?_⟩, Spared.refl _⟩
  intro o' w hw
  by_cases ho : o' = o
  · subst ho
    rw [Copies.find?_put] at hw
    cases hw
    exact ht
  · rw [Copies.find?_put_ne _ _ ho] at hw
    exact h.copies o' w hw

/-- An operation starts with no copies. -/
theorem step_begin (h : Lawful s run) : Step s run { run with copies := {} } := by
  refine ⟨⟨h.heap, h.plans, h.resolved, ?_⟩, Spared.refl _⟩
  intro o v hv
  rw [Copies.find?_empty] at hv
  cases hv

/-- A copy can stand in the place of its object. -/
theorem replaces (h : Lawful s run) {o : ObjectId} {v : Value} (hv : Twin run.heap o v) :
    Replaces run.heap (.ref o) v := by
  obtain ⟨t, rfl, ho, ht, hc⟩ := hv
  refine ⟨fun _ he => by cases he; exact ht, ?_⟩
  have hshape : run.heap.shape t = run.heap.shape o := h.heap.shape_eq_of_cls_eq ht ho hc
  simp only [Field.takesArray, Heap.isArrayRef, hshape]
  exact id

/-- No routine takes part in such a run, and no self-copy method. -/
theorem tame (h : Lawful s run) (hp : s.Plain) : s.Tame run := hp.tame h.plans h.resolved

end Lawful

/-- From a run in which everything is in order it stays so, and what comes out for a value can stand
in its place. -/
def Setting.upholding (s : Setting) : Invariant where
  Good := Lawful s
  Later := Step s
  Stopped run _ := Step s run
  Allows run := run.heap.Has
  Gives run v copy := run.heap.Has v ∧ Replaces run.heap v copy
  refl h := h.step
  trans := Step.trans
  good _ h := h.lawful
  stopped := Step.trans
  failed h _ := h.step
  blamed h := h
  allows h hv := hv.grow h.heap
  gives h hr := ⟨hr.1.grow h.heap, hr.2.grow hr.1 h.heap⟩

namespace Setting

open CloneM Invariant

variable {α : Type} {s : Setting} {run run' : Run}

/-- A step that writes to one object and keeps the heap well-formed. -/
theorem upholding_touching {target : ObjectId} {x : CopyM α} (hx : x.WritesTo target)
    (hw : Lawful s run →
      Ends x run.memory (fun _ m => m.heap.WellFormed s.registry) (fun _ m => m = run.memory)) :
    s.upholding.Maintains (onMemory x) run fun _ _ => True := by
  intro hl
  rw [ends_onMemory]
  refine ends_mono (ends_and (hx run.memory) (hw hl)) ?_ ?_
  · rintro _ m ⟨⟨ht, -⟩, hm⟩
    exact ⟨hl.step_memory hm (Spared.of_touched ht trivial), trivial⟩
  · rintro _ _ ⟨-, rfl⟩
    exact hl.step

/-- A step that makes an object of a class, or leaves the heap well-formed if it fails. -/
def Brings (s : Setting) (run : Run) (cls : ClassId) (make : CopyM ObjectId) : Prop :=
  Lawful s run → Ends make run.memory (Creates s.registry cls run.memory)
    fun _ m => m.heap.WellFormed s.registry ∧ Spared (fun _ => False) run.heap m.heap

theorem Brings.of {cls : ClassId} {make : CopyM ObjectId} (h : Lawful s run →
    Ends make run.memory (Creates s.registry cls run.memory) fun _ m => m = run.memory) :
    s.Brings run cls make :=
  fun hl => ends_mono (h hl) (fun _ _ h => h) fun _ _ h => h ▸ ⟨hl.heap, Spared.refl _⟩

theorem Brings.upholding {cls : ClassId} {make : CopyM ObjectId} (h : s.Brings run cls make) :
    s.upholding.Maintains (onMemory make) run fun o run' =>
      o < run'.heap.size ∧ run'.heap.cls o = cls := by
  intro hl
  rw [ends_onMemory]
  refine ends_mono (h hl) ?_ ?_
  · intro o m hc
    exact ⟨hl.step_memory hc.wellFormed hc.spared, hc.lt_size, hc.cls_eq⟩
  · rintro e m ⟨hw, hs⟩
    exact hl.step_memory hw (hs.mono fun _ _ h => h.elim)

theorem upholding_plan (cls : ClassId) :
    s.upholding.Maintains (s.plan cls) run fun p run' =>
      (∃ e, s.registry.get? cls = some e ∧ p.Describes cls e) ∧ run'.memory = run.memory := by
  intro hl
  refine ends_mono (ends_plan_finds (A := (· = .containers)) cls) ?_ ?_
  · rintro p run' ⟨hf, hp⟩
    exact ⟨hl.step_finds hf, describes_of_planOf hl.plans hp, hf.memory⟩
  · rintro _ _ ⟨-, rfl⟩
    exact hl.step

/-! ## Filling copies -/

/-- An instance and another of its class, which a plan describes. -/
structure Mates (s : Setting) (run : Run) (source target : ObjectId) (p : Plan) : Prop where
  source_lt : source < run.heap.size
  target_lt : target < run.heap.size
  cls_eq : run.heap.cls target = run.heap.cls source
  described : ∃ e, s.registry.get? (run.heap.cls source) = some e ∧
    p.Describes (run.heap.cls source) e

variable {nested : Value → CloneM Value} {source target : ObjectId} {p : Plan}

theorem Mates.step (hm : s.Mates run source target p) (h : Step s run run') :
    s.Mates run' source target p := by
  have hs := h.heap.cls_eq source hm.source_lt
  have ht := h.heap.cls_eq target hm.target_lt
  refine ⟨Nat.lt_of_lt_of_le hm.source_lt h.heap.size_le,
    Nat.lt_of_lt_of_le hm.target_lt h.heap.size_le, ?_, ?_⟩
  · rw [ht, hs]
    exact hm.cls_eq
  · rw [hs]
    exact hm.described

theorem Mates.field (hm : s.Mates run source target p) {f : PlannedField} (hf : f ∈ p.fields) :
    f.toField.Of s.registry run.heap source ∧ f.toField.Of s.registry run.heap target := by
  obtain ⟨e, he, hd⟩ := hm.described
  have hg := hd.mem_layout hf
  exact ⟨⟨e, he, hg⟩, ⟨e, hm.cls_eq ▸ he, hg⟩⟩

theorem upholding_copyBlock (hm : s.Mates run source target p) :
    s.upholding.Maintains (onMemory (s.backend.copyBlock source target)) run fun _ _ => True :=
  upholding_touching (s.backend.writesTo_copyBlock source target) fun hl =>
    Backend.wellFormed_copyBlock hl.heap hm.source_lt hm.cls_eq.symm

section Nested

variable (hp : s.Plain) (hn : s.upholding.Clones nested)
include hp hn

theorem upholding_copyField (hm : s.Mates run source target p) (bulk : Bool) {f : PlannedField}
    (hf : f ∈ p.fields) :
    s.upholding.Maintains (s.copyField nested source target bulk f) run fun _ _ => True := by
  obtain ⟨hfs, hft⟩ := hm.field hf
  refine maintains_copyField hn (fun _ => ?_) (fun _ _ _ => trivial) (fun _ hprim _ => ?_) ?_
  · exact upholding_touching (s.backend.writesTo_resetField f target) fun hl =>
      Backend.wellFormed_resetField hp.backend hp.registry hl.heap hft
  · exact upholding_touching (s.backend.writesTo_copyPrimitive f source target) fun hl =>
      Backend.wellFormed_copyPrimitive hp.backend hp.registry hl.heap hm.source_lt hfs hft hprim
  · intro _ _ hl
    rw [ends_onMemory]
    refine ends_mono (Backend.wellFormed_readField hp.backend hp.registry hl.heap hm.source_lt
      hfs) ?_ ?_
    · rintro v _ ⟨rfl, hv, ha⟩
      refine ⟨hl.step, hv, fun copy run₂ h₂ hr => ?_⟩
      refine upholding_touching (s.backend.writesTo_writeReference f target copy) fun hl₂ => ?_
      exact Backend.wellFormed_writeReference hp.backend hp.registry hl₂.heap
        ((hm.step h₂).field hf).2 hr.2.has fun hc =>
          hr.2.takesArray ((takesArray_grow hv h₂.heap).trans (ha hc))
    · rintro _ _ rfl
      exact hl.step

theorem upholding_copyFields (hm : s.Mates run source target p) :
    s.upholding.Maintains (s.copyFields nested source target p) run fun _ _ => True := by
  refine (upholding_copyBlock hm).bind fun bulk run₁ _ h₁ _ => ?_
  refine (maintains_copyFieldsFrom (D := fun _ _ => True) (fun _ _ _ _ _ h => h)
    fun f hf run₂ h₂ => ?_).mono fun _ _ _ _ _ => trivial
  exact upholding_copyField hp hn ((hm.step h₁).step h₂) bulk hf

omit hp in
theorem upholding_cloneElements {vs : List Value} (hv : ∀ v ∈ vs, run.heap.Has v) :
    s.upholding.Maintains (s.cloneElements nested target 0 vs) run fun _ _ => True := by
  refine (maintains_cloneElements hn (fun run₁ index v copy hr => ?_) hv 0).mono
    fun _ _ _ _ _ => trivial
  exact upholding_touching (s.backend.writesTo_writeElement target index copy) fun hl =>
    Backend.wellFormed_writeElement hl.heap index hr.2.has

/-! ## Duplicates -/

omit hp hn in
/-- A copy is made that is of the source's class, and stands for the source while it is filled. -/
theorem upholding_makeCopy (hs : source < run.heap.size) {make : CopyM ObjectId}
    {fill : ObjectId → CloneM Unit} (hmake : s.Brings run (run.heap.cls source) make)
    (hfill : ∀ target run', Step s run run' → target < run'.heap.size →
      run'.heap.cls target = run'.heap.cls source →
      s.upholding.Maintains (fill target) run' fun _ _ => True) :
    s.upholding.Maintains (makeCopy register source make fill) run fun copy run' =>
      Twin run'.heap source copy := by
  refine hmake.upholding.bind fun target run₁ hl₁ h₁ hpost => ?_
  obtain ⟨ht, hc⟩ := hpost
  have hcls : run₁.heap.cls target = run₁.heap.cls source := by
    rw [hc, h₁.heap.cls_eq source hs]
  have htwin : Twin run₁.heap source (.ref target) :=
    ⟨target, rfl, Nat.lt_of_lt_of_le hs h₁.heap.size_le, ht, hcls⟩
  have h₂ := hl₁.step_register htwin
  intro _
  rw [ends_bind, ends_register]
  refine ((hfill target _ (h₁.trans h₂) ht hcls).bind fun _ run₃ _ h₃ _ => ?_).sequel hl₁ h₂
  exact maintains_pure (htwin.grow h₃.heap)

theorem upholding_duplicateRecord (hs : source < run.heap.size)
    (hshape : run.heap.shape source = .record)
    (hd : ∃ e, s.registry.get? (run.heap.cls source) = some e ∧
      p.Describes (run.heap.cls source) e) :
    s.upholding.Maintains (makeCopy register source (s.backend.allocate p) fun target =>
      s.copyFields nested source target p) run fun copy run' => Twin run'.heap source copy := by
  obtain ⟨e, he, hde⟩ := hd
  refine upholding_makeCopy hs (.of fun hl => ?_) fun target run₁ h₁ ht hc => ?_
  · exact Backend.creates_allocate hp.backend hp.registry hl.heap he hde
      (Or.inl (hl.heap.concrete_of_shape hs he hshape))
  · have hs₁ := h₁.heap.cls_eq source hs
    exact upholding_copyFields hp hn ⟨Nat.lt_of_lt_of_le hs h₁.heap.size_le, ht, hc, e,
      hs₁ ▸ he, hs₁ ▸ hde⟩

theorem upholding_duplicateSlots (hs : source < run.heap.size) :
    s.upholding.Maintains (s.duplicateSlots nested source) run fun copy run' =>
      Twin run'.heap source copy := by
  refine maintains_duplicateSlots fun items hb hl => ?_
  obtain ⟨e, he, hf⟩ := hl.heap.exists_entry hs
  rw [hb] at hf
  obtain ⟨c, hk⟩ := Registry.Entry.fits_slots.mp hf
  have hc := hl.heap.closed source
  rw [hb] at hc
  refine upholding_makeCopy hs (.of fun hl => ?_) (fun target run₁ h₁ _ _ => ?_) hl
  · exact Backend.creates_allocateSlots hp.backend hl.heap he hk _
  · exact upholding_cloneElements hn fun v hv => (hc v hv).grow h₁.heap

theorem upholding_duplicateContainer (hs : source < run.heap.size) :
    s.upholding.Maintains (s.duplicateContainer nested source) run fun copy run' =>
      Twin run'.heap source copy := by
  refine maintains_duplicateContainer (upholding_plan _)
    fun p run₀ contents h₀ hpost hbody hl₀ => ?_
  obtain ⟨⟨e, he, hd⟩, hmem⟩ := hpost
  have hheap : run₀.heap = run.heap := congrArg Memory.heap hmem
  rw [← hheap] at hs he hd
  have hfit := hl₀.heap.fits hs he
  rw [hbody, Registry.Entry.fits_container] at hfit
  have hc := hl₀.heap.closed source
  rw [hbody] at hc
  refine upholding_makeCopy hs (.of fun hl => ?_) (fun target run₁ h₁ ht hcls => ?_) hl₀
  · exact Backend.creates_allocate hp.backend hp.registry hl.heap he hd (Or.inr ⟨_, hfit⟩)
  · refine (maintains_cloneContents hn fun v hv => (hc v hv).grow h₁.heap).bind
      fun copies run₂ _ h₂ hcopies => ?_
    refine upholding_touching (Backend.writesTo_setContents p target copies) fun hl₂ =>
      Backend.ends_update_wellFormed fun w hw => ?_
    refine wellFormed_setContents hl₂.heap (hcopies.values fun _ _ hr => hr.2.has) ?_
      (Backend.ok_of_mapError hw)
    intro old hold
    -- The copy is of the source's class, so what it holds is of the same kind.
    have hcls₂ : run₂.heap.cls target = run₀.heap.cls source := by
      rw [h₂.heap.cls_eq target ht, hcls, h₁.heap.cls_eq source hs]
    have hfo := hl₂.heap.fits (Nat.lt_of_lt_of_le ht h₂.heap.size_le) (hcls₂ ▸ he)
    rw [Heap.body_of_contents? hold, Registry.Entry.fits_container, hfit] at hfo
    rw [hcopies.kind_eq]
    exact ClassDecl.Kind.container.inj hfo

theorem upholding_duplicate (hs : source < run.heap.size)
    (hd : ∃ e, s.registry.get? (run.heap.cls source) = some e ∧
      p.Describes (run.heap.cls source) e) :
    s.upholding.Maintains (s.duplicate nested source p) run fun copy run' =>
      Twin run'.heap source copy := by
  refine maintains_duplicate (fun _ => ?_) (fun _ => upholding_duplicateSlots hp hn hs)
    (fun _ => upholding_duplicateContainer hp hn hs)
    fun hshape => upholding_duplicateRecord hp hn hs hshape hd
  exact upholding_makeCopy hs (fun hl => Backend.creates_duplicatePacked hp.backend hl.heap hs)
    fun _ _ _ _ _ => maintains_pure trivial

/-! ## The rules -/

theorem upholding_cloneNew (hs : source < run.heap.size) :
    s.upholding.Maintains (s.cloneNew nested source) run fun copy run' =>
      run'.heap.Has (.ref source) ∧ Replaces run'.heap (.ref source) copy := by
  intro hl
  have has : ∀ run', Finds s (· = .containers) run run' → run'.heap.Has (.ref source) := by
    rintro run' hf o ho
    cases ho
    rw [hf.heap]
    exact hs
  have placed : ∀ copy run', Lawful s run' → Twin run'.heap source copy →
      run'.heap.Has (.ref source) ∧ Replaces run'.heap (.ref source) copy := by
    intro copy run' hl' ht
    refine ⟨fun o ho => ?_, hl'.replaces ht⟩
    cases ho
    exact ht.elim fun _ h => h.2.1
  refine maintains_cloneNewBy ((hl.tame hp).toBuiltIn.employs source) (fun _ hf => hl.step_finds hf)
    (fun _ run' hf => ⟨has run' hf, has_null _, fun _ => rfl⟩)
    (fun _ run' hf => ⟨has run' hf, Replaces.refl (has run' hf)⟩) ?_ ?_ ?_ hl
  · rintro - _ run' rfl hf
    rw [← hf.heap] at hs
    refine (maintains_delegateBy (upholding_duplicateContainer hp hn hs)
      fun copy run₂ ht hl₂ => ?_).mono fun copy run₂ hl₂ _ => placed copy run₂ hl₂
    exact ends_settle (fun _ => ⟨hl₂.step, ht⟩) fun _ => ⟨hl₂.step_register ht, ht⟩
  · intro _ p method run' _ hplan hon hm
    obtain ⟨e, he, hd⟩ := describes_of_planOf hl.plans hplan
    rw [hd.selfCopy_eq, hp.methods hon _ e he] at hm
    cases hm
  · intro _ p run' hf hplan
    have hd := describes_of_planOf hl.plans hplan
    rw [← hf.heap] at hs hd
    exact (upholding_duplicate hp hn hs hd).mono fun copy run₂ hl₂ _ => placed copy run₂ hl₂

omit hn in
/-- A clone keeps everything in order, however deep it goes. -/
theorem clones_upholding (depth : Nat) : s.upholding.Clones (cloneValue s depth) :=
  clones_cloneValue (ι := Unit) (I := fun _ => s.upholding)
    (fun _ _ _ hv _ => ⟨hv, Replaces.refl hv⟩)
    (fun _ _ o w hl hv hc => ⟨hv, hl.replaces (hl.copies o w hc)⟩)
    (fun _ _ hl => hl.step)
    (fun _ hn _ _ o hv _ => upholding_cloneNew hp (hn ()) (hv o rfl)) depth ()

/-! ## Whole operations -/

omit hp hn in
theorem upholding_begin :
    s.upholding.Maintains begin run fun _ run' => run' = { run with copies := {} } :=
  fun hl => ⟨hl.step_begin, rfl⟩

omit hn in
theorem upholding_clone {v : Value} (hv : run.heap.Has v) :
    s.upholding.Maintains (s.clone v) run fun copy run' => Replaces run'.heap v copy := by
  refine upholding_begin.bind fun _ run₁ _ _ hbegun => ?_
  have hv₁ : run₁.heap.Has v := hbegun ▸ hv
  exact maintains_heap ((clones_upholding hp _ run₁ v hv₁).mono fun _ _ _ _ hr => hr.2)

omit hn in
theorem upholding_copyInto {source target : ObjectId} (hs : source < run.heap.size)
    (ht : target < run.heap.size) :
    s.upholding.Maintains (s.copyInto source target) run fun _ _ => True := by
  refine upholding_begin.bind fun _ run₁ _ _ hbegun => ?_
  subst hbegun
  refine maintains_heap ?_
  split
  · exact maintains_pure trivial
  · split
    · exact maintains_fail _
    · rename_i hc
      split
      · exact maintains_fail _
      · refine (upholding_plan _).bind fun p run₁ hl₁ h₁ hpost => ?_
        obtain ⟨hd, hmem⟩ := hpost
        have hheap : run₁.heap = run.heap := congrArg Memory.heap hmem
        have hcls : run₁.heap.cls target = run₁.heap.cls source := by
          rw [hheap]
          exact (Decidable.not_not.mp hc).symm
        have h₂ := hl₁.step_register (o := source) (v := .ref target)
          ⟨target, rfl, hheap ▸ hs, hheap ▸ ht, hcls⟩
        rw [← hheap] at hs ht hd
        have hm : s.Mates { run₁ with copies := run₁.copies.put source (.ref target) }
            source target p := ⟨hs, ht, hcls, hd⟩
        intro _
        rw [ends_bind, ends_register]
        exact (upholding_copyFields hp (clones_upholding hp _) hm).sequel hl₁ h₂

end Nested

/-! ## Copies that go one level deep -/

theorem upholding_writeElements (index : Nat) {vs : List Value}
    (hv : ∀ v ∈ vs, run.heap.Has v) :
    s.upholding.Maintains (s.writeElements target index vs) run fun _ _ => True := by
  induction vs generalizing run index with
  | nil => exact maintains_pure trivial
  | cons v vs ih =>
    refine (upholding_touching (s.backend.writesTo_writeElement target index v) fun hl =>
      Backend.wellFormed_writeElement hl.heap index (hv v List.mem_cons_self)).bind
        fun _ run₁ _ h₁ _ => ?_
    exact ih (index + 1) fun w hw => (hv w (List.mem_cons_of_mem _ hw)).grow h₁.heap

section Shallow

variable (hp : s.Plain)
include hp

theorem upholding_carryFields (hm : s.Mates run source target p) (bulk : Bool)
    {fs : List PlannedField} (hf : ∀ f ∈ fs, f ∈ p.fields) :
    s.upholding.Maintains (s.carryFields source target bulk fs) run fun _ _ => True := by
  induction fs generalizing run with
  | nil => exact maintains_pure trivial
  | cons f fs ih =>
    obtain ⟨hfs, hft⟩ := hm.field (hf f List.mem_cons_self)
    have htail : ∀ g ∈ fs, g ∈ p.fields := fun g hg => hf g (List.mem_cons_of_mem _ hg)
    unfold carryFields
    split
    · exact ih hm htail
    · refine (upholding_touching (s.backend.writesTo_carryField f source target) fun hl =>
        Backend.wellFormed_carryField hp.backend hp.registry hl.heap hm.source_lt hfs hft).bind
          fun _ run₁ _ h₁ _ => ?_
      exact ih (hm.step h₁) htail

theorem upholding_shallowSlots (hs : source < run.heap.size) :
    s.upholding.Maintains (s.shallowSlots source) run fun _ _ => True := by
  refine (maintains_slotItems source).bind fun items run₁ hl _ hpost => ?_
  obtain ⟨rfl, hb⟩ := hpost
  obtain ⟨e, he, hf⟩ := hl.heap.exists_entry hs
  rw [hb] at hf
  obtain ⟨c, hk⟩ := Registry.Entry.fits_slots.mp hf
  have hc := hl.heap.closed source
  rw [hb] at hc
  have hmake : s.Brings run₁ (run₁.heap.cls source)
      (s.backend.allocateSlots (run₁.heap.cls source) items.length) := .of fun hl =>
    Backend.creates_allocateSlots hp.backend hl.heap he hk _
  refine maintains_heap (hmake.upholding.bind fun o run₂ _ h₂ _ => ?_)
  refine (upholding_writeElements 0 fun v hv => (hc v hv).grow h₂.heap).bind fun _ _ _ _ _ => ?_
  exact maintains_pure trivial

theorem upholding_shallowContainer (hs : source < run.heap.size)
    (hshape : run.heap.shape source = .container) :
    s.upholding.Maintains (s.shallowContainer source) run fun _ _ => True := by
  refine maintains_heap ((upholding_plan _).bind fun p run₀ _ h₀ hpost => ?_)
  obtain ⟨⟨e, he, hd⟩, hmem⟩ := hpost
  have hheap : run₀.heap = run.heap := congrArg Memory.heap hmem
  rw [← hheap] at hs he hd hshape
  have hmake : s.Brings run₀ (run₀.heap.cls source) (s.backend.allocate p) := .of fun hl =>
    Backend.creates_allocate hp.backend hp.registry hl.heap he hd
      (Or.inr (hl.heap.container_of_shape hs he hshape))
  refine hmake.upholding.bind fun o run₁ hl₁ h₁ hpost => ?_
  obtain ⟨ho, hco⟩ := hpost
  refine maintains_heap ?_
  split
  · exact maintains_fail _
  · rename_i contents hcont
    have hbody := Heap.body_of_contents? hcont
    have he₁ := (h₁.heap.cls_eq source hs).symm ▸ he
    have hc := hl₁.heap.closed source
    have hfit := hl₁.heap.fits (Nat.lt_of_lt_of_le hs h₁.heap.size_le) he₁
    rw [hbody] at hc hfit
    refine Maintains.bind (upholding_touching (Backend.writesTo_setContents p o contents) fun hl =>
      Backend.ends_update_wellFormed fun w hw => ?_) fun _ _ _ _ _ => maintains_pure trivial
    refine wellFormed_setContents hl.heap hc ?_ (Backend.ok_of_mapError hw)
    intro old hold
    have hfo := hl.heap.fits ho (hco ▸ he)
    rw [Heap.body_of_contents? hold, Registry.Entry.fits_container] at hfo
    rw [Registry.Entry.fits_container, hfo] at hfit
    exact (ClassDecl.Kind.container.inj hfit).symm

theorem upholding_shallowRecord (hs : source < run.heap.size)
    (hshape : run.heap.shape source = .record) :
    s.upholding.Maintains (s.shallowRecord source) run fun _ _ => True := by
  refine maintains_heap ((upholding_plan _).bind fun p run₀ _ h₀ hpost => ?_)
  obtain ⟨⟨e, he, hd⟩, hmem⟩ := hpost
  have hheap : run₀.heap = run.heap := congrArg Memory.heap hmem
  rw [← hheap] at hs he hd hshape
  have hmake : s.Brings run₀ (run₀.heap.cls source) (s.backend.allocate p) := .of fun hl =>
    Backend.creates_allocate hp.backend hp.registry hl.heap he hd
      (Or.inl (hl.heap.concrete_of_shape hs he hshape))
  refine hmake.upholding.bind fun o run₁ _ h₁ hpost => ?_
  obtain ⟨ho, hco⟩ := hpost
  have hcls := h₁.heap.cls_eq source hs
  have hm : s.Mates run₁ source o p :=
    ⟨Nat.lt_of_lt_of_le hs h₁.heap.size_le, ho, hco.trans hcls.symm, e, hcls ▸ he, hcls ▸ hd⟩
  refine (upholding_copyBlock hm).bind fun bulk run₂ _ h₂ _ => ?_
  refine (upholding_carryFields hp (hm.step h₂) bulk fun f hf => hf).bind fun _ _ _ _ _ => ?_
  exact maintains_pure trivial

theorem upholding_shallow (hs : source < run.heap.size) :
    s.upholding.Maintains (s.shallow source) run fun _ _ => True := by
  refine maintains_heap ?_
  split
  · refine (Brings.upholding fun hl => Backend.creates_duplicatePacked hp.backend hl.heap hs).mono
      fun _ _ _ _ _ => trivial
  · exact upholding_shallowSlots hp hs
  · rename_i hshape
    exact upholding_shallowContainer hp hs hshape
  · rename_i hshape
    exact upholding_shallowRecord hp hs hshape

end Shallow

end Setting

end DeepCopy
