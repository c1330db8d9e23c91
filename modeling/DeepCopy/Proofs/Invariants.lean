-- Invariants of a clone. An invariant says which runs are in order, how far a later
-- point of a run may be from an earlier one, which values may be cloned and what
-- comes out for them. The parts of the traversal are gone through here for any
-- invariant: what has to be shown of it is only what single steps do.
import DeepCopy.Proofs.Contents
import DeepCopy.Proofs.Decisions
import DeepCopy.Proofs.Effects
import DeepCopy.Proofs.Rebuilding

namespace DeepCopy

open CloneM

/-! ## Writes -/

/-- A step of a backend that writes to an object or fails before that, and counts nothing. -/
def CopyM.WritesTo {α : Type} (target : ObjectId) (x : CopyM α) : Prop :=
  ∀ m, Ends x m (fun _ m' => Touched target m.heap m'.heap ∧ m'.tally = m.tally)
    (fun e m' => e ≠ .tooDeep ∧ m' = m)

theorem CopyM.WritesTo.of {α : Type} {target : ObjectId} {x : CopyM α}
    (hx : ∀ m, Ends x m (fun _ m' => Touched target m.heap m'.heap)
      (fun e m' => e ≠ .tooDeep ∧ m' = m))
    (ht : ∀ m, Yields x m fun _ m' => m'.tally = m.tally) : x.WritesTo target :=
  fun m => ends_mono (ends_and (hx m) (ht m)) (fun _ _ h => h) fun _ _ h => h.1

namespace Backend

variable (b : Backend)

theorem tally_update (change : Heap → Except CloneError Write) (m : Memory) :
    Yields (CopyM.update change) m fun _ m' => m'.tally = m.tally := by
  rw [Yields, ends_copy_update]
  split
  · rfl
  · trivial

theorem writesTo_resetField (f : PlannedField) (target : ObjectId) :
    (b.resetField f target).WritesTo target :=
  .of (fun _ => b.ends_resetField f target) fun m => by cases b <;> exact tally_update _ m

theorem writesTo_copyPrimitive (f : PlannedField) (source target : ObjectId) :
    (b.copyPrimitive f source target).WritesTo target :=
  .of (fun _ => b.ends_copyPrimitive f source target) fun m => by
    cases b <;> exact tally_update _ m

theorem writesTo_writeReference (f : PlannedField) (target : ObjectId) (v : Value) :
    (b.writeReference f target v).WritesTo target :=
  .of (fun _ => b.ends_writeReference f target v) fun m => by
    cases b <;> exact tally_update _ m

theorem writesTo_writeElement (target : ObjectId) (index : Nat) (v : Value) :
    (b.writeElement target index v).WritesTo target :=
  .of (fun _ => b.ends_writeElement target index v) fun m => by
    cases b <;> exact tally_update _ m

theorem writesTo_carryField (f : PlannedField) (source target : ObjectId) :
    (b.copyField f source target none).WritesTo target := by
  refine .of (fun _ => b.ends_copyField f source target none) fun m => ?_
  by_cases hprim : f.type.category = .primitive
  · rw [b.copyField_primitive hprim]
    exact ends_mono (b.writesTo_copyPrimitive f source target m) (fun _ _ h => h.2)
      fun _ _ _ => trivial
  · rw [b.copyField_none hprim, Yields, ends_bind]
    refine ends_mono (b.ends_readField f source) ?_ fun _ _ _ => trivial
    rintro v m' rfl
    exact ends_mono (b.writesTo_writeReference f target v m') (fun _ _ h => h.2)
      fun _ _ _ => trivial

theorem writesTo_setContents (p : Plan) (target : ObjectId) (c : Container) :
    (CopyM.update fun h => (h.setContents target c).mapError
      (Setting.contentsFault p target)).WritesTo target :=
  .of (fun _ => ends_setContents p target c) (tally_update _)

theorem writesTo_copyBlock (source target : ObjectId) :
    (b.copyBlock source target).WritesTo target := by
  refine .of (fun _ => ends_mono (b.ends_copyBlock source target) (fun _ _ h => h)
    fun _ _ h => h.elim) fun m => ?_
  cases b with
  | fast =>
    simp only [Yields, copyBlock]
    split
    · rfl
    · rw [ends_bind, ends_get]
      split <;> rfl
  | portable r => rfl

/-- What a field is read as stands in its object. -/
theorem ends_readField_reads (f : PlannedField) (o : ObjectId) (m : Memory) :
    Ends (b.readField f o) m
      (fun v m' => m' = m ∧ f.toField.readFrom (m.heap.body o) = .ok v)
      (fun e m' => e ≠ .tooDeep ∧ m' = m) := by
  obtain ⟨r, hover⟩ := b.exists_over
  exact ends_mono (ends_and (b.ends_readField f o) (yields_readField hover))
    (fun _ _ h => ⟨h.1, h.2.1⟩) fun _ _ h => h.1

end Backend

/-! ## Invariants -/

/-- What is kept to along a run of a clone. -/
structure Invariant where
  /-- The run is in order. -/
  Good : Run → Prop
  /-- A later point of a run, as seen from an earlier one. -/
  Later : Run → Run → Prop
  /-- What holds where the run is broken off. -/
  Stopped : Run → Stop → Run → Prop
  /-- A value that may be cloned. -/
  Allows : Run → Value → Prop
  /-- What comes out for a value. -/
  Gives : Run → Value → Value → Prop
  refl : ∀ {run}, Good run → Later run run
  trans : ∀ {run₁ run₂ run₃}, Later run₁ run₂ → Later run₂ run₃ → Later run₁ run₃
  good : ∀ {run run'}, Good run → Later run run' → Good run'
  stopped : ∀ {run₁ run₂ run₃ e}, Later run₁ run₂ → Stopped run₂ e run₃ → Stopped run₁ e run₃
  failed : ∀ {run e}, Good run → e ≠ .tooDeep → Stopped run e run
  blamed : ∀ {run run' e e'}, Stopped run (.failed e) run' → Stopped run (.failed e') run'
  allows : ∀ {run run' v}, Later run run' → Allows run v → Allows run' v
  gives : ∀ {run run' v w}, Later run run' → Gives run v w → Gives run' v w

namespace Invariant

/-- From a run that is in order the invariant is kept, however the computation ends, and if it ends
well a condition holds. -/
def Maintains {α : Type} (I : Invariant) (x : CloneM α) (run : Run) (Q : α → Run → Prop) : Prop :=
  I.Good run → Ends x run (fun a run' => I.Later run run' ∧ Q a run') (I.Stopped run)

/-- Nested values are cloned by the invariant. -/
def Clones (I : Invariant) (nested : Value → CloneM Value) : Prop :=
  ∀ run v, I.Allows run v → I.Maintains (nested v) run fun w run' => I.Gives run' v w

/-- The invariant is kept when an object is written to, whatever is written. -/
def Receives (I : Invariant) (target : ObjectId) : Prop :=
  ∀ {α : Type} {x : CopyM α}, x.WritesTo target →
    ∀ run, I.Maintains (onMemory x) run fun _ _ => True

/-- As long as the invariant is kept, these values stand in fields of an object that are
followed. -/
def Follows (I : Invariant) (s : Setting) (source : ObjectId)
    (Reads : PlannedField → Value → Prop) : Prop :=
  ∀ f v, Reads f v → s.policy.resets f.marks = false ∧ f.type.category ≠ .primitive ∧
    ∀ run, I.Good run → f.toField.readFrom (run.heap.body source) = .ok v

theorem follows_none (I : Invariant) (s : Setting) (source : ObjectId) :
    I.Follows s source fun _ _ => False := fun _ _ h => h.elim

variable {α β : Type} {I J : Invariant} {run : Run} {Q : α → Run → Prop}

theorem maintains_pure {a : α} (h : Q a run) : I.Maintains (pure a) run Q :=
  fun hg => ⟨I.refl hg, h⟩

theorem maintains_fail (e : CloneError) : I.Maintains (fail e : CloneM α) run Q :=
  fun hg => I.failed hg (by simp)

theorem maintains_heap {f : Heap → CloneM α} (hf : I.Maintains (f run.heap) run Q) :
    I.Maintains (heap >>= f) run Q := hf

theorem Maintains.bind {x : CloneM β} {f : β → CloneM α} {P : β → Run → Prop}
    (hx : I.Maintains x run P)
    (hf : ∀ b run', I.Good run' → I.Later run run' → P b run' → I.Maintains (f b) run' Q) :
    I.Maintains (x >>= f) run Q := by
  intro hg
  rw [ends_bind]
  refine ends_mono (hx hg) ?_ fun _ _ h => h
  rintro b run' ⟨h, hp⟩
  have hg' := I.good hg h
  exact ends_mono (hf b run' hg' h hp hg') (fun _ _ h' => ⟨I.trans h h'.1, h'.2⟩)
    fun _ _ h' => I.stopped h h'

theorem Maintains.map {x : CloneM β} {f : β → α} (hx : I.Maintains x run fun b => Q (f b)) :
    I.Maintains (f <$> x) run Q := fun hg => ends_map.mpr (hx hg)

theorem Maintains.mono {x : CloneM α} {Q' : α → Run → Prop} (hx : I.Maintains x run Q)
    (h : ∀ a run', I.Good run' → I.Later run run' → Q a run' → Q' a run') : I.Maintains x run Q' :=
  fun hg => ends_mono (hx hg)
    (fun a run' hq => ⟨hq.1, h a run' (I.good hg hq.1) hq.1 hq.2⟩) fun _ _ h => h

/-! ## Filling copies -/

section Contents

variable {nested : Value → CloneM Value} (hn : I.Clones nested)
include hn

theorem maintains_cloneAll {vs : List Value} (hv : ∀ v ∈ vs, I.Allows run v) :
    I.Maintains (Setting.cloneAll nested vs) run fun ws run' =>
      List.Forall₂ (I.Gives run') vs ws := by
  induction vs generalizing run with
  | nil => exact maintains_pure .nil
  | cons v vs ih =>
    refine (hn run v (hv v List.mem_cons_self)).bind fun w run₁ _ h₁ hw => ?_
    refine (ih fun v hv' => I.allows h₁ (hv v (List.mem_cons_of_mem _ hv'))).bind
      fun ws run₂ _ h₂ hws => ?_
    exact maintains_pure (.cons (I.gives h₂ hw) hws)

theorem maintains_cloneEntries {entries : Assoc Key Value}
    (hv : Entries.All (I.Allows run) entries) :
    I.Maintains (Setting.cloneEntries nested entries) run fun copies run' =>
      List.Forall₂ (fun e e' => I.Gives run' e.1.value e'.1 ∧ I.Gives run' e.2 e'.2)
        entries copies := by
  induction entries generalizing run with
  | nil => exact maintains_pure .nil
  | cons e entries ih =>
    obtain ⟨hkey, hval⟩ := hv e List.mem_cons_self
    refine (hn run e.1.value hkey).bind fun key run₁ _ h₁ hk => ?_
    refine (hn run₁ e.2 (I.allows h₁ hval)).bind fun value run₂ _ h₂ hw => ?_
    have h := I.trans h₁ h₂
    have hv' : Entries.All (I.Allows run₂) entries := fun e' he' =>
      (hv e' (List.mem_cons_of_mem _ he')).imp (I.allows h) (I.allows h)
    refine (ih hv').bind fun copies run₃ _ h₃ hcopies => ?_
    exact maintains_pure (.cons ⟨I.gives (I.trans h₂ h₃) hk, I.gives h₃ hw⟩ hcopies)

theorem maintains_cloneContents {c : Container} (hv : ∀ v ∈ c.values, I.Allows run v) :
    I.Maintains (Setting.cloneContents nested c) run fun c' run' =>
      c.Rebuilt (I.Gives run') c' := by
  cases c with
  | list items => exact ((maintains_cloneAll hn hv).mono fun ws _ _ _ h => ⟨ws, h, rfl⟩).map
  | linked items => exact ((maintains_cloneAll hn hv).mono fun ws _ _ _ h => ⟨ws, h, rfl⟩).map
  | hashSet keys => exact ((maintains_cloneAll hn hv).mono fun ws _ _ _ h => ⟨ws, h, rfl⟩).map
  | hashMap entries =>
    exact ((maintains_cloneEntries hn (Entries.all_of_values hv)).mono
      fun es _ _ _ h => ⟨es, h, rfl⟩).map
  | treeMap entries =>
    exact ((maintains_cloneEntries hn (Entries.all_of_values hv)).mono
      fun es _ _ _ h => ⟨es, h, rfl⟩).map
  | calendar moment => exact maintains_pure rfl

variable {s : Setting} {source target : ObjectId}

/-- Elements are cloned into an array, if what comes out for them may be written there. -/
theorem maintains_cloneElements
    (hw : ∀ run index v w, I.Gives run v w →
      I.Maintains (onMemory (s.backend.writeElement target index w)) run fun _ _ => True)
    {vs : List Value} (hv : ∀ v ∈ vs, I.Allows run v) (index : Nat) :
    I.Maintains (s.cloneElements nested target index vs) run fun _ run' =>
      ∀ v ∈ vs, ∃ w, I.Gives run' v w := by
  induction vs generalizing run index with
  | nil => exact maintains_pure (by simp)
  | cons v vs ih =>
    refine (hn run v (hv v List.mem_cons_self)).bind fun w run₁ _ h₁ hgives => ?_
    refine (hw run₁ index v w hgives).bind fun _ run₂ _ h₂ _ => ?_
    have h := I.trans h₁ h₂
    refine (ih (fun v hv' => I.allows h (hv v (List.mem_cons_of_mem _ hv'))) (index + 1)).mono ?_
    intro _ run₃ _ h₃ hrest v' hv'
    rcases List.mem_cons.mp hv' with rfl | hv'
    · exact ⟨w, I.gives (I.trans h₂ h₃) hgives⟩
    · exact hrest v' hv'

/-- A field is cloned, if each of the steps may be made that this can take. -/
theorem maintains_copyField {bulk : Bool} {f : PlannedField} {D : Run → Prop}
    (reset : s.policy.resets f.marks = true →
      I.Maintains (onMemory (s.backend.resetField f target)) run fun _ => D)
    (carried : s.policy.resets f.marks = false → f.type.category = .primitive → bulk = true →
      D run)
    (carry : s.policy.resets f.marks = false → f.type.category = .primitive → bulk = false →
      I.Maintains (onMemory (s.backend.copyPrimitive f source target)) run fun _ => D)
    (clone : s.policy.resets f.marks = false → f.type.category ≠ .primitive →
      I.Maintains (onMemory (s.backend.readField f source)) run fun v run₁ => I.Allows run₁ v ∧
        ∀ w run₂, I.Later run₁ run₂ → I.Gives run₂ v w →
          I.Maintains (onMemory (s.backend.writeReference f target w)) run₂ fun _ => D) :
    I.Maintains (s.copyField nested source target bulk f) run fun _ => D := by
  unfold Setting.copyField
  split
  · rename_i hreset
    exact reset hreset
  · rename_i hreset
    have hreset : s.policy.resets f.marks = false := by simpa using hreset
    split
    · rename_i hprim
      split
      · rename_i hbulk
        exact maintains_pure (carried hreset hprim hbulk)
      · rename_i hbulk
        exact carry hreset hprim (by simpa using hbulk)
    · rename_i hprim
      refine (clone hreset hprim).bind fun v run₁ _ _ hread => ?_
      refine (hn run₁ v hread.1).bind fun w run₂ _ h₂ hw => ?_
      rw [Backend.copyField_some _ hprim]
      exact hread.2 w run₂ h₂ hw

omit hn in
/-- Fields are cloned one after another. What is done for a field is not undone by the others. -/
theorem maintains_copyFieldsFrom {bulk : Bool} {fs : List PlannedField}
    {D : PlannedField → Run → Prop}
    (hstay : ∀ f ∈ fs, ∀ run₁ run₂, I.Later run₁ run₂ → D f run₁ → D f run₂)
    (hf : ∀ f ∈ fs, ∀ run', I.Later run run' →
      I.Maintains (s.copyField nested source target bulk f) run' fun _ => D f) :
    I.Maintains (s.copyFieldsFrom nested source target bulk fs) run fun _ run' =>
      ∀ f ∈ fs, D f run' := by
  induction fs generalizing run with
  | nil => exact maintains_pure (by simp)
  | cons f fs ih =>
    intro hg
    refine Maintains.bind (hf f List.mem_cons_self run (I.refl hg)) (fun _ run₁ _ h₁ hdone => ?_) hg
    refine (ih (fun g hg => hstay g (List.mem_cons_of_mem _ hg)) fun g hg run' h' =>
      hf g (List.mem_cons_of_mem _ hg) run' (I.trans h₁ h')).mono ?_
    intro _ run₂ _ h₂ hrest g hmem
    rcases List.mem_cons.mp hmem with rfl | hmem
    · exact hstay g List.mem_cons_self run₁ run₂ h₂ hdone
    · exact hrest g hmem

section Fields

variable {Reads : PlannedField → Value → Prop} (hreads : I.Follows s source Reads)
  (hr : I.Receives target)
include hreads hr

/-- A field is cloned into an object that may be written to, if what it holds may be cloned.
Something comes out for what is read there at all times. -/
theorem maintains_copyField_of_receives (bulk : Bool) (f : PlannedField)
    (hread : ∀ v, I.Good run → s.policy.resets f.marks = false → f.type.category ≠ .primitive →
      f.toField.readFrom (run.heap.body source) = .ok v → I.Allows run v) :
    I.Maintains (s.copyField nested source target bulk f) run fun _ run' =>
      ∀ v, Reads f v → ∃ w, I.Gives run' v w := by
  refine maintains_copyField hn ?_ ?_ ?_ ?_
  · intro hreset
    refine (hr (s.backend.writesTo_resetField f target) run).mono fun _ _ _ _ _ v hv => ?_
    rw [(hreads f v hv).1] at hreset
    cases hreset
  · intro _ hprim _ v hv
    exact absurd hprim (hreads f v hv).2.1
  · intro _ hprim _
    refine (hr (s.backend.writesTo_copyPrimitive f source target) run).mono fun _ _ _ _ _ v hv => ?_
    exact absurd hprim (hreads f v hv).2.1
  · intro hreset hprim hg
    rw [ends_onMemory]
    refine ends_mono (s.backend.ends_readField_reads f source run.memory) ?_ ?_
    · rintro v _ ⟨rfl, hv⟩
      refine ⟨I.refl hg, hread v hg hreset hprim hv, fun w run₁ _ hw => ?_⟩
      refine (hr (s.backend.writesTo_writeReference f target w) run₁).mono
        fun _ run₂ _ h₂ _ v' hv' => ⟨w, ?_⟩
      cases ((hreads f v' hv').2.2 run hg).symm.trans hv
      exact I.gives h₂ hw
    · rintro e _ ⟨he, rfl⟩
      exact I.failed hg he

/-- An instance is filled from another that holds nothing but what may be cloned. -/
theorem maintains_copyFields {p : Plan}
    (hread : ∀ f ∈ p.fields, ∀ run v, I.Good run → s.policy.resets f.marks = false →
      f.type.category ≠ .primitive → f.toField.readFrom (run.heap.body source) = .ok v →
      I.Allows run v) :
    I.Maintains (s.copyFields nested source target p) run fun _ run' =>
      ∀ f ∈ p.fields, ∀ v, Reads f v → ∃ w, I.Gives run' v w := by
  refine (hr (s.backend.writesTo_copyBlock source target) run).bind fun bulk run₁ _ _ _ => ?_
  refine maintains_copyFieldsFrom ?_ fun f hf run₂ _ =>
    maintains_copyField_of_receives hn hreads hr bulk f (hread f hf run₂)
  intro f _ run₂ run₃ h hdone v hv
  obtain ⟨w, hw⟩ := hdone v hv
  exact ⟨w, I.gives h hw⟩

end Fields

end Contents

/-! ## Duplicates -/

end Invariant

/-- Makes a copy of an object, lets it stand for the object, and fills it. -/
def Setting.makeCopy (enter : ObjectId → Value → CloneM Unit) (source : ObjectId)
    (make : CopyM ObjectId) (fill : ObjectId → CloneM Unit) : CloneM Value := do
  let target ← onMemory make
  enter source (.ref target)
  fill target
  pure (.ref target)

namespace Invariant

section Duplicates

variable {I J : Invariant} {run : Run}

variable {s : Setting} {nested : Value → CloneM Value} {enter : ObjectId → Value → CloneM Unit}
  {source : ObjectId} {D : Value → Run → Prop}

theorem maintains_slotItems (source : ObjectId) :
    I.Maintains (s.slotItems source) run fun items run' =>
      run' = run ∧ run.heap.body source = .slots items := by
  unfold Setting.slotItems
  refine maintains_heap ?_
  split
  · rename_i items hx
    exact maintains_pure ⟨rfl, hx⟩
  · exact maintains_fail _

theorem maintains_duplicateSlots
    (h : ∀ items, run.heap.body source = .slots items →
      I.Maintains (Setting.makeCopy enter source
        (s.backend.allocateSlots (run.heap.cls source) items.length)
        fun target => s.cloneElements nested target 0 items) run D) :
    I.Maintains (s.duplicateSlotsBy nested enter source) run D := by
  refine (maintains_slotItems source).bind fun items run₁ _ _ hpost => ?_
  obtain ⟨rfl, hx⟩ := hpost
  exact maintains_heap (h items hx)

theorem maintains_duplicateContainer {P : Plan → Run → Prop}
    (hplan : I.Maintains (s.plan (run.heap.cls source)) run P)
    (h : ∀ p run₁ contents, I.Later run run₁ → P p run₁ →
      run₁.heap.body source = .container contents →
      I.Maintains (Setting.makeCopy enter source (s.backend.allocate p) fun target => do
        let copies ← Setting.cloneContents nested contents
        Setting.setContents p target copies) run₁ D) :
    I.Maintains (s.duplicateContainerBy nested enter source) run D := by
  unfold Setting.duplicateContainerBy
  refine maintains_heap (hplan.bind fun p run₁ _ h₁ hp => maintains_heap ?_)
  split
  · exact maintains_fail _
  · rename_i contents hcontents
    have hcopy := h p run₁ contents h₁ hp (Heap.body_of_contents? hcontents)
    simp only [Setting.makeCopy, bind_assoc] at hcopy
    exact hcopy

theorem maintains_duplicate {p : Plan}
    (packed : run.heap.shape source = .packed →
      I.Maintains (Setting.makeCopy enter source (s.backend.duplicatePacked source)
        fun _ => pure ()) run D)
    (slots : run.heap.shape source = .slots →
      I.Maintains (s.duplicateSlotsBy nested enter source) run D)
    (container : run.heap.shape source = .container →
      I.Maintains (s.duplicateContainerBy nested enter source) run D)
    (record : run.heap.shape source = .record →
      I.Maintains (Setting.makeCopy enter source (s.backend.allocate p) fun target =>
        s.copyFields nested source target p) run D) :
    I.Maintains (s.duplicateBy nested enter source p) run D := by
  unfold Setting.duplicateBy
  refine maintains_heap ?_
  split
  · rename_i hx
    exact packed hx
  · rename_i hx
    exact slots hx
  · rename_i hx
    exact container hx
  · rename_i hx
    exact record hx

/-- What is needed to duplicate an object of which nothing counts but what it refers to. Each new
object is made by one of the steps `M`, and from where it stands for its source on, it may be
written to. -/
structure Copies (I J : Invariant) (s : Setting) (enter : ObjectId → Value → CloneM Unit)
    (source : ObjectId) (M : CopyM ObjectId → Prop) (D : Value → Run → Prop) (run : Run) :
    Prop where
  copy : ∀ make fill run₁, I.Later run run₁ → run₁.memory = run.memory →
    run₁.copies = run.copies → M make →
    (∀ target run₂, J.Receives target → J.Maintains (fill target) run₂ fun _ _ => True) →
    I.Maintains (Setting.makeCopy enter source make fill) run₁ D
  allows : ∀ run₁ v, I.Good run₁ ∨ J.Good run₁ →
    (∀ o, v = .ref o → .ref o ∈ (run₁.heap.body source).values) → ∀ run₂, J.Allows run₂ v
  plan : I.Maintains (s.plan (run.heap.cls source)) run fun p run₁ =>
    run₁.memory = run.memory ∧ run₁.copies = run.copies ∧ M (s.backend.allocate p)

section Copies

variable {M : CopyM ObjectId → Prop} (h : Copies I J s enter source M D run)
  (hn : J.Clones nested)
include h hn

theorem Copies.duplicateContainer :
    I.Maintains (s.duplicateContainerBy nested enter source) run D := by
  intro hg
  refine maintains_duplicateContainer h.plan (fun p run₁ contents h₁ hpost hx => ?_) hg
  obtain ⟨hmem, hcopies, hp⟩ := hpost
  refine h.copy _ _ run₁ h₁ hmem hcopies hp fun target run₂ hr => ?_
  refine (maintains_cloneContents hn fun v hv => ?_).bind fun copies run₃ _ _ _ =>
    hr (Backend.writesTo_setContents p target copies) run₃
  refine h.allows run₁ v (Or.inl (I.good hg h₁)) (fun o ho => ?_) run₂
  rw [hx, ← ho]
  exact hv

theorem Copies.duplicate {p : Plan} (hp : M (s.backend.allocate p))
    (hslots : ∀ length, M (s.backend.allocateSlots (run.heap.cls source) length))
    (hpacked : M (s.backend.duplicatePacked source)) :
    I.Maintains (s.duplicateBy nested enter source p) run D := by
  intro hg
  have now := I.refl hg
  refine maintains_duplicate (fun _ => ?_) (fun _ => ?_) (fun _ => ?_) (fun _ => ?_) hg
  · exact h.copy _ _ run now rfl rfl hpacked fun _ _ _ => maintains_pure trivial
  · refine maintains_duplicateSlots fun items hx => ?_
    refine h.copy _ _ run now rfl rfl (hslots items.length) fun target run₂ hr => ?_
    refine (maintains_cloneElements hn (fun run₃ index _ w _ =>
      hr (s.backend.writesTo_writeElement target index w) run₃) (fun v hv => ?_) 0).mono
        fun _ _ _ _ _ => trivial
    refine h.allows run v (Or.inl hg) (fun o ho => ?_) run₂
    rw [hx, ← ho]
    exact hv
  · exact h.duplicateContainer hn
  · refine h.copy _ _ run now rfl rfl hp fun target run₂ hr => ?_
    refine (maintains_copyFields hn (J.follows_none s source) hr
      fun f _ run₃ v hg₃ _ _ hv => ?_).mono fun _ _ _ _ _ => trivial
    exact h.allows run₃ v (Or.inr hg₃) (fun o ho => Field.mem_values_of_readFrom (ho ▸ hv)) run₃

end Copies

/-! ## The rules -/

theorem Maintains.sequel {α : Type} {x : CloneM α} {run' : Run} {Q : α → Run → Prop}
    (hx : I.Maintains x run' Q) (hg : I.Good run) (h : I.Later run run') :
    Ends x run' (fun a run'' => I.Later run run'' ∧ Q a run'') (I.Stopped run) :=
  ends_mono (hx (I.good hg h)) (fun _ _ h' => ⟨I.trans h h'.1, h'.2⟩) fun _ _ h' => I.stopped h h'

variable {A : Implementor → Prop} {look : ObjectId → CloneM (Option Value)}

/-- An object is left to an implementor, and what that returns is settled. -/
theorem maintains_delegateBy {i : Implementor} {P : Value → Run → Prop}
    (himplement : I.Maintains (s.implementBy nested enter i source) run P)
    (settle : ∀ copy run', P copy run' →
      I.Maintains (Setting.settleBy look enter source copy) run' D) :
    I.Maintains (s.delegateBy nested look enter i source) run D := by
  intro hg
  refine Setting.ends_delegateBy (himplement hg) ?_ fun _ _ _ h => I.blamed h
  rintro copy run' ⟨h, hp⟩
  exact (settle copy run' hp).sequel hg h

/-- What the rules decide about an object that has no copy is done. To decide is a step that the
invariant outlasts. -/
theorem maintains_cloneNewBy (he : s.Employs A run source)
    (hfinds : ∀ run', Finds s A run run' → I.Later run run')
    (nulled : s.fate run source = .nulled → ∀ run', Finds s A run run' → D .null run')
    (shared : s.fate run source = .shared → ∀ run', Finds s A run run' → D (.ref source) run')
    (delegated : s.fate run source = .copied → ∀ i run', A i → Finds s A run run' →
      I.Maintains (s.delegateBy nested look enter i source) run' D)
    (copiesItself : s.fate run source = .copied → ∀ p method run', Finds s A run run' →
      s.planOf run (run.heap.cls source) = .ok p → s.policy.flags.useSelfCopy = true →
      p.selfCopy = some method → I.Maintains (Setting.copyItself method source p) run' D)
    (duplicated : s.fate run source = .copied → ∀ p run', Finds s A run run' →
      s.planOf run (run.heap.cls source) = .ok p →
      I.Maintains (s.duplicateBy nested enter source p) run' D) :
    I.Maintains (s.cloneNewBy nested look enter source) run D := by
  intro hg
  refine Setting.ends_cloneNewBy he ?_ ?_ ?_ ?_ ?_ ?_
  · exact fun hf run' h => ⟨hfinds run' h, nulled hf run' h⟩
  · exact fun hf run' h => ⟨hfinds run' h, shared hf run' h⟩
  · exact fun hf i run' ha h => (delegated hf i run' ha h).sequel hg (hfinds run' h)
  · exact fun hf p method run' h hp hon hm =>
      (copiesItself hf p method run' h hp hon hm).sequel hg (hfinds run' h)
  · exact fun hf p run' h hp => (duplicated hf p run' h hp).sequel hg (hfinds run' h)
  · exact fun e run' h => I.stopped (hfinds run' h) (I.failed (I.good hg (hfinds run' h)) (by simp))

end Duplicates

/-- Values are cloned by invariants if objects are that have no copy, given that nested values are.
The proof is by induction on how deeply objects may be nested. -/
theorem clones_cloneValue {ι : Type} {I : ι → Invariant} {s : Setting}
    (other : ∀ i run v, (I i).Allows run v → v.object? = none → (I i).Gives run v v)
    (found : ∀ i run o w, (I i).Good run → (I i).Allows run (.ref o) →
      run.copies.find? o = some w → (I i).Gives run (.ref o) w)
    (tooDeep : ∀ i run, (I i).Good run → (I i).Stopped run .tooDeep run)
    (new : ∀ depth, (∀ i, (I i).Clones (cloneValue s depth)) → ∀ i run o,
      (I i).Allows run (.ref o) → run.copies.find? o = none →
      (I i).Maintains (s.cloneNew (cloneValue s depth) o) run fun w run' =>
        (I i).Gives run' (.ref o) w)
    (depth : Nat) (i : ι) : (I i).Clones (cloneValue s depth) := by
  have values : ∀ depth, (∀ i run o, (I i).Allows run (.ref o) → run.copies.find? o = none →
      (I i).Maintains (cloneValue s depth (.ref o)) run fun w run' => (I i).Gives run' (.ref o) w) →
      ∀ i, (I i).Clones (cloneValue s depth) := by
    intro depth hnew i run v hv
    cases v with
    | ref o =>
      cases hf : run.copies.find? o with
      | some w =>
        intro hg
        refine (ends_of_ok (Setting.cloneValue_of_stands hf depth)).mpr ?_
        exact ⟨(I i).refl hg, found i run o w hg hv hf⟩
      | none => exact hnew i run o hv hf
    | _ =>
      unfold cloneValue
      exact maintains_pure (other i run _ hv rfl)
  induction depth generalizing i with
  | zero =>
    refine values 0 (fun i run o _ hf hg => ?_) i
    exact (ends_of_error (Setting.cloneValue_zero_of_new hf)).mpr (tooDeep i run hg)
  | succ depth ih =>
    refine values (depth + 1) (fun i run o hv hf hg => ?_) i
    have hnew := new depth ih i run o hv hf hg
    unfold Ends at *
    rw [Setting.cloneValue_succ_of_new hf]
    exact hnew

end Invariant

end DeepCopy
