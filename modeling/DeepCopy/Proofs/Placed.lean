-- Cloning in minimal mode. All it does with an object is to duplicate it, so the
-- clone of an object is an object, and what goes wrong is put down to a class or to
-- a field of an object.
import DeepCopy.Operation
import DeepCopy.Proofs.Rules
import DeepCopy.Proofs.Stepwise

namespace DeepCopy

open CloneM

/-- An error that says of which class or of which field of an object it is. -/
def CloneError.Placed : CloneError → Prop
  | introspection _ _ | allocation _ _ | access _ _ _ _ => True
  | _ => False

/-- An end that is no error, or an error of a class or of a field. -/
def Stop.Placed : Stop → Prop
  | failed e => e.Placed
  | _ => True

/-- An end that is no bare error of the heap: it says what it is about, or that nothing can be
reported. -/
def Stop.Named (e : Stop) : Prop := ∀ cause, e ≠ .failed (.heap cause)

theorem Stop.Placed.named {e : Stop} (h : e.Placed) : e.Named := by
  rintro cause rfl
  exact h

/-- All errors that a computation can end with are of classes or of fields. -/
def Places {σ α : Type} (x : EStateM Stop σ α) : Prop :=
  ∀ st, Ends x st (fun _ _ => True) fun e _ => e.Placed

/-- A computation that has results of one kind only, if it ends well. -/
def Produces {σ α : Type} (P : α → Prop) (x : EStateM Stop σ α) : Prop :=
  ∀ st, Yields x st fun a _ => P a

section Steps

variable {σ α β : Type} {x : EStateM Stop σ α}

theorem places_pure (a : α) : Places (pure a : EStateM Stop σ α) := fun _ => trivial

theorem places_get : Places (get : EStateM Stop σ σ) := fun _ => trivial

theorem places_modify (f : σ → σ) : Places (modify f : EStateM Stop σ Unit) := fun _ => trivial

theorem places_throw {e : Stop} (he : e.Placed) : Places (throw e : EStateM Stop σ α) := fun _ => he

theorem Places.bind {f : α → EStateM Stop σ β} (hx : Places x) (hf : ∀ a, Places (f a)) :
    Places (x >>= f) := by
  intro st
  rw [ends_bind]
  exact ends_mono (hx st) (fun a st' _ => hf a st') (fun _ _ h => h)

end Steps

/-! ## Results of one kind -/

section Results

variable {σ α β : Type} {P : α → Prop} {R : β → Prop}

theorem produces_pure {a : α} (h : P a) : Produces P (pure a : EStateM Stop σ α) := fun _ => h

/-- Only the last step decides. -/
theorem produces_bind (x : EStateM Stop σ α) {f : α → EStateM Stop σ β}
    (hf : ∀ a, Produces R (f a)) : Produces R (x >>= f) := by
  intro st
  unfold Yields
  rw [ends_bind]
  unfold Ends
  cases x st with
  | ok a st' => exact hf a st'
  | error e st' => trivial

end Results

/-! ## Work on the heap -/

theorem placed_of_mapError {ε α : Type} {x : Except ε α} {f : ε → CloneError} {e : CloneError}
    (h : x.mapError f = .error e) (hf : ∀ cause, (f cause).Placed) : e.Placed := by
  cases x with
  | ok a => cases h
  | error cause =>
    cases h
    exact hf cause

theorem placed_of_map {α β : Type} {x : Except CloneError α} {f : α → β} {e : CloneError}
    (h : f <$> x = .error e) (hx : ∀ e, x = .error e → e.Placed) : e.Placed := by
  cases x with
  | ok a => cases h
  | error cause =>
    cases h
    exact hx _ rfl

section Heaps

variable {α : Type}

theorem places_read {look : Heap → Except CloneError α} (h : ∀ h e, look h = .error e → e.Placed) :
    Places (CopyM.read look) := by
  intro m
  rw [ends_copy_read]
  cases hl : look m.heap with
  | ok a => trivial
  | error e => exact h _ _ hl

theorem places_update {change : Heap → Except CloneError Write}
    (h : ∀ h e, change h = .error e → e.Placed) : Places (CopyM.update change) := by
  intro m
  rw [ends_copy_update]
  cases hc : change m.heap with
  | ok w => trivial
  | error e => exact h _ _ hc

theorem places_allocating (cls : String) (x : MemoryM HeapError α) :
    Places (CopyM.allocating cls x) := by
  intro m
  rw [ends_allocating]
  unfold Ends
  cases x m <;> trivial

end Heaps

namespace Direct

variable {f : PlannedField} {h : Heap} {o : ObjectId} {e : CloneError}

theorem placed_of_readField (he : readField f h o = .error e) : e.Placed := by
  unfold readField at he
  split at he
  · exact placed_of_mapError he fun _ => trivial
  · cases he
    trivial

theorem placed_of_writeReference {v : Value} (he : writeReference f h o v = .error e) :
    e.Placed := by
  unfold writeReference at he
  split at he
  · exact placed_of_map he fun _ h => placed_of_mapError h fun _ => trivial
  · cases he
    trivial

theorem placed_of_copyPrimitive {source target : ObjectId}
    (he : copyPrimitive f h source target = .error e) : e.Placed := by
  unfold copyPrimitive at he
  split at he
  · cases hr : readField f h source with
    | error e' =>
      rw [hr] at he
      cases he
      exact placed_of_readField hr
    | ok v =>
      rw [hr] at he
      exact placed_of_writeReference he
  · rename_i offset kind _
    cases hr : ((h.body source).readBytes offset kind.width).mapError (f.missed source) with
    | error e' =>
      rw [hr] at he
      cases he
      exact placed_of_mapError hr fun _ => trivial
    | ok bytes =>
      rw [hr] at he
      exact placed_of_map he fun _ h => placed_of_mapError h fun _ => trivial

theorem placed_of_resetField (he : resetField f h o = .error e) : e.Placed := by
  unfold resetField at he
  split at he
  · exact placed_of_map he fun _ h => placed_of_mapError h fun _ => trivial
  · exact placed_of_writeReference he

theorem placed_of_writeElement {index : Nat} {v : Value}
    (he : writeElement h o index v = .error e) : e.Placed := by
  unfold writeElement at he
  split at he
  · split at he <;> cases he
    trivial
  · cases he
    trivial

end Direct

namespace Backend

variable (b : Backend)

theorem places_allocate (p : Plan) : Places (b.allocate p) := by
  cases b with
  | fast =>
    unfold allocate
    cases p.kind <;> exact fun _ => trivial
  | portable r => exact places_allocating _ _

theorem places_readField (f : PlannedField) (o : ObjectId) : Places (b.readField f o) := by
  cases b with
  | fast => exact places_read fun _ _ => Direct.placed_of_readField
  | portable r => exact places_read fun _ _ h => placed_of_mapError h fun _ => trivial

theorem places_writeReference (f : PlannedField) (o : ObjectId) (v : Value) :
    Places (b.writeReference f o v) := by
  cases b with
  | fast => exact places_update fun _ _ => Direct.placed_of_writeReference
  | portable r => exact places_update fun _ _ h => placed_of_mapError h fun _ => trivial

theorem places_copyPrimitive (f : PlannedField) (source target : ObjectId) :
    Places (b.copyPrimitive f source target) := by
  cases b with
  | fast => exact places_update fun _ _ => Direct.placed_of_copyPrimitive
  | portable r =>
    refine places_update fun h e he => ?_
    cases hr : (f.get h source).mapError (f.fault source) with
    | error e' =>
      rw [hr] at he
      cases he
      exact placed_of_mapError hr fun _ => trivial
    | ok v =>
      rw [hr] at he
      exact placed_of_mapError he fun _ => trivial

theorem places_resetField (f : PlannedField) (o : ObjectId) : Places (b.resetField f o) := by
  cases b with
  | fast => exact places_update fun _ _ => Direct.placed_of_resetField
  | portable r => exact places_update fun _ _ h => placed_of_mapError h fun _ => trivial

theorem places_copyField (f : PlannedField) (source target : ObjectId) (v : Option Value) :
    Places (b.copyField f source target v) := by
  unfold copyField
  split
  · exact b.places_copyPrimitive f source target
  · exact b.places_writeReference f target _
  · exact (b.places_readField f source).bind fun v => b.places_writeReference f target v

theorem places_copyBlock (source target : ObjectId) : Places (b.copyBlock source target) := by
  cases b with
  | fast =>
    unfold copyBlock
    dsimp only
    split
    · exact places_pure _
    · refine places_get.bind fun m => ?_
      split
      · exact (places_modify _).bind fun _ => places_pure _
      · exact places_pure _
  | portable r => exact places_pure _

theorem places_fillPacked (copy : ObjectId) (bytes : List UInt8) :
    Places (fillPacked copy bytes) := by
  refine places_get.bind fun m => ?_
  split
  · split
    · exact places_modify _
    · exact places_throw trivial
  · exact places_pure _

theorem places_duplicatePacked (source : ObjectId) : Places (b.duplicatePacked source) := by
  refine places_get.bind fun m => ?_
  dsimp only
  split
  · exact fun _ => trivial
  · exact places_throw trivial
  · exact (places_allocating _ _).bind fun copy => (places_fillPacked copy _).bind fun _ =>
      places_pure _
  · exact places_throw trivial

theorem places_allocateSlots (cls : ClassId) (length : Nat) :
    Places (b.allocateSlots cls length) := by
  cases b with
  | fast => exact fun _ => trivial
  | portable r => exact places_allocating _ _

theorem places_writeElement (o : ObjectId) (index : Nat) (v : Value) :
    Places (b.writeElement o index v) := by
  cases b with
  | fast => exact places_update fun _ _ => Direct.placed_of_writeElement
  | portable r => exact places_update fun _ _ h => placed_of_mapError h fun _ => trivial

end Backend

/-! ## Duplicates -/

theorem places_onMemory {α : Type} {x : CopyM α} (hx : Places x) : Places (onMemory x) := by
  intro run
  rw [ends_onMemory]
  exact hx run.memory

theorem places_heap : Places heap := fun _ => trivial

theorem places_fail {α : Type} {e : CloneError} (he : e.Placed) : Places (fail e : CloneM α) :=
  fun _ => he

theorem places_register (o : ObjectId) (copy : Value) : Places (register o copy) := fun _ => trivial

namespace Setting

variable {s : Setting} {nested : Value → CloneM Value}

theorem places_plan (cls : ClassId) : Places (s.plan cls) := by
  intro run
  rw [ends_plan]
  split
  · trivial
  · rename_i e he
    unfold Plans.get at he
    split at he
    · cases he
    · cases hm : Plan.make s.registry s.classifier cls with
      | ok p =>
        rw [hm] at he
        cases he
      | error e' =>
        rw [hm] at he
        cases he
        unfold Plan.make at hm
        split at hm <;> cases hm
        trivial

theorem places_setContents (p : Plan) (o : ObjectId) (c : Container) :
    Places (setContents p o c) :=
  places_onMemory (places_update fun _ _ h => placed_of_mapError h fun _ => trivial)

theorem places_slotItems (source : ObjectId) : Places (s.slotItems source) := by
  refine places_heap.bind fun h => ?_
  split
  · exact places_pure _
  · exact places_fail trivial

/-- Whatever is done to the heap goes wrong for a class or a field. -/
theorem places_of_does {α : Type} {b : Backend} {x : CopyM α} (h : b.Does x) : Places x := by
  cases h with
  | allocate p => exact b.places_allocate p
  | allocateSlots cls length => exact b.places_allocateSlots cls length
  | duplicatePacked source => exact b.places_duplicatePacked source
  | readField f source => exact b.places_readField f source
  | resetField f target => exact b.places_resetField f target
  | copyPrimitive f source target => exact b.places_copyPrimitive f source target
  | copyField f source target v => exact b.places_copyField f source target v
  | copyBlock source target => exact b.places_copyBlock source target
  | writeElement target index v => exact b.places_writeElement target index v
  | setContents p o c => exact places_update fun _ _ h => placed_of_mapError h fun _ => trivial

theorem duplicating_places (s : Setting) :
    Stepwise.Duplicating (fun α (x : Unit → CloneM α) => Places (x ())) s where
  pure := places_pure
  bind hx hf := hx.bind hf
  memory hx := places_onMemory (places_of_does hx)
  heap := places_heap
  plan := places_plan
  access _ _ _ _ := places_fail trivial

section Duplicating

variable (hn : ∀ v, Places (nested v))
include hn

theorem places_duplicateContainer (source : ObjectId) :
    Places (s.duplicateContainer nested source) :=
  (duplicating_places s).duplicateContainer (fun _ => s.catalog) (fun _ => register)
    places_register (fun _ => nested) hn source

theorem places_duplicate (source : ObjectId) (p : Plan) :
    Places (s.duplicate nested source p) :=
  (duplicating_places s).duplicate (fun _ => s.catalog) (fun _ => register) places_register
    (fun _ => nested) hn source p

end Duplicating

/-! ## Minimal mode -/

/-- In minimal mode all that is done with an object that has no copy is to duplicate it. -/
theorem cloneNew_minimal (hm : s.mode = .minimal) (source : ObjectId) :
    s.cloneNew nested source =
      (heap >>= fun h => s.plan (h.cls source) >>= s.duplicate nested source) := by
  have hplan : ∀ p, s.planVerdict p = .duplicated := fun p => by
    unfold planVerdict
    rw [if_pos hm]
  have hverdict : ∀ cls, s.verdict cls source = pure .open := fun cls => by
    unfold verdict
    rw [if_pos hm]
  unfold cloneNew cloneNewBy
  simp only [hverdict, pure_bind]
  congr 1
  funext h
  congr 1
  funext p
  unfold cloneByPlanBy
  rw [hplan]

theorem places_cloneValue (hm : s.mode = .minimal) (depth : Nat) (v : Value) :
    Places (cloneValue s depth v) := by
  induction depth generalizing v with
  | zero =>
    cases v with
    | ref o =>
      unfold cloneValue
      refine Places.bind (fun _ => trivial) fun found => ?_
      cases found with
      | some copy => exact places_pure copy
      | none => exact places_throw trivial
    | _ =>
      unfold cloneValue
      exact places_pure _
  | succ depth ih =>
    cases v with
    | ref o =>
      unfold cloneValue
      refine Places.bind (fun _ => trivial) fun found => ?_
      cases found with
      | some copy => exact places_pure copy
      | none =>
        show Places (s.cloneNew (cloneValue s depth) o)
        rw [cloneNew_minimal hm]
        exact places_heap.bind fun h => (places_plan _).bind fun p => places_duplicate ih o p
    | _ =>
      unfold cloneValue
      exact places_pure _

/-! ## Clones of objects -/

theorem produces_duplicate (source : ObjectId) (p : Plan) :
    Produces (fun v => ∃ copy, v = .ref copy) (s.duplicate nested source p) := by
  refine produces_bind _ fun _ => ?_
  split
  · exact produces_bind _ fun target => produces_bind _ fun _ => produces_pure ⟨target, rfl⟩
  · exact produces_bind _ fun items => produces_bind _ fun _ => produces_bind _ fun target =>
      produces_bind _ fun _ => produces_bind _ fun _ => produces_pure ⟨target, rfl⟩
  · refine produces_bind _ fun _ => produces_bind _ fun p => produces_bind _ fun _ => ?_
    split
    · exact fun _ => trivial
    · exact produces_bind _ fun target => produces_bind _ fun _ => produces_bind _ fun copies =>
        produces_bind _ fun _ => produces_pure ⟨target, rfl⟩
  · exact produces_bind _ fun target => produces_bind _ fun _ => produces_bind _ fun _ =>
      produces_pure ⟨target, rfl⟩

/-- In minimal mode the clone of an object is an object, whatever the heap is like. -/
theorem ends_clone_minimal (hm : s.mode = .minimal) (o : ObjectId) (run : Run) :
    Ends (s.clone (.ref o)) run (fun v _ => ∃ copy, v = .ref copy) (fun e _ => e.Placed) := by
  have hplaced : Places (s.clone (.ref o)) := (places_modify _).bind fun _ =>
    places_heap.bind fun h => places_cloneValue hm _ _
  obtain ⟨depth, hdepth⟩ : ∃ depth, depthAllowance run.heap = depth + 1 :=
    Nat.exists_eq_add_one_of_ne_zero (by unfold depthAllowance; omega)
  have hproduces : Produces (fun v => ∃ copy, v = .ref copy)
      (s.cloneNew (cloneValue s depth) o) := by
    rw [cloneNew_minimal hm]
    exact produces_bind _ fun h => produces_bind _ fun p => produces_duplicate o p
  have hclone : Yields (s.clone (.ref o)) run fun v _ => ∃ copy, v = .ref copy := by
    have hnew : ({ run with copies := {} } : Run).copies.find? o = none := Copies.find?_empty o
    unfold clone Setting.begin Yields
    rw [ends_bind, ends_modify, ends_bind, ends_heap, hdepth]
    unfold cloneValue
    rw [ends_bind, ends_copyOf, hnew]
    exact hproduces _
  exact ends_mono (ends_and hclone (hplaced run)) (fun _ _ h => h.1) fun _ _ h => h.2

end Setting

end DeepCopy
