-- What lasts through a clone, whichever implementors take part in it. Routines
-- may do to the heap what they like, but of the copies they only change what
-- they register, and the journal only grows. A property that looks no further
-- holds after a clone if it held before.
import DeepCopy.Proofs.Rules
import DeepCopy.Proofs.Stepwise

namespace DeepCopy

open CloneM

/-- A run has gone on and nothing was registered. What stood in the journal stands there still, in
front, implementors were taken from the catalog only, and answers about roots were worked out in the
registry. -/
structure Advances (s : Setting) (run run' : Run) : Prop where
  copies : run'.copies = run.copies
  journal : ∃ notes, run'.journal = run.journal ++ notes
  resolved : ∀ cls i, Assoc.find? cls run'.resolved = some i →
    Assoc.find? cls run.resolved = some i ∨
      ∃ name maker, Assoc.find? name s.catalog = some maker ∧ maker.implementor = i
  answers : ∀ cls b, Assoc.find? cls run'.answers = some b →
    Assoc.find? cls run.answers = some b ∨ b = s.policy.belowRoot s.registry cls

/-- The run with a value that stands for an object. -/
def Run.registered (run : Run) (o : ObjectId) (copy : Value) : Run :=
  { run with copies := run.copies.put o copy }

/-- A property that a run keeps as long as nothing is registered. -/
def Lasting (s : Setting) (P : Run → Prop) : Prop :=
  ∀ run run', Advances s run run' → P run → P run'

/-- From `P` a computation ends well in `Q`, or it fails and `P` still holds. -/
def Leads {α : Type} (P Q : Run → Prop) (x : CloneM α) : Prop :=
  ∀ run, P run → Ends x run (fun _ => Q) (fun _ => P)

/-- A computation after which a property holds if it held before. -/
abbrev Preserves {α : Type} (P : Run → Prop) (x : CloneM α) : Prop := Leads P P x

section Steps

variable {α β : Type} {P Q R : Run → Prop} {x : CloneM α} {f : α → CloneM β} {s : Setting}

theorem Leads.bind (hx : Leads P R x) (h : ∀ run, R run → P run) (hf : ∀ a, Leads R Q (f a)) :
    Leads P Q (x >>= f) := by
  intro run hP
  rw [ends_bind]
  refine ends_mono (hx run hP) ?_ (fun _ _ h => h)
  intro a run' hR
  exact ends_mono (hf a run' hR) (fun _ _ h => h) (fun _ _ hR => h _ hR)

theorem Preserves.bind (hx : Preserves P x) (hf : ∀ a, Leads P Q (f a)) : Leads P Q (x >>= f) :=
  Leads.bind hx (fun _ h => h) hf

theorem preserves_pure (a : α) : Preserves P (pure a) := fun _ h => h

theorem leads_fail (e : CloneError) : Leads P Q (fail e : CloneM α) := fun _ h => h

theorem preserves_ofExcept (result : Except CloneError α) : Preserves P (ofExcept result) := by
  cases result with
  | ok a => exact preserves_pure a
  | error e => exact leads_fail e

theorem leads_get_bind {f : Run → CloneM β}
    (h : ∀ run, P run → Ends (f run) run (fun _ => Q) fun _ => P) : Leads P Q (get >>= f) := h

theorem leads_heap_bind {f : Heap → CloneM β} (h : ∀ heap, Leads P Q (f heap)) :
    Leads P Q (heap >>= f) := fun run hP => h run.heap run hP

theorem preserves_outcome (hx : Preserves P x) : Preserves P (outcome x) := by
  intro run hP
  rw [ends_outcome]
  refine ends_mono (hx run hP) (fun _ _ h => h) ?_
  intro e run' h
  cases e <;> exact h

variable (hP : Lasting s P)
include hP

theorem Lasting.of_same {run run' : Run} (h : P run) (hc : run'.copies = run.copies)
    (hj : run'.journal = run.journal) (hr : run'.resolved = run.resolved)
    (ha : run'.answers = run.answers) : P run' :=
  hP run run' ⟨hc, ⟨[], by rw [hj, List.append_nil]⟩, fun _ _ hi => Or.inl (hr ▸ hi),
    fun _ _ hb => Or.inl (ha ▸ hb)⟩ h

/-- A property outlasts the question whether a class is shared. -/
theorem Lasting.asked {run : Run} (h : P run) (cls : ClassId) : P (s.asked run cls) := by
  rcases s.asked_eq_or run cls with heq | heq
  · rw [heq]
    exact h
  · rw [heq]
    refine hP run _ ⟨rfl, ⟨[], (List.append_nil _).symm⟩, fun _ _ hi => Or.inl hi, ?_⟩ h
    exact fun _ _ hb => Policy.find?_sharesClass hb

theorem preserves_onMemory (x : CopyM α) : Preserves P (onMemory x) := by
  intro run h
  rw [ends_onMemory]
  unfold Ends
  cases x run.memory <;> exact hP.of_same h rfl rfl rfl rfl

theorem preserves_write (notes : List Note) : Preserves P (write notes) :=
  fun run h => hP run _ ⟨rfl, ⟨notes, rfl⟩, fun _ _ h => Or.inl h, fun _ _ h => Or.inl h⟩ h

omit hP in
theorem leads_register {o : ObjectId} (h : ∀ run copy, P run → Q (run.registered o copy))
    (copy : Value) : Leads P Q (register o copy) := fun run hP => h run copy hP

end Steps

/-- What has been registered for an object stands for it. -/
theorem Run.isSome_registered_self (run : Run) (o : ObjectId) (copy : Value) :
    ((run.registered o copy).copies.find? o).isSome := by
  unfold registered
  rw [Copies.find?_put]
  rfl

namespace Setting

variable {s : Setting} {nested : Value → CloneM Value} {P Q : Run → Prop}

/-! ## What is found out -/

section Finding

variable (hP : Lasting s P)
include hP

theorem preserves_plan (cls : ClassId) : Preserves P (s.plan cls) := by
  intro run h
  rw [ends_plan]
  split
  · exact hP.of_same h rfl rfl rfl rfl
  · exact h

theorem preserves_namedImplementor (p : Plan) (name : String) :
    Preserves P (s.namedImplementor p name) := by
  refine leads_get_bind fun run h => ?_
  split
  · exact h
  · split
    · rename_i maker hm
      refine hP run _ ⟨rfl, ⟨maker.notes, rfl⟩, ?_, fun _ _ h => Or.inl h⟩ h
      intro cls i hi
      have hi : Assoc.find? cls (Assoc.put p.cls maker.implementor run.resolved) = some i := hi
      rw [Assoc.find?_put] at hi
      split at hi
      · exact Or.inr ⟨name, maker, hm, Option.some.inj hi⟩
      · exact Or.inl hi
    · exact h

omit hP in
theorem preserves_slotItems (source : ObjectId) : Preserves P (s.slotItems source) := by
  refine leads_heap_bind fun h => ?_
  split
  · exact preserves_pure _
  · exact leads_fail _

theorem preserves_allocate (cls : ClassId) : Preserves P (s.allocate cls) :=
  (preserves_plan hP cls).bind fun _ => preserves_onMemory hP _

end Finding

/-! ## Filling copies -/

section Filling

variable (hP : Lasting s P)
include hP

theorem duplicating_preserves :
    Stepwise.Duplicating (fun α (x : Unit → CloneM α) => Preserves P (x ())) s where
  pure := preserves_pure
  bind hx hf := Preserves.bind hx hf
  memory _ := preserves_onMemory hP _
  heap := fun _ h => h
  plan := preserves_plan hP
  access _ _ _ _ := leads_fail _

variable (hn : ∀ v, Preserves P (nested v))
include hn

theorem preserves_cloneContents (c : Container) : Preserves P (cloneContents nested c) :=
  (duplicating_preserves hP).cloneContents (fun _ => nested) fun v _ => hn v

theorem preserves_copyFields (source target : ObjectId) (p : Plan) :
    Preserves P (s.copyFields nested source target p) :=
  (duplicating_preserves hP).copyFields (fun _ => nested) hn (fun _ => s.catalog) source target p

theorem preserves_cloneElements (target : ObjectId) (vs : List Value) :
    Preserves P (s.cloneElements nested target 0 vs) :=
  (duplicating_preserves hP).fillArray (fun _ => nested) hn (fun _ => s.catalog) target vs

theorem preserves_cloneFields (source target : ObjectId) :
    Preserves P (s.cloneFields nested source target) :=
  (duplicating_preserves hP).cloneFields (fun _ => s.catalog) (fun _ => leads_fail _)
    (fun _ => nested) hn source target

end Filling

/-! ## Duplicates

A duplicate is registered before anything is cloned into it, and that is all that is registered. -/

section Duplicating

variable {source : ObjectId} (hP : Lasting s P) (hQ : Lasting s Q) (hQP : ∀ run, Q run → P run)
  (hreg : ∀ run copy, P run → Q (run.registered source copy)) (hn : ∀ v, Preserves Q (nested v))
include hP hQ hQP hreg hn

theorem leads_duplicateContainer : Leads P Q (s.duplicateContainer nested source) := by
  refine leads_heap_bind fun _ => (preserves_plan hP _).bind fun p => leads_heap_bind fun _ => ?_
  split
  · exact leads_fail _
  · refine (preserves_onMemory hP _).bind fun target =>
      (leads_register hreg (.ref target)).bind hQP fun _ => ?_
    exact (preserves_cloneContents hQ hn _).bind fun copies =>
      (preserves_onMemory hQ _).bind fun _ => preserves_pure _

theorem leads_duplicate (p : Plan) : Leads P Q (s.duplicate nested source p) := by
  refine leads_heap_bind fun _ => ?_
  split
  · exact (preserves_onMemory hP _).bind fun target =>
      (leads_register hreg (.ref target)).bind hQP fun _ => preserves_pure _
  · refine (preserves_slotItems source).bind fun items => leads_heap_bind fun _ =>
      (preserves_onMemory hP _).bind fun target =>
        (leads_register hreg (.ref target)).bind hQP fun _ => ?_
    exact (preserves_cloneElements hQ hn target items).bind fun _ => preserves_pure _
  · exact leads_duplicateContainer hP hQ hQP hreg hn
  · refine (preserves_onMemory hP _).bind fun target =>
      (leads_register hreg (.ref target)).bind hQP fun _ => ?_
    exact (preserves_copyFields hQ hn source target p).bind fun _ => preserves_pure _

end Duplicating

/-! ## What stands -/

/-- What stands for an object is only ever replaced. -/
theorem lasting_standing (o : ObjectId) : Lasting s fun run => (run.copies.find? o).isSome := by
  intro run run' ha h
  rw [ha.copies]
  exact h

section Standing

variable {source : ObjectId}
  (hstands : ∀ v, Preserves (fun run => (run.copies.find? source).isSome) (nested v))
include hstands

theorem leads_duplicateContainer_standing :
    Leads (fun _ => True) (fun run => (run.copies.find? source).isSome)
      (s.duplicateContainer nested source) :=
  leads_duplicateContainer (fun _ _ _ _ => trivial) (lasting_standing source) (fun _ _ => trivial)
    (fun run copy _ => run.isSome_registered_self source copy) hstands

end Standing

end Setting

/-! ## Routines -/

/-- A routine that registers values for certain objects only. -/
inductive Routine.RegistersFor (A : ObjectId → Prop) : Routine → Prop where
  | finish (result : Except CloneError Value) : RegistersFor A (.finish result)
  | ask (request : Request) (next : request.Reply → Routine)
    (hr : ∀ o copy, request = .register o copy → A o)
    (hn : ∀ reply, RegistersFor A (next reply)) : RegistersFor A (.ask request next)

theorem Routine.registersFor_any (r : Routine) : r.RegistersFor fun _ => True := by
  induction r with
  | finish result => exact .finish result
  | ask request next ih => exact .ask request next (fun _ _ _ => trivial) ih

namespace Setting

variable {s : Setting} {nested : Value → CloneM Value} {P Q : Run → Prop} (hP : Lasting s P)
include hP

theorem preserves_answer_of_plain {q : Request} (hq : q.isPlain = true) :
    Preserves P (s.answer nested q) := by
  cases q with
  | clone v => cases hq
  | cloneFields source target => cases hq
  | register o copy => cases hq
  | allocate cls => exact preserves_outcome (preserves_allocate hP cls)
  | plan cls => exact preserves_outcome (preserves_plan hP cls)
  | create cls body => exact preserves_onMemory hP (Memory.create cls body)
  | overwrite o body => exact fun _ h => hP.of_same h rfl rfl rfl rfl
  | setField o name v =>
    refine leads_heap_bind fun h => ?_
    split
    · exact fun _ h => hP.of_same h rfl rfl rfl rfl
    · exact preserves_pure _
  | note n => exact preserves_write hP [n]
  | _ => exact fun _ h => h

section Cloning

variable (hn : ∀ v, Preserves P (nested v))
include hn

theorem preserves_answer_of_clones {q : Request} (hq : q.clones = true) :
    Preserves P (s.answer nested q) := by
  cases q with
  | clone v => exact preserves_outcome (hn v)
  | cloneFields source target => exact preserves_outcome (preserves_cloneFields hP hn source target)
  | _ => cases hq

theorem preserves_runRoutine {A : ObjectId → Prop}
    (hA : ∀ o, A o → ∀ run copy, P run → P (run.registered o copy)) {r : Routine}
    (hr : r.RegistersFor A) : Preserves P (s.runRoutine nested r) := by
  induction hr with
  | finish result => exact preserves_ofExcept result
  | ask request next hreg _ ih =>
    refine Preserves.bind ?_ ih
    cases hp : request.isPlain with
    | true => exact preserves_answer_of_plain hP hp
    | false =>
      cases hc : request.clones with
      | true => exact preserves_answer_of_clones hP hn hc
      | false =>
        cases request with
        | register o copy => exact leads_register (hA o (hreg o copy rfl)) copy
        | clone v => cases hc
        | cloneFields source target => cases hc
        | _ => cases hp

end Cloning

end Setting

end DeepCopy
