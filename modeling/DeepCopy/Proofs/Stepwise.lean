-- The traversal, for facts that hold of a sequence of steps if they hold of the
-- steps. Such a fact may be about one clone, about two clones side by side, or about
-- all ways of cloning nested values at once; the traversal is gone through here, once
-- for all of them. What a fact has to say of single steps depends on how much of the
-- traversal it is about: filling copies, duplicates, or the rules and routines.
import DeepCopy.Proofs.Contents
import DeepCopy.Proofs.Ending

namespace DeepCopy

open CloneM

/-! ## Single steps -/

/-- What a clone has a backend do. -/
inductive Backend.Does (b : Backend) : {α : Type} → CopyM α → Prop where
  | allocate (p : Plan) : Does b (b.allocate p)
  | allocateSlots (cls : ClassId) (length : Nat) : Does b (b.allocateSlots cls length)
  | duplicatePacked (source : ObjectId) : Does b (b.duplicatePacked source)
  | readField (f : PlannedField) (source : ObjectId) : Does b (b.readField f source)
  | resetField (f : PlannedField) (target : ObjectId) : Does b (b.resetField f target)
  | copyPrimitive (f : PlannedField) (source target : ObjectId) :
    Does b (b.copyPrimitive f source target)
  | copyField (f : PlannedField) (source target : ObjectId) (v : Option Value) :
    Does b (b.copyField f source target v)
  | copyBlock (source target : ObjectId) : Does b (b.copyBlock source target)
  | writeElement (target : ObjectId) (index : Nat) (v : Value) :
    Does b (b.writeElement target index v)
  | setContents (p : Plan) (o : ObjectId) (c : Container) :
    Does b (CopyM.update fun h => (h.setContents o c).mapError (Setting.contentsFault p o))

/-- A request that neither registers anything nor clones. -/
def Request.isPlain : Request → Bool
  | clone _ | cloneFields _ _ | register _ _ => false
  | _ => true

/-- A request that clones. -/
def Request.clones : Request → Bool
  | clone _ | cloneFields _ _ => true
  | _ => false

/-- A plain request is answered without a clone. -/
theorem Setting.answer_of_plain {s : Setting} {q : Request} (hq : q.isPlain = true)
    (nested nested' : Value → CloneM Value) : s.answer nested q = s.answer nested' q := by
  cases q <;> first | rfl | cases hq

/-- The setting with another catalog of routines. -/
abbrev Setting.taking (s : Setting) (catalog : Catalog) : Setting := { s with catalog }

/-- A fact about computations, one for each index, that holds of a sequence of steps if it holds of
the steps. -/
structure Sequential {ι : Type} (R : (α : Type) → (ι → CloneM α) → Prop) : Prop where
  pure : ∀ {α : Type} (a : α), R α fun _ => pure a
  bind : ∀ {α β : Type} {x : ι → CloneM α} {f : ι → α → CloneM β}, R α x →
    (∀ a, R β fun i => f i a) → R β fun i => x i >>= f i

namespace Sequential

variable {ι : Type} {R : (α : Type) → (ι → CloneM α) → Prop} (h : Sequential R)
include h

theorem map {α β : Type} {x : ι → CloneM α} (hx : R α x) (g : α → β) :
    R β fun i => g <$> x i := by
  have hbind : R β fun i => x i >>= fun a => Pure.pure (g a) := h.bind hx fun a => h.pure (g a)
  simpa only [bind_pure_comp] using hbind

/-! ## Filling copies -/

variable (nested : ι → Value → CloneM Value)

theorem cloneAll {vs : List Value} (hn : ∀ v ∈ vs, R Value fun i => nested i v) :
    R (List Value) fun i => Setting.cloneAll (nested i) vs := by
  induction vs with
  | nil => exact h.pure []
  | cons v vs ih =>
    have hrest := ih fun w hw => hn w (List.mem_cons_of_mem _ hw)
    exact h.bind (hn v List.mem_cons_self) fun copy => h.bind hrest fun copies =>
      h.pure (copy :: copies)

theorem cloneEntries {entries : Assoc Key Value}
    (hn : Entries.All (fun v => R Value fun i => nested i v) entries) :
    R (List (Value × Value)) fun i => Setting.cloneEntries (nested i) entries := by
  induction entries with
  | nil => exact h.pure []
  | cons e entries ih =>
    obtain ⟨hkey, hvalue⟩ := hn e List.mem_cons_self
    have hrest := ih fun e he => hn e (List.mem_cons_of_mem _ he)
    exact h.bind hkey fun key => h.bind hvalue fun value => h.bind hrest fun copies =>
      h.pure ((key, value) :: copies)

theorem cloneContents {c : Container} (hn : ∀ v ∈ c.values, R Value fun i => nested i v) :
    R Container fun i => Setting.cloneContents (nested i) c := by
  cases c with
  | list items => exact h.map (h.cloneAll nested hn) _
  | linked items => exact h.map (h.cloneAll nested hn) _
  | hashSet keys => exact h.map (h.cloneAll nested hn) _
  | hashMap entries => exact h.map (h.cloneEntries nested (Entries.all_of_values hn)) _
  | treeMap entries => exact h.map (h.cloneEntries nested (Entries.all_of_values hn)) _
  | calendar moment => exact h.pure _

variable (s : ι → Setting)

theorem copyFieldsFrom {source target : ObjectId} (bulk : ι → Bool) {fs : List PlannedField}
    (hf : ∀ f ∈ fs, R Unit fun i => (s i).copyField (nested i) source target (bulk i) f) :
    R Unit fun i => (s i).copyFieldsFrom (nested i) source target (bulk i) fs := by
  induction fs with
  | nil => exact h.pure ()
  | cons f fs ih =>
    exact h.bind (hf f List.mem_cons_self) fun _ => ih fun g hg => hf g (List.mem_cons_of_mem _ hg)

/-- Elements are cloned into an array, if it may be written to as far as they go. -/
theorem cloneElements {target : ObjectId} {index : Nat} {vs : List Value}
    (hn : ∀ v ∈ vs, R Value fun i => nested i v)
    (hw : ∀ k < index + vs.length, ∀ w,
      R Unit fun i => onMemory ((s i).backend.writeElement target k w)) :
    R Unit fun i => (s i).cloneElements (nested i) target index vs := by
  induction vs generalizing index with
  | nil => exact h.pure ()
  | cons v vs ih =>
    have hlength : index + (v :: vs).length = index + 1 + vs.length := by
      rw [List.length_cons]
      omega
    rw [hlength] at hw
    have hrest := ih (fun w hw => hn w (List.mem_cons_of_mem _ hw)) hw
    exact h.bind (hn v List.mem_cons_self) fun copy => h.bind (hw index (by omega) copy) fun _ =>
      hrest

end Sequential

/-- A fact that also holds of all that is done to the heap. -/
structure Stepwise {ι : Type} (R : (α : Type) → (ι → CloneM α) → Prop) (s : Setting) : Prop
    extends Sequential R where
  memory : ∀ {α : Type} {x : CopyM α}, s.backend.Does x → R α fun _ => onMemory x

namespace Stepwise

variable {ι : Type} {R : (α : Type) → (ι → CloneM α) → Prop} {s : Setting} (h : Stepwise R s)
  (nested : ι → Value → CloneM Value) (hn : ∀ v, R Value fun i => nested i v)
  (catalog : ι → Catalog)
include h hn

theorem copyField (source target : ObjectId) (bulk : Bool) (f : PlannedField) :
    R Unit fun i => (s.taking (catalog i)).copyField (nested i) source target bulk f := by
  show R Unit fun i => s.copyField (nested i) source target bulk f
  unfold Setting.copyField
  split
  · exact h.memory (.resetField f target)
  · split
    · split
      · exact h.pure ()
      · exact h.memory (.copyPrimitive f source target)
    · exact h.bind (h.memory (.readField f source)) fun v => h.bind (hn v) fun copy =>
        h.memory (.copyField f source target (some copy))

theorem copyFields (source target : ObjectId) (p : Plan) :
    R Unit fun i => (s.taking (catalog i)).copyFields (nested i) source target p :=
  h.bind (h.memory (.copyBlock source target)) fun bulk =>
    h.copyFieldsFrom nested (fun i => s.taking (catalog i)) (fun _ => bulk) fun f _ =>
      h.copyField nested hn catalog source target bulk f

theorem fillArray (target : ObjectId) (vs : List Value) :
    R Unit fun i => (s.taking (catalog i)).cloneElements (nested i) target 0 vs :=
  h.cloneElements nested (fun i => s.taking (catalog i)) (fun v _ => hn v) fun k _ w =>
    h.memory (.writeElement target k w)

end Stepwise

/-! ## Duplicates -/

/-- A fact about duplicates: it also holds of looking at the heap, of finding a plan, and of
failing for what is there. -/
structure Stepwise.Duplicating {ι : Type} (R : (α : Type) → (ι → CloneM α) → Prop) (s : Setting) :
    Prop extends Stepwise R s where
  heap : R Heap fun _ => heap
  plan : ∀ cls, R Plan fun _ => s.plan cls
  access : ∀ {α : Type} (cls field : String) (o : ObjectId) (cause : HeapError),
    R α fun _ => fail (.access cls field o cause)

namespace Stepwise.Duplicating

variable {ι : Type} {R : (α : Type) → (ι → CloneM α) → Prop} {s : Setting}
  (h : Duplicating R s) (catalog : ι → Catalog)
include h

theorem slotItems (source : ObjectId) :
    R (List Value) fun i => (s.taking (catalog i)).slotItems source := by
  refine h.bind h.heap fun heap => ?_
  split
  · exact h.pure _
  · let name := s.registry.className (heap.cls source)
    exact h.access name "[]" source (.wrongBody name .slotArray)

/-- The fields of an instance are cloned into another, or it is reported why they cannot be. -/
theorem cloneFields (hc : ∀ fault, R Unit fun _ => fail (.config fault))
    (nested : ι → Value → CloneM Value) (hn : ∀ v, R Value fun i => nested i v)
    (source target : ObjectId) :
    R Unit fun i => (s.taking (catalog i)).cloneFields (nested i) source target := by
  refine h.bind h.heap fun heap => h.bind (h.plan _) fun p => ?_
  have fault : ∀ o, R Unit fun _ => fail (s.fieldsFault p (heap.cls o) o) := fun _ =>
    h.access _ _ _ _
  split
  · exact fault source
  · split
    · exact fault target
    · split
      · exact hc (.cannotCloneFields p.name (s.registry.className (heap.cls target)))
      · exact h.copyFields nested hn catalog source target p

variable (enter : ι → ObjectId → Value → CloneM Unit) (he : ∀ o v, R Unit fun i => enter i o v)
include he

theorem duplicatePacked (source : ObjectId) :
    R Value fun i => (s.taking (catalog i)).duplicatePackedBy (enter i) source :=
  h.bind (h.memory (.duplicatePacked source)) fun target => h.bind (he source (.ref target))
    fun _ => h.pure _

variable (nested : ι → Value → CloneM Value) (hn : ∀ v, R Value fun i => nested i v)
include hn

theorem duplicateContainer (source : ObjectId) :
    R Value fun i =>
      (s.taking (catalog i)).duplicateContainerBy (nested i) (enter i) source := by
  refine h.bind h.heap fun heap => h.bind (h.plan _) fun p => h.bind h.heap fun heap => ?_
  cases heap.contents? source with
  | none => exact h.access _ _ _ _
  | some contents =>
    exact h.bind (h.memory (.allocate p)) fun target => h.bind (he source (.ref target)) fun _ =>
      h.bind (h.cloneContents nested fun v _ => hn v) fun copies =>
        h.bind (h.memory (.setContents p target copies)) fun _ => h.pure _

theorem duplicateSlots (source : ObjectId) :
    R Value fun i => (s.taking (catalog i)).duplicateSlotsBy (nested i) (enter i) source :=
  h.bind (h.slotItems catalog source) fun items => h.bind h.heap fun heap =>
    h.bind (h.memory (.allocateSlots (heap.cls source) items.length)) fun target =>
      h.bind (he source (.ref target)) fun _ =>
        h.bind (h.fillArray nested hn catalog target items) fun _ => h.pure _

theorem duplicateRecord (source : ObjectId) (p : Plan) :
    R Value fun i => (s.taking (catalog i)).duplicateRecordBy (nested i) (enter i) source p :=
  h.bind (h.memory (.allocate p)) fun target => h.bind (he source (.ref target)) fun _ =>
    h.bind (h.copyFields nested hn catalog source target p) fun _ => h.pure _

theorem duplicate (source : ObjectId) (p : Plan) :
    R Value fun i => (s.taking (catalog i)).duplicateBy (nested i) (enter i) source p := by
  refine h.bind h.heap fun heap => ?_
  cases heap.shape source with
  | packed => exact h.duplicatePacked catalog enter he source
  | slots => exact h.duplicateSlots catalog enter he nested hn source
  | container => exact h.duplicateContainer catalog enter he nested hn source
  | record => exact h.duplicateRecord catalog enter he nested hn source p

end Stepwise.Duplicating

/-! ## Rules and routines -/

/-- A fact about whatever is done with an object that has no copy: it also holds of any failure, of
a step that is gone on from though it has failed, of all that routines ask for by themselves, and of
what the rules are decided by. -/
structure Stepwise.Deciding {ι : Type} (R : (α : Type) → (ι → CloneM α) → Prop) (s : Setting)
    (catalog : ι → Catalog) : Prop extends Stepwise.Duplicating R s where
  fail : ∀ {α : Type} (e : CloneError), R α fun _ => fail e
  outcome : ∀ {α : Type} {x : ι → CloneM α}, R α x →
    R (Except CloneError α) fun i => outcome (x i)
  register : ∀ o v, R Unit fun _ => register o v
  plain : ∀ {q : Request} (_ : q.isPlain = true) (nested : ι → Value → CloneM Value),
    R q.Reply fun i => (s.taking (catalog i)).answer (nested i) q
  verdict : ∀ cls o, R Setting.Verdict fun _ => s.verdict cls o
  named : ∀ p name, R Implementor fun i => (s.taking (catalog i)).namedImplementor p name
  itself : ∀ method source p, R Value fun _ => Setting.copyItself method source p

namespace Stepwise.Deciding

variable {ι : Type} {R : (α : Type) → (ι → CloneM α) → Prop} {s : Setting}
  {catalog : ι → Catalog} (h : Deciding R s catalog) (nested : ι → Value → CloneM Value)
  (hn : ∀ v, R Value fun i => nested i v)
include h hn

theorem cloneFields (source target : ObjectId) :
    R Unit fun i => (s.taking (catalog i)).cloneFields (nested i) source target :=
  h.toDuplicating.cloneFields catalog (fun _ => h.fail _) nested hn source target

theorem answer (q : Request) :
    R q.Reply fun i => (s.taking (catalog i)).answer (nested i) q := by
  cases q with
  | clone v => exact h.outcome (hn v)
  | cloneFields source target => exact h.outcome (h.cloneFields nested hn source target)
  | register o copy => exact h.register o copy
  | _ => exact h.plain rfl nested

theorem runRoutine (r : Routine) :
    R Value fun i => (s.taking (catalog i)).runRoutine (nested i) r := by
  induction r with
  | finish result =>
    cases result with
    | ok v => exact h.pure v
    | error e => exact h.fail e
  | ask request next ih => exact h.bind (h.answer nested hn request) ih

variable (enter : ι → ObjectId → Value → CloneM Unit) (he : ∀ o v, R Unit fun i => enter i o v)
include he

theorem implement (i : Implementor) (source : ObjectId) :
    R Value fun j => (s.taking (catalog j)).implementBy (nested j) (enter j) i source := by
  cases i with
  | containers => exact h.duplicateContainer catalog enter he nested hn source
  | script script => exact h.runRoutine nested hn (script.routine s.scope source)
  | routine f => exact h.runRoutine nested hn (f source)

variable (look : ι → ObjectId → CloneM (Option Value))
  (hl : ∀ o, R (Option Value) fun i => look i o)
include hl

theorem delegate (i : Implementor) (source : ObjectId) :
    R Value fun j => (s.taking (catalog j)).delegateBy (nested j) (look j) (enter j) i source := by
  refine h.bind (h.outcome (h.implement nested hn enter he i source)) fun result => ?_
  cases result with
  | error e =>
    exact h.bind h.heap fun heap =>
      h.fail (Setting.blame (s.registry.className (heap.cls source)) e)
  | ok copy =>
    refine h.bind (hl source) fun found => ?_
    cases found with
    | some _ => exact h.pure copy
    | none => exact h.bind (he source copy) fun _ => h.pure copy

theorem cloneByPlan (source : ObjectId) (p : Plan) :
    R Value fun i =>
      (s.taking (catalog i)).cloneByPlanBy (nested i) (look i) (enter i) source p := by
  unfold Setting.cloneByPlanBy
  have hv : ∀ i, (s.taking (catalog i)).planVerdict p = s.planVerdict p := fun _ => rfl
  simp only [hv]
  cases s.planVerdict p with
  | shared => exact h.pure _
  | named name =>
    exact h.bind (h.named p name) fun i => h.delegate nested hn enter he look hl i source
  | selfCopied method => exact h.itself method source p
  | duplicated => exact h.duplicate catalog enter he nested hn source p

/-- What is done with an object that has no copy, whatever the rules say of it. -/
theorem cloneNew (source : ObjectId) :
    R Value fun i => (s.taking (catalog i)).cloneNewBy (nested i) (look i) (enter i) source := by
  refine h.bind h.heap fun heap => h.bind (h.verdict _ source) fun verdict => ?_
  cases verdict with
  | nulled => exact h.pure _
  | shared => exact h.pure _
  | overridden i => exact h.delegate nested hn enter he look hl i source
  | «open» => exact h.bind (h.plan _) fun p => h.cloneByPlan nested hn enter he look hl source p

end Stepwise.Deciding

end DeepCopy
