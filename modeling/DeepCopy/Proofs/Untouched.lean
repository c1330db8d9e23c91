-- Cloning never modifies what exists. Whatever a cloner is asked to do and
-- however that ends, objects that were there keep their headers and bodies and
-- no class changes; only a copy into an instance writes to that instance.
import DeepCopy.Proofs.Frame
import DeepCopy.Proofs.Layouts
import DeepCopy.SelfCopies
import DeepCopy.Workbench

namespace DeepCopy

namespace Setting

open CloneM

variable {s : Setting} {own : ObjectId → Prop} {run : Run} {source target : ObjectId}

/-! ## Deep copies -/

theorem Tame.begun (ht : s.Tame run) : s.Tame { run with copies := {} } :=
  ⟨⟨ht.overrides, ht.named, ht.resolved⟩, ht.methods⟩

theorem spared_clone (ht : s.Tame run) (v : Value) :
    Ends (s.clone v) run (fun _ run' => Spared (run.heap.size ≤ ·) run.heap run'.heap)
      (fun _ run' => Spared (run.heap.size ≤ ·) run.heap run'.heap) := by
  simp only [clone, begin, ends_bind, ends_modify, ends_heap]
  exact ends_mono (nests_cloneValue s _ _ v ht.begun) (fun _ _ h => h.heap) (fun _ _ h => h.heap)

/-- The target is written to from the start, since it stands for the source. -/
theorem spared_copyInto (ht : s.Tame run) (source target : ObjectId) :
    Ends (s.copyInto source target) run
      (fun _ run' => Spared (fun o => run.heap.size ≤ o ∨ o = target) run.heap run'.heap)
      (fun _ run' => Spared (fun o => run.heap.size ≤ o ∨ o = target) run.heap run'.heap) := by
  simp only [copyInto, begin, ends_bind, ends_modify, ends_heap]
  split
  · exact Spared.refl _
  · split
    · exact Spared.refl _
    · split
      · exact Spared.refl _
      · rw [ends_bind]
        refine ends_mono (ends_plan_kept _ _) ?_ (fun _ _ h => h.heap)
        intro p _ hpost
        rcases hpost with ⟨h₁, -, plans, -, rfl⟩
        rw [ends_bind, ends_register]
        have h₂ := h₁.trans (Kept.of_register (.ref target) (Copies.find?_empty source))
        refine ends_mono (keeps_copyFields (fun o => run.heap.size ≤ o ∨ o = target)
          (nests_cloneValue s _) (h₂.tame ht.begun) (Or.inr rfl) p) ?_ ?_
        · intro _ _ h
          exact (h₂.trans h).heap
        · intro _ _ h
          exact (h₂.trans h).heap

/-! ## Copies that go one level deep -/

theorem keeps_writeElements (hm : own target) (index : Nat) (vs : List Value) :
    s.Keeps own (s.writeElements target index vs) run := by
  induction vs generalizing run index with
  | nil => exact keeps_pure ()
  | cons v vs ih =>
    refine Keeps.bind (keeps_touching hm (s.backend.ends_writeElement target index v))
      fun _ run₁ _ => ?_
    exact ih (index + 1)

theorem keeps_carryFields (hm : own target) (bulk : Bool) (fs : List PlannedField) :
    s.Keeps own (s.carryFields source target bulk fs) run := by
  induction fs generalizing run with
  | nil => exact keeps_pure ()
  | cons f fs ih =>
    unfold carryFields
    split
    · exact ih
    · exact Keeps.bind (keeps_touching hm (s.backend.ends_copyField f source target none))
        fun _ run₁ _ => ih

theorem keeps_shallowSlots (source : ObjectId) :
    s.Keeps (run.heap.size ≤ ·) (s.shallowSlots source) run := by
  unfold shallowSlots
  refine Keeps.bind_of (ends_mono (ends_slotItems source) ?_ ?_)
    fun items run₀ _ (hr : run₀ = run) => ?_
  · rintro items _ ⟨-, rfl⟩
    exact ⟨Kept.refl _, rfl⟩
  · rintro _ _ ⟨-, rfl⟩
    exact Kept.refl _
  · subst hr
    refine keeps_heap (keeps_create (ends_create_copy (s.backend.ends_allocateSlots _ _))
      fun o run₁ ho => ?_)
    exact Keeps.bind (keeps_writeElements ho 0 items) fun _ _ _ => keeps_pure o

theorem keeps_shallowContainer (source : ObjectId) :
    s.Keeps (run.heap.size ≤ ·) (s.shallowContainer source) run := by
  unfold shallowContainer
  refine keeps_heap (Keeps.bind_of (ends_plan_kept _ _) ?_)
  intro p _ _ hpost
  rcases hpost with ⟨-, plans, -, rfl⟩
  refine keeps_create (ends_create_copy (s.backend.ends_allocate p)) fun o run₁ ho => ?_
  apply keeps_heap
  split
  · exact keeps_fail _
  · exact Keeps.bind (keeps_touching ho (Backend.ends_setContents p o _))
      fun _ _ _ => keeps_pure o

theorem keeps_shallowRecord (source : ObjectId) :
    s.Keeps (run.heap.size ≤ ·) (s.shallowRecord source) run := by
  unfold shallowRecord
  refine keeps_heap (Keeps.bind_of (ends_plan_kept _ _) ?_)
  intro p _ _ hpost
  rcases hpost with ⟨-, plans, -, rfl⟩
  refine keeps_create (ends_create_copy (s.backend.ends_allocate p)) fun o run₁ ho => ?_
  refine Keeps.bind (keeps_onMemory ?_) fun bulk run₂ _ => ?_
  · refine ends_mono (s.backend.ends_copyBlock source o) ?_ (fun _ _ h => h.elim)
    intro _ _ h
    exact Spared.of_touched h ho
  · exact Keeps.bind (keeps_carryFields ho bulk p.fields) fun _ _ _ => keeps_pure o

theorem keeps_shallow (source : ObjectId) :
    s.Keeps (run.heap.size ≤ ·) (s.shallow source) run := by
  unfold shallow
  apply keeps_heap
  split
  · refine keeps_onMemory (ends_mono (s.backend.ends_duplicatePacked source) ?_ ?_)
    · intro _ memory hpost
      rcases hpost with ⟨-, body, shape, h⟩
      exact h ▸ Spared.of_add _
    · rintro _ memory ⟨-, h⟩
      exact Spared.of_grown h
  · exact keeps_shallowSlots source
  · exact keeps_shallowContainer source
  · exact keeps_shallowRecord source

end Setting

/-! ## Self-copy methods -/

/-- The self-copy methods that classes can be given write to no object that is there. -/
theorem SelfCopies.spares_of_named {name : String} {method : SelfCopy}
    (h : SelfCopies.named? name = some method) : method.Spares := by
  intro o heap
  unfold named? at h
  split at h <;> cases h
  · unfold shallow
    split
    · exact Spared.of_add _
    · exact Spared.refl heap
  · exact Spared.refl heap
  · exact Spared.of_add _
  · exact Spared.refl heap
  · exact Spared.refl heap
  · exact Spared.refl heap

/-! ## On the workbench -/

namespace Workbench

/-- Every object that was there is as it was, with few exceptions, and so is every class. -/
structure Unchanged (except : ObjectId → Prop) (w w' : Workbench) : Prop where
  size_le : w.heap.size ≤ w'.heap.size
  get_eq : ∀ o < w.heap.size, ¬ except o → w'.heap.get o = w.heap.get o
  registries_eq : w'.registries = w.registries

/-- No routine takes part in what a cloner does but the one that rebuilds containers, and the
self-copy methods it uses write to no object that is there. -/
def Tame (w : Workbench) (name : String) : Prop :=
  ∀ c, Assoc.find? name w.cloners = some c → (w.setting c).Tame (w.start c)

@[simp] theorem heap_keepRun (name : String) (c : Cloner) (run : Run) (w : Workbench) :
    (keepRun name c run w).heap = run.heap := by
  unfold keepRun keepMemory
  cases c.portable <;> rfl

@[simp] theorem registries_keepRun (name : String) (c : Cloner) (run : Run) (w : Workbench) :
    (keepRun name c run w).registries = w.registries := by
  unfold keepRun keepMemory
  cases c.portable <;> rfl

/-- An operation of a cloner changes the heap as it does by itself. -/
theorem ends_operate {α : Type} {w : Workbench} {name : String} {op : Setting → CloneM α}
    {P : Workbench → Prop} (hnone : Assoc.find? name w.cloners = none → P w)
    (hsome : ∀ c, Assoc.find? name w.cloners = some c →
      Ends (op (w.setting c)) (w.start c) (fun _ run => P (keepRun name c run w))
        (fun _ run => P (keepRun name c run w))) :
    Ends (operate name op) w (fun _ => P) (fun _ => P) := by
  simp only [operate, clonerOf, named, ends_bind, ends_get]
  cases hc : Assoc.find? name w.cloners with
  | none => exact hnone hc
  | some c =>
    have h := hsome c hc
    simp only [ends_pure]
    unfold Ends at h
    cases hr : op (w.setting c) (w.start c) with
    | ok a run => rw [hr] at h; exact h
    | error e run => rw [hr] at h; exact h

theorem unchanged_operate {α : Type} {w : Workbench} {name : String} {op : Setting → CloneM α}
    {except : ObjectId → Prop}
    (h : ∀ c, Assoc.find? name w.cloners = some c →
      Ends (op (w.setting c)) (w.start c)
        (fun _ run => Spared (fun o => w.heap.size ≤ o ∨ except o) w.heap run.heap)
        (fun _ run => Spared (fun o => w.heap.size ≤ o ∨ except o) w.heap run.heap)) :
    w.Unchanged except (after (operate name op) w) := by
  have keep : ∀ c run, Spared (fun o => w.heap.size ≤ o ∨ except o) w.heap run.heap →
      w.Unchanged except (keepRun name c run w) := by
    intro c run hs
    refine ⟨by simpa using hs.size_le, ?_, by simp⟩
    intro o ho hn
    rw [heap_keepRun]
    exact hs.get_eq ho fun h => h.elim (Nat.not_le.mpr ho) hn
  refine ends_after (ends_operate (fun _ => ⟨Nat.le_refl _, fun _ _ _ => rfl, rfl⟩) ?_)
  intro c hc
  exact ends_mono (h c hc) (fun _ run => keep c run) (fun _ run => keep c run)

/-- Cloning never modifies what exists: after a deep clone or a shallow one, ended well or not,
every object has the header and the body it had, and no class has changed. After a copy into an
instance the same holds of all objects but that instance. -/
theorem cloning_leaves_all_objects_and_classes_as_they_were (w : Workbench) (name : String)
    (ht : w.Tame name) :
    (∀ v, w.Unchanged (fun _ => False) (after (operate name fun s => s.clone v) w)) ∧
    (∀ o, w.Unchanged (fun _ => False) (after (operate name fun s => s.shallow o) w)) ∧
    (∀ source target, w.Unchanged (· = target)
      (after (operate name fun s => s.copyInto source target) w)) := by
  refine ⟨?_, ?_, ?_⟩
  · intro v
    refine unchanged_operate fun c hc => ?_
    exact ends_mono (Setting.spared_clone (ht c hc) v)
      (fun _ _ h => h.mono fun _ _ => Or.inl) (fun _ _ h => h.mono fun _ _ => Or.inl)
  · intro o
    refine unchanged_operate fun c hc => ?_
    exact ends_mono (Setting.keeps_shallow o)
      (fun _ _ h => h.heap.mono fun _ _ => Or.inl) (fun _ _ h => h.heap.mono fun _ _ => Or.inl)
  · intro source target
    refine unchanged_operate fun c hc => ?_
    exact Setting.spared_copyInto (ht c hc) source target

/-- A class whose instances copy themselves, an instance of it that refers to itself, and a cloner
that lets it copy itself. -/
def selfCopyingBench : Workbench where
  heap := ⟨#[Object.new 12 (.record [] [.ref 0])]⟩
  registries := [("main", Registry.initial.add
    { name := "Node", superclass := some Registry.rootClass
      fields := [{ name := "next", type := .object Registry.rootClass }]
      selfCopy := some SelfCopies.shallow })]
  stores := #[{ registry := "main" }]
  cloners := [("cloner",
    { portable := none, store := 0
      policy := { Policy.standard with flags := { useSelfCopy := true } } })]

theorem tame_selfCopyingBench : selfCopyingBench.Tame "cloner" := by
  intro c hc
  obtain rfl : _ = c := Option.some.inj hc
  refine ⟨⟨?_, ?_, ?_⟩, ?_⟩
  · intro _ cls i h
    exact Policy.standard_override h
  · intro _ _ _ maker _ _ h
    exact Catalog.initial_maker h
  · intro cls i h
    cases h
  · intro _ cls p method hp hm
    obtain ⟨e, he, hd⟩ := Setting.describes_of_planOf (Plans.fit_nil _) hp
    rw [hd.selfCopy_eq] at hm
    rcases Registry.get?_add he with ⟨-, he⟩ | ⟨-, rfl⟩
    · rw [Registry.initial_selfCopy he] at hm
      cases hm
    · cases hm
      exact SelfCopies.spares_of_named (show SelfCopies.named? "shallow" = some _ from rfl)

/-- An object that copied itself is as it was. -/
theorem self_copying_objects_stay_as_they_were :
    selfCopyingBench.Unchanged (fun _ => False)
      (after (operate "cloner" fun s => s.clone (.ref 0)) selfCopyingBench) :=
  (cloning_leaves_all_objects_and_classes_as_they_were selfCopyingBench "cloner"
    tame_selfCopyingBench).1 (.ref 0)

end Workbench

end DeepCopy
