-- What a clone leaves alone. Objects that were there keep their headers and
-- their bodies, copies and plans that were found stay as they are, and what the
-- rules say of an object does not change. So it is at every step, however it ends.
import DeepCopy.Proofs.Invariants

namespace DeepCopy

/-- A self-copy method that writes to no object that is there. -/
def SelfCopy.Spares (method : SelfCopy) : Prop :=
  ∀ o h, Spared (fun _ => False) h (method o h).2

/-- No routine takes part but the one that rebuilds containers, and the self-copy methods that are
used write to no object that is there. -/
structure Setting.Tame (s : Setting) (run : Run) : Prop extends s.BuiltIn run where
  methods : s.policy.flags.useSelfCopy = true → ∀ cls p method, s.planOf run cls = .ok p →
    p.selfCopy = some method → method.Spares

/-! ## What a run keeps -/

/-- What was there at one point of a run, as far as it still is at a later one: the objects but for
those of the run's own, and everything that was found out. -/
structure Kept (s : Setting) (own : ObjectId → Prop) (run run' : Run) : Prop where
  heap : Spared own run.heap run'.heap
  copies : ∀ o r, run.copies.find? o = some r → run'.copies.find? o = some r
  plans : ∀ cls p, Assoc.find? cls run.plans = some p → Assoc.find? cls run'.plans = some p
  planOf : ∀ cls, s.planOf run' cls = s.planOf run cls
  classShared : ∀ cls, s.classShared run' cls = s.classShared run cls
  resolved : ∀ cls i, Assoc.find? cls run'.resolved = some i →
    Assoc.find? cls run.resolved = some i ∨ i = .containers

namespace Kept

variable {s : Setting} {own own' : ObjectId → Prop} {run run' run'' : Run}

theorem refl (run : Run) : Kept s own run run where
  heap := Spared.refl _
  copies := fun _ _ h => h
  plans := fun _ _ h => h
  planOf := fun _ => rfl
  classShared := fun _ => rfl
  resolved := fun _ _ h => Or.inl h

theorem trans (h₁ : Kept s own run run') (h₂ : Kept s own run' run'') : Kept s own run run'' where
  heap := h₁.heap.trans h₂.heap
  copies := fun o r h => h₂.copies o r (h₁.copies o r h)
  plans := fun cls p h => h₂.plans cls p (h₁.plans cls p h)
  planOf := fun cls => (h₂.planOf cls).trans (h₁.planOf cls)
  classShared := fun cls => (h₂.classShared cls).trans (h₁.classShared cls)
  resolved := by
    intro cls i h
    rcases h₂.resolved cls i h with h | h
    · exact h₁.resolved cls i h
    · exact Or.inr h

theorem mono (h : Kept s own run run') (hm : ∀ o < run.heap.size, own o → own' o) :
    Kept s own' run run' :=
  { h with heap := h.heap.mono hm }

theorem tame (h : Kept s own run run') (ht : s.Tame run) : s.Tame run' where
  overrides := ht.overrides
  named := by
    intro cls p name maker hp
    exact ht.named cls p name maker (h.planOf cls ▸ hp)
  resolved := by
    intro cls i hi
    rcases h.resolved cls i hi with h | h
    · exact ht.resolved cls i h
    · exact h
  methods := by
    intro hf cls p method hp
    exact ht.methods hf cls p method (h.planOf cls ▸ hp)

/-- Two points of a run see the same fate for an object of the earlier one. -/
theorem fate_eq (h : Kept s own run run') {o : ObjectId} (ho : o < run.heap.size) :
    s.fate run' o = s.fate run o := by
  unfold Setting.fate
  rw [h.heap.cls_eq o ho]
  exact Setting.fateOf_congr h.classShared h.planOf _ _

theorem of_memory {memory : Memory} (h : Spared own run.heap memory.heap) :
    Kept s own run { run with memory } :=
  { (refl run : Kept s own run run) with heap := h }

theorem of_finds (h : Finds s (· = .containers) run run') : Kept s own run run' where
  heap := h.heap ▸ Spared.refl _
  copies := h.copies ▸ fun _ _ h => h
  plans := h.plans
  planOf := h.planOf
  classShared := h.classShared
  resolved := h.resolved

theorem of_plan {cls : ClassId} {p : Plan} {plans : Plans}
    (h : run.plans.get s.registry s.classifier cls = .ok (p, plans)) :
    Kept s own run { run with plans } := of_finds (.of_plan h)

theorem of_asked (cls : ClassId) : Kept s own run (s.asked run cls) := of_finds (.of_asked cls)

theorem of_register {o : ObjectId} (v : Value) (h : run.copies.find? o = none) :
    Kept s own run { run with copies := run.copies.put o v } :=
  { (refl run : Kept s own run run) with
    copies := by
      intro o' r hr
      have ho : o' ≠ o := by
        rintro rfl
        rw [h] at hr
        cases hr
      rw [Copies.find?_put_ne _ _ ho]
      exact hr }

theorem of_resolved (journal : List Note) (cls : ClassId) :
    Kept s own run
      { run with journal, resolved := Assoc.put cls .containers run.resolved } :=
  { (refl run : Kept s own run run) with
    resolved := by
      intro c i hi
      rw [Assoc.find?_put] at hi
      split at hi
      · cases hi
        exact Or.inr rfl
      · exact Or.inl hi }

end Kept

/-- However a step ends, it keeps what was there but for objects of its own. -/
def Setting.Keeps {α : Type} (s : Setting) (own : ObjectId → Prop) (x : CloneM α) (run : Run) :
    Prop :=
  Ends x run (fun _ => Kept s own run) (fun _ => Kept s own run)

namespace Setting

open CloneM

variable {α β : Type} {s : Setting} {own own' : ObjectId → Prop} {run : Run}

theorem Keeps.bind_of {x : CloneM β} {f : β → CloneM α} {Q : β → Run → Prop}
    (hx : Ends x run (fun b run' => Kept s own run run' ∧ Q b run') (fun _ => Kept s own run))
    (hf : ∀ b run', Kept s own run run' → Q b run' → s.Keeps own (f b) run') :
    s.Keeps own (x >>= f) run := by
  unfold Keeps
  rw [ends_bind]
  refine ends_mono hx ?_ (fun _ _ h => h)
  rintro b run' ⟨h, hq⟩
  exact ends_mono (hf b run' h hq) (fun _ _ h' => h.trans h') (fun _ _ h' => h.trans h')

theorem Keeps.bind {x : CloneM β} {f : β → CloneM α} (hx : s.Keeps own x run)
    (hf : ∀ b run', Kept s own run run' → s.Keeps own (f b) run') : s.Keeps own (x >>= f) run :=
  Keeps.bind_of (ends_mono hx (fun _ _ h => ⟨h, trivial⟩) (fun _ _ h => h))
    fun b run' h (_ : True) => hf b run' h

theorem Keeps.mono {x : CloneM α} (hx : s.Keeps own x run)
    (hm : ∀ o < run.heap.size, own o → own' o) : s.Keeps own' x run :=
  ends_mono hx (fun _ _ h => h.mono hm) (fun _ _ h => h.mono hm)

theorem keeps_pure (a : α) : s.Keeps own (pure a) run := Kept.refl run

theorem keeps_fail (e : CloneError) : s.Keeps own (fail e : CloneM α) run := Kept.refl run

theorem keeps_onMemory {x : CopyM α} (h : Ends x run.memory
    (fun _ m => Spared own run.heap m.heap) (fun _ m => Spared own run.heap m.heap)) :
    s.Keeps own (onMemory x) run :=
  ends_onMemory.mpr (ends_mono h (fun _ _ => Kept.of_memory) (fun _ _ => Kept.of_memory))

/-- A step that writes to an object of its own, or fails before that. -/
theorem keeps_touching {target : ObjectId} {x : CopyM α} {E : Stop → Prop} (hm : own target)
    (h : Ends x run.memory (fun _ m => Touched target run.heap m.heap)
      (fun e m => E e ∧ m = run.memory)) : s.Keeps own (onMemory x) run := by
  refine keeps_onMemory (ends_mono h ?_ ?_)
  · intro _ _ ht
    exact Spared.of_touched ht hm
  · rintro _ _ ⟨-, rfl⟩
    exact Spared.refl _

theorem keeps_heap {f : Heap → CloneM α} (hf : s.Keeps own (f run.heap) run) :
    s.Keeps own (heap >>= f) run := hf

variable (own) in
/-- A plan is looked up or made, and that is all. -/
theorem ends_plan_kept (cls : ClassId) :
    Ends (s.plan cls) run
      (fun p run' => Kept s own run run' ∧ s.planOf run cls = .ok p ∧ ∃ plans,
        Assoc.find? cls plans = some p ∧ run' = { run with plans })
      (fun _ => Kept s own run) := by
  rw [ends_plan]
  split
  · rename_i p plans hp
    refine ⟨Kept.of_plan hp, ?_, plans, Plans.find?_get hp, rfl⟩
    rw [planOf, hp]
    rfl
  · exact Kept.refl run

/-! ## The invariant -/

variable {nested : Value → CloneM Value} {source target : ObjectId}

/-- What the clone of a nested value leaves alone: everything that is there when it starts. -/
def Nests (s : Setting) (nested : Value → CloneM Value) : Prop :=
  ∀ run v, s.Tame run → s.Keeps (run.heap.size ≤ ·) (nested v) run

theorem Nests.keeps (hn : s.Nests nested) (ht : s.Tame run) (v : Value) :
    s.Keeps own (nested v) run :=
  (hn run v ht).mono fun _ ho hle => absurd hle (Nat.not_le.mpr ho)

/-- From runs without routines of their own on, all is kept but objects of the run's own. -/
def keeping (s : Setting) (own : ObjectId → Prop) : Invariant where
  Good := s.Tame
  Later := Kept s own
  Stopped run _ := Kept s own run
  Allows _ _ := True
  Gives _ _ _ := True
  refl _ := Kept.refl _
  trans := Kept.trans
  good ht h := h.tame ht
  stopped := Kept.trans
  failed _ _ := Kept.refl _
  blamed h := h
  allows _ h := h
  gives _ h := h

theorem keeps_of_keeping {x : CloneM α} {Q : α → Run → Prop} (ht : s.Tame run)
    (h : (s.keeping own).Maintains x run Q) : s.Keeps own x run :=
  ends_mono (h ht) (fun _ _ h => h.1) fun _ _ h => h

theorem Nests.clones (hn : s.Nests nested) : (s.keeping own).Clones nested :=
  fun _ v _ ht => ends_mono (hn.keeps ht v) (fun _ _ h => ⟨h, trivial⟩) fun _ _ h => h

theorem receives_keeping (hm : own target) : (s.keeping own).Receives target := by
  intro α x hx run _
  refine ends_mono (keeps_touching (E := fun e => e ≠ .tooDeep) hm ?_) (fun _ _ h => ⟨h, trivial⟩)
    fun _ _ h => h
  exact ends_mono (hx run.memory) (fun _ _ h => h.1) fun _ _ h => h

/-! ## Filling copies -/

section Filling

variable (hn : s.Nests nested) (ht : s.Tame run)
include hn ht

theorem keeps_cloneContents (c : Container) : s.Keeps own (cloneContents nested c) run :=
  keeps_of_keeping ht (Invariant.maintains_cloneContents hn.clones fun _ _ => trivial)

variable (hm : own target)
include hm

theorem keeps_cloneElements (index : Nat) (vs : List Value) :
    s.Keeps own (s.cloneElements nested target index vs) run :=
  keeps_of_keeping ht (Invariant.maintains_cloneElements hn.clones
    (fun run index _ w _ =>
      receives_keeping hm (s.backend.writesTo_writeElement target index w) run)
    (fun _ _ => trivial) index)

theorem keeps_copyField (bulk : Bool) (f : PlannedField) :
    s.Keeps own (s.copyField nested source target bulk f) run :=
  keeps_of_keeping ht (Invariant.maintains_copyField_of_receives hn.clones
    ((s.keeping own).follows_none s source) (receives_keeping hm) bulk f fun _ _ _ _ _ => trivial)

variable (own) in
theorem keeps_copyFields (p : Plan) : s.Keeps own (s.copyFields nested source target p) run :=
  keeps_of_keeping ht (Invariant.maintains_copyFields hn.clones
    ((s.keeping own).follows_none s source) (receives_keeping hm) fun _ _ _ _ _ _ _ _ => trivial)

end Filling

/-! ## Duplicates -/

/-- A new object: all that was there is kept, and the new one has the next identity. -/
theorem ends_create_copy {x : CopyM ObjectId} {cls : ClassId} {E : Stop → Memory → Prop}
    (h : Ends x run.memory
      (fun o m => o = run.heap.size ∧ ∃ body, m.heap = run.heap.add (Object.new cls body))
      (fun e m => E e m ∧ m.heap = run.heap)) :
    Ends (onMemory x) run
      (fun o run' => o = run.heap.size ∧ Kept s own run run' ∧ run'.copies = run.copies)
      (fun _ => Kept s own run) := by
  rw [ends_onMemory]
  refine ends_mono h ?_ ?_
  · intro o m hpost
    rcases hpost with ⟨rfl, body, hm⟩
    exact ⟨rfl, Kept.of_memory (hm ▸ Spared.of_add _), rfl⟩
  · rintro e m ⟨-, hm⟩
    exact Kept.of_memory (hm ▸ Spared.refl _)

/-- A step that finds a new object goes on with an object of its own. -/
theorem keeps_create {x : CloneM ObjectId} {f : ObjectId → CloneM α}
    (hx : Ends x run
      (fun o run' => o = run.heap.size ∧ Kept s own run run' ∧ run'.copies = run.copies)
      (fun _ => Kept s own run))
    (hf : ∀ o run', run.heap.size ≤ o → s.Keeps own (f o) run') :
    s.Keeps own (x >>= f) run := by
  refine Keeps.bind_of (Q := fun o _ => run.heap.size ≤ o) (ends_mono hx ?_ (fun _ _ h => h)) ?_
  · intro o run' hpost
    rcases hpost with ⟨ho, h, -⟩
    exact ⟨h, Nat.le_of_eq ho.symm⟩
  · intro o run' _ ho
    exact hf o run' ho

theorem ends_slotItems (source : ObjectId) :
    Ends (s.slotItems source) run
      (fun items run' => run.heap.body source = .slots items ∧ run' = run)
      (fun e run' => e ≠ .tooDeep ∧ run' = run) := by
  simp only [slotItems, ends_bind, ends_heap]
  split
  · rename_i items hb
    exact ⟨hb, rfl⟩
  · exact ⟨by simp, rfl⟩

/-- A step that makes the next object, or leaves no more than that behind if it fails. -/
def MakesNext (m : Memory) (make : CopyM ObjectId) : Prop :=
  Ends make m (fun o m' => o = m.heap.size ∧ ∃ x, m'.heap = m.heap.add x)
    fun e m' => e ≠ .tooDeep ∧ Grown m.heap m'.heap

theorem makesNext_allocate (b : Backend) (m : Memory) (p : Plan) : MakesNext m (b.allocate p) := by
  refine ends_mono (b.ends_allocate p) ?_ ?_
  · rintro o m' ⟨ho, body, hm⟩
    exact ⟨ho, _, hm⟩
  · rintro _ m' ⟨⟨c, rfl⟩, hm⟩
    exact ⟨by simp, Or.inl hm⟩

theorem makesNext_allocateSlots (b : Backend) (m : Memory) (cls : ClassId) (length : Nat) :
    MakesNext m (b.allocateSlots cls length) := by
  refine ends_mono (b.ends_allocateSlots cls length) ?_ ?_
  · rintro o m' ⟨ho, body, hm⟩
    exact ⟨ho, _, hm⟩
  · rintro _ m' ⟨⟨c, rfl⟩, hm⟩
    exact ⟨by simp, Or.inl hm⟩

theorem makesNext_duplicatePacked (b : Backend) (m : Memory) (source : ObjectId) :
    MakesNext m (b.duplicatePacked source) := by
  refine ends_mono (b.ends_duplicatePacked source) ?_ fun _ _ h => h
  rintro o m' ⟨ho, body, shape, hm⟩
  exact ⟨ho, _, hm⟩

section Duplicating

variable {m : Nat} (hm : m ≤ run.heap.size) (new : run.copies.find? source = none)
include hm new

/-- A copy is made, and a run's own objects are those from `m` on. -/
theorem keeping_makeCopy {make : CopyM ObjectId} {fill : ObjectId → CloneM Unit}
    (hmake : MakesNext run.memory make)
    (hfill : ∀ target run', (s.keeping (m ≤ ·)).Receives target →
      (s.keeping (m ≤ ·)).Maintains (fill target) run' fun _ _ => True) :
    (s.keeping (m ≤ ·)).Maintains (makeCopy register source make fill) run fun _ _ => True := by
  intro ht
  unfold makeCopy
  rw [ends_bind, ends_onMemory]
  refine ends_mono hmake ?_ ?_
  · rintro _ memory ⟨rfl, x, hx⟩
    have hmade : Kept s (m ≤ ·) run { run with memory } := Kept.of_memory (hx ▸ Spared.of_add x)
    have h : Kept s (m ≤ ·) run
        { run with memory, copies := run.copies.put source (.ref run.heap.size) } :=
      hmade.trans (Kept.of_register _ new)
    rw [ends_bind, ends_register]
    exact ((hfill _ _ (receives_keeping hm)).bind fun _ _ _ _ _ =>
      Invariant.maintains_pure trivial).sequel ht h
  · rintro e memory ⟨-, hgrown⟩
    exact Kept.of_memory (Spared.of_grown hgrown)

theorem copies_keeping : (s.keeping (m ≤ ·)).Copies (s.keeping (m ≤ ·)) s register source
    (MakesNext run.memory) (fun _ _ => True) run where
  copy make fill run₁ _ hmem hcopies hmake hfill :=
    keeping_makeCopy (by rwa [Run.heap, hmem]) (hcopies ▸ new)
      (hmem ▸ hmake) hfill
  allows _ _ _ _ _ := trivial
  plan ht := by
    refine ends_mono (ends_plan_kept (m ≤ ·) _) ?_ fun _ _ h => h
    rintro p _ ⟨h, -, plans, -, rfl⟩
    exact ⟨h, rfl, rfl, makesNext_allocate s.backend run.memory p⟩

/-- A container is duplicated: all that was there is kept. -/
theorem keeps_duplicateContainer (hn : s.Nests nested) (ht : s.Tame run) :
    s.Keeps (m ≤ ·) (s.duplicateContainer nested source) run :=
  keeps_of_keeping ht ((copies_keeping hm new).duplicateContainer hn.clones)

end Duplicating

/-! ## The rules -/

theorem keeping_copyItself {method : SelfCopy} (hs : method.Spares)
    (new : run.copies.find? source = none) (p : Plan) :
    (s.keeping own).Maintains (copyItself method source p) run fun _ _ => True := by
  have h₁ : Kept s own run { run with memory.heap := (method source run.heap).2 } :=
    Kept.of_memory ((hs source run.heap).mono fun _ _ h => h.elim)
  intro _
  unfold copyItself
  simp only [ends_bind, ends_heap, ends_modify]
  cases (method source run.heap).1 with
  | ok copy => exact ⟨h₁.trans (Kept.of_register (.ref copy) new), trivial⟩
  | error e => cases e <;> exact h₁

theorem keeping_cloneNew {m : Nat} (hn : s.Nests nested) (hm : m ≤ run.heap.size)
    (new : run.copies.find? source = none) :
    (s.keeping (m ≤ ·)).Maintains (s.cloneNew nested source) run fun _ _ => True := by
  intro ht
  have hcopies : ∀ run', Finds s (· = .containers) run run' →
      (s.keeping (m ≤ ·)).Copies (s.keeping (m ≤ ·)) s register source (MakesNext run'.memory)
        (fun _ _ => True) run' := fun run' h =>
    copies_keeping (by rwa [h.heap]) (h.copies ▸ new)
  refine Invariant.maintains_cloneNewBy (ht.toBuiltIn.employs source) (fun _ h => Kept.of_finds h)
    (fun _ _ _ => trivial) (fun _ _ _ => trivial) ?_ ?_ ?_ ht
  · rintro - _ run' rfl h
    refine Invariant.maintains_delegateBy (P := fun _ _ => True)
      ((hcopies run' h).duplicateContainer hn.clones) fun copy run₂ _ _ => ?_
    exact ends_settle (fun _ => ⟨Kept.refl _, trivial⟩)
      fun hnone => ⟨Kept.of_register copy hnone, trivial⟩
  · intro _ p method run' h hp hon hself
    exact keeping_copyItself (ht.methods hon _ p method hp hself) (h.copies ▸ new) p
  · intro _ p run' h _
    exact (hcopies run' h).duplicate hn.clones (makesNext_allocate s.backend _ p)
      (makesNext_allocateSlots s.backend _ _) (makesNext_duplicatePacked s.backend _ source)

/-- A clone keeps all that is there when it starts, however deep it goes. -/
theorem nests_cloneValue (s : Setting) (depth : Nat) : s.Nests (cloneValue s depth) := by
  have nests : ∀ {nested : Value → CloneM Value}, (s.keeping fun _ => False).Clones nested →
      s.Nests nested := fun hn run v ht =>
    (keeps_of_keeping ht (hn run v trivial)).mono fun _ _ h => h.elim
  refine nests (Invariant.clones_cloneValue (ι := Unit) (I := fun _ => s.keeping fun _ => False)
    (fun _ _ _ _ _ => trivial) (fun _ _ _ _ _ _ _ => trivial) (fun _ run _ => Kept.refl run)
    (fun depth hn _ run o _ new ht => ?_) depth ())
  refine ends_mono (keeping_cloneNew (nests (hn ())) (Nat.le_refl _) new ht) ?_ ?_
  · exact fun _ _ h => ⟨h.1.mono fun _ ho hle => absurd hle (Nat.not_le.mpr ho), trivial⟩
  · exact fun _ _ h => h.mono fun _ ho hle => absurd hle (Nat.not_le.mpr ho)

end Setting

end DeepCopy
