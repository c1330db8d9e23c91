-- A clone that goes well. It leaves alone what was there, and what stands for an
-- array is an array or nothing, so that no write of a reference is refused. The
-- plans of registered classes are found.
import DeepCopy.Proofs.InstanceWrites
import DeepCopy.Proofs.Orderly

namespace DeepCopy

/-- A clone that was begun in `base` and has gone well so far. -/
structure Thriving (s : Setting) (base run : Run) : Prop where
  kept : Kept s (base.heap.size ≤ ·) base run
  /-- What stands for an array can be put where an array was. -/
  arrays : ∀ o v, run.copies.find? o = some v → Field.takesArray base.heap (.ref o) = true →
    Field.takesArray run.heap v = true

namespace Thriving

variable {s : Setting} {base run run' : Run}

theorem start (h : base.copies = {}) : Thriving s base base := by
  refine ⟨Kept.refl base, ?_⟩
  intro o v hv
  rw [h, Copies.find?_empty] at hv
  cases hv

theorem body_eq (h : Thriving s base run) {o : ObjectId} (ho : o < base.heap.size) :
    run.heap.body o = base.heap.body o := h.kept.heap.body_eq o ho (Nat.not_le.mpr ho)

theorem cls_eq (h : Thriving s base run) {o : ObjectId} (ho : o < base.heap.size) :
    run.heap.cls o = base.heap.cls o := h.kept.heap.cls_eq o ho

theorem shape_eq (h : Thriving s base run) {o : ObjectId} (ho : o < base.heap.size) :
    run.heap.shape o = base.heap.shape o := h.kept.heap.shape_eq o ho

/-- A step that lets no new value stand for anything. -/
theorem step (h : Thriving s base run) (hk : Kept s (base.heap.size ≤ ·) run run')
    (hc : run'.copies = run.copies) : Thriving s base run' := by
  refine ⟨h.kept.trans hk, ?_⟩
  rw [hc]
  intro o v hv ha
  exact takesArray_mono hk.heap (h.arrays o v hv ha)

theorem register (h : Thriving s base run) {o : ObjectId} {v : Value}
    (new : run.copies.find? o = none)
    (hv : Field.takesArray base.heap (.ref o) = true → Field.takesArray run.heap v = true) :
    Thriving s base { run with copies := run.copies.put o v } := by
  refine ⟨h.kept.trans (Kept.of_register v new), ?_⟩
  intro o' v' hf ha
  by_cases ho : o' = o
  · subst ho
    rw [Copies.find?_put] at hf
    cases hf
    exact hv ha
  · rw [Copies.find?_put_ne _ _ ho] at hf
    exact h.arrays o' v' hf ha

/-- A copy is made for a source that has none, and stands for it. -/
theorem made (h : Thriving s base run) {source : ObjectId} (new : run.copies.find? source = none)
    {body : Body} {m : Memory}
    (hm : m.heap = run.heap.add (Object.new (base.heap.cls source) body))
    (hshape : body.shape = base.heap.shape source) :
    Thriving s base
      { run with memory := m, copies := run.copies.put source (.ref run.heap.size) } := by
  have hs : Spared (base.heap.size ≤ ·) run.heap m.heap := hm ▸ Spared.of_add _
  have h₁ : Thriving s base { run with memory := m } := h.step (Kept.of_memory hs) rfl
  refine h₁.register new fun ha => ?_
  show Field.takesArray m.heap (.ref run.heap.size) = true
  simp only [Field.takesArray, Heap.isArrayRef] at ha ⊢
  rw [hm, Heap.shape, Heap.get_add_new]
  exact (congrArg Shape.isArray hshape).trans ha

end Thriving

namespace Setting

open CloneM

variable {s : Setting} {base run : Run}

/-- A registered class has a plan. -/
theorem exists_planOf {cls : ClassId} {e : Registry.Entry} (he : s.registry.get? cls = some e)
    (run : Run) : ∃ p, s.planOf run cls = .ok p := by
  unfold planOf Plans.get
  split
  · exact ⟨_, rfl⟩
  · refine ⟨Plan.ofEntry s.registry s.classifier cls e, ?_⟩
    simp only [Plan.make, Registry.entry, he]
    rfl

/-- The plan of a class is found, and what was known is known after that. -/
theorem succeeds_plan_of_planOf {run : Run} {cls : ClassId} {p : Plan}
    (h : s.planOf run cls = .ok p) : Succeeds (s.plan cls) run fun q run' => q = p ∧
      ∃ plans, run.plans.get s.registry s.classifier cls = .ok (p, plans) ∧
        run' = { run with plans } := by
  unfold planOf at h
  unfold Succeeds
  rw [ends_plan]
  cases hg : run.plans.get s.registry s.classifier cls with
  | error err =>
    rw [hg] at h
    cases h
  | ok found =>
    rw [hg] at h
    cases h
    exact ⟨rfl, _, rfl, rfl⟩

/-- The plan of a registered class is found. -/
theorem succeeds_plan {own : ObjectId → Prop} {cls : ClassId} {e : Registry.Entry}
    (hf : Plans.Fit s.registry base.plans) (hk : Kept s own base run)
    (he : s.registry.get? cls = some e) :
    Succeeds (s.plan cls) run fun p run' => p.Describes cls e ∧ s.planOf base cls = .ok p ∧
      Kept s (fun _ => False) run run' ∧ ∃ plans, run' = { run with plans } := by
  obtain ⟨p, hp⟩ := exists_planOf he run
  have hbase := (hk.planOf cls).symm.trans hp
  obtain ⟨e', he', hd⟩ := describes_of_planOf hf hbase
  cases he.symm.trans he'
  refine ends_mono (succeeds_plan_of_planOf hp) ?_ fun _ _ h => h
  rintro _ _ ⟨rfl, plans, hg, rfl⟩
  exact ⟨hd, hbase, Kept.of_plan hg, plans, rfl⟩

/-- The implementor of containers is asked for no class but those of containers. -/
def FitsOverrides (s : Setting) : Prop :=
  s.policy.flags.useOverrides = true → ∀ cls i, s.policy.override? cls = some i →
    ∃ e kind, s.registry.get? cls = some e ∧ e.decl.kind = .container kind

theorem fitsOverrides_standard (hr : s.registry.Sound) (hp : s.policy = .standard) :
    s.FitsOverrides := by
  intro _ cls i hi
  rw [hp] at hi
  obtain ⟨kind, rfl⟩ := Policy.eq_containerClass_of_standard hi
  obtain ⟨e, he, hk⟩ := hr.containers kind
  exact ⟨e, kind, he, hk⟩

end Setting

end DeepCopy
