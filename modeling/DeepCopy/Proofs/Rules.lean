-- The rules of a clone as a reader of the policy would apply them: what is
-- decided about an object by what a run has found out so far. A run finds out
-- more as it goes, but what it would decide never changes by that.
import DeepCopy.Proofs.Ending

namespace DeepCopy

/-- The heap of a run. -/
abbrev Run.heap (run : Run) : Heap := run.memory.heap

theorem CloneM.heap_bind {α : Type} {f : Heap → CloneM α} (run : Run) :
    (heap >>= f) run = f run.heap run := rfl

/-! ## What a run knows -/

namespace Plans

variable {r : Registry} {classify : Classifier} {cls : ClassId} {plans plans' : Plans} {p : Plan}

/-- A plan that is asked for is kept. -/
theorem find?_get (h : plans.get r classify cls = .ok (p, plans')) :
    Assoc.find? cls plans' = some p := by
  unfold Plans.get at h
  split at h
  · rename_i q hq
    cases h
    exact hq
  · cases hm : Plan.make r classify cls with
    | error e => simp [hm, bind, Except.bind] at h
    | ok q =>
      simp only [hm, bind, Except.bind, Except.ok.injEq, Prod.mk.injEq] at h
      obtain ⟨rfl, rfl⟩ := h
      exact Assoc.find?_put_self cls q plans

/-- A plan that is kept stays. -/
theorem find?_get_of_find? (h : plans.get r classify cls = .ok (p, plans')) {cls' : ClassId}
    {q : Plan} (hq : Assoc.find? cls' plans = some q) : Assoc.find? cls' plans' = some q := by
  unfold Plans.get at h
  split at h
  · cases h
    exact hq
  · rename_i hnone
    cases hm : Plan.make r classify cls with
    | error e => simp [hm, bind, Except.bind] at h
    | ok p' =>
      simp only [hm, bind, Except.bind, Except.ok.injEq, Prod.mk.injEq] at h
      obtain ⟨rfl, rfl⟩ := h
      rw [Assoc.find?_put, if_neg]
      · exact hq
      · rintro rfl
        rw [hnone] at hq
        cases hq

/-- Asking for a plan does not change the answer about any class. -/
theorem get_get (h : plans.get r classify cls = .ok (p, plans')) (cls' : ClassId) :
    Prod.fst <$> plans'.get r classify cls' = Prod.fst <$> plans.get r classify cls' := by
  by_cases hc : cls = cls'
  · subst hc
    have h' : plans'.get r classify cls = .ok (p, plans') := by
      unfold Plans.get
      rw [find?_get h]
    rw [h, h']
  · have hf : Assoc.find? cls' plans' = Assoc.find? cls' plans := by
      unfold Plans.get at h
      split at h
      · cases h
        rfl
      · cases hm : Plan.make r classify cls with
        | error e => simp [hm, bind, Except.bind] at h
        | ok p' =>
          simp only [hm, bind, Except.bind, Except.ok.injEq, Prod.mk.injEq] at h
          obtain ⟨rfl, rfl⟩ := h
          rw [Assoc.find?_put, if_neg hc]
    unfold Plans.get
    rw [hf]
    cases Assoc.find? cls' plans with
    | some q => rfl
    | none => cases Plan.make r classify cls' <;> rfl

end Plans

namespace Policy

/-- Asking whether a class is shared does not change the answer about any class. -/
theorem sharesClass_sharesClass (p : Policy) (r : Registry) (cls cls' : ClassId)
    (answers : RootAnswers) :
    (p.sharesClass r cls' (p.sharesClass r cls answers).2).1 =
      (p.sharesClass r cls' answers).1 := by
  unfold sharesClass
  split
  · rfl
  · split
    · rfl
    · unfold askRoots
      by_cases he : p.nonCloneableRoots.isEmpty = true
      · simp only [he, if_true]
      · simp only [he, Bool.false_eq_true, if_false]
        cases hf : Assoc.find? cls answers with
        | some b => rfl
        | none =>
          simp only [Assoc.find?_put]
          by_cases hc : cls = cls'
          · subst hc
            simp only [if_true, hf]
          · simp only [hc, if_false]
            cases Assoc.find? cls' answers <;> rfl

/-- An answer that is remembered was before, or it is the one that the registry gives. -/
theorem find?_sharesClass {p : Policy} {r : Registry} {cls cls' : ClassId} {answers : RootAnswers}
    {b : Bool} (h : Assoc.find? cls' (p.sharesClass r cls answers).2 = some b) :
    Assoc.find? cls' answers = some b ∨ b = p.belowRoot r cls' := by
  unfold sharesClass askRoots at h
  split at h
  · exact Or.inl h
  · split at h
    · exact Or.inl h
    · split at h
      · exact Or.inl h
      · rw [Assoc.find?_put] at h
        split at h
        · rename_i hc
          cases h
          exact Or.inr (hc ▸ rfl)
        · exact Or.inl h

end Policy

/-! ## What a run would decide -/

/-- What becomes of an object that has no copy. -/
inductive Fate where
  /-- It turns into null. -/
  | nulled
  /-- It stands for itself. -/
  | shared
  /-- It gets a copy, or the clone fails. -/
  | copied
deriving DecidableEq

namespace Setting

variable (s : Setting) (run : Run)

/-- The plan of a class, kept or yet to be made. -/
def planOf (cls : ClassId) : Except CloneError Plan :=
  Prod.fst <$> run.plans.get s.registry s.classifier cls

/-- Whether the policy shares the instances of a class. -/
def classShared (cls : ClassId) : Bool := (s.policy.sharesClass s.registry cls run.answers).1

/-- What the policy says of an object of a class. -/
def judge (cls : ClassId) (o : ObjectId) : Verdict :=
  if s.mode = .minimal then .open
  else if s.policy.nullsClass cls then .nulled
  else if s.classShared run cls || s.policy.sharesObject o then .shared
  else if s.policy.flags.useOverrides then
    match s.policy.override? cls with
    | some i => .overridden i
    | none => .open
  else .open

/-- What becomes of an object of a class by all rules together. -/
def fateOf (cls : ClassId) (o : ObjectId) : Fate :=
  match s.judge run cls o with
  | .nulled => .nulled
  | .shared => .shared
  | .overridden _ => .copied
  | .open =>
    match s.planOf run cls with
    | .ok p =>
      match s.planVerdict p with
      | .shared => .shared
      | _ => .copied
    | .error _ => .copied

/-- What becomes of an object. -/
def fate (o : ObjectId) : Fate := s.fateOf run (run.heap.cls o) o

/-- The run after it has asked whether a class is shared. -/
def asked (cls : ClassId) : Run :=
  if s.mode = .minimal ∨ s.policy.nullsClass cls then run
  else { run with answers := (s.policy.sharesClass s.registry cls run.answers).2 }

variable {s run}

theorem ends_plan {Q : Plan → Run → Prop} {E : Stop → Run → Prop} (cls : ClassId) :
    Ends (s.plan cls) run Q E ↔
      match run.plans.get s.registry s.classifier cls with
      | .ok (p, plans) => Q p { run with plans }
      | .error e => E (.failed e) run := by
  simp only [plan, ends_bind, ends_get]
  cases run.plans.get s.registry s.classifier cls <;> rfl

theorem ends_verdict {Q : Verdict → Run → Prop} {E : Stop → Run → Prop} (cls : ClassId)
    (o : ObjectId) :
    Ends (s.verdict cls o) run Q E ↔ Q (s.judge run cls o) (s.asked run cls) := by
  unfold verdict judge asked
  by_cases hm : s.mode = .minimal
  · simp only [hm, if_true, true_or, ends_pure]
  · by_cases hn : s.policy.nullsClass cls = true
    · simp only [hm, hn, if_true, if_false, or_true, ends_pure]
    · simp only [hm, hn, Bool.false_eq_true, if_false, or_false, ends_bind, sharesClass,
        ends_modifyGet, ends_pure, classShared]
      rfl

variable (s run) in
theorem asked_eq_or (cls : ClassId) : s.asked run cls = run ∨
    s.asked run cls =
      { run with answers := (s.policy.sharesClass s.registry cls run.answers).2 } := by
  unfold asked
  split
  · exact Or.inl rfl
  · exact Or.inr rfl

@[simp] theorem copies_asked (cls : ClassId) : (s.asked run cls).copies = run.copies := by
  unfold asked
  split <;> rfl

@[simp] theorem memory_asked (cls : ClassId) : (s.asked run cls).memory = run.memory := by
  unfold asked
  split <;> rfl

theorem cloneWith_of_planVerdict {p : Plan} {name : String} (h : s.planVerdict p = .named name) :
    p.cloneWith = some name := by
  unfold planVerdict at h
  split at h
  · cases h
  · split at h
    · cases h
    · split at h
      · rename_i hc
        cases h
        exact hc
      · split at h <;> cases h
      · cases h

theorem selfCopy_of_planVerdict {p : Plan} {method : SelfCopy}
    (h : s.planVerdict p = .selfCopied method) :
    s.policy.flags.useSelfCopy = true ∧ p.selfCopy = some method := by
  unfold planVerdict at h
  split at h
  · cases h
  · split at h
    · cases h
    · split at h
      · cases h
      · rename_i hm
        split at h
        · rename_i hu
          cases h
          exact ⟨hu, hm⟩
        · cases h
      · cases h

/-- Two runs decide alike if they know alike. -/
theorem judge_congr {run' : Run} (h : ∀ c, s.classShared run' c = s.classShared run c)
    (cls : ClassId) (o : ObjectId) : s.judge run' cls o = s.judge run cls o := by
  unfold judge
  rw [h]

theorem fateOf_congr {run' : Run} (h : ∀ c, s.classShared run' c = s.classShared run c)
    (hp : ∀ c, s.planOf run' c = s.planOf run c) (cls : ClassId) (o : ObjectId) :
    s.fateOf run' cls o = s.fateOf run cls o := by
  unfold fateOf
  rw [judge_congr h, hp]

theorem fateOf_of_nulled {cls : ClassId} {o : ObjectId} (h : s.judge run cls o = .nulled) :
    s.fateOf run cls o = .nulled := by
  unfold fateOf
  rw [h]

theorem fateOf_of_shared {cls : ClassId} {o : ObjectId} (h : s.judge run cls o = .shared) :
    s.fateOf run cls o = .shared := by
  unfold fateOf
  rw [h]

theorem fateOf_of_overridden {cls : ClassId} {o : ObjectId} {i : Implementor}
    (h : s.judge run cls o = .overridden i) : s.fateOf run cls o = .copied := by
  unfold fateOf
  rw [h]

theorem fateOf_of_open {cls : ClassId} {o : ObjectId} {p : Plan} (h : s.judge run cls o = .open)
    (hp : s.planOf run cls = .ok p) :
    s.fateOf run cls o =
      match s.planVerdict p with
      | .shared => .shared
      | _ => .copied := by
  unfold fateOf
  rw [h, hp]

end Setting

/-! ## Plans of registered classes -/

/-- A plan says of a class what its entry in the registry says. -/
structure Plan.Describes (p : Plan) (cls : ClassId) (e : Registry.Entry) : Prop where
  cls_eq : p.cls = cls
  name_eq : p.name = e.decl.name
  kind_eq : p.kind = e.decl.kind
  fields_eq : p.fields = e.layout.fields.map fun f => { f with holder := e.decl.name }
  cloneWith_eq : p.cloneWith = e.decl.cloneWith
  selfCopy_eq : p.selfCopy = e.decl.selfCopy
  blockSize_eq : p.blockSize = e.layout.blockSize
  slotCount_eq : p.slotCount = e.layout.slotCount

theorem Plan.describes_ofEntry (r : Registry) (classify : Classifier) (cls : ClassId)
    (e : Registry.Entry) : (ofEntry r classify cls e).Describes cls e :=
  ⟨rfl, rfl, rfl, rfl, rfl, rfl, rfl, rfl⟩

theorem Plan.Describes.mem_layout {p : Plan} {cls : ClassId} {e : Registry.Entry}
    (hd : p.Describes cls e) {f : PlannedField} (hf : f ∈ p.fields) :
    f.toField ∈ e.layout.fields := by
  rw [hd.fields_eq] at hf
  obtain ⟨g, hg, rfl⟩ := List.mem_map.mp hf
  exact hg

/-- Of plans for one class only the classification is not read off the registry. -/
theorem Plan.Describes.eq_of {p p' : Plan} {cls : ClassId} {e : Registry.Entry}
    (h : p.Describes cls e) (h' : p'.Describes cls e) :
    p' = { p with classification := p'.classification } := by
  obtain ⟨rfl, hname, hkind, hfields, hwith, hself, hblock, hslots⟩ := h
  obtain ⟨hcls', hname', hkind', hfields', hwith', hself', hblock', hslots'⟩ := h'
  cases p
  cases p'
  simp_all

/-- All plans describe classes of the registry. -/
def Plans.Fit (r : Registry) (plans : Plans) : Prop :=
  ∀ cls p, Assoc.find? cls plans = some p → ∃ e, r.get? cls = some e ∧ p.Describes cls e

theorem Plan.describes_of_make {r : Registry} {classify : Classifier} {cls : ClassId} {p : Plan}
    (h : Plan.make r classify cls = .ok p) : ∃ e, r.get? cls = some e ∧ p.Describes cls e := by
  unfold make Registry.entry at h
  cases he : r.get? cls with
  | none =>
    rw [he] at h
    cases h
  | some e =>
    rw [he] at h
    cases h
    exact ⟨e, rfl, describes_ofEntry r classify cls e⟩

namespace Plans

variable {r : Registry} {classify : Classifier} {cls : ClassId} {plans plans' : Plans} {p : Plan}

theorem fit_nil (r : Registry) : Fit r [] := fun _ _ h => by cases h

theorem Fit.describes (hf : Fit r plans) (h : plans.get r classify cls = .ok (p, plans')) :
    ∃ e, r.get? cls = some e ∧ p.Describes cls e := by
  unfold Plans.get at h
  split at h
  · rename_i q hq
    cases h
    exact hf cls _ hq
  · cases hm : Plan.make r classify cls with
    | error e => simp [hm, bind, Except.bind] at h
    | ok q =>
      simp only [hm, bind, Except.bind, Except.ok.injEq, Prod.mk.injEq] at h
      obtain ⟨rfl, rfl⟩ := h
      exact Plan.describes_of_make hm

/-- Plans that are made describe classes of the registry as those do that were there. -/
theorem Fit.get (hf : Fit r plans) (h : plans.get r classify cls = .ok (p, plans')) :
    Fit r plans' := by
  intro cls' q hq
  by_cases hc : cls = cls'
  · subst hc
    rw [find?_get h] at hq
    cases hq
    exact hf.describes h
  · unfold Plans.get at h
    split at h
    · cases h
      exact hf cls' q hq
    · cases hm : Plan.make r classify cls with
      | error e => simp [hm, bind, Except.bind] at h
      | ok p' =>
        simp only [hm, bind, Except.bind, Except.ok.injEq, Prod.mk.injEq] at h
        obtain ⟨rfl, rfl⟩ := h
        rw [Assoc.find?_put, if_neg hc] at hq
        exact hf cls' q hq

end Plans

theorem Setting.describes_of_planOf {s : Setting} {run : Run} (hf : Plans.Fit s.registry run.plans)
    {cls : ClassId} {p : Plan} (h : s.planOf run cls = .ok p) :
    ∃ e, s.registry.get? cls = some e ∧ p.Describes cls e := by
  unfold planOf at h
  cases hg : run.plans.get s.registry s.classifier cls with
  | error e =>
    rw [hg] at h
    cases h
  | ok q =>
    rw [hg] at h
    cases h
    exact hf.describes hg

/-! ## Settings without routines of their own -/

/-- No implementor takes part but the one that rebuilds containers. -/
structure Setting.BuiltIn (s : Setting) (run : Run) : Prop where
  overrides : s.policy.flags.useOverrides = true →
    ∀ cls i, s.policy.override? cls = some i → i = .containers
  named : ∀ cls p name maker, s.planOf run cls = .ok p → p.cloneWith = some name →
    Assoc.find? name s.catalog = some maker → maker.implementor = .containers
  resolved : ∀ cls i, Assoc.find? cls run.resolved = some i → i = .containers

theorem Policy.standard_override {cls : ClassId} {i : Implementor}
    (h : Policy.standard.override? cls = some i) : i = .containers := by
  have hm := Assoc.mem_of_find? h
  simp only [standard, List.mem_map, Prod.mk.injEq] at hm
  obtain ⟨_, -, -, hi⟩ := hm
  exact hi.symm

/-- The standard policy has routines for the classes of containers only. -/
theorem Policy.eq_containerClass_of_standard {cls : ClassId} {i : Implementor}
    (h : Policy.standard.override? cls = some i) : ∃ kind, cls = Registry.containerClass kind := by
  have hm := Assoc.mem_of_find? h
  simp only [standard, List.mem_map, Prod.mk.injEq] at hm
  obtain ⟨kind, -, hc, -⟩ := hm
  exact ⟨kind, hc.symm⟩

theorem Catalog.initial_maker {name : String} {maker : Maker}
    (h : Assoc.find? name Catalog.initial = some maker) : maker.implementor = .containers := by
  have hm := Assoc.mem_of_find? h
  simp only [initial, List.mem_singleton, Prod.mk.injEq] at hm
  rw [hm.2]

/-- Only an implementor that is registered for the class is asked, and only if those are used. -/
theorem Setting.override_of_judge {s : Setting} {run : Run} {cls : ClassId} {o : ObjectId}
    {i : Implementor} (h : s.judge run cls o = .overridden i) :
    s.policy.flags.useOverrides = true ∧ s.policy.override? cls = some i := by
  unfold judge at h
  split at h
  · cases h
  · split at h
    · cases h
    · split at h
      · cases h
      · split at h
        · rename_i hf
          split at h
          · rename_i i' hi
            cases h
            exact ⟨hf, hi⟩
          · cases h
        · cases h

theorem Setting.BuiltIn.of_judge {s : Setting} {run : Run} (h : s.BuiltIn run) {cls : ClassId}
    {o : ObjectId} {i : Implementor} (hj : s.judge run cls o = .overridden i) :
    i = .containers := by
  obtain ⟨hf, hi⟩ := override_of_judge hj
  exact h.overrides hf cls i hi

end DeepCopy
