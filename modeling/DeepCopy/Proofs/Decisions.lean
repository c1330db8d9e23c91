-- What is decided about an object that has no copy. To decide, a clone asks the
-- policy and looks for a plan and an implementor, and finds out more by that, but it
-- does nothing else: what then becomes of the object is told here once, for all
-- facts about the end of a clone.
import DeepCopy.Proofs.Rules

namespace DeepCopy

open CloneM

/-! ## Finding out -/

/-- From one point of a run to a later one no more is done than to find out: what was known is
known, what would be decided is the same, and implementors that are found are those in `A`. -/
structure Finds (s : Setting) (A : Implementor → Prop) (run run' : Run) : Prop where
  memory : run'.memory = run.memory
  copies : run'.copies = run.copies
  plans : ∀ cls p, Assoc.find? cls run.plans = some p → Assoc.find? cls run'.plans = some p
  fit : Plans.Fit s.registry run.plans → Plans.Fit s.registry run'.plans
  planOf : ∀ cls, s.planOf run' cls = s.planOf run cls
  classShared : ∀ cls, s.classShared run' cls = s.classShared run cls
  resolved : ∀ cls i, Assoc.find? cls run'.resolved = some i →
    Assoc.find? cls run.resolved = some i ∨ A i
  /-- Only makers of implementors leave notes. -/
  journal : (∀ name maker, Assoc.find? name s.catalog = some maker → maker.notes = []) →
    run'.journal = run.journal

namespace Finds

variable {s : Setting} {A : Implementor → Prop} {run run' run'' : Run} {cls : ClassId}

theorem refl (run : Run) : Finds s A run run where
  memory := rfl
  copies := rfl
  plans _ _ h := h
  fit h := h
  planOf _ := rfl
  classShared _ := rfl
  resolved _ _ h := Or.inl h
  journal _ := rfl

theorem trans (h : Finds s A run run') (h' : Finds s A run' run'') : Finds s A run run'' where
  memory := h'.memory.trans h.memory
  copies := h'.copies.trans h.copies
  plans cls p hp := h'.plans cls p (h.plans cls p hp)
  fit hf := h'.fit (h.fit hf)
  planOf cls := (h'.planOf cls).trans (h.planOf cls)
  classShared cls := (h'.classShared cls).trans (h.classShared cls)
  resolved cls i hi := (h'.resolved cls i hi).elim (h.resolved cls i) Or.inr
  journal hs := (h'.journal hs).trans (h.journal hs)

theorem heap (h : Finds s A run run') : run'.heap = run.heap := congrArg Memory.heap h.memory

theorem of_asked (cls : ClassId) : Finds s A run (s.asked run cls) := by
  rcases s.asked_eq_or run cls with h | h
  · rw [h]
    exact refl run
  · rw [h]
    exact { (refl run : Finds s A run run) with
      classShared := fun c => Policy.sharesClass_sharesClass s.policy s.registry cls c run.answers }

theorem of_plan {p : Plan} {plans : Plans}
    (h : run.plans.get s.registry s.classifier cls = .ok (p, plans)) :
    Finds s A run { run with plans } :=
  { (refl run : Finds s A run run) with
    plans := fun _ _ => Plans.find?_get_of_find? h
    fit := fun hf => hf.get h
    planOf := Plans.get_get h }

theorem of_maker {name : String} {maker : Maker} (hm : Assoc.find? name s.catalog = some maker)
    (ha : A maker.implementor) (cls : ClassId) :
    Finds s A run { run with
      journal := run.journal ++ maker.notes
      resolved := Assoc.put cls maker.implementor run.resolved } :=
  { (refl run : Finds s A run run) with
    resolved := by
      intro c i hi
      rw [Assoc.find?_put] at hi
      split at hi
      · cases hi
        exact Or.inr ha
      · exact Or.inl hi
    journal := fun hs => by simp [hs name maker hm] }

end Finds

/-- The implementors that an object can be left to are those in `A`. -/
structure Setting.Employs (s : Setting) (A : Implementor → Prop) (run : Run) (o : ObjectId) :
    Prop where
  overrides : s.policy.flags.useOverrides = true →
    ∀ i, s.policy.override? (run.heap.cls o) = some i → A i
  named : s.fate run o = .copied → ∀ p name, s.planOf run (run.heap.cls o) = .ok p →
    p.cloneWith = some name →
      (∀ maker, Assoc.find? name s.catalog = some maker → A maker.implementor) ∧
        ∀ i, Assoc.find? p.cls run.resolved = some i → A i

theorem Setting.BuiltIn.employs {s : Setting} {run : Run} (h : s.BuiltIn run) (o : ObjectId) :
    s.Employs (· = .containers) run o where
  overrides hon i := h.overrides hon _ i
  named _ p name hp hc := ⟨fun maker => h.named _ p name maker hp hc, h.resolved p.cls⟩

namespace Setting

variable {s : Setting} {A : Implementor → Prop} {run : Run} {nested : Value → CloneM Value}
  {look : ObjectId → CloneM (Option Value)} {enter : ObjectId → Value → CloneM Unit}
  {source : ObjectId}

/-- The plan of a class is found, or it is found that there is none. -/
theorem ends_plan_finds (cls : ClassId) :
    Ends (s.plan cls) run (fun p run' => Finds s A run run' ∧ s.planOf run cls = .ok p)
      (fun e run' => (∃ c, e = .failed c) ∧ run' = run) := by
  rw [ends_plan]
  cases h : run.plans.get s.registry s.classifier cls with
  | error e => exact ⟨⟨e, rfl⟩, rfl⟩
  | ok found =>
    refine ⟨.of_plan h, ?_⟩
    rw [planOf, h]
    rfl

/-- The implementor is found that a plan names, or it is found that there is none. -/
theorem ends_namedImplementor_finds {p : Plan} {name : String}
    (hm : ∀ maker, Assoc.find? name s.catalog = some maker → A maker.implementor)
    (hr : ∀ i, Assoc.find? p.cls run.resolved = some i → A i) :
    Ends (s.namedImplementor p name) run (fun i run' => Finds s A run run' ∧ A i)
      (fun e run' => (∃ c, e = .failed c) ∧ run' = run) := by
  unfold namedImplementor
  simp only [ends_bind, ends_get]
  split
  · rename_i i hi
    exact ⟨.refl run, hr i hi⟩
  · split
    · rename_i maker hmaker
      exact ⟨.of_maker hmaker (hm maker hmaker) p.cls, hm maker hmaker⟩
    · exact ⟨⟨_, rfl⟩, rfl⟩

/-! ## The rules -/

variable {Q : Value → Run → Prop} {E : Stop → Run → Prop}

/-- What becomes of an object that has no copy: by the rules it turns into null or stands for
itself, is left to an implementor or copies itself, or it is duplicated. -/
theorem ends_cloneNewBy (he : s.Employs A run source)
    (nulled : s.fate run source = .nulled → ∀ run', Finds s A run run' → Q .null run')
    (shared : s.fate run source = .shared → ∀ run', Finds s A run run' → Q (.ref source) run')
    (delegated : s.fate run source = .copied → ∀ i run', A i → Finds s A run run' →
      Ends (s.delegateBy nested look enter i source) run' Q E)
    (copiesItself : s.fate run source = .copied → ∀ p method run', Finds s A run run' →
      s.planOf run (run.heap.cls source) = .ok p → s.policy.flags.useSelfCopy = true →
      p.selfCopy = some method → Ends (copyItself method source p) run' Q E)
    (duplicated : s.fate run source = .copied → ∀ p run', Finds s A run run' →
      s.planOf run (run.heap.cls source) = .ok p →
      Ends (s.duplicateBy nested enter source p) run' Q E)
    (failed : ∀ e run', Finds s A run run' → E (.failed e) run') :
    Ends (s.cloneNewBy nested look enter source) run Q E := by
  have hasked : Finds s A run (s.asked run (run.heap.cls source)) := .of_asked _
  unfold cloneNewBy
  rw [ends_bind, ends_heap, ends_bind, ends_verdict]
  cases hj : s.judge run (run.heap.cls source) source with
  | nulled => exact nulled (fateOf_of_nulled hj) _ hasked
  | shared => exact shared (fateOf_of_shared hj) _ hasked
  | overridden i =>
    obtain ⟨hon, hi⟩ := override_of_judge hj
    exact delegated (fateOf_of_overridden hj) i _ (he.overrides hon i hi) hasked
  | «open» =>
    rw [ends_bind]
    refine ends_mono (ends_plan_finds (A := A) _) ?_ ?_
    · rintro p run₁ ⟨hfinds, hp⟩
      have h₁ := hasked.trans hfinds
      rw [hasked.planOf] at hp
      have hfate : s.fate run source = _ := fateOf_of_open hj hp
      unfold cloneByPlanBy
      cases hv : s.planVerdict p <;> simp only [hv] at hfate
      case shared => exact shared hfate run₁ h₁
      case named name =>
        obtain ⟨hm, hr⟩ := he.named hfate p name hp (cloneWith_of_planVerdict hv)
        rw [ends_bind]
        refine ends_mono (ends_namedImplementor_finds hm fun i hi =>
          (h₁.resolved p.cls i hi).elim (hr i) id) ?_ ?_
        · rintro i run₂ ⟨hfinds₂, ha⟩
          exact delegated hfate i run₂ ha (h₁.trans hfinds₂)
        · rintro _ _ ⟨⟨e, rfl⟩, rfl⟩
          exact failed e _ h₁
      case selfCopied method =>
        obtain ⟨hon, hself⟩ := selfCopy_of_planVerdict hv
        exact copiesItself hfate p method run₁ h₁ hp hon hself
      case duplicated => exact duplicated hfate p run₁ h₁ hp
    · rintro _ _ ⟨⟨e, rfl⟩, rfl⟩
      exact failed e _ hasked

/-! ## Implementors -/

/-- What an implementor has returned comes to stand for the object, unless something does. -/
def settleBy (look : ObjectId → CloneM (Option Value)) (enter : ObjectId → Value → CloneM Unit)
    (source : ObjectId) (copy : Value) : CloneM Value := do
  match ← look source with
  | some _ => pure copy
  | none =>
    enter source copy
    pure copy

/-- An object is left to an implementor: either it fails, and its error is passed on or put down to
the class of the object, or what it returns is settled. -/
theorem ends_delegateBy {i : Implementor} {P : Value → Run → Prop}
    (himplement : Ends (s.implementBy nested enter i source) run P E)
    (settle : ∀ copy run', P copy run' → Ends (settleBy look enter source copy) run' Q E)
    (blamed : ∀ e e' run', E (.failed e) run' → E (.failed e') run') :
    Ends (s.delegateBy nested look enter i source) run Q E := by
  unfold delegateBy
  rw [ends_bind, ends_outcome]
  refine ends_mono himplement settle ?_
  intro e run' h
  cases e with
  | failed e => exact blamed e _ run' h
  | _ => exact h

theorem ends_settle {copy : Value} (found : run.copies.find? source ≠ none → Q copy run)
    (entered : run.copies.find? source = none →
      Q copy { run with copies := run.copies.put source copy }) :
    Ends (settleBy copyOf register source copy) run Q E := by
  unfold settleBy
  rw [ends_bind, ends_copyOf]
  cases h : run.copies.find? source with
  | some w => exact found (by simp [h])
  | none => exact entered h

end Setting

end DeepCopy
