-- Classes that are bound by an ancestor. A class that is immutable and says so for
-- its subclasses settles what becomes of the instances of all classes below it,
-- however deep, and whatever classes are added later. Nothing else makes a class
-- immutable but its own flags, and a class that is mutable is never shared by any.
import DeepCopy.Proofs.Caches
import DeepCopy.Proofs.KeptEntries
import DeepCopy.Proofs.Lineage
import DeepCopy.Proofs.RegistrationRules
import DeepCopy.Proofs.SteadySteps
import DeepCopy.Proofs.Termination

namespace DeepCopy

namespace Registry

variable {r r' : Registry} {cls : ClassId} {e : Entry} {chain : List ClassId}

/-! ## What the flags say of a class -/

/-- A proper ancestor of a class is immutable and passes that on to its subclasses. -/
def Bound (r : Registry) (cls : ClassId) : Prop :=
  ∃ a d, a ≠ cls ∧ r.isSubclass cls a = true ∧ r.decl a = .ok d ∧
    d.flags.immutable = true ∧ d.flags.immutableSubclasses = true

/-- The proper ancestors of a class are those behind it on its line. -/
theorem Line.mem_drop_one_iff (hc : r.Consistent) (h : r.Line cls chain) (a : ClassId) :
    a ∈ chain.drop 1 ↔ a ≠ cls ∧ a ∈ chain := by
  have hpair := h.pairwise_gt hc
  cases chain with
  | nil => cases h
  | cons first rest =>
    cases h.head?
    obtain ⟨holder, -⟩ := List.pairwise_cons.mp hpair
    rw [List.drop_one, List.tail_cons, List.mem_cons]
    constructor
    · intro ha
      have hlt : a < cls := holder a ha
      exact ⟨Nat.ne_of_lt hlt, Or.inr ha⟩
    · rintro ⟨hne, rfl | ha⟩
      · exact absurd rfl hne
      · exact ha

/-- Whether an ancestor passes immutability on is never missed: the walk up does not fail, and the
classes on it are there. -/
theorem Built.inheritsImmutability_iff (hb : r.Built) (he : r.get? cls = some e) :
    r.inheritsImmutability cls = true ↔ r.Bound cls := by
  have hc := hb.consistent
  obtain ⟨chain, hline⟩ := hc.exists_line he
  simp only [inheritsImmutability, hline.ancestors_eq hc, List.any_eq_true]
  constructor
  · rintro ⟨a, ha, hflags⟩
    obtain ⟨hne, hmem⟩ := (hline.mem_drop_one_iff hc a).mp ha
    obtain ⟨above, habove, -⟩ := hline.of_mem hmem
    obtain ⟨p, hp⟩ := habove.registered
    simp only [hp, ClassFlags.bindsSubclasses, Bool.and_eq_true] at hflags
    exact ⟨a, p.decl, hne, (hline.isSubclass_iff hc a).mpr hmem, decl_of_get? hp, hflags⟩
  · rintro ⟨a, d, hne, hsub, hd, hflags⟩
    obtain ⟨p, hp, rfl⟩ := get?_of_decl hd
    refine ⟨a, (hline.mem_drop_one_iff hc a).mpr ⟨hne, (hline.isSubclass_iff hc a).mp hsub⟩, ?_⟩
    simp only [hp, ClassFlags.bindsSubclasses, Bool.and_eq_true]
    exact hflags

theorem byFlags_eq_nonCloneable_iff (r : Registry) (cls : ClassId) (d : ClassDecl) :
    Classifier.byFlags r cls d = .nonCloneable ↔ d.flags.nonCloneable = true := by
  unfold Classifier.byFlags
  split
  · rename_i h
    exact ⟨fun _ => h, fun _ => rfl⟩
  · rename_i h
    refine ⟨fun hn => ?_, fun hn => absurd hn h⟩
    split at hn
    · cases hn
    · split at hn <;> cases hn

theorem Built.byFlags_eq_immutable_iff (hb : r.Built) (he : r.get? cls = some e)
    (hn : e.decl.flags.nonCloneable = false) :
    Classifier.byFlags r cls e.decl = .immutable ↔
      e.decl.flags.immutable = true ∨ r.Bound cls := by
  rw [← hb.inheritsImmutability_iff he]
  unfold Classifier.byFlags
  by_cases hi : e.decl.flags.immutable = true
  · simp [hn, hi]
  · by_cases hinh : r.inheritsImmutability cls = true <;> simp [hn, hi, hinh]

/-- A class that is bound is not mutable. -/
theorem Built.byFlags_ne_mutable (hb : r.Built) (he : r.get? cls = some e) (h : r.Bound cls) :
    Classifier.byFlags r cls e.decl ≠ .mutable := by
  by_cases hn : e.decl.flags.nonCloneable = true
  · rw [(byFlags_eq_nonCloneable_iff r cls e.decl).mpr hn]
    exact nofun
  · rw [(hb.byFlags_eq_immutable_iff he (Bool.eq_false_iff.mpr hn)).mpr (Or.inr h)]
    exact nofun

end Registry

namespace Setting

open CloneM

variable {s : Setting} {r : Registry} {run : Run} {cls : ClassId} {e : Registry.Entry}
  {o source : ObjectId} {nested : Value → CloneM Value}

/-! ## Clones that come later -/

/-- A full clone by flags over a registry to which classes may have been added. The plans that are
kept may have been made at any time before. -/
structure Since (s : Setting) (r : Registry) (run : Run) : Prop where
  full : s.mode = .full
  classifier : s.classifier = .byFlags
  built : s.registry.Built
  grown : r.Extends s.registry
  plans : ∀ cls p, Assoc.find? cls run.plans = some p → ∃ before : Registry, before.Built ∧
    before.Extends s.registry ∧ Plan.make before .byFlags cls = .ok p

theorem Since.remembers (h : s.Since r run) :
    Assoc.Remembers (Plan.build s.registry .byFlags) run.plans := by
  intro cls p hp
  obtain ⟨before, hb, hext, hmake⟩ := h.plans cls p hp
  rw [Plan.make_eq_build hb] at hmake
  exact Plan.build_extend hb h.built hext hmake

/-- The plan of a class that was there is the one of its definition, with what the flags said of it
from the beginning. -/
theorem Since.exists_planOf (h : s.Since r run) (hr : r.Built) (he : r.get? cls = some e) :
    ∃ p, s.planOf run cls = .ok p ∧ p.Describes cls e ∧
      p.classification = Classifier.byFlags r cls e.decl := by
  have hs := h.grown cls e he
  refine ⟨Plan.ofEntry s.registry .byFlags cls e, ?_, Plan.describes_ofEntry _ _ _ _, ?_⟩
  · rw [planOf, h.classifier, Plans.get_eq h.built h.remembers, Plan.build_of_get? h.built hs]
  · exact Registry.byFlags_extend hr h.built h.grown he

theorem Since.begun (h : s.Since r run) : s.Since r { run with copies := {} } :=
  { h with }

theorem sharesPlan_of_ne_mutable {p : Plan} (hoff : s.policy.flags.cloneImmutable = false)
    (hp : p.classification ≠ .mutable) : s.sharesPlan p = true := by
  unfold sharesPlan
  cases hc : p.classification with
  | mutable => exact absurd hc hp
  | immutable => simp [hoff]
  | nonCloneable => rfl

/-- What the policy can still do with an object that it neither turns into null nor leaves to an
implementor. -/
theorem judge_shared_or_open (hn : s.policy.nullsClass cls = false)
    (ho : s.policy.flags.useOverrides = true → s.policy.override? cls = none) (run : Run)
    (o : ObjectId) : s.judge run cls o = .shared ∨ s.judge run cls o = .open := by
  unfold judge
  split
  · exact Or.inr rfl
  · rw [hn, if_neg Bool.false_ne_true]
    split
    · exact Or.inl rfl
    · split
      · rename_i hu
        rw [ho hu]
        exact Or.inr rfl
      · exact Or.inr rfl

section Bound

variable (h : s.Since r run) (hr : r.Built) (he : r.get? (run.heap.cls o) = some e)
  (hbound : r.Bound (run.heap.cls o)) (hoff : s.policy.flags.cloneImmutable = false)
include h hr he hbound hoff

theorem Since.exists_shared_plan : ∃ p, s.planOf run (run.heap.cls o) = .ok p ∧
    s.planVerdict p = .shared := by
  obtain ⟨p, hp, -, hclass⟩ := h.exists_planOf hr he
  have hshares := sharesPlan_of_ne_mutable hoff (hclass ▸ hr.byFlags_ne_mutable he hbound)
  refine ⟨p, hp, ?_⟩
  unfold planVerdict
  rw [h.full, if_neg nofun, if_pos hshares]

variable (hnull : s.policy.nullsClass (run.heap.cls o) = false)
  (hover : s.policy.flags.useOverrides = true → s.policy.override? (run.heap.cls o) = none)
include hnull hover

theorem Since.fate_eq_shared : s.fate run o = .shared := by
  obtain ⟨p, hp, hv⟩ := h.exists_shared_plan hr he hbound hoff
  rcases judge_shared_or_open hnull hover run o with hj | hj
  · exact fateOf_of_shared hj
  · have hfate := fateOf_of_open hj hp
    rw [hv] at hfate
    exact hfate

/-- An object of a bound class that has no copy comes out as itself, and nothing else happens. -/
theorem Since.cloneNew_eq_self (nested : Value → CloneM Value) :
    ∃ run', s.cloneNew nested o run = .ok (.ref o) run' ∧ run'.memory = run.memory ∧
      run'.copies = run.copies := by
  obtain ⟨p, hp, hv⟩ := h.exists_shared_plan hr he hbound hoff
  rw [cloneNew_eq]
  rcases judge_shared_or_open hnull hover run o with hj | hj
  · rw [hj]
    exact ⟨_, rfl, memory_asked _, copies_asked _⟩
  · rw [hj]
    have hp' : s.planOf (s.asked run (run.heap.cls o)) (run.heap.cls o) = .ok p := by
      rw [planOf_asked]
      exact hp
    obtain ⟨plans, hplan, -⟩ := exists_plan hp'
    have hclone : (s.plan (run.heap.cls o) >>= s.cloneByPlan nested o)
        (s.asked run (run.heap.cls o)) =
        .ok (.ref o) { s.asked run (run.heap.cls o) with plans } := by
      rw [bind_of_ok hplan, cloneByPlan, cloneByPlanBy, hv]
      rfl
    exact ⟨_, hclone, memory_asked _, copies_asked _⟩

end Bound

/-! ## Instances of mutable classes -/

section Mutable

variable (h : s.Since r run) (hr : r.Built) (he : r.get? (run.heap.cls o) = some e)
  (hmut : Classifier.byFlags r (run.heap.cls o) e.decl = .mutable)
include h hr he hmut

/-- The plan of a mutable class does not share its instances. -/
theorem Since.exists_open_plan : ∃ p, s.planOf run (run.heap.cls o) = .ok p ∧
    p.Describes (run.heap.cls o) e ∧ s.planVerdict p ≠ .shared := by
  obtain ⟨p, hp, hd, hclass⟩ := h.exists_planOf hr he
  refine ⟨p, hp, hd, ?_⟩
  have hshares : s.sharesPlan p = false := by rw [sharesPlan, hclass, hmut]
  unfold planVerdict
  rw [h.full, if_neg nofun, hshares, if_neg Bool.false_ne_true]
  split
  · exact nofun
  · split <;> exact nofun
  · exact nofun

/-- An object of a mutable class is only shared if the policy says so of the class or of the object
itself. -/
theorem Since.judge_eq_shared (hf : s.fate run o = .shared) :
    s.judge run (run.heap.cls o) o = .shared := by
  obtain ⟨p, hp, -, hv⟩ := h.exists_open_plan hr he hmut
  cases hj : s.judge run (run.heap.cls o) o with
  | shared => rfl
  | nulled => cases hf.symm.trans (fateOf_of_nulled hj)
  | overridden i => cases hf.symm.trans (fateOf_of_overridden hj)
  | «open» =>
    have hfate := hf.symm.trans (fateOf_of_open hj hp)
    split at hfate
    · exact absurd ‹_› hv
    · cases hfate

/-- Where no routine is named for it, an object of a mutable class is duplicated. -/
theorem Since.exists_duplicated_plan (hw : e.decl.cloneWith = none)
    (hself : s.policy.flags.useSelfCopy = true → e.decl.selfCopy = none) :
    ∃ p, s.planOf run (run.heap.cls o) = .ok p ∧ s.planVerdict p = .duplicated := by
  obtain ⟨p, hp, hd, hv⟩ := h.exists_open_plan hr he hmut
  refine ⟨p, hp, ?_⟩
  cases hverdict : s.planVerdict p with
  | shared => exact absurd hverdict hv
  | named name =>
    have hname := cloneWith_of_planVerdict hverdict
    cases (hd.cloneWith_eq.trans hw).symm.trans hname
  | selfCopied method =>
    obtain ⟨hon, hmethod⟩ := selfCopy_of_planVerdict hverdict
    cases (hd.selfCopy_eq.trans (hself hon)).symm.trans hmethod
  | duplicated => rfl

end Mutable

/-! ## Duplicates are other objects -/

/-- All that can come out is one value. -/
def Returns (x : CloneM Value) (v : Value) : Prop := ∀ run, Yields x run fun w _ => w = v

theorem returns_pure (v : Value) : Returns (pure v) v := fun _ => rfl

theorem returns_bind {α : Type} {x : CloneM α} {f : α → CloneM Value} {v : Value}
    (hf : ∀ a, Returns (f a) v) : Returns (x >>= f) v := by
  intro run
  rw [Yields, ends_bind]
  unfold Ends
  cases x run with
  | ok a run' => exact hf a run'
  | error e run' => trivial

/-- The value refers to an object that a run does not have yet. -/
def RefersBeyond (run : Run) (v : Value) : Prop := ∃ t, v = .ref t ∧ run.heap.size ≤ t

/-- What is made first is what is returned, whatever is filled into it. -/
theorem yields_made {x : CopyM ObjectId} {f : ObjectId → CloneM Value} {E : Stop → Memory → Prop}
    (hx : Ends x run.memory (fun t _ => t = run.heap.size) E)
    (hf : ∀ t, Returns (f t) (.ref t)) :
    Yields (onMemory x >>= fun t => register source (.ref t) >>= fun _ => f t) run
      fun v _ => RefersBeyond run v := by
  simp only [Yields, ends_bind, ends_onMemory, ends_register]
  refine ends_mono hx ?_ fun _ _ _ => trivial
  rintro t m rfl
  apply (hf _ _).mono
  rintro _ _ rfl
  exact ⟨_, rfl, Nat.le_refl _⟩

theorem yields_duplicateContainer_new :
    Yields (s.duplicateContainer nested source) run fun v _ => RefersBeyond run v := by
  unfold duplicateContainer duplicateContainerBy
  simp only [Yields, ends_bind, ends_heap]
  refine ends_mono (ends_plan_kept (fun _ => True) _) ?_ fun _ _ _ => trivial
  rintro p _ ⟨-, -, plans, -, rfl⟩
  split
  · trivial
  · refine yields_made (ends_mono (s.backend.ends_allocate p) (fun _ _ h => h.1) fun _ _ h => h)
      fun t => ?_
    exact returns_bind fun _ => returns_bind fun _ => returns_pure _

/-- A duplicate is another object, however nested values are cloned. -/
theorem yields_duplicate_new (p : Plan) :
    Yields (s.duplicate nested source p) run fun v _ => RefersBeyond run v := by
  unfold duplicate duplicateBy
  simp only [Yields, ends_bind, ends_heap]
  split
  · exact yields_made (ends_mono (s.backend.ends_duplicatePacked source) (fun _ _ h => h.1)
      fun _ _ h => h) fun t => returns_pure _
  · unfold duplicateSlotsBy
    rw [ends_bind]
    refine ends_mono (ends_slotItems source) ?_ fun _ _ _ => trivial
    rintro items _ ⟨-, rfl⟩
    rw [ends_bind, ends_heap]
    exact yields_made (ends_mono (s.backend.ends_allocateSlots _ _) (fun _ _ h => h.1)
      fun _ _ h => h) fun t => returns_bind fun _ => returns_pure _
  · exact yields_duplicateContainer_new
  · exact yields_made (ends_mono (s.backend.ends_allocate p) (fun _ _ h => h.1) fun _ _ h => h)
      fun t => returns_bind fun _ => returns_pure _

/-- Where the policy has nothing to say and no routine is named, an object of a mutable class comes
out as another one. -/
theorem Since.yields_new (h : s.Since r run) (hr : r.Built)
    (he : r.get? (run.heap.cls o) = some e)
    (hmut : Classifier.byFlags r (run.heap.cls o) e.decl = .mutable)
    (hopen : s.judge run (run.heap.cls o) o = .open) (hw : e.decl.cloneWith = none)
    (hself : s.policy.flags.useSelfCopy = true → e.decl.selfCopy = none)
    (hnew : run.copies.find? o = none) (depth : Nat) :
    Yields (cloneValue s (depth + 1) (.ref o)) run fun v _ => RefersBeyond run v := by
  obtain ⟨p, hp, hv⟩ := h.exists_duplicated_plan hr he hmut hw hself
  have hp' : s.planOf (s.asked run (run.heap.cls o)) (run.heap.cls o) = .ok p := by
    rw [planOf_asked]
    exact hp
  obtain ⟨plans, hplan, -⟩ := exists_plan hp'
  unfold Yields Ends
  rw [cloneValue_succ_of_new hnew, cloneNew_eq, hopen]
  dsimp only
  rw [bind_of_ok hplan, cloneByPlan, cloneByPlanBy, hv]
  have hyields : Yields (s.duplicate (cloneValue s depth) o p)
      { s.asked run (run.heap.cls o) with plans } fun v _ => RefersBeyond run v := by
    apply (yields_duplicate_new p).mono
    rintro v _ ⟨t, rfl, hle⟩
    have hmem : (s.asked run (run.heap.cls o)).memory = run.memory := memory_asked _
    refine ⟨t, rfl, ?_⟩
    rw [Run.heap, ← hmem]
    exact hle
  exact hyields

/-! ## What the flags settle -/

/-- The policy leaves an object of a bound class to the flags: it shares immutable objects, and
neither turns this one into null nor has an implementor for exactly its class. -/
structure LeavesToFlags (s : Setting) (r : Registry) (run : Run) (o : ObjectId) : Prop where
  bound : r.Bound (run.heap.cls o)
  off : s.policy.flags.cloneImmutable = false
  nulled : s.policy.nullsClass (run.heap.cls o) = false
  overridden : s.policy.flags.useOverrides = true → s.policy.override? (run.heap.cls o) = none

theorem LeavesToFlags.exists_entry (h : s.LeavesToFlags r run o) (hr : r.Built) :
    ∃ e, r.get? (run.heap.cls o) = some e := by
  obtain ⟨a, -, -, hsub, -⟩ := h.bound
  obtain ⟨chain, hline, -⟩ := hr.consistent.isSubclass_iff_line.mp hsub
  exact hline.registered

theorem LeavesToFlags.cloneValue_eq_self (h : s.LeavesToFlags r run o) (hs : s.Since r run)
    (hr : r.Built) (hnew : run.copies.find? o = none) (depth : Nat) :
    ∃ run', cloneValue s (depth + 1) (.ref o) run = .ok (.ref o) run' ∧
      run'.memory = run.memory ∧ run'.copies = run.copies := by
  obtain ⟨e, he⟩ := h.exists_entry hr
  rw [cloneValue_succ_of_new hnew]
  exact hs.cloneNew_eq_self hr he h.bound h.off h.nulled h.overridden _

theorem LeavesToFlags.clone_eq_self (h : s.LeavesToFlags r run o) (hs : s.Since r run)
    (hr : r.Built) :
    ∃ run', s.clone (.ref o) run = .ok (.ref o) run' ∧ run'.memory = run.memory := by
  obtain ⟨depth, hdepth⟩ : ∃ depth, depthAllowance run.heap = depth + 1 :=
    Nat.exists_eq_add_one_of_ne_zero (by unfold depthAllowance; omega)
  have hfresh : s.LeavesToFlags r { run with copies := {} } o :=
    ⟨h.bound, h.off, h.nulled, h.overridden⟩
  obtain ⟨run', hclone, hmem, -⟩ :=
    hfresh.cloneValue_eq_self hs.begun hr (Copies.find?_empty o) depth
  rw [clone_eq, hdepth]
  exact ⟨run', hclone, hmem⟩

/-- Where the one that rebuilds containers is the only implementor, no clone ever lets anything
stand for an object of a bound class. -/
theorem LeavesToFlags.find?_eq_none (h : s.LeavesToFlags r run o) (hs : s.Since r run)
    (hr : r.Built) (ht : s.Tame run) (hoff : s.policy.flags.useSelfCopy = false)
    (hc : run.heap.Closed) {v w : Value} (hv : run.heap.Has v) {run' : Run}
    (hclone : s.clone v run = .ok w run') : run'.copies.find? o = none := by
  obtain ⟨e, he⟩ := h.exists_entry hr
  have hfate : s.fate run o = .shared :=
    hs.fate_eq_shared hr he h.bound h.off h.nulled h.overridden
  obtain ⟨hstocked, -⟩ := stocked_of_clone ht hoff hc hv hclone
  cases hf : run'.copies.find? o with
  | none => rfl
  | some copy =>
    obtain ⟨t, -, hcopied, -⟩ := hstocked.copies o copy hf
    have hcopied : s.fate run o = .copied := hcopied
    cases hfate.symm.trans hcopied

theorem shares_of_judge (hj : s.judge run cls o = .shared) :
    s.classShared run cls = true ∨ s.policy.sharesObject o = true := by
  unfold judge at hj
  split at hj
  · cases hj
  · split at hj
    · cases hj
    · split at hj
      · rename_i hshared
        exact (Bool.or_eq_true _ _).mp hshared
      · split at hj
        · split at hj <;> cases hj
        · cases hj

end Setting

/-- What flags settle for a registry and all that is added to it later. -/
structure Registry.FlagsSettle (r : Registry) : Prop where
  nonCloneable : ∀ cls e, r.get? cls = some e →
    (Classifier.byFlags r cls e.decl = .nonCloneable ↔ e.decl.flags.nonCloneable = true)
  immutable : ∀ cls e, r.get? cls = some e → e.decl.flags.nonCloneable = false →
    (Classifier.byFlags r cls e.decl = .immutable ↔
      e.decl.flags.immutable = true ∨ r.Bound cls)
  /-- At any point of a clone at which nothing stands for it, an object of a bound class comes out
  as itself, and nothing stands for it then. -/
  met : ∀ (s : Setting) run o, s.Since r run → s.LeavesToFlags r run o →
    run.copies.find? o = none → ∀ depth, ∃ run',
      cloneValue s (depth + 1) (.ref o) run = .ok (.ref o) run' ∧ run'.memory = run.memory ∧
        run'.copies = run.copies
  cloned : ∀ (s : Setting) run o, s.Since r run → s.LeavesToFlags r run o →
    ∃ run', s.clone (.ref o) run = .ok (.ref o) run' ∧ run'.memory = run.memory
  /-- Only implementors let anything stand for it. -/
  unmapped : ∀ (s : Setting) run o, s.Since r run → s.LeavesToFlags r run o → s.Tame run →
    s.policy.flags.useSelfCopy = false → run.heap.Closed → ∀ v, run.heap.Has v →
    ∀ w run', s.clone v run = .ok w run' → run'.copies.find? o = none
  /-- An object of a mutable class is only shared by what the policy lists. -/
  listed : ∀ (s : Setting) run o e, s.Since r run → r.get? (run.heap.cls o) = some e →
    Classifier.byFlags r (run.heap.cls o) e.decl = .mutable → s.fate run o = .shared →
    s.classShared run (run.heap.cls o) = true ∨ s.policy.sharesObject o = true
  /-- Where the policy has nothing to say of it and no routine is named, it comes out as another. -/
  duplicated : ∀ (s : Setting) run o e, s.Since r run → r.get? (run.heap.cls o) = some e →
    Classifier.byFlags r (run.heap.cls o) e.decl = .mutable →
    s.judge run (run.heap.cls o) o = .open → e.decl.cloneWith = none →
    (s.policy.flags.useSelfCopy = true → e.decl.selfCopy = none) →
    run.copies.find? o = none → ∀ depth v run',
      cloneValue s (depth + 1) (.ref o) run = .ok v run' → Setting.RefersBeyond run v

namespace Setting

/-- Flags classify the instances of a class as never cloned if the class itself says so, and else as
immutable if the class itself says so or an ancestor says so for its subclasses, however far up.
Where immutable objects are shared, every object below such an ancestor comes out as itself,
whatever classes have been added since; and an object of a class that stays mutable is never shared
because of flags. -/
theorem subclass_immutability_reaches_every_depth_and_nothing_else {r : Registry} (hr : r.Built) :
    r.FlagsSettle where
  nonCloneable := fun cls e _ => Registry.byFlags_eq_nonCloneable_iff r cls e.decl
  immutable := fun _ _ he hn => hr.byFlags_eq_immutable_iff he hn
  met := fun _ _ _ hs h hnew depth => h.cloneValue_eq_self hs hr hnew depth
  cloned := fun _ _ _ hs h => h.clone_eq_self hs hr
  unmapped := fun _ _ _ hs h ht hoff hc _ hv _ _ hclone =>
    h.find?_eq_none hs hr ht hoff hc hv hclone
  listed := fun _ _ _ _ hs he hmut hf => shares_of_judge (hs.judge_eq_shared hr he hmut hf)
  duplicated := by
    intro s run o e hs he hmut hopen hw hself hnew depth v run' hclone
    have hnew := yields_of_ok (hs.yields_new hr he hmut hopen hw hself hnew depth) hclone
    exact hnew

/-- A class that is immutable with all its subclasses. -/
def money : ClassDecl :=
  { name := "Money", superclass := some Registry.rootClass
    flags := { immutable := true, immutableSubclasses := true } }

def coin : ClassDecl := { name := "Coin", superclass := some 12 }

/-- A class two steps below, without a flag of its own. -/
def penny : ClassDecl := { name := "Penny", superclass := some 13 }

/-- A class that is added when pennies are there already. -/
def purse : ClassDecl :=
  { name := "Purse", superclass := some Registry.rootClass
    fields := [{ name := "first", type := .object 14 }] }

def pennyRegistry : Registry := ((Registry.initial.add money).add coin).add penny

theorem built_penny : pennyRegistry.Built := by
  have hmoney : Registry.initial.define money = .ok (12, Registry.initial.add money) :=
    Registry.define_eq (by decide) rfl rfl
  have hcoin : (Registry.initial.add money).define coin =
      .ok (13, (Registry.initial.add money).add coin) :=
    Registry.define_eq (by decide) rfl rfl
  have hpenny : ((Registry.initial.add money).add coin).define penny = .ok (14, pennyRegistry) :=
    Registry.define_eq (by decide) rfl rfl
  exact .define (.define (.define .initial hmoney) hcoin) hpenny

theorem built_purse : (pennyRegistry.add purse).Built := by
  have hpurse : pennyRegistry.define purse = .ok (15, pennyRegistry.add purse) :=
    Registry.define_eq (by decide) rfl rfl
  exact .define built_penny hpurse

def purseSetting : Setting where
  registry := pennyRegistry.add purse
  backend := .portable (pennyRegistry.add purse)
  policy := .standard

/-- A penny and a purse that holds it, with the plan of pennies from before there were purses. -/
def purseRun : Run where
  memory := { heap := ⟨#[Object.new 14 (.record [] []), Object.new 15 (.record [] [.ref 0])]⟩ }
  plans := [(14, Plan.ofEntry pennyRegistry .byFlags 14 ⟨penny, pennyRegistry.layoutOf 14 penny⟩)]

theorem since_penny : purseSetting.Since pennyRegistry purseRun where
  full := rfl
  classifier := rfl
  built := built_purse
  grown := Registry.extends_add _ _
  plans := by
    intro cls p hp
    obtain ⟨rfl, rfl⟩ := Prod.mk.inj (List.mem_singleton.mp (Assoc.mem_of_find? hp))
    exact ⟨pennyRegistry, built_penny, Registry.extends_add _ _, rfl⟩

/-- A penny is its own clone, also for a cloner that knows of purses, though no flag of its own says
so. -/
theorem a_penny_is_its_own_clone :
    pennyRegistry.Built ∧ penny.flags.immutable = false ∧ pennyRegistry.Bound 14 ∧
    ∃ run', purseSetting.clone (.ref 0) purseRun = .ok (.ref 0) run' := by
  have hbound : pennyRegistry.Bound 14 := ⟨12, money, by decide, by decide, rfl, rfl, rfl⟩
  have hleaves : purseSetting.LeavesToFlags pennyRegistry purseRun 0 := by
    refine ⟨hbound, rfl, rfl, fun _ => ?_⟩
    decide
  obtain ⟨run', hclone, -⟩ := (subclass_immutability_reaches_every_depth_and_nothing_else
    built_penny).cloned purseSetting purseRun 0 since_penny hleaves
  exact ⟨built_penny, rfl, hbound, run', hclone⟩

end Setting

end DeepCopy
