-- The traversal, part by part. All that is done with an object that has no copy is
-- put together from steady steps, nested clones, and the routine it may be left to.
import DeepCopy.Proofs.NestedClones
import DeepCopy.Proofs.Stepwise

namespace DeepCopy

open CloneM

/-- A computation that does not end with a bare error of the heap, wherever it starts. -/
def Names (α : Type) (x : CloneM α) : Prop := ∀ run, Ends x run (fun _ _ => True) fun e _ => e.Named

theorem Places.names {α : Type} {x : CloneM α} (h : Places x) : Names α x :=
  fun run => ends_mono (h run) (fun _ _ h => h) fun _ _ h => h.named

theorem names_fail {α : Type} {e : CloneError} (h : ∀ cause, e ≠ .heap cause) :
    Names α (fail e) := by
  rintro run cause ⟨⟩
  exact h cause rfl

/-- What an implementor is blamed for is said of its source. -/
theorem named_blame (cls : String) (e : CloneError) :
    ∀ cause, Setting.blame cls e ≠ .heap cause := by
  intro cause h
  cases e <;> cases h

namespace Setting

variable {s : Setting} {n : Nested}

/-! ## Steps -/

/-- A step of the traversal itself: the plans are what they were, and its errors say what they are
about. -/
structure Steady (s : Setting) (α : Type) (x : CloneM α) : Prop where
  settles : s.Settles α x
  names : Names α x

section Steps

variable {α : Type}

theorem settles_of_plans_eq {x : CloneM α}
    (h : ∀ run, Ends x run (fun _ run' => run'.plans = run.plans) fun _ run' =>
      run'.plans = run.plans) : s.Settles α x :=
  fun run => ends_mono (h run) (fun _ _ => samePlans_of_plans_eq) fun _ _ => samePlans_of_plans_eq

theorem settles_onMemory (x : CopyM α) : s.Settles α (onMemory x) := by
  refine settles_of_plans_eq fun run => ?_
  rw [ends_onMemory]
  unfold Ends
  cases x run.memory <;> rfl

theorem settles_fail (e : CloneError) : s.Settles α (fail e) := settles_of_plans_eq fun _ => rfl

theorem settles_plan (cls : ClassId) : s.Settles Plan (s.plan cls) := by
  intro run
  rw [ends_plan]
  split
  · rename_i h
    exact Plans.get_get h
  · exact SamePlans.refl run

theorem steady_pure (a : α) : s.Steady α (pure a) :=
  ⟨settles_of_plans_eq fun _ => rfl, fun _ => trivial⟩

theorem steady_fail {e : CloneError} (h : ∀ cause, e ≠ .heap cause) : s.Steady α (fail e) :=
  ⟨settles_fail e, names_fail h⟩

theorem steady_heap : s.Steady Heap heap := ⟨settles_of_plans_eq fun _ => rfl, fun _ => trivial⟩

theorem steady_register (o : ObjectId) (v : Value) : s.Steady Unit (register o v) :=
  ⟨settles_of_plans_eq fun _ => rfl, fun _ => trivial⟩

theorem steady_onMemory {x : CopyM α} (h : Places x) : s.Steady α (onMemory x) :=
  ⟨settles_onMemory x, (places_onMemory h).names⟩

theorem steady_plan (cls : ClassId) : s.Steady Plan (s.plan cls) :=
  ⟨settles_plan cls, (places_plan cls).names⟩

end Steps

/-! ## Duplicates -/

/-- A part of the traversal itself. It goes on after no failure. -/
abbrev Strict (s : Setting) {α : Type} (part : Nested → CloneM α) : Prop := Part s.Steady False part

theorem duplicating_strict (s : Setting) : Stepwise.Duplicating (fun _ => s.Strict) s where
  pure a := .step (steady_pure a)
  bind := .bind
  memory hx := .step (steady_onMemory (places_of_does hx))
  heap := .step steady_heap
  plan cls := .step (steady_plan cls)
  access _ _ _ _ := .step (steady_fail nofun)

theorem strict_copyFields (source target : ObjectId) (p : Plan) :
    s.Strict fun n => s.copyFields n source target p :=
  s.duplicating_strict.copyFields (fun n => n) .nested (fun _ => s.catalog) source target p

theorem strict_cloneFields (source target : ObjectId) :
    s.Strict fun n => s.cloneFields n source target :=
  s.duplicating_strict.cloneFields (fun _ => s.catalog) (fun _ => .step (steady_fail nofun))
    (fun n => n) .nested source target

theorem strict_duplicateContainer (source : ObjectId) :
    s.Strict fun n => s.duplicateContainer n source :=
  s.duplicating_strict.duplicateContainer (fun _ => s.catalog) (fun _ => register)
    (fun o v => .step (steady_register o v)) (fun n => n) .nested source

theorem strict_duplicate (source : ObjectId) (p : Plan) :
    s.Strict fun n => s.duplicate n source p :=
  s.duplicating_strict.duplicate (fun _ => s.catalog) (fun _ => register)
    (fun o v => .step (steady_register o v)) (fun n => n) .nested source p

/-! ## Routines -/

/-- A part of a clone in which routines may be at work. It may end with any error and go on after
any. -/
abbrev Free (s : Setting) {α : Type} (part : Nested → CloneM α) : Prop := Part s.Settles True part

theorem Strict.free {α : Type} {part : Nested → CloneM α} (h : s.Strict part) : s.Free part :=
  h.mono (fun _ _ hp => hp.settles) False.elim

theorem settles_verdict (cls : ClassId) (o : ObjectId) : s.Settles Verdict (s.verdict cls o) := by
  refine settles_of_plans_eq fun run => ?_
  rw [ends_verdict]
  rcases s.asked_eq_or run cls with h | h <;> rw [h]

theorem settles_namedImplementor (p : Plan) (name : String) :
    s.Settles Implementor (s.namedImplementor p name) := by
  refine settles_of_plans_eq fun run => ?_
  unfold namedImplementor
  rw [ends_bind, ends_get]
  split
  · rfl
  · split <;> rfl

theorem settles_copyItself (method : SelfCopy) (source : ObjectId) (p : Plan) :
    s.Settles Value (copyItself method source p) := by
  refine settles_of_plans_eq fun run => ?_
  unfold copyItself
  simp only [ends_bind, ends_heap, ends_modify]
  split <;> rfl

theorem free_answer_of_plain {q : Request} (hq : q.isPlain = true) (n : Nested → Nested) :
    s.Free fun n' => s.answer (n n') q := by
  have same {α : Type} {x : CloneM α}
      (h : ∀ run, Ends x run (fun _ run' => run'.plans = run.plans) fun _ run' =>
        run'.plans = run.plans) : s.Free fun _ => x := .step (settles_of_plans_eq h)
  cases q with
  | clone v => cases hq
  | cloneFields source target => cases hq
  | register o copy => cases hq
  | allocate cls =>
    exact .step ((settles_plan cls).bind fun p => settles_onMemory _).outcome
  | plan cls => exact .step (settles_plan cls).outcome
  | create cls body => exact .step (settles_onMemory (Memory.create cls body))
  | setField o name v =>
    refine .bind (.step steady_heap.settles) fun h => ?_
    cases s.registry.setField h o name v with
    | ok w => exact same fun _ => rfl
    | error e => exact same fun _ => rfl
  | _ => exact same fun _ => rfl

theorem deciding_free (s : Setting) :
    Stepwise.Deciding (fun _ => s.Free) s (fun _ => s.catalog) where
  pure a := .step (steady_pure a).settles
  bind := .bind
  memory _ := .step (settles_onMemory _)
  heap := .step steady_heap.settles
  plan cls := .step (settles_plan cls)
  access _ _ _ _ := .step (settles_fail _)
  fail e := .step (settles_fail e)
  outcome := .caught trivial
  register o v := .step (steady_register o v).settles
  plain := free_answer_of_plain
  verdict cls o := .step (settles_verdict cls o)
  named p name := .step (settles_namedImplementor p name)
  itself method source p := .step (settles_copyItself method source p)

theorem free_cloneNew (source : ObjectId) : s.Free fun n => s.cloneNew n source :=
  s.deciding_free.cloneNew (fun n => n) .nested (fun _ => register)
    (fun o v => .step (steady_register o v).settles) (fun _ => copyOf)
    (fun _ => .step (settles_of_plans_eq fun _ => rfl)) source

/-- A clone leaves the plans what they were, whatever implementors do. -/
theorem settles_cloneValue (s : Setting) (depth : Nat) (v : Value) :
    s.Settles Value (cloneValue s depth v) := by
  induction depth generalizing v with
  | zero =>
    cases v with
    | ref o =>
      refine settles_of_plans_eq fun run => ?_
      unfold cloneValue
      rw [ends_bind, ends_copyOf]
      split <;> rfl
    | _ =>
      unfold cloneValue
      exact (steady_pure _).settles
  | succ depth ih =>
    cases v with
    | ref o =>
      intro run
      cases hc : run.copies.find? o with
      | some w => exact (ends_of_ok (cloneValue_of_stands hc _)).mpr (SamePlans.refl run)
      | none =>
        unfold Ends
        rw [cloneValue_succ_of_new hc]
        exact (free_cloneNew o).settles ih run
    | _ =>
      unfold cloneValue
      exact (steady_pure _).settles

/-! ## What an object is left to -/

/-- The implementor that an object without a copy is left to, if it is left to any. -/
def leftTo (s : Setting) (o : ObjectId) : CloneM (Option Implementor) := do
  let cls := (← heap).cls o
  match ← s.verdict cls o with
  | .overridden i => pure (some i)
  | .open =>
    let p ← s.plan cls
    match s.planVerdict p with
    | .named name => some <$> s.namedImplementor p name
    | _ => pure none
  | _ => pure none

section Ways

variable {run : Run}

theorem verdict_eq (cls : ClassId) (o : ObjectId) (run : Run) :
    s.verdict cls o run = .ok (s.judge run cls o) (s.asked run cls) := by
  have h : Succeeds (s.verdict cls o) run fun v run' =>
      v = s.judge run cls o ∧ run' = s.asked run cls := (ends_verdict cls o).mpr ⟨rfl, rfl⟩
  obtain ⟨v, run', hv, rfl, rfl⟩ := h.exists_ok
  exact hv

/-- What is done with an object is decided by what the policy says of it. -/
theorem cloneNew_eq (n : Nested) (o : ObjectId) (run : Run) :
    s.cloneNew n o run =
      (match s.judge run (run.heap.cls o) o with
      | .nulled => pure .null
      | .shared => pure (.ref o)
      | .overridden i => s.delegate n i o
      | .open => s.plan (run.heap.cls o) >>= s.cloneByPlan n o : CloneM Value)
        (s.asked run (run.heap.cls o)) := by
  unfold cloneNew cloneNewBy
  exact bind_of_ok (verdict_eq _ o run)

theorem leftTo_eq (o : ObjectId) (run : Run) :
    s.leftTo o run =
      (match s.judge run (run.heap.cls o) o with
      | .overridden i => pure (some i)
      | .open => do
        let p ← s.plan (run.heap.cls o)
        match s.planVerdict p with
        | .named name => some <$> s.namedImplementor p name
        | _ => pure none
      | _ => pure none : CloneM (Option Implementor)) (s.asked run (run.heap.cls o)) := by
  unfold leftTo
  exact bind_of_ok (verdict_eq _ o run)

theorem planOf_of_plan {cls : ClassId} {p : Plan} {run' : Run} (h : s.plan cls run = .ok p run') :
    s.planOf run cls = .ok p := by
  have hends : Yields (s.plan cls) run fun p _ => s.planOf run cls = .ok p := by
    refine (ends_plan cls).mpr ?_
    unfold planOf
    split
    · rename_i hp
      rw [hp]
      rfl
    · trivial
  exact (ends_of_ok h).mp hends

/-- A plan that can be made is found, and that is all that happens. -/
theorem exists_plan {cls : ClassId} {p : Plan} (h : s.planOf run cls = .ok p) :
    ∃ plans, s.plan cls run = .ok p { run with plans } ∧ Assoc.find? cls plans = some p := by
  have hends : Succeeds (s.plan cls) run fun q run' => q = p ∧ ∃ plans,
      run' = { run with plans } ∧ Assoc.find? cls plans = some p := by
    refine (ends_plan cls).mpr ?_
    unfold planOf at h
    cases hg : run.plans.get s.registry s.classifier cls with
    | error e =>
      rw [hg] at h
      cases h
    | ok found =>
      rw [hg] at h
      cases h
      exact ⟨rfl, _, rfl, Plans.find?_get hg⟩
  obtain ⟨_, _, heq, rfl, plans, rfl, hfind⟩ := hends.exists_ok
  exact ⟨plans, heq, hfind⟩

theorem names_namedImplementor (p : Plan) (name : String) :
    Names Implementor (s.namedImplementor p name) := by
  intro run
  unfold namedImplementor
  rw [ends_bind, ends_get]
  split
  · trivial
  · split
    · trivial
    · exact nofun

/-- The ways in which an object that has no copy can be gone into: it is left to an implementor, it
is cloned by the traversal itself, or it copies itself. -/
inductive Way (s : Setting) (o : ObjectId) (run : Run) : Prop where
  | left (i : Implementor) (start : Run) (hl : s.leftTo o run = .ok (some i) start)
    (eq : ∀ n, s.cloneNew n o run = s.delegate n i o start)
  | own (hl : ∀ i start, s.leftTo o run ≠ .ok (some i) start) (part : Nested → CloneM Value)
    (start : Run) (strict : s.Strict part) (same : s.SamePlans run start)
    (eq : ∀ n, s.cloneNew n o run = part n start)
  | itself (hl : ∀ i start, s.leftTo o run ≠ .ok (some i) start) (p : Plan) (method : SelfCopy)
    (start : Run) (plan : s.planOf run (run.heap.cls o) = .ok p)
    (verdict : s.planVerdict p = .selfCopied method)
    (eq : ∀ n, s.cloneNew n o run = copyItself method o p start)

/-- An object that has no copy is gone into in one of these ways, whatever becomes of nested
values. -/
theorem way (s : Setting) (o : ObjectId) (run : Run) : s.Way o run := by
  have hleft := s.leftTo_eq o run
  have hnew := fun n => s.cloneNew_eq n o run
  have hsame := (settles_verdict _ o).of_ok (s.verdict_eq (run.heap.cls o) o run)
  cases hj : s.judge run (run.heap.cls o) o with
  | nulled =>
    simp only [hj] at hleft hnew
    exact .own (by rw [hleft]; nofun) (fun _ => pure .null) _ (.step (steady_pure _)) hsame hnew
  | shared =>
    simp only [hj] at hleft hnew
    exact .own (by rw [hleft]; nofun) (fun _ => pure (.ref o)) _ (.step (steady_pure _)) hsame hnew
  | overridden i =>
    simp only [hj] at hleft hnew
    exact .left i _ hleft hnew
  | «open» =>
    simp only [hj] at hleft hnew
    cases hp : s.plan (run.heap.cls o) (s.asked run (run.heap.cls o)) with
    | error e last =>
      rw [bind_of_error hp] at hleft
      refine .own (by rw [hleft]; nofun) (fun _ => s.plan (run.heap.cls o) >>= fun _ => pure .null)
        (s.asked run (run.heap.cls o))
        (.bind (.step (steady_plan _)) fun _ => .step (steady_pure _))
        hsame fun n => ?_
      rw [hnew, bind_of_error hp, bind_of_error hp]
    | ok p start =>
      have hplan : s.planOf run (run.heap.cls o) = .ok p := by
        rw [← hsame]
        exact planOf_of_plan hp
      have hstart : s.SamePlans run start := hsame.trans ((settles_plan _).of_ok hp)
      rw [bind_of_ok hp] at hleft
      simp only [bind_of_ok hp] at hnew
      unfold cloneByPlan cloneByPlanBy at hnew
      cases hv : s.planVerdict p with
      | shared =>
        simp only [hv] at hleft hnew
        exact .own (by rw [hleft]; nofun) (fun _ => pure (.ref o)) _ (.step (steady_pure _)) hstart
          hnew
      | named name =>
        simp only [hv] at hleft hnew
        cases hi : s.namedImplementor p name start with
        | ok i start' =>
          refine .left i start' ?_ fun n => (hnew n).trans (bind_of_ok hi)
          rw [hleft, ← bind_pure_comp, bind_of_ok hi]
          rfl
        | error e last =>
          refine .own ?_ (fun _ => s.namedImplementor p name >>= fun _ => pure .null) start
            (.bind (.step ⟨settles_namedImplementor p name, names_namedImplementor p name⟩)
              fun _ => .step (steady_pure _)) hstart fun n => ?_
          · rw [hleft, ← bind_pure_comp, bind_of_error hi]
            nofun
          · rw [hnew, bind_of_error hi, bind_of_error hi]
      | selfCopied method =>
        simp only [hv] at hleft hnew
        exact .itself (by rw [hleft]; nofun) p method start hplan hv hnew
      | duplicated =>
        simp only [hv] at hleft hnew
        exact .own (by rw [hleft]; nofun) _ start (strict_duplicate o p) hstart hnew

end Ways

/-! ## From frame to frame -/

/-- To clone a value from a run takes to clone another from another run: each is asked for in going
into an object that has no copy. `frame` is said of all that is gone into on the way. -/
inductive Takes (s : Setting) (frame : Nat → ObjectId → Run → Prop) :
    Nat → Value → Run → Nat → Value → Run → Prop where
  | here (depth : Nat) (v : Value) (run : Run) : Takes s frame depth v run depth v run
  | down {depth depth' : Nat} {o : ObjectId} {w w' : Value} {run r r' : Run}
    (new : run.copies.find? o = none) (hf : frame depth o run)
    (asks : Asks (fun n => s.cloneNew n o) (cloneValue s depth) run w r)
    (rest : Takes s frame depth w r depth' w' r') :
    Takes s frame (depth + 1) (.ref o) run depth' w' r'

end Setting

end DeepCopy
