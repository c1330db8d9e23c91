-- Ways of registering. A routine can register what it likes and when it likes;
-- rules that routines keep to say what can be relied on while they run, and an
-- object is gone into by the same few steps whatever they do.
import DeepCopy.Proofs.Decisions
import DeepCopy.Proofs.Descents
import DeepCopy.Proofs.Lasting
import DeepCopy.Proofs.Placed

namespace DeepCopy

open CloneM

/-! ## Ways of registering -/

/-- A routine that registers something for its source before it clones anything. -/
inductive Routine.RegistersFirst (source : ObjectId) : Routine → Prop where
  | finish (result : Except CloneError Value) : RegistersFirst source (.finish result)
  | register (copy : Value) (next : Unit → Routine) :
    RegistersFirst source (.ask (.register source copy) next)
  | ask (request : Request) (next : request.Reply → Routine) (hc : request.clones = false)
    (h : ∀ reply, RegistersFirst source (next reply)) : RegistersFirst source (.ask request next)

/-- A routine that registers something for its source only, and that before it clones anything, and
returns what it has registered last. `standing` is what it has registered so far. -/
inductive Routine.Honest (source : ObjectId) : (standing : Option Value) → Routine → Prop where
  | fail {standing : Option Value} (e : CloneError) : Honest source standing (.finish (.error e))
  | finish {standing : Option Value} (v : Value) (h : ∀ w, standing = some w → w = v) :
    Honest source standing (.finish (.ok v))
  | register {standing : Option Value} (copy : Value) (next : Unit → Routine)
    (h : Honest source (some copy) (next ())) :
    Honest source standing (.ask (.register source copy) next)
  | clone {w : Value} (request : Request) (next : request.Reply → Routine)
    (hc : request.clones = true) (h : ∀ reply, Honest source (some w) (next reply)) :
    Honest source (some w) (.ask request next)
  | plain {standing : Option Value} (request : Request) (next : request.Reply → Routine)
    (hp : request.isPlain = true) (h : ∀ reply, Honest source standing (next reply)) :
    Honest source standing (.ask request next)

/-- All routines of an implementor keep to a rule. What rebuilds containers is not asked. -/
def Implementor.KeepsTo (rule : ObjectId → Routine → Prop) (scope : Scope) : Implementor → Prop
  | .containers => True
  | .script sc => ∀ source, rule source (sc.routine scope source)
  | .routine f => ∀ source, rule source (f source)

theorem Implementor.registersFor_any (i : Implementor) (scope : Scope) :
    i.KeepsTo (fun _ r => r.RegistersFor fun _ => True) scope := by
  cases i with
  | containers => trivial
  | script sc => exact fun source => Routine.registersFor_any _
  | routine f => exact fun source => Routine.registersFor_any _

/-- All implementors that can take part keep to a rule. -/
structure Setting.KeepsTo (s : Setting) (rule : ObjectId → Routine → Prop) (run : Run) : Prop where
  overrides : ∀ cls i, s.policy.override? cls = some i → i.KeepsTo rule s.scope
  catalog : ∀ name maker, Assoc.find? name s.catalog = some maker →
    maker.implementor.KeepsTo rule s.scope
  resolved : ∀ cls i, Assoc.find? cls run.resolved = some i → i.KeepsTo rule s.scope

theorem Request.clones_eq_false {q : Request} (h : q.isPlain = true) : q.clones = false := by
  cases q <;> first | rfl | cases h

theorem Routine.Honest.registersFirst {source : ObjectId} {r : Routine} {standing : Option Value}
    (h : r.Honest source standing) (hs : standing = none) : r.RegistersFirst source := by
  induction h with
  | fail e => exact .finish _
  | finish v h => exact .finish _
  | register copy next h => exact .register copy next
  | clone request next hc h => cases hs
  | plain request next hp h ih =>
    exact .ask request next (Request.clones_eq_false hp) fun reply => ih reply hs

theorem Routine.Honest.registersFor {source : ObjectId} {r : Routine} {standing : Option Value}
    (h : r.Honest source standing) : r.RegistersFor (· = source) := by
  induction h with
  | fail e => exact .finish _
  | finish v h => exact .finish _
  | register copy next h ih =>
    refine .ask (.register source copy) next ?_ fun _ => ih
    rintro o _ ⟨⟩
    rfl
  | clone request next hc h ih =>
    refine .ask request next ?_ ih
    rintro o _ rfl
    cases hc
  | plain request next hp h ih =>
    refine .ask request next ?_ ih
    rintro o _ rfl
    cases hp

theorem Run.isSome_registered (run : Run) (o o' : ObjectId) (copy : Value)
    (h : (run.copies.find? o).isSome) : ((run.registered o' copy).copies.find? o).isSome := by
  by_cases hne : o = o'
  · subst hne
    exact run.isSome_registered_self o copy
  · rw [registered, Copies.find?_put_ne _ _ hne]
    exact h

namespace Setting

variable {s : Setting} {run : Run} {rule rule' : ObjectId → Routine → Prop}

theorem KeepsTo.mono (h : s.KeepsTo rule run) (hr : ∀ source r, rule source r → rule' source r) :
    s.KeepsTo rule' run := by
  have each : ∀ {i : Implementor}, i.KeepsTo rule s.scope → i.KeepsTo rule' s.scope := by
    intro i hi
    cases i with
    | containers => trivial
    | script script => exact fun source => hr _ _ (hi source)
    | routine f => exact fun source => hr _ _ (hi source)
  exact ⟨fun cls i hi => each (h.overrides cls i hi), fun n m hm => each (h.catalog n m hm),
    fun cls i hi => each (h.resolved cls i hi)⟩

theorem KeepsTo.advance {run' : Run} (h : s.KeepsTo rule run) (ha : Advances s run run') :
    s.KeepsTo rule run' := by
  refine ⟨h.overrides, h.catalog, ?_⟩
  intro cls i hi
  rcases ha.resolved cls i hi with hi | ⟨name, maker, hm, rfl⟩
  · exact h.resolved cls i hi
  · exact h.catalog name maker hm

theorem KeepsTo.of_resolved {run' : Run} (h : s.KeepsTo rule run)
    (hr : run'.resolved = run.resolved) : s.KeepsTo rule run' :=
  ⟨h.overrides, h.catalog, fun cls i hi => h.resolved cls i (hr ▸ hi)⟩

theorem KeepsTo.employs (h : s.KeepsTo rule run) (o : ObjectId) :
    s.Employs (·.KeepsTo rule s.scope) run o :=
  ⟨fun _ => h.overrides _, fun _ p name _ _ => ⟨h.catalog name, h.resolved p.cls⟩⟩

theorem KeepsTo.of_finds {run' : Run} (h : s.KeepsTo rule run)
    (hf : Finds s (·.KeepsTo rule s.scope) run run') : s.KeepsTo rule run' :=
  ⟨h.overrides, h.catalog, fun cls i hi => (hf.resolved cls i hi).elim (h.resolved cls i) id⟩

/-- An implementor that was looked up is remembered. -/
theorem KeepsTo.remembered {run' : Run} {cls : ClassId} {i : Implementor} (h : s.KeepsTo rule run)
    (hi : i.KeepsTo rule s.scope) (hr : run'.resolved = Assoc.put cls i run.resolved) :
    s.KeepsTo rule run' := by
  refine ⟨h.overrides, h.catalog, ?_⟩
  intro cls' i' hfind
  rw [hr, Assoc.find?_put] at hfind
  split at hfind
  · cases hfind
    exact hi
  · exact h.resolved cls' i' hfind

/-- What implementors keep to does not depend on the backend. -/
theorem KeepsTo.over (h : s.KeepsTo rule run) (backend : Backend) :
    { s with backend }.KeepsTo rule run := ⟨h.overrides, h.catalog, h.resolved⟩

theorem KeepsTo.silent (h : s.KeepsTo rule run) : s.silent.KeepsTo rule run := by
  refine ⟨h.overrides, ?_, h.resolved⟩
  intro name maker hm
  rw [find?_silent] at hm
  obtain ⟨maker', hm', rfl⟩ := Option.map_eq_some_iff.mp hm
  exact h.catalog name maker' hm'

theorem keepsTo_any (s : Setting) (run : Run) : s.KeepsTo (fun _ _ => True) run := by
  have each : ∀ i : Implementor, i.KeepsTo (fun _ _ => True) s.scope := fun i => by
    cases i with
    | containers => trivial
    | _ => exact fun _ => trivial
  exact ⟨fun _ i _ => each i, fun _ m _ => each m.implementor, fun _ i _ => each i⟩

/-! ## The rules, with implementors that keep to a rule -/

theorem planOf_asked (cls cls' : ClassId) : s.planOf (s.asked run cls') cls = s.planOf run cls := by
  rcases s.asked_eq_or run cls' with h | h
  · rw [h]
  · rw [h]
    rfl

section Rules

variable {nested : Value → CloneM Value} {P Q : Run → Prop} {source : ObjectId}

theorem ends_namedImplementor_keepsTo (hP : Lasting s P)
    (hk : ∀ run, P run → s.KeepsTo rule run) (h : P run) (p : Plan) (name : String) :
    Ends (s.namedImplementor p name) run
      (fun i run' => P run' ∧ i.KeepsTo rule s.scope) (fun _ => P) := by
  have hkeeps : Ends (s.namedImplementor p name) run
      (fun i _ => i.KeepsTo rule s.scope) (fun _ _ => True) := by
    unfold namedImplementor
    rw [ends_bind, ends_get]
    split
    · rename_i i hi
      exact (hk run h).resolved _ i hi
    · split
      · rename_i maker hm
        exact (hk run h).catalog name maker hm
      · trivial
  exact ends_mono (ends_and (preserves_namedImplementor hP p name run h) hkeeps)
    (fun _ _ h => h) (fun _ _ h => h.1)

/-- What an implementor does if all it can register for is its source. -/
theorem leads_delegate {i : Implementor}
    (hreg : ∀ run copy, P run → Q (run.registered source copy))
    (hstood : ∀ run, P run → (run.copies.find? source).isSome → Q run)
    (hi : Preserves P (s.implement nested i source)) :
    Leads P Q (s.delegate nested i source) := by
  refine (preserves_outcome hi).bind fun result => ?_
  cases result with
  | error e => exact leads_heap_bind fun _ => leads_fail _
  | ok copy =>
    intro run h
    rw [ends_bind, ends_copyOf]
    cases hc : run.copies.find? source with
    | some _ => exact hstood run h (by rw [hc]; rfl)
    | none => exact hreg run copy h

theorem leads_copyItself (hP : Lasting s P)
    (hreg : ∀ run copy, P run → Q (run.registered source copy)) (method : SelfCopy) (p : Plan) :
    Leads P Q (copyItself method source p) := by
  refine fun run h => ?_
  have h' : P { run with memory.heap := (method source run.heap).2 } :=
    hP.of_same h rfl rfl rfl rfl
  unfold copyItself
  simp only [ends_bind, ends_heap, ends_modify]
  cases (method source run.heap).1 with
  | ok copy => exact hreg _ _ h'
  | error e => cases e <;> exact h'

/-- An object that has no copy is gone into: what it leads to depends on the implementors, and on
what becomes of an object that gets no copy. -/
theorem ends_cloneNew (hP : Lasting s P) (hQ : Lasting s Q) (hQP : ∀ run, Q run → P run)
    (hreg : ∀ run copy, P run → Q (run.registered source copy))
    (hn : ∀ v, Preserves Q (nested v)) (hk : ∀ run, P run → s.KeepsTo rule run)
    (hd : ∀ i : Implementor, i.KeepsTo rule s.scope → Leads P Q (s.delegate nested i source))
    (h : P run) (hskip : s.fate run source ≠ .copied → Q run) :
    Ends (s.cloneNew nested source) run (fun _ => Q) (fun _ => P) := by
  unfold cloneNew cloneNewBy
  rw [ends_bind, ends_heap, ends_bind, ends_verdict]
  cases hj : s.judge run (run.heap.cls source) source with
  | nulled =>
    have hfate : s.fate run source = .nulled := fateOf_of_nulled hj
    exact hQ.asked (hskip (by simp [hfate])) _
  | shared =>
    have hfate : s.fate run source = .shared := fateOf_of_shared hj
    exact hQ.asked (hskip (by simp [hfate])) _
  | overridden i => exact hd i ((hk run h).overrides _ i (override_of_judge hj).2) _ (hP.asked h _)
  | «open» =>
    rw [ends_bind, ends_plan]
    split
    · rename_i p plans hp
      have hplan : s.planOf run (run.heap.cls source) = .ok p := by
        rw [← planOf_asked _ (run.heap.cls source), planOf, hp]
        rfl
      have hfate : s.fate run source = _ := fateOf_of_open hj hplan
      have h' : P { s.asked run (run.heap.cls source) with plans } :=
        hP.of_same (hP.asked h _) rfl rfl rfl rfl
      unfold cloneByPlanBy
      split <;> rename_i hv <;> simp only [hv] at hfate
      · exact hQ.of_same (hQ.asked (hskip (by simp [hfate])) _) rfl rfl rfl rfl
      · rename_i name
        rw [ends_bind]
        refine ends_mono (ends_namedImplementor_keepsTo hP hk h' p name) ?_ (fun _ _ h => h)
        rintro i run' ⟨hrun, hi⟩
        exact hd i hi run' hrun
      · exact leads_copyItself hP hreg _ p _ h'
      · exact leads_duplicate hP hQ hQP hreg hn p _ h'
    · exact hP.asked h _

/-- An implementor whose routines register for certain objects only. -/
theorem preserves_implement {A : ObjectId → ObjectId → Prop} (hP : Lasting s P)
    (hreg : ∀ run copy, P run → P (run.registered source copy))
    (hA : ∀ o, A source o → ∀ run copy, P run → P (run.registered o copy))
    (hn : ∀ v, Preserves P (nested v)) {i : Implementor}
    (hi : i.KeepsTo (fun source r => r.RegistersFor (A source)) s.scope) :
    Preserves P (s.implement nested i source) := by
  cases i with
  | containers => exact leads_duplicateContainer hP hP (fun _ h => h) hreg hn
  | script sc => exact preserves_runRoutine hP hn hA (hi source)
  | routine f => exact preserves_runRoutine hP hn hA (hi source)

/-- A property outlasts a clone if it outlasts going into an object that has no copy. -/
theorem preserves_cloneValue
    (hnew : ∀ depth o run, (∀ v, Preserves P (cloneValue s depth v)) → P run →
      run.copies.find? o = none → Ends (s.cloneNew (cloneValue s depth) o) run
        (fun _ => P) fun _ => P) (depth : Nat) (v : Value) :
    Preserves P (cloneValue s depth v) := by
  induction depth generalizing v with
  | zero =>
    cases v with
    | ref o =>
      unfold cloneValue
      intro run h
      rw [ends_bind, ends_copyOf]
      split <;> exact h
    | _ =>
      unfold cloneValue
      exact preserves_pure _
  | succ depth ih =>
    cases v with
    | ref o =>
      unfold cloneValue
      intro run h
      rw [ends_bind, ends_copyOf]
      split
      · exact h
      · rename_i hc
        exact hnew depth o run ih h hc
    | _ =>
      unfold cloneValue
      exact preserves_pure _

/-- A property that outlasts whatever is registered is kept, whatever implementors do. -/
theorem preserves_cloneNew (hP : Lasting s P)
    (hreg : ∀ o run copy, P run → P (Run.registered run o copy))
    (hn : ∀ v, Preserves P (nested v)) (source : ObjectId) :
    Preserves P (s.cloneNew nested source) := by
  intro run h
  refine ends_cloneNew hP hP (fun _ h => h) (hreg source) hn (fun run _ => s.keepsTo_any run) ?_ h
    fun _ => h
  intro i _
  refine leads_delegate (hreg source) (fun _ h _ => h) ?_
  exact preserves_implement (A := fun _ _ => True) hP (hreg source) (fun o _ => hreg o) hn
    (i.registersFor_any _)

/-- Once something stands for an object, something does, whatever implementors do. -/
theorem preserves_standing (s : Setting) (o : ObjectId) (depth : Nat) (v : Value) :
    Preserves (fun run => (run.copies.find? o).isSome) (cloneValue s depth v) := by
  refine preserves_cloneValue (fun depth o' run ih h _ => ?_) depth v
  exact preserves_cloneNew (lasting_standing o)
    (fun o' run copy h => run.isSome_registered o o' copy h) ih o' run h

end Rules

/-! ## What an implementor leaves to do -/

section Delegating

variable {nested : Value → CloneM Value} {i : Implementor} {source : ObjectId} {v : Value}
  {run' : Run}

/-- What an implementor has returned stands for its source, if nothing else does by then. -/
theorem delegate_of_ok (h : s.implement nested i source run = .ok v run') :
    s.delegate nested i source run = .ok v
      (if (run'.copies.find? source).isSome then run' else run'.registered source v) := by
  unfold delegate delegateBy
  rw [bind_of_ok (outcome_of_ok h)]
  dsimp only
  rw [copyOf_bind]
  cases run'.copies.find? source <;> rfl

theorem delegate_of_failed {e : CloneError}
    (h : s.implement nested i source run = .error (.failed e) run') :
    s.delegate nested i source run =
      .error (.failed (blame (s.registry.className (run'.heap.cls source)) e)) run' := by
  unfold delegate delegateBy
  rw [bind_of_ok (outcome_of_failed h)]
  rfl

theorem delegate_of_stop {e : Stop} (h : s.implement nested i source run = .error e run')
    (he : ∀ cause, e ≠ .failed cause) : s.delegate nested i source run = .error e run' := by
  unfold delegate delegateBy
  rw [bind_of_error (outcome_of_stop h he)]

/-- What stands when an implementor is done goes on standing. -/
theorem delegate_of_stands {w : Value} (h : s.implement nested i source run = .ok v run')
    (hw : run'.copies.find? source = some w) : s.delegate nested i source run = .ok v run' := by
  rw [delegate_of_ok h, hw]
  rfl

theorem blame_of_ne {e : CloneError} (he : ∀ cause, e ≠ .heap cause) (cls : String) :
    blame cls e = e := by
  cases e with
  | heap cause => exact absurd rfl (he cause)
  | _ => rfl

/-- Where an implementor has let something stand for its source, and does not end with a bare error
of the heap, nothing is left to do for those who asked it. -/
theorem delegate_eq_implement
    (h : Ends (s.implement nested i source) run
      (fun _ run' => (run'.copies.find? source).isSome) fun e _ => e.Named) :
    s.delegate nested i source run = s.implement nested i source run := by
  cases himp : s.implement nested i source run with
  | ok v run' =>
    obtain ⟨w, hw⟩ := Option.isSome_iff_exists.mp ((ends_of_ok himp).mp h)
    exact delegate_of_stands himp hw
  | error e run' =>
    have hnamed : e.Named := (ends_of_error himp).mp h
    cases e with
    | failed e =>
      rw [delegate_of_failed himp, blame_of_ne fun cause he => hnamed cause (congrArg _ he)]
    | aborted => exact delegate_of_stop himp fun _ h => by cases h
    | tooDeep => exact delegate_of_stop himp fun _ h => by cases h

end Delegating

end Setting

end DeepCopy
