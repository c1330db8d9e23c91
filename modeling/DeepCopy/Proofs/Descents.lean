-- The traversal with a log: it notes each object that it goes down into, and is
-- otherwise the traversal itself. It comes to the same end and does the same,
-- whatever else stands in the journal.
import DeepCopy.Proofs.Rules
import DeepCopy.Proofs.Stepwise

namespace DeepCopy

open CloneM

/-! ## The log -/

/-- The setting with makers of routines that leave no notes. -/
def Setting.silent (s : Setting) : Setting :=
  { s with catalog := s.catalog.map fun e => (e.1, { e.2 with notes := [] }) }

/-- The note that a clone goes down into an object. -/
def Note.descent (o : ObjectId) : Note := .value (.ref o)

/-- A clone of a value that notes each object it goes down into: each that has no copy yet and is to
get one by the rules. -/
def cloneNoting (s : Setting) : (depth : Nat) → Value → CloneM Value
  | depth, .ref o => do
    match ← copyOf o with
    | some copy => pure copy
    | none =>
      match depth with
      | 0 => throw .tooDeep
      | depth + 1 => do
        write (if s.fate (← get) o = .copied then [.descent o] else [])
        s.cloneNew (cloneNoting s depth) o
  | _, v => pure v

theorem Setting.find?_silent (s : Setting) (name : String) :
    Assoc.find? name s.silent.catalog =
      (Assoc.find? name s.catalog).map fun maker => { maker with notes := [] } := by
  show Assoc.find? name (s.catalog.map _) = _
  induction s.catalog with
  | nil => rfl
  | cons e catalog ih =>
    simp only [List.map_cons, Assoc.find?]
    split
    · rfl
    · exact ih

/-! ## Runs that differ in their journals -/

/-- Two runs are one but for their journals. -/
def Run.Same (a b : Run) : Prop := ∃ journal, b = { a with journal }

/-- The second computation comes to the same end as the first and does the same, unless the first
has gone too deep. The journals may differ. -/
def Echoes {α : Type} (x y : CloneM α) : Prop :=
  ∀ a b : Run, a.Same b → Ends x a (fun u a' => ∃ b', y b = .ok u b' ∧ a'.Same b')
    fun e a' => e ≠ .tooDeep → ∃ b', y b = .error e b' ∧ a'.Same b'

section Steps

variable {α β : Type} {x y : CloneM α}

theorem echoes_pure (a : α) : Echoes (pure a) (pure a) := fun _ b h => ⟨b, rfl, h⟩

theorem echoes_throw (e : Stop) : Echoes (throw e : CloneM α) (throw e) :=
  fun _ b h _ => ⟨b, rfl, h⟩

theorem echoes_fail (e : CloneError) : Echoes (fail e : CloneM α) (fail e) := echoes_throw _

theorem echoes_ofExcept (x : Except CloneError α) : Echoes (ofExcept x) (ofExcept x) := by
  cases x with
  | ok a => exact echoes_pure a
  | error e => exact echoes_fail e

theorem Echoes.bind {f g : α → CloneM β} (h : Echoes x y) (hf : ∀ u, Echoes (f u) (g u)) :
    Echoes (x >>= f) (y >>= g) := by
  intro a b hab
  rw [ends_bind]
  refine ends_mono (h a b hab) ?_ ?_
  · rintro u a' ⟨b', hy, hab'⟩
    rw [bind_of_ok hy]
    exact hf u a' b' hab'
  · intro e a' hy hne
    obtain ⟨b', hy, hab'⟩ := hy hne
    exact ⟨b', bind_of_error hy, hab'⟩

/-- What a step on the heap does has nothing to do with the journal. -/
theorem echoes_onMemory (x : CopyM α) : Echoes (onMemory x) (onMemory x) := by
  rintro a _ ⟨journal, rfl⟩
  simp only [onMemory, Ends]
  cases x a.memory with
  | ok u m => exact ⟨_, rfl, journal, rfl⟩
  | error e m => exact fun _ => ⟨_, rfl, journal, rfl⟩

theorem echoes_heap : Echoes heap heap := by
  rintro a _ ⟨journal, rfl⟩
  exact ⟨_, rfl, journal, rfl⟩

theorem echoes_copyOf (o : ObjectId) : Echoes (copyOf o) (copyOf o) := by
  rintro a _ ⟨journal, rfl⟩
  exact ⟨_, rfl, journal, rfl⟩

theorem echoes_register (o : ObjectId) (v : Value) : Echoes (register o v) (register o v) := by
  rintro a _ ⟨journal, rfl⟩
  exact ⟨_, rfl, journal, rfl⟩

theorem echoes_write (notes notes' : List Note) : Echoes (write notes) (write notes') := by
  rintro a _ ⟨journal, rfl⟩
  exact ⟨_, rfl, journal ++ notes', rfl⟩

theorem echoes_outcome (h : Echoes x y) : Echoes (outcome x) (outcome y) := by
  intro a b hab
  rw [ends_outcome]
  refine ends_mono (h a b hab) ?_ ?_
  · rintro u a' ⟨b', hy, hab'⟩
    refine ⟨b', ?_, hab'⟩
    simp only [outcome, hy]
  · intro e a' hy
    cases e with
    | failed e =>
      obtain ⟨b', hy, hab'⟩ := hy (by simp)
      exact ⟨b', by simp only [outcome, hy], hab'⟩
    | _ =>
      intro hne
      obtain ⟨b', hy, hab'⟩ := hy hne
      exact ⟨b', by simp only [outcome, hy], hab'⟩

/-- A step that goes on by what the run has come to, the journal apart. -/
theorem echoes_get_bind {f g : Run → CloneM β}
    (h : ∀ a journal, Echoes (f a) (g { a with journal })) : Echoes (get >>= f) (get >>= g) := by
  rintro a _ ⟨journal, rfl⟩
  exact h a journal a _ ⟨journal, rfl⟩

/-- Notes that are left first make no difference. -/
theorem Echoes.of_noting (h : Echoes x y) (notes : Run → List Note) :
    Echoes (get >>= fun run => write (notes run) >>= fun _ => x) y := by
  rintro a _ ⟨journal, rfl⟩
  exact h { a with journal := a.journal ++ notes a } _ ⟨journal, rfl⟩

/-- A step that changes the run apart from the journal. -/
theorem echoes_modify {f g : Run → Run} (h : ∀ a journal, (f a).Same (g { a with journal })) :
    Echoes (modify f) (modify g) := by
  rintro a _ ⟨journal, rfl⟩
  exact ⟨_, rfl, h a journal⟩

end Steps

/-! ## The traversal -/

namespace Setting

variable {s : Setting}

theorem echoes_plan (cls : ClassId) : Echoes (s.plan cls) (s.plan cls) :=
  echoes_get_bind fun _ _ => (echoes_ofExcept _).bind fun _ =>
    (echoes_modify fun _ journal => ⟨journal, rfl⟩).bind fun _ => echoes_pure _

theorem echoes_verdict (cls : ClassId) (o : ObjectId) :
    Echoes (s.verdict cls o) (s.verdict cls o) := by
  unfold verdict
  split
  · exact echoes_pure _
  · split
    · exact echoes_pure _
    · refine Echoes.bind ?_ fun _ => echoes_pure _
      rintro a _ ⟨journal, rfl⟩
      exact ⟨_, rfl, journal, rfl⟩

/-- The same implementor is found, with notes or without. -/
theorem echoes_namedImplementor (p : Plan) (name : String) :
    Echoes (s.silent.namedImplementor p name) (s.namedImplementor p name) := by
  unfold namedImplementor
  refine echoes_get_bind fun a _ => ?_
  dsimp only
  cases Assoc.find? p.cls a.resolved with
  | some i => exact echoes_pure i
  | none =>
    simp only [find?_silent]
    cases Assoc.find? name s.catalog with
    | some maker =>
      exact (echoes_write _ _).bind fun _ =>
        (echoes_modify fun _ journal => ⟨journal, rfl⟩).bind fun _ => echoes_pure _
    | none => exact echoes_fail _

theorem echoes_copyItself (method : SelfCopy) (source : ObjectId) (p : Plan) :
    Echoes (copyItself method source p) (copyItself method source p) := by
  refine echoes_heap.bind fun h => ?_
  refine (echoes_modify fun _ journal => ⟨journal, rfl⟩).bind fun _ => ?_
  split
  · exact (echoes_register source _).bind fun _ => echoes_pure _
  · exact echoes_fail _
  · exact echoes_fail _

/-- A request of a routine has the same reply: none asks for the journal. -/
theorem echoes_answer_of_plain {q : Request} (hq : q.isPlain = true)
    (nested nested' : Value → CloneM Value) :
    Echoes (s.silent.answer nested q) (s.answer nested' q) := by
  cases q with
  | visited =>
    rintro a _ ⟨journal, rfl⟩
    exact ⟨_, rfl, journal, rfl⟩
  | copyOf source => exact echoes_copyOf source
  | allocate cls => exact echoes_outcome ((echoes_plan cls).bind fun p => echoes_onMemory _)
  | plan cls => exact echoes_outcome (echoes_plan cls)
  | look o => exact echoes_heap.bind fun h => echoes_pure _
  | create cls body => exact echoes_onMemory (Memory.create cls body)
  | overwrite o body => exact echoes_modify fun _ journal => ⟨journal, rfl⟩
  | getField o name => exact echoes_heap.bind fun h => echoes_pure _
  | setField o name v =>
    show Echoes (s.answer nested (.setField o name v)) _
    refine echoes_heap.bind fun h => ?_
    split
    · exact (echoes_modify fun _ journal => ⟨journal, rfl⟩).bind fun _ => echoes_pure _
    · exact echoes_pure _
  | note n => exact echoes_write _ _
  | _ => first | exact echoes_pure _ | cases hq

/-- With the silent catalog on the first of two sides, all that is done with an object ends alike on
both. -/
theorem deciding_echoes (s : Setting) :
    Stepwise.Deciding (fun α (x : Bool → CloneM α) => Echoes (x true) (x false)) s
      (fun i => cond i s.silent.catalog s.catalog) where
  pure := echoes_pure
  bind hx hf := hx.bind hf
  memory _ := echoes_onMemory _
  heap := echoes_heap
  plan := echoes_plan
  access _ _ _ _ := echoes_fail _
  fail := echoes_fail
  outcome hx := echoes_outcome hx
  register := echoes_register
  plain hq nested := echoes_answer_of_plain hq (nested true) (nested false)
  verdict := echoes_verdict
  named := echoes_namedImplementor
  itself := echoes_copyItself

section Nested

variable {nested nested' : Value → CloneM Value} {look look' : ObjectId → CloneM (Option Value)}
  {enter enter' : ObjectId → Value → CloneM Unit} (hn : ∀ v, Echoes (nested v) (nested' v))
  (hl : ∀ o, Echoes (look o) (look' o)) (he : ∀ o v, Echoes (enter o v) (enter' o v))
include hn

include hl he in
theorem echoes_cloneNewBy (source : ObjectId) :
    Echoes (s.silent.cloneNewBy nested look enter source)
      (s.cloneNewBy nested' look' enter' source) :=
  (deciding_echoes s).cloneNew (fun i v => cond i (nested v) (nested' v)) hn
    (fun i o v => cond i (enter o v) (enter' o v)) he (fun i o => cond i (look o) (look' o)) hl
    source

theorem echoes_cloneNew (source : ObjectId) :
    Echoes (s.silent.cloneNew nested source) (s.cloneNew nested' source) :=
  echoes_cloneNewBy hn echoes_copyOf echoes_register source

end Nested

/-- The traversal with a log comes to the same end as the traversal itself and does the same, unless
it has gone too deep. The traversal itself may go deeper. -/
theorem echoes_cloneNoting {depth depth' : Nat} (hd : depth ≤ depth') (v : Value) :
    Echoes (cloneNoting s.silent depth v) (cloneValue s depth' v) := by
  induction depth generalizing depth' v with
  | zero =>
    cases v with
    | ref o =>
      unfold cloneNoting cloneValue
      refine (echoes_copyOf o).bind fun found => ?_
      cases found with
      | some copy => exact echoes_pure copy
      | none => exact fun _ _ _ hne => absurd rfl hne
    | _ =>
      unfold cloneNoting cloneValue
      exact echoes_pure _
  | succ depth ih =>
    obtain ⟨depth', rfl⟩ := Nat.exists_eq_add_of_lt (Nat.lt_of_succ_le hd)
    cases v with
    | ref o =>
      unfold cloneNoting cloneValue
      refine (echoes_copyOf o).bind fun found => ?_
      cases found with
      | some copy => exact echoes_pure copy
      | none =>
        exact Echoes.of_noting (echoes_cloneNew (ih (by omega)) o) _
    | _ =>
      unfold cloneNoting cloneValue
      exact echoes_pure _

end Setting

end DeepCopy
