-- How a computation ends: well in one condition, or with an error in another.
-- A sequence of steps is read step by step, so a fact about a whole step is put
-- together from facts about its parts.
import DeepCopy.Operation

namespace DeepCopy

/-- From a state the computation ends well in `Q`, or it fails in `E`. -/
def Ends {ε σ α : Type} (x : EStateM ε σ α) (st : σ) (Q : α → σ → Prop) (E : ε → σ → Prop) :
    Prop :=
  match x st with
  | .ok a st' => Q a st'
  | .error e st' => E e st'

/-- The state that a computation leaves behind, however it ends. -/
def after {ε σ α : Type} (x : EStateM ε σ α) (st : σ) : σ :=
  match x st with
  | .ok _ st' => st'
  | .error _ st' => st'

section Steps

variable {ε σ α β : Type} {st : σ} {Q : α → σ → Prop} {E : ε → σ → Prop}

theorem ends_of_ok {x : EStateM ε σ α} {a : α} {st' : σ} (h : x st = .ok a st') :
    Ends x st Q E ↔ Q a st' := by
  unfold Ends
  rw [h]

theorem ends_of_error {x : EStateM ε σ α} {e : ε} {st' : σ} (h : x st = .error e st') :
    Ends x st Q E ↔ E e st' := by
  unfold Ends
  rw [h]

@[simp] theorem ends_pure (a : α) : Ends (pure a : EStateM ε σ α) st Q E ↔ Q a st := Iff.rfl

@[simp] theorem ends_throw (e : ε) : Ends (throw e : EStateM ε σ α) st Q E ↔ E e st := Iff.rfl

@[simp] theorem ends_get {Q : σ → σ → Prop} : Ends (get : EStateM ε σ σ) st Q E ↔ Q st st :=
  Iff.rfl

@[simp] theorem ends_modify {Q : Unit → σ → Prop} (f : σ → σ) :
    Ends (modify f : EStateM ε σ Unit) st Q E ↔ Q () (f st) := Iff.rfl

@[simp] theorem ends_modifyGet (f : σ → α × σ) :
    Ends (modifyGet f : EStateM ε σ α) st Q E ↔ Q (f st).1 (f st).2 := Iff.rfl

@[simp] theorem ends_bind {x : EStateM ε σ β} {f : β → EStateM ε σ α} :
    Ends (x >>= f) st Q E ↔ Ends x st (fun b st' => Ends (f b) st' Q E) E := by
  simp only [Ends, bind, EStateM.bind]
  cases x st <;> rfl

@[simp] theorem ends_map {x : EStateM ε σ β} {g : β → α} :
    Ends (g <$> x) st Q E ↔ Ends x st (fun b st' => Q (g b) st') E := by
  simp only [Ends, Functor.map, EStateM.map]
  cases x st <;> rfl

@[simp] theorem ends_discard {x : EStateM ε σ β} {Q : PUnit → σ → Prop} :
    Ends (discard x) st Q E ↔ Ends x st (fun _ st' => Q () st') E := by
  simp only [Ends, discard, Functor.mapConst, EStateM.map, Function.comp]
  cases x st <;> rfl

theorem bind_of_ok {x : EStateM ε σ β} {f : β → EStateM ε σ α} {b : β} {st' : σ}
    (h : x st = .ok b st') : (x >>= f) st = f b st' := by
  simp only [bind, EStateM.bind, h]

theorem bind_of_error {x : EStateM ε σ β} {f : β → EStateM ε σ α} {e : ε} {st' : σ}
    (h : x st = .error e st') : (x >>= f) st = .error e st' := by
  simp only [bind, EStateM.bind, h]

theorem ends_mono {x : EStateM ε σ α} {Q' : α → σ → Prop} {E' : ε → σ → Prop}
    (h : Ends x st Q E) (hQ : ∀ a st', Q a st' → Q' a st') (hE : ∀ e st', E e st' → E' e st') :
    Ends x st Q' E' := by
  unfold Ends at *
  cases hx : x st with
  | ok a st' => rw [hx] at h; exact hQ a st' h
  | error e st' => rw [hx] at h; exact hE e st' h

theorem ends_and {x : EStateM ε σ α} {Q' : α → σ → Prop} {E' : ε → σ → Prop}
    (h : Ends x st Q E) (h' : Ends x st Q' E') :
    Ends x st (fun a st' => Q a st' ∧ Q' a st') (fun e st' => E e st' ∧ E' e st') := by
  unfold Ends at *
  cases hx : x st with
  | ok a st' => rw [hx] at h h'; exact ⟨h, h'⟩
  | error e st' => rw [hx] at h h'; exact ⟨h, h'⟩

/-- What holds of every ending holds of the state that is left behind. -/
theorem ends_after {x : EStateM ε σ α} {P : σ → Prop}
    (h : Ends x st (fun _ st' => P st') (fun _ st' => P st')) : P (after x st) := by
  unfold Ends at h
  unfold after
  cases hx : x st with
  | ok a st' => rw [hx] at h; exact h
  | error e st' => rw [hx] at h; exact h

/-- The computation ends well, in `Q`. -/
abbrev Succeeds (x : EStateM ε σ α) (st : σ) (Q : α → σ → Prop) : Prop :=
  Ends x st Q fun _ _ => False

theorem Succeeds.exists_ok {x : EStateM ε σ α} (h : Succeeds x st Q) :
    ∃ a st', x st = .ok a st' ∧ Q a st' := by
  cases hx : x st with
  | ok a st' => exact ⟨a, st', rfl, (ends_of_ok hx).mp h⟩
  | error e st' => exact ((ends_of_error hx).mp h).elim

/-- If the computation ends well, it does so in `Q`. -/
abbrev Yields (x : EStateM ε σ α) (st : σ) (Q : α → σ → Prop) : Prop := Ends x st Q fun _ _ => True

theorem yields_of_ok {x : EStateM ε σ α} {a : α} {st' : σ} (h : Yields x st Q)
    (hx : x st = .ok a st') : Q a st' := (ends_of_ok hx).mp h

theorem Yields.mono {x : EStateM ε σ α} {Q' : α → σ → Prop} (h : Yields x st Q)
    (hQ : ∀ a st', Q a st' → Q' a st') : Yields x st Q' := ends_mono h hQ fun _ _ h => h

theorem Succeeds.yields {x : EStateM ε σ α} (h : Succeeds x st Q) : Yields x st Q :=
  ends_mono h (fun _ _ h => h) fun _ _ h => h.elim

/-- What holds of every ending is added to what holds of the good ones. -/
theorem Yields.and_ends {x : EStateM ε σ α} {Q' : α → σ → Prop} (h : Yields x st Q)
    (h' : Ends x st Q' E) : Yields x st fun a st' => Q a st' ∧ Q' a st' :=
  ends_mono (ends_and h h') (fun _ _ h => h) fun _ _ _ => trivial

/-- What is seen of the end of a computation that ends well. -/
def peek? (look : α → σ → β) (x : EStateM ε σ α) (st : σ) : Option β :=
  match x st with
  | .ok a st' => some (look a st')
  | .error _ _ => none

theorem exists_of_peek? {look : α → σ → β} {x : EStateM ε σ α} {b : β}
    (h : peek? look x st = some b) : ∃ a st', x st = .ok a st' ∧ look a st' = b := by
  unfold peek? at h
  split at h
  · rename_i a st' hx
    exact ⟨a, st', hx, Option.some.inj h⟩
  · cases h

end Steps

/-! ## Work on the heap -/

section Heaps

variable {α : Type} {m : Memory} {Q : α → Memory → Prop} {E : Stop → Memory → Prop}

theorem ends_memory_read {ε : Type} {E : ε → Memory → Prop} (look : Heap → Except ε α) :
    Ends (Memory.read look) m Q E ↔
      match look m.heap with
      | .ok a => Q a m
      | .error e => E e m := by
  simp only [Memory.read, ends_bind, ends_get]
  cases look m.heap <;> rfl

theorem ends_memory_update {ε : Type} {Q : Unit → Memory → Prop} {E : ε → Memory → Prop}
    (change : Heap → Except ε Write) :
    Ends (Memory.update change) m Q E ↔
      match change m.heap with
      | .ok w => Q () { m with heap := m.heap.write w }
      | .error e => E e m := by
  simp only [Memory.update, ends_bind, ends_memory_read, ends_modify]
  cases change m.heap <;> rfl

theorem ends_copy_read (look : Heap → Except CloneError α) :
    Ends (CopyM.read look) m Q E ↔
      match look m.heap with
      | .ok a => Q a m
      | .error e => E (.failed e) m := by
  simp only [CopyM.read, ends_memory_read]
  cases look m.heap <;> rfl

theorem ends_copy_update {Q : Unit → Memory → Prop} (change : Heap → Except CloneError Write) :
    Ends (CopyM.update change) m Q E ↔
      match change m.heap with
      | .ok w => Q () { m with heap := m.heap.write w }
      | .error e => E (.failed e) m := by
  simp only [CopyM.update, ends_memory_update]
  cases change m.heap <;> rfl

theorem ends_allocating (cls : String) (x : MemoryM HeapError α) :
    Ends (CopyM.allocating cls x) m Q E ↔
      Ends x m Q (fun e m' => E (.failed (.allocation cls e)) m') := by
  simp only [CopyM.allocating, Ends]
  cases x m <;> rfl

end Heaps

/-! ## Steps of a clone -/

section Clones

open CloneM

variable {α : Type} {run : Run} {Q : α → Run → Prop} {E : Stop → Run → Prop}

@[simp] theorem ends_onMemory {x : CopyM α} :
    Ends (onMemory x) run Q E ↔
      Ends x run.memory (fun a memory => Q a { run with memory })
        (fun e memory => E e { run with memory }) := by
  simp only [onMemory, Ends]
  cases x run.memory <;> rfl

theorem succeeds_onMemory {x : CopyM α} {P : α → Memory → Prop} (h : Succeeds x run.memory P) :
    Succeeds (onMemory x) run fun a run' =>
      ∃ memory, run' = { run with memory } ∧ P a memory :=
  ends_onMemory.mpr (ends_mono h (fun _ memory ha => ⟨memory, rfl, ha⟩) fun _ _ h => h)

@[simp] theorem ends_fail (e : CloneError) :
    Ends (fail e : CloneM α) run Q E ↔ E (.failed e) run := Iff.rfl

@[simp] theorem ends_heap {Q : Heap → Run → Prop} :
    Ends heap run Q E ↔ Q run.memory.heap run := Iff.rfl

@[simp] theorem ends_copyOf {Q : Option Value → Run → Prop} (o : ObjectId) :
    Ends (copyOf o) run Q E ↔ Q (run.copies.find? o) run := Iff.rfl

@[simp] theorem ends_register {Q : Unit → Run → Prop} (o : ObjectId) (v : Value) :
    Ends (register o v) run Q E ↔ Q () { run with copies := run.copies.put o v } := Iff.rfl

@[simp] theorem ends_write {Q : Unit → Run → Prop} (notes : List Note) :
    Ends (write notes) run Q E ↔ Q () { run with journal := run.journal ++ notes } := Iff.rfl

theorem copyOf_bind {f : Option Value → CloneM α} (o : ObjectId) (run : Run) :
    (copyOf o >>= f) run = f (run.copies.find? o) run := rfl

theorem outcome_of_ok {x : CloneM α} {a : α} {run' : Run} (h : x run = .ok a run') :
    outcome x run = .ok (.ok a) run' := by
  simp only [outcome, h]

theorem outcome_of_failed {x : CloneM α} {e : CloneError} {run' : Run}
    (h : x run = .error (.failed e) run') : outcome x run = .ok (.error e) run' := by
  simp only [outcome, h]

theorem outcome_of_stop {x : CloneM α} {e : Stop} {run' : Run} (h : x run = .error e run')
    (he : ∀ cause, e ≠ .failed cause) : outcome x run = .error e run' := by
  simp only [outcome, h]

theorem ends_outcome {x : CloneM α} {Q : Except CloneError α → Run → Prop} :
    Ends (outcome x) run Q E ↔
      Ends x run (fun a run' => Q (.ok a) run') (fun e run' =>
        match e with
        | .failed e => Q (.error e) run'
        | stop => E stop run') := by
  simp only [outcome, Ends]
  cases x run with
  | ok a run' => rfl
  | error e run' => cases e <;> rfl

/-- The error with which a step ends. -/
def errorOf? (x : CloneM α) (run : Run) : Option CloneError :=
  match x run with
  | .error (.failed e) _ => some e
  | _ => none

theorem errorOf?_eq_some {x : CloneM α} {e : CloneError} :
    errorOf? x run = some e ↔ ∃ run', x run = .error (.failed e) run' := by
  unfold errorOf?
  split
  · rename_i heq
    simp [heq]
  · rename_i hne
    simp only [reduceCtorEq, false_iff, not_exists]
    exact fun run' heq => hne e run' heq

end Clones

/-! ## Clones of references -/

namespace Setting

open CloneM

variable {s : Setting} {run : Run}

theorem cloneValue_of_stands {o : ObjectId} {w : Value} (h : run.copies.find? o = some w)
    (depth : Nat) : cloneValue s depth (.ref o) run = .ok w run := by
  unfold cloneValue
  rw [copyOf_bind, h]
  rfl

theorem cloneValue_zero_of_new {o : ObjectId} (h : run.copies.find? o = none) :
    cloneValue s 0 (.ref o) run = .error .tooDeep run := by
  unfold cloneValue
  rw [copyOf_bind, h]
  rfl

theorem cloneValue_succ_of_new {o : ObjectId} {depth : Nat} (h : run.copies.find? o = none) :
    cloneValue s (depth + 1) (.ref o) run = s.cloneNew (cloneValue s depth) o run := by
  unfold cloneValue
  rw [copyOf_bind, h]

end Setting

end DeepCopy
