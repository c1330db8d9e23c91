-- The parts of a clone as functions of the way in which nested values are cloned.
-- A part is put together from steps that clone nothing and from nested clones, and
-- where routines are at work it may go on after a failure. By that alone it can be
-- said which nested clones a part asks for, and that all others make no difference.
import DeepCopy.Proofs.Placed

namespace DeepCopy

open CloneM

/-- A way to clone nested values. -/
abbrev Nested := Value → CloneM Value

/-- A part of a clone, as a function of the way in which nested values are cloned. Its steps keep to
a rule, and it goes on after a failure only if it may. -/
inductive Part (rule : ∀ α : Type, CloneM α → Prop) (catching : Prop) :
    {α : Type} → (Nested → CloneM α) → Prop where
  | step {α : Type} {x : CloneM α} (h : rule α x) : Part rule catching fun _ => x
  | nested (v : Value) : Part rule catching fun nested => nested v
  | bind {α β : Type} {x : Nested → CloneM α} {f : α → Nested → CloneM β}
    (hx : Part rule catching x) (hf : ∀ a, Part rule catching (f a)) :
    Part rule catching fun nested => x nested >>= fun a => f a nested
  | caught {α : Type} {x : Nested → CloneM α} (hc : catching) (hx : Part rule catching x) :
    Part rule catching fun nested => outcome (x nested)

namespace Part

variable {rule rule' : ∀ α : Type, CloneM α → Prop} {catching catching' : Prop} {α β : Type}
  {x : Nested → CloneM α}

theorem mono (hx : Part rule catching x) (hr : ∀ α y, rule α y → rule' α y)
    (hc : catching → catching') : Part rule' catching' x := by
  induction hx with
  | step h => exact .step (hr _ _ h)
  | nested v => exact .nested v
  | bind _ _ ihx ihf => exact .bind ihx ihf
  | caught h _ ih => exact .caught (hc h) ih

end Part

/-! ## The nested clones that a part asks for -/

/-- Two ways to clone nested values are one but for what becomes of a value in a run. -/
def AgreeBut (w : Value) (r : Run) (n n' : Nested) : Prop :=
  ∀ v run, (v, run) ≠ (w, r) → n' v run = n v run

/-- A part that starts in `run` asks for the clone of `w` in `r`: should that one clone go too deep,
wherever it gets to, then so does the part. -/
def Asks {α : Type} (part : Nested → CloneM α) (n : Nested) (run : Run) (w : Value) (r : Run) :
    Prop :=
  ∀ n' last, AgreeBut w r n n' → n' w r = .error .tooDeep last →
    part n' run = .error .tooDeep last

/-- It makes no difference to a part what becomes of `w` in `r`. -/
def Ignores {α : Type} (part : Nested → CloneM α) (n : Nested) (run : Run) (w : Value) (r : Run) :
    Prop :=
  ∀ n', AgreeBut w r n n' → part n' run = part n run

open Classical in
theorem exists_agreeBut (w : Value) (r : Run) (n : Nested) (last : Run) :
    ∃ n', AgreeBut w r n n' ∧ n' w r = .error .tooDeep last := by
  refine ⟨fun v run => if (v, run) = (w, r) then .error .tooDeep last else n v run, ?_, if_pos rfl⟩
  exact fun v run hne => if_neg hne

section Asking

variable {α β : Type} {part : Nested → CloneM α} {n n' : Nested} {run r : Run} {w : Value}

/-- What is asked for makes a difference. -/
theorem Asks.not_ignores (h : Asks part n run w r) : ¬ Ignores part n run w r := by
  intro hi
  have ends : ∀ last, part n run = .error .tooDeep last := fun last => by
    obtain ⟨n', ha, hw⟩ := exists_agreeBut w r n last
    rw [← hi n' ha]
    exact h n' last ha hw
  have h₁ := (ends {}).symm.trans (ends { journal := [.visited 0] })
  simp at h₁

theorem Asks.congr {part' : Nested → CloneM β} {run' : Run} (h : Asks part n run w r)
    (he : ∀ n' last, part n' run = .error .tooDeep last → part' n' run' = .error .tooDeep last) :
    Asks part' n run' w r :=
  fun n' last ha hw => he n' last (h n' last ha hw)

/-- What the first of two steps asks for, both ask for. -/
theorem Asks.bind_left {f : α → Nested → CloneM β} (h : Asks part n run w r) :
    Asks (fun n => part n >>= fun a => f a n) n run w r :=
  h.congr fun _ _ => bind_of_error

/-- What the second of two steps asks for, both ask for. -/
theorem Asks.bind_right {f : α → Nested → CloneM β} {a : α} {run' : Run}
    (hi : Ignores part n run w r) (hx : part n run = .ok a run') (h : Asks (f a) n run' w r) :
    Asks (fun n => part n >>= fun a => f a n) n run w r := by
  intro n' last ha hw
  exact (bind_of_ok ((hi n' ha).trans hx)).trans (h n' last ha hw)

/-- The only clone that is asked for by cloning one value. -/
theorem eq_of_asks_nested {v : Value} (h : Asks (fun n => n v) n run w r) : (v, run) = (w, r) := by
  refine Classical.byContradiction fun hne => h.not_ignores fun n' ha => ?_
  exact ha v run hne

variable {rule : ∀ α : Type, CloneM α → Prop} {catching : Prop}

/-- A part asks for a nested clone, or it ignores it. -/
theorem Part.asks_or_ignores (hx : Part rule catching part) (n : Nested) (run : Run) (w : Value)
    (r : Run) : Asks part n run w r ∨ Ignores part n run w r := by
  induction hx generalizing run with
  | step h => exact Or.inr fun _ _ => rfl
  | nested v =>
    by_cases heq : (v, run) = (w, r)
    · cases heq
      exact Or.inl fun _ _ _ h => h
    · exact Or.inr fun n' ha => ha v run heq
  | @bind _ _ x f _ _ ihx ihf =>
    rcases ihx run with h | hi
    · exact Or.inl h.bind_left
    · cases hx : x n run with
      | error e last =>
        refine Or.inr fun n' ha => ?_
        exact (bind_of_error ((hi n' ha).trans hx)).trans (bind_of_error hx).symm
      | ok a run' =>
        rcases ihf a run' with h | hi'
        · exact Or.inl (h.bind_right hi hx)
        · refine Or.inr fun n' ha => ?_
          refine (bind_of_ok ((hi n' ha).trans hx)).trans (Eq.trans ?_ (bind_of_ok hx).symm)
          exact hi' n' ha
  | caught _ _ ih =>
    rcases ih run with h | hi
    · exact Or.inl (h.congr fun _ _ he => outcome_of_stop he (by simp))
    · refine Or.inr fun n' ha => ?_
      simp only [outcome, hi n' ha]

/-- A part of two steps asks for what the first asks for, and for what the second does where the
first has got to. -/
theorem Part.asks_bind (hx : Part rule catching part) {f : α → Nested → CloneM β}
    (h : Asks (fun n => part n >>= fun a => f a n) n run w r) :
    Asks part n run w r ∨
      ∃ a run', part n run = .ok a run' ∧ Ignores part n run w r ∧ Asks (f a) n run' w r := by
  rcases hx.asks_or_ignores n run w r with hl | hi
  · exact Or.inl hl
  · cases hp : part n run with
    | error e last =>
      refine absurd (fun n' ha => ?_) h.not_ignores
      exact (bind_of_error ((hi n' ha).trans hp)).trans (bind_of_error hp).symm
    | ok a run' =>
      refine Or.inr ⟨a, run', rfl, hi, fun n' last ha hw => ?_⟩
      exact (bind_of_ok ((hi n' ha).trans hp)).symm.trans (h n' last ha hw)

/-- Of two steps of which the second clones nothing, the first asks for all. -/
theorem Part.asks_of_bind (hx : Part rule catching part) {f : α → CloneM β}
    (h : Asks (fun n => part n >>= f) n run w r) : Asks part n run w r := by
  rcases hx.asks_bind (f := fun a _ => f a) h with hl | ⟨_, _, -, -, hl⟩
  · exact hl
  · exact absurd (fun _ _ => rfl) hl.not_ignores

/-- A part that may go on after a failure asks for no more than the part that fails. -/
theorem Part.asks_of_outcome (hx : Part rule catching part)
    (h : Asks (fun n => outcome (part n)) n run w r) : Asks part n run w r := by
  rcases hx.asks_or_ignores n run w r with hl | hi
  · exact hl
  · refine absurd (fun n' ha => ?_) h.not_ignores
    simp only [outcome, hi n' ha]

/-- If a nested clone that is asked for comes to no good end, so does a part that does not go on
after failures, in the same way. -/
theorem Part.error_of_asks (hx : Part rule False part) (h : Asks part n run w r) {e : Stop}
    {last : Run} (hw : n w r = .error e last) : part n run = .error e last := by
  induction hx generalizing run with
  | step _ => exact absurd (fun _ _ => rfl) h.not_ignores
  | nested v =>
    cases eq_of_asks_nested h
    exact hw
  | bind hx _ ihx ihf =>
    rcases hx.asks_bind h with hl | ⟨a, run', hr, -, hf⟩
    · exact bind_of_error (ihx hl)
    · exact (bind_of_ok hr).trans (ihf a hf)
  | caught hc => exact hc.elim

end Asking

/-! ## What a run goes on knowing -/

namespace Setting

variable {s : Setting} {run run' : Run} {α β : Type}

/-- The plans are what they were, those that are yet to be made included. -/
def SamePlans (s : Setting) (run run' : Run) : Prop :=
  ∀ cls, s.planOf run' cls = s.planOf run cls

theorem SamePlans.refl (run : Run) : s.SamePlans run run := fun _ => rfl

theorem SamePlans.trans {run'' : Run} (h : s.SamePlans run run') (h' : s.SamePlans run' run'') :
    s.SamePlans run run'' := fun cls => (h' cls).trans (h cls)

theorem samePlans_of_plans_eq (h : run'.plans = run.plans) : s.SamePlans run run' := by
  intro cls
  unfold planOf
  rw [h]

/-- However a step ends, the plans are what they were. -/
def Settles (s : Setting) (α : Type) (x : CloneM α) : Prop :=
  ∀ run, Ends x run (fun _ => s.SamePlans run) fun _ => s.SamePlans run

theorem Settles.of_ok {x : CloneM α} (h : s.Settles α x) {a : α} (hx : x run = .ok a run') :
    s.SamePlans run run' := (ends_of_ok hx).mp (h run)

theorem Settles.bind {x : CloneM α} {f : α → CloneM β} (hx : s.Settles α x)
    (hf : ∀ a, s.Settles β (f a)) : s.Settles β (x >>= f) := by
  intro run
  rw [ends_bind]
  refine ends_mono (hx run) ?_ fun _ _ h => h
  intro a run' h
  exact ends_mono (hf a run') (fun _ _ h' => h.trans h') fun _ _ h' => h.trans h'

theorem Settles.outcome {x : CloneM α} (hx : s.Settles α x) :
    s.Settles (Except CloneError α) (outcome x) := by
  intro run
  rw [ends_outcome]
  refine ends_mono (hx run) (fun _ _ h => h) ?_
  intro e run' h
  cases e <;> exact h

end Setting

theorem Part.settles {s : Setting} {α : Type} {part : Nested → CloneM α} {catching : Prop}
    {n : Nested} (hx : Part s.Settles catching part) (hn : ∀ v, s.Settles Value (n v)) :
    s.Settles α (part n) := by
  induction hx with
  | step h => exact h
  | nested v => exact hn v
  | bind _ _ ihx ihf => exact ihx.bind ihf
  | caught _ _ ih => exact ih.outcome

end DeepCopy
