-- What stands for the values that a clone meets. In a clone that goes well the
-- copies of objects are only added to, so what has come out for a value stands for
-- it from then on. What else is true of the run is left open: the way from one
-- object to the whole clone is gone here once for all that can be.
import DeepCopy.Proofs.Frame

namespace DeepCopy

/-- What stands for a value, as far as there are copies. -/
def Stands (fate : ObjectId → Fate) (copies : Copies) (v w : Value) : Prop :=
  match v with
  | .ref o =>
    match fate o with
    | .nulled => w = .null
    | .shared => w = .ref o
    | .copied => copies.find? o = some w
  | v => w = v

theorem Stands.of_object? {fate : ObjectId → Fate} {copies : Copies} {v : Value}
    (hv : v.object? = none) : Stands fate copies v v := by
  cases v with
  | ref o => cases hv
  | _ => rfl

section Refs

variable {fate : ObjectId → Fate} {o : ObjectId}

theorem stands_of_nulled (copies : Copies) (hf : fate o = .nulled) :
    Stands fate copies (.ref o) .null := by
  simp [Stands, hf]

theorem stands_of_shared (copies : Copies) (hf : fate o = .shared) :
    Stands fate copies (.ref o) (.ref o) := by
  simp [Stands, hf]

theorem stands_of_copied {copies : Copies} {w : Value} (hf : fate o = .copied) :
    Stands fate copies (.ref o) w ↔ copies.find? o = some w := by
  simp [Stands, hf]

end Refs

theorem Stands.mono {fate : ObjectId → Fate} {copies copies' : Copies}
    (h : ∀ o v, copies.find? o = some v → copies'.find? o = some v) {v w : Value}
    (hw : Stands fate copies v w) : Stands fate copies' v w := by
  cases v with
  | ref o =>
    unfold Stands at *
    simp only at *
    split at hw
    · exact hw
    · exact hw
    · exact h o w hw
  | _ => exact hw

/-! ## Copies that are added -/

/-- Objects that have copies in the one map have the same ones in the other. -/
def Copies.Within (copies copies' : Copies) : Prop :=
  ∀ o v, copies.find? o = some v → copies'.find? o = some v

theorem Copies.Within.refl (copies : Copies) : copies.Within copies := fun _ _ h => h

theorem Copies.Within.trans {copies copies' copies'' : Copies} (h : copies.Within copies')
    (h' : copies'.Within copies'') : copies.Within copies'' := fun o v hf => h' o v (h o v hf)

theorem Copies.within_put {copies : Copies} {o : ObjectId} (h : copies.find? o = none) (v : Value) :
    copies.Within (copies.put o v) := by
  intro o' w hw
  have ho : o' ≠ o := by
    rintro rfl
    rw [h] at hw
    cases hw
  rw [Copies.find?_put_ne _ _ ho]
  exact hw

/-- Copies stay different when one more is added that no object has. -/
theorem Copies.injective_put {copies : Copies} {w : Value}
    (hinj : ∀ o o' v, copies.find? o = some v → copies.find? o' = some v → o = o')
    (hnew : ∀ o, copies.find? o ≠ some w) (o o₁ o₂ : ObjectId) (v : Value)
    (h₁ : (copies.put o w).find? o₁ = some v) (h₂ : (copies.put o w).find? o₂ = some v) :
    o₁ = o₂ := by
  by_cases ho₁ : o₁ = o <;> by_cases ho₂ : o₂ = o
  · rw [ho₁, ho₂]
  · subst ho₁
    rw [Copies.find?_put] at h₁
    rw [Copies.find?_put_ne _ _ ho₂, ← h₁] at h₂
    exact absurd h₂ (hnew o₂)
  · subst ho₂
    rw [Copies.find?_put] at h₂
    rw [Copies.find?_put_ne _ _ ho₁, ← h₂] at h₁
    exact absurd h₁ (hnew o₁)
  · rw [Copies.find?_put_ne _ _ ho₁] at h₁
    rw [Copies.find?_put_ne _ _ ho₂] at h₂
    exact hinj o₁ o₂ v h₁ h₂

/-! ## Clones that go well -/

namespace Setting

open CloneM Invariant

/-- As long as the clone goes well, `G` is true of the run, copies are only added, and what comes
out for a value of `P` stands for it. -/
def standing (fate : ObjectId → Fate) (P : Value → Prop) (G : Run → Prop) : Invariant where
  Good := G
  Later run run' := G run' ∧ run.copies.Within run'.copies
  Stopped _ _ _ := True
  Allows _ := P
  Gives run := Stands fate run.copies
  refl h := ⟨h, .refl _⟩
  trans h h' := ⟨h'.1, h.2.trans h'.2⟩
  good _ h := h.1
  stopped _ _ := trivial
  failed _ _ := trivial
  blamed _ := trivial
  allows _ h := h
  gives h hw := hw.mono h.2

variable {s : Setting} {base run : Run} {fate : ObjectId → Fate} {P : Value → Prop}
  {G : Run → Prop} {nested : Value → CloneM Value} {source target : ObjectId}

theorem receives_standing (h : ∀ run memory, G run → Touched target run.heap memory.heap →
    memory.tally = run.memory.tally → G { run with memory }) :
    (standing fate P G).Receives target := by
  intro α x hx run hg
  rw [ends_onMemory]
  refine ends_mono (hx run.memory) ?_ fun _ _ _ => trivial
  rintro _ memory ⟨htouch, htally⟩
  exact ⟨⟨h run memory hg htouch htally, .refl _⟩, trivial⟩

/-- A copy is made and stands for its source. What is true then, `M`, is enough to fill it. -/
theorem standing_makeCopy {M : ObjectId → Run → Prop} {make : CopyM ObjectId}
    {fill : ObjectId → CloneM Unit} (new : run.copies.find? source = none)
    (hmake : G run → Yields make run.memory fun target memory =>
      M target { run with memory, copies := run.copies.put source (.ref target) })
    (hfill : ∀ target run₁, M target run₁ → run₁.copies.find? source = some (.ref target) →
      Yields (fill target) run₁ fun _ run₂ => G run₂ ∧ run₁.copies.Within run₂.copies) :
    (standing fate P G).Maintains (makeCopy register source make fill) run fun w run' =>
      run'.copies.find? source = some w := by
  intro hg
  unfold makeCopy
  rw [ends_bind, ends_onMemory]
  refine ends_mono (hmake hg) ?_ fun _ _ _ => trivial
  intro target memory hm
  have hput := Copies.find?_put run.copies source (.ref target)
  rw [ends_bind, ends_register, ends_bind]
  refine ends_mono (hfill target _ hm hput) ?_ fun _ _ _ => trivial
  rintro _ run₂ ⟨h₂, hc⟩
  exact ⟨⟨h₂, (Copies.within_put new _).trans hc⟩, hc source _ hput⟩

/-- An object that has no copy is cloned, if it is when it is to be duplicated or rebuilt. -/
theorem standing_cloneNew (he : s.Employs (· = .containers) run source)
    (hkept : Kept s (base.heap.size ≤ ·) base run) (hs : source < base.heap.size)
    (hfinds : ∀ run', Finds s (· = .containers) run run' → G run → G run')
    (hself : s.policy.flags.useSelfCopy = true → ∀ p, s.planOf base (base.heap.cls source) = .ok p →
      p.selfCopy = none)
    (rebuilt : s.fate base source = .copied → ∀ run', Finds s (· = .containers) run run' →
      (standing (s.fate base) P G).Maintains (s.duplicateContainer nested source) run'
        fun w run'' => run''.copies.find? source = some w)
    (duplicated : s.fate base source = .copied → ∀ p run', Finds s (· = .containers) run run' →
      s.planOf base (base.heap.cls source) = .ok p →
      (standing (s.fate base) P G).Maintains (s.duplicate nested source p) run'
        fun w run'' => run''.copies.find? source = some w) :
    (standing (s.fate base) P G).Maintains (s.cloneNew nested source) run fun w run' =>
      Stands (s.fate base) run'.copies (.ref source) w := by
  have hfate := hkept.fate_eq hs
  have hplan : ∀ p, s.planOf run (run.heap.cls source) = .ok p →
      s.planOf base (base.heap.cls source) = .ok p := by
    intro p hp
    rwa [hkept.planOf, hkept.heap.cls_eq source hs] at hp
  intro hg
  refine maintains_cloneNewBy he (fun run' hf => ⟨hfinds run' hf hg, hf.copies ▸ .refl _⟩)
    ?_ ?_ ?_ ?_ ?_ hg
  · exact fun hf run' _ => stands_of_nulled _ (hfate ▸ hf)
  · exact fun hf run' _ => stands_of_shared _ (hfate ▸ hf)
  · rintro hf _ run' rfl hfound
    rw [hfate] at hf
    refine (maintains_delegateBy (rebuilt hf run' hfound) fun w run₂ hw hg₂ => ?_).mono
      fun w run₂ _ _ hw => (stands_of_copied hf).mpr hw
    -- What the implementor returns is the copy that it has let stand for the source.
    refine ends_settle (fun _ => ⟨⟨hg₂, .refl _⟩, hw⟩) fun hnone => ?_
    rw [hw] at hnone
    cases hnone
  · intro _ p method run' _ hp hon hm
    rw [hself hon p (hplan p hp)] at hm
    cases hm
  · intro hf p run' hfound hp
    rw [hfate] at hf
    exact (duplicated hf p run' hfound (hplan p hp)).mono fun w run₂ _ _ hw =>
      (stands_of_copied hf).mpr hw

/-- A value is cloned, however deep that goes, if objects are that have no copy. The copies of
`busy` are yet to be filled. -/
theorem clones_standing {G : (ObjectId → Prop) → Run → Prop}
    (hcopied : ∀ busy run o w, G busy run → run.copies.find? o = some w → fate o = .copied)
    (new : ∀ depth, (∀ busy, (standing fate P (G busy)).Clones (cloneValue s depth)) →
      ∀ busy run o, P (.ref o) → run.copies.find? o = none →
      (standing fate P (G busy)).Maintains (s.cloneNew (cloneValue s depth) o) run fun w run' =>
        Stands fate run'.copies (.ref o) w)
    (depth : Nat) (busy : ObjectId → Prop) :
    (standing fate P (G busy)).Clones (cloneValue s depth) :=
  clones_cloneValue (I := fun busy => standing fate P (G busy))
    (fun _ _ _ _ hv => Stands.of_object? hv)
    (fun busy run o w hg _ hf => (stands_of_copied (hcopied busy run o w hg hf)).mpr hf)
    (fun _ _ _ => trivial) new depth busy

/-! ## The whole clone -/

/-- The run as a clone finds it when it begins. -/
abbrev begun (run : Run) : Run := { run with copies := {} }

theorem find?_begun (run : Run) (o : ObjectId) (w : Value) :
    (begun run).copies.find? o ≠ some w := by
  rw [Copies.find?_empty]
  simp

/-- When a clone has gone well, what came out stands for the value. -/
theorem yields_clone_standing (hn : ∀ depth, (standing fate P G).Clones (cloneValue s depth))
    {v : Value} (hg : G (begun run)) (hv : P v) :
    Yields (s.clone v) run fun w run' => G run' ∧ Stands fate run'.copies v w := by
  unfold clone begin
  simp only [Yields, ends_bind, ends_modify, ends_heap]
  refine ends_mono (hn _ (begun run) v hv hg) ?_ fun _ _ h => h
  rintro w run' ⟨⟨hg', -⟩, hw⟩
  exact ⟨hg', hw⟩

end Setting

end DeepCopy
