-- Two computations side by side: both end well, or both fail. A fact about a
-- sequence of steps on both sides is put together from facts about the steps.
import DeepCopy.Proofs.Stepwise

namespace DeepCopy

/-- From two states both computations end well in `Q`, or both fail in `E`. -/
def Tandem {ε σ α β : Type} (x : EStateM ε σ α) (y : EStateM ε σ β) (a b : σ)
    (Q : α → β → σ → σ → Prop) (E : ε → ε → σ → σ → Prop) : Prop :=
  Ends x a (fun u a' => Ends y b (fun v b' => Q u v a' b') fun _ _ => False)
    fun e a' => Ends y b (fun _ _ => False) fun e' b' => E e e' a' b'

section Steps

variable {ε σ α α' β β' : Type} {x : EStateM ε σ α} {y : EStateM ε σ β} {a b : σ}
  {Q : α → β → σ → σ → Prop} {E : ε → ε → σ → σ → Prop}

theorem tandem_iff : Tandem x y a b Q E ↔
    (∃ u a' v b', x a = .ok u a' ∧ y b = .ok v b' ∧ Q u v a' b') ∨
      ∃ e a' e' b', x a = .error e a' ∧ y b = .error e' b' ∧ E e e' a' b' := by
  unfold Tandem Ends
  constructor
  · intro h
    cases hx : x a <;> cases hy : y b <;> simp only [hx, hy] at h
    · exact Or.inl ⟨_, _, _, _, rfl, rfl, h⟩
    · exact Or.inr ⟨_, _, _, _, rfl, rfl, h⟩
  · intro hends
    rcases hends with ⟨u, a', v, b', hx, hy, h⟩ | ⟨e, a', e', b', hx, hy, h⟩
    · simp only [hx, hy]
      exact h
    · simp only [hx, hy]
      exact h

theorem tandem_of_ok {u : α} {v : β} {a' b' : σ} (hx : x a = .ok u a') (hy : y b = .ok v b') :
    Tandem x y a b Q E ↔ Q u v a' b' := by
  unfold Tandem
  rw [ends_of_ok hx, ends_of_ok hy]

theorem tandem_of_error {e e' : ε} {a' b' : σ} (hx : x a = .error e a')
    (hy : y b = .error e' b') : Tandem x y a b Q E ↔ E e e' a' b' := by
  unfold Tandem
  rw [ends_of_error hx, ends_of_error hy]

@[simp] theorem tandem_pure (u : α) (v : β) :
    Tandem (pure u : EStateM ε σ α) (pure v : EStateM ε σ β) a b Q E ↔ Q u v a b := Iff.rfl

@[simp] theorem tandem_throw (e e' : ε) :
    Tandem (throw e : EStateM ε σ α) (throw e' : EStateM ε σ β) a b Q E ↔ E e e' a b := Iff.rfl

/-- Two sequences of steps: the first steps, and then what comes next from wherever they end. -/
theorem Tandem.bind {Q' : α' → β' → σ → σ → Prop} {x' : EStateM ε σ α'} {y' : EStateM ε σ β'}
    {f : α' → EStateM ε σ α} {g : β' → EStateM ε σ β} (h : Tandem x' y' a b Q' E)
    (hf : ∀ u v a' b', Q' u v a' b' → Tandem (f u) (g v) a' b' Q E) :
    Tandem (x' >>= f) (y' >>= g) a b Q E := by
  rcases tandem_iff.mp h with ⟨u, a', v, b', hx, hy, hq⟩ | ⟨e, a', e', b', hx, hy, he⟩
  · have next := hf u v a' b' hq
    unfold Tandem at next ⊢
    simp only [ends_bind, ends_of_ok hx, ends_of_ok hy]
    exact next
  · unfold Tandem
    simp only [ends_bind, ends_of_error hx, ends_of_error hy]
    exact he

/-- A step that goes well on the first side only. -/
theorem Tandem.bind_left {P : α' → σ → Prop} {x' : EStateM ε σ α'} {f : α' → EStateM ε σ α}
    (hx : Succeeds x' a P) (hf : ∀ u a', P u a' → Tandem (f u) y a' b Q E) :
    Tandem (x' >>= f) y a b Q E := by
  obtain ⟨u, a', hx, hu⟩ := hx.exists_ok
  have next := hf u a' hu
  unfold Tandem at next ⊢
  simp only [ends_bind, ends_of_ok hx]
  exact next

/-- A step that goes well on the second side only. -/
theorem Tandem.bind_right {P : β' → σ → Prop} {y' : EStateM ε σ β'} {g : β' → EStateM ε σ β}
    (hy : Succeeds y' b P) (hg : ∀ v b', P v b' → Tandem x (g v) a b' Q E) :
    Tandem x (y' >>= g) a b Q E := by
  obtain ⟨v, b', hy, hv⟩ := hy.exists_ok
  have next := hg v b' hv
  unfold Tandem at next ⊢
  simp only [ends_bind, ends_of_ok hy]
  exact next

/-- How the first side ends by itself. -/
theorem Tandem.ends_left {P : α → σ → Prop} {F : ε → σ → Prop} (h : Tandem x y a b Q E)
    (hQ : ∀ u v a' b', Q u v a' b' → P u a') (hE : ∀ e e' a' b', E e e' a' b' → F e a') :
    Ends x a P F := by
  rcases tandem_iff.mp h with ⟨u, a', v, b', hx, -, hq⟩ | ⟨e, a', e', b', hx, -, he⟩
  · exact (ends_of_ok hx).mpr (hQ u v a' b' hq)
  · exact (ends_of_error hx).mpr (hE e e' a' b' he)

/-- Another computation that goes the same way from where the first side is. -/
theorem Tandem.congr_left {x' : EStateM ε σ α} (h : Tandem x y a b Q E) (hx : x' a = x a) :
    Tandem x' y a b Q E := by
  unfold Tandem Ends at *
  rw [hx]
  exact h

theorem Tandem.map {Q' : α' → β' → σ → σ → Prop} {x' : EStateM ε σ α'} {y' : EStateM ε σ β'}
    {f : α' → α} {g : β' → β} (h : Tandem x' y' a b Q' E)
    (hf : ∀ u v a' b', Q' u v a' b' → Q (f u) (g v) a' b') :
    Tandem (f <$> x') (g <$> y') a b Q E := by
  rcases tandem_iff.mp h with ⟨u, a', v, b', hx, hy, hq⟩ | ⟨e, a', e', b', hx, hy, he⟩
  · unfold Tandem
    simp only [ends_map, ends_of_ok hx, ends_of_ok hy]
    exact hf u v a' b' hq
  · unfold Tandem
    simp only [ends_map, ends_of_error hx, ends_of_error hy]
    exact he

theorem Tandem.mono {Q' : α → β → σ → σ → Prop} {E' : ε → ε → σ → σ → Prop}
    (h : Tandem x y a b Q E) (hQ : ∀ u v a' b', Q u v a' b' → Q' u v a' b')
    (hE : ∀ e e' a' b', E e e' a' b' → E' e e' a' b') : Tandem x y a b Q' E' := by
  rcases tandem_iff.mp h with ⟨u, a', v, b', hx, hy, hq⟩ | ⟨e, a', e', b', hx, hy, he⟩
  · exact (tandem_of_ok hx hy).mpr (hQ u v a' b' hq)
  · exact (tandem_of_error hx hy).mpr (hE e e' a' b' he)

/-- Two computations that both end well. -/
theorem tandem_of_succeeds {P : α → σ → Prop} {P' : β → σ → Prop} (hx : Succeeds x a P)
    (hy : Succeeds y b P') (h : ∀ u v a' b', P u a' → P' v b' → Q u v a' b') :
    Tandem x y a b Q E := by
  obtain ⟨u, a', hx, hu⟩ := hx.exists_ok
  obtain ⟨v, b', hy, hv⟩ := hy.exists_ok
  exact (tandem_of_ok hx hy).mpr (h u v a' b' hu hv)

/-- What holds of each side by itself is added to what holds of both. -/
theorem Tandem.and_ends {P : α → σ → Prop} {P' : β → σ → Prop} {F F' : ε → σ → Prop}
    (h : Tandem x y a b Q E) (hx : Ends x a P F) (hy : Ends y b P' F') :
    Tandem x y a b (fun u v a' b' => Q u v a' b' ∧ P u a' ∧ P' v b')
      (fun e e' a' b' => E e e' a' b' ∧ F e a' ∧ F' e' b') := by
  rcases tandem_iff.mp h with ⟨u, a', v, b', hx', hy', hq⟩ | ⟨e, a', e', b', hx', hy', he⟩
  · exact (tandem_of_ok hx' hy').mpr ⟨hq, (ends_of_ok hx').mp hx, (ends_of_ok hy').mp hy⟩
  · exact (tandem_of_error hx' hy').mpr
      ⟨he, (ends_of_error hx').mp hx, (ends_of_error hy').mp hy⟩

end Steps

/-- Two computations of one kind end alike: with one value or with one error, in states that are
related. -/
def EndAlike {ε σ α : Type} (R : σ → σ → Prop) (x y : EStateM ε σ α) (a b : σ) : Prop :=
  Tandem x y a b (fun u v a' b' => v = u ∧ R a' b') fun e e' a' b' => e' = e ∧ R a' b'

namespace EndAlike

variable {ε σ α : Type} {R : σ → σ → Prop} {x y z : EStateM ε σ α} {a b c : σ}

theorem symm (hR : ∀ {a b}, R a b → R b a) (h : EndAlike R x y a b) : EndAlike R y x b a := by
  rcases tandem_iff.mp h with ⟨u, a', _, b', hx, hy, rfl, hr⟩ | ⟨e, a', _, b', hx, hy, rfl, hr⟩
  · exact (tandem_of_ok hy hx).mpr ⟨rfl, hR hr⟩
  · exact (tandem_of_error hy hx).mpr ⟨rfl, hR hr⟩

theorem trans (hR : ∀ {a b c}, R a b → R b c → R a c) (h : EndAlike R x y a b)
    (h' : EndAlike R y z b c) : EndAlike R x z a c := by
  rcases tandem_iff.mp h with ⟨u, a', _, b', hx, hy, rfl, hr⟩ | ⟨e, a', _, b', hx, hy, rfl, hr⟩
  · rcases tandem_iff.mp h' with ⟨_, _, _, c', hy', hz, rfl, hr'⟩ | ⟨_, _, _, _, hy', -⟩
    · cases hy.symm.trans hy'
      exact (tandem_of_ok hx hz).mpr ⟨rfl, hR hr hr'⟩
    · cases hy.symm.trans hy'
  · rcases tandem_iff.mp h' with ⟨_, _, _, _, hy', -⟩ | ⟨_, _, _, c', hy', hz, rfl, hr'⟩
    · cases hy.symm.trans hy'
    · cases hy.symm.trans hy'
      exact (tandem_of_error hx hz).mpr ⟨rfl, hR hr hr'⟩

end EndAlike

/-- From states in a relation the two computations end well with one value and in states in that
relation, or both fail. -/
def Abides {α : Type} (G : Run → Run → Prop) (E : Stop → Stop → Run → Run → Prop)
    (x y : CloneM α) : Prop :=
  ∀ a b, G a b → Tandem x y a b (fun u v a' b' => v = u ∧ G a' b') E

/-- So does a sequence of steps that do. -/
theorem sequential_abides {G : Run → Run → Prop} {E : Stop → Stop → Run → Run → Prop} :
    Sequential fun α (x : Bool → CloneM α) => Abides G E (x false) (x true) where
  pure _ _ _ h := ⟨rfl, h⟩
  bind hx hf a b h := by
    refine (hx a b h).bind ?_
    rintro _ u a' b' ⟨rfl, h'⟩
    exact hf u a' b' h'

/-! ## Errors that say the same -/

/-- Two errors of the heap say the same. Why a class has no instances may be put differently. -/
def HeapError.Alike : HeapError → HeapError → Prop
  | .notInstantiable cls _, .notInstantiable cls' _ => cls' = cls
  | e, e' => e' = e

/-- Two errors of a clone say the same: they are of one sort, name the same classes, fields and
objects, and go back to errors of the heap that say the same. -/
def CloneError.Alike : CloneError → CloneError → Prop
  | .allocation cls cause, .allocation cls' cause' => cls' = cls ∧ cause.Alike cause'
  | e, e' => e' = e

/-- Both report errors that say the same. -/
def Stop.Alike : Stop → Stop → Prop
  | .failed e, .failed e' => e.Alike e'
  | _, _ => False

theorem HeapError.Alike.refl (e : HeapError) : e.Alike e := by
  cases e <;> rfl

theorem CloneError.Alike.refl (e : CloneError) : e.Alike e := by
  cases e with
  | allocation cls cause => exact ⟨rfl, HeapError.Alike.refl cause⟩
  | _ => rfl

/-- How a failure is put down to an implementor is the same for errors that say the same. -/
theorem CloneError.Alike.blame {e e' : CloneError} (h : e.Alike e') (cls : String) :
    (Setting.blame cls e).Alike (Setting.blame cls e') := by
  cases e with
  | allocation name cause =>
    cases e' with
    | allocation name' cause' => exact h
    | _ => cases h
  | _ =>
    cases h
    exact CloneError.Alike.refl _

/-! ## Steps of two clones -/

section Clones

open CloneM

variable {α β : Type} {a b : Run}

/-- Both clones end well in `Q`, or both report errors that say the same. -/
abbrev Matches (x : CloneM α) (y : CloneM β) (a b : Run) (Q : α → β → Run → Run → Prop) : Prop :=
  Tandem x y a b Q fun e e' _ _ => e.Alike e'

/-- Both sides look at their heaps. -/
theorem tandem_heap {f : Heap → CloneM α} {g : Heap → CloneM β} {Q : α → β → Run → Run → Prop}
    {E : Stop → Stop → Run → Run → Prop} :
    Tandem (heap >>= f) (heap >>= g) a b Q E ↔
      Tandem (f a.memory.heap) (g b.memory.heap) a b Q E := Iff.rfl

/-- The first side looks at its heap. -/
theorem tandem_heap_left {f : Heap → CloneM α} {y : CloneM β} {Q : α → β → Run → Run → Prop}
    {E : Stop → Stop → Run → Run → Prop} :
    Tandem (heap >>= f) y a b Q E ↔ Tandem (f a.memory.heap) y a b Q E := Iff.rfl

/-- The second side looks at its heap. -/
theorem tandem_heap_right {x : CloneM α} {g : Heap → CloneM β} {Q : α → β → Run → Run → Prop}
    {E : Stop → Stop → Run → Run → Prop} :
    Tandem x (heap >>= g) a b Q E ↔ Tandem x (g b.memory.heap) a b Q E := Iff.rfl

/-- Work on the two heaps that goes well on both sides. -/
theorem tandem_onMemory {x : CopyM α} {y : CopyM β} {P : α → Memory → Prop}
    {P' : β → Memory → Prop} {Q : α → β → Run → Run → Prop} {E : Stop → Stop → Run → Run → Prop}
    (hx : Succeeds x a.memory P) (hy : Succeeds y b.memory P')
    (h : ∀ u v m m', P u m → P' v m' → Q u v { a with memory := m } { b with memory := m' }) :
    Tandem (onMemory x) (onMemory y) a b Q E := by
  unfold Tandem
  rw [ends_onMemory]
  refine ends_mono hx ?_ fun _ _ h => h.elim
  intro u m hu
  rw [ends_onMemory]
  refine ends_mono hy ?_ fun _ _ h => h
  intro v m' hv
  exact h u v m m' hu hv

theorem Tandem.onMemory {x : CopyM α} {y : CopyM β} {Q : α → β → Memory → Memory → Prop}
    {Q' : α → β → Run → Run → Prop}
    (h : Tandem x y a.memory b.memory Q fun e e' _ _ => e.Alike e')
    (hQ : ∀ u v m m', Q u v m m' → Q' u v { a with memory := m } { b with memory := m' }) :
    Matches (onMemory x) (onMemory y) a b Q' := by
  rcases tandem_iff.mp h with ⟨u, m, v, m', hx, hy, hq⟩ | ⟨e, m, e', m', hx, hy, he⟩
  · unfold Matches Tandem
    simp only [ends_onMemory, ends_of_ok hx, ends_of_ok hy]
    exact hQ u v m m' hq
  · unfold Matches Tandem
    simp only [ends_onMemory, ends_of_error hx, ends_of_error hy]
    exact he

/-- Two outcomes are alike if both sides succeed or both report errors that say the same. -/
theorem Tandem.outcome {x : CloneM α} {y : CloneM β} {Q : α → β → Run → Run → Prop}
    {E : Run → Run → Prop} (h : Tandem x y a b Q fun e e' a' b' => e.Alike e' ∧ E a' b') :
    Matches (outcome x) (outcome y) a b fun u v a' b' =>
      (∃ w w', u = .ok w ∧ v = .ok w' ∧ Q w w' a' b') ∨
        ∃ e e', u = .error e ∧ v = .error e' ∧ e.Alike e' ∧ E a' b' := by
  rcases tandem_iff.mp h with ⟨u, a', v, b', hx, hy, hq⟩ | ⟨e, a', e', b', hx, hy, he, hE⟩
  · unfold Matches Tandem
    simp only [ends_outcome, ends_of_ok hx, ends_of_ok hy]
    exact Or.inl ⟨u, v, rfl, rfl, hq⟩
  · unfold Matches Tandem
    simp only [ends_outcome, ends_of_error hx, ends_of_error hy]
    cases e with
    | failed e =>
      cases e' with
      | failed e' => exact Or.inr ⟨e, e', rfl, rfl, he, hE⟩
      | _ => exact he.elim
    | _ => exact he.elim

end Clones

end DeepCopy
