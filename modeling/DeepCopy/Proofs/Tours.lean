-- How often a clone goes down into objects. Every object is entered into the map
-- of copies before anything below it is cloned, and an object that has a copy is
-- not gone into; so each is gone into once at most, and the objects to be
-- reached that have no copy yet grow fewer with every step down.
import Mathlib.Data.Finset.Card
import Mathlib.Data.Finset.Filter
import Mathlib.Data.Finset.Range
import DeepCopy.Proofs.Descents
import DeepCopy.Proofs.Orderly

namespace DeepCopy

/-! ## What is still to be reached -/

namespace Heap

open Classical in
/-- The objects of the heap that can be reached. -/
noncomputable def reachable (h : Heap) (root : Value) : Finset ObjectId :=
  (Finset.range h.size).filter (h.Reaches root)

/-- The objects of the heap that can be reached and have no copy. -/
noncomputable def unseen (h : Heap) (root : Value) (copies : Copies) : Finset ObjectId :=
  (h.reachable root).filter (copies.find? · = none)

variable {h : Heap} {root : Value} {copies copies' : Copies} {o : ObjectId}

open Classical in
theorem mem_reachable (hc : h.Closed) (hv : h.Has root) :
    o ∈ h.reachable root ↔ h.Reaches root o :=
  Finset.mem_filter.trans ⟨And.right, fun ho => ⟨Finset.mem_range.mpr (ho.lt_size hc hv), ho⟩⟩

open Classical in
theorem card_reachable_le (h : Heap) (root : Value) : (h.reachable root).card ≤ h.size := by
  have hle : (h.reachable root).card ≤ (Finset.range h.size).card :=
    Finset.card_le_card fun _ ho => (Finset.mem_filter.mp ho).1
  rwa [Finset.card_range] at hle

theorem mem_unseen : o ∈ h.unseen root copies ↔ o ∈ h.reachable root ∧ copies.find? o = none :=
  Finset.mem_filter

theorem card_unseen_le_reachable (h : Heap) (root : Value) (copies : Copies) :
    (h.unseen root copies).card ≤ (h.reachable root).card :=
  Finset.card_filter_le _ _

theorem card_unseen_le (hk : ∀ o v, copies.find? o = some v → copies'.find? o = some v) :
    (h.unseen root copies').card ≤ (h.unseen root copies).card := by
  refine Finset.card_le_card ?_
  intro o ho
  obtain ⟨hr, hnone⟩ := mem_unseen.mp ho
  refine mem_unseen.mpr ⟨hr, ?_⟩
  cases hf : copies.find? o with
  | none => rfl
  | some v =>
    rw [hk o v hf] at hnone
    cases hnone

/-- An object that gets a copy is one fewer without. -/
theorem card_unseen_put_lt (ho : o ∈ h.reachable root) (hf : copies.find? o = none) (v : Value) :
    (h.unseen root (copies.put o v)).card < (h.unseen root copies).card := by
  refine Finset.card_lt_card ⟨?_, fun hsub => ?_⟩
  · intro o' ho'
    obtain ⟨hr, hnone⟩ := mem_unseen.mp ho'
    have hne : o' ≠ o := by
      rintro rfl
      rw [Copies.find?_put] at hnone
      cases hnone
    rw [Copies.find?_put_ne _ _ hne] at hnone
    exact mem_unseen.mpr ⟨hr, hnone⟩
  · have hnone := (mem_unseen.mp (hsub (mem_unseen.mpr ⟨ho, hf⟩))).2
    rw [Copies.find?_put] at hnone
    cases hnone

end Heap

/-! ## A clone on its way -/

/-- A setting and a run from which a clone of `root` can be followed: no routine takes part but the
one that rebuilds containers, makers leave no notes, and all that is referred to is there. -/
structure Setting.Followed (s : Setting) (base : Run) (root : Value) : Prop where
  tame : s.Tame base
  silent : ∀ name maker, Assoc.find? name s.catalog = some maker → maker.notes = []
  closed : base.heap.Closed
  root : base.heap.Has root

theorem Setting.Followed.mem_reachable {s : Setting} {base : Run} {root : Value} {o : ObjectId}
    (hs : s.Followed base root) (ho : base.heap.Reaches root o) : o ∈ base.heap.reachable root :=
  (Heap.mem_reachable hs.closed hs.root).mpr ho

/-- The journal lists objects that could be reached and had no copy when the clone began, each
once. -/
def Run.Lists (base : Run) (root : Value) (journal : List Note) (descents : List ObjectId) : Prop :=
  journal = descents.map .descent ∧ descents.Nodup ∧
    ∀ o ∈ descents, o ∈ base.heap.unseen root base.copies

/-- A clone of `root` with a log, begun in `base`, as far as it has come. No more than `depth`
objects are to be reached that have no copy, and those gone into have one, but for what has just
been `started`. -/
structure Touring (s : Setting) (base : Run) (root : Value) (depth : Nat)
    (started : ObjectId → Prop) (run : Run) : Prop where
  kept : Kept s (base.heap.size ≤ ·) base run
  enough : (base.heap.unseen root run.copies).card ≤ depth
  noted : ∃ descents, base.Lists root run.journal descents ∧
    ∀ o ∈ descents, started o ∨ ∃ v, run.copies.find? o = some v

/-- A clone with a log is on its way with nothing just started. -/
abbrev Touring.Idle (s : Setting) (base : Run) (root : Value) (depth : Nat) (run : Run) : Prop :=
  Touring s base root depth (fun _ => False) run

/-- What holds where a clone with a log breaks off. -/
def Touring.Stopped (base : Run) (root : Value) (e : Stop) (run : Run) : Prop :=
  e ≠ .tooDeep ∧ ∃ descents, base.Lists root run.journal descents

namespace Touring

variable {s : Setting} {base run run' : Run} {root : Value} {depth depth' : Nat}
  {started started' : ObjectId → Prop} {source : ObjectId}

theorem stopped (h : Touring s base root depth started run) {e : Stop} (he : e ≠ .tooDeep) :
    Stopped base root e run :=
  let ⟨descents, hl, _⟩ := h.noted
  ⟨he, descents, hl⟩

/-- A step that leaves the journal as it is. -/
theorem step (h : Touring s base root depth started run)
    (hk : Kept s (base.heap.size ≤ ·) run run') (hj : run'.journal = run.journal) :
    Touring s base root depth started run' := by
  refine ⟨h.kept.trans hk, ?_, ?_⟩
  · exact Nat.le_trans (Heap.card_unseen_le hk.copies) h.enough
  · obtain ⟨descents, hl, hd⟩ := h.noted
    refine ⟨descents, hj ▸ hl, fun o ho => ?_⟩
    exact (hd o ho).imp id fun ⟨v, hv⟩ => ⟨v, hk.copies o v hv⟩

theorem mono (h : Touring s base root depth started run) (hd : depth ≤ depth')
    (hs : ∀ o, started o → started' o) : Touring s base root depth' started' run := by
  refine ⟨h.kept, Nat.le_trans h.enough hd, ?_⟩
  obtain ⟨descents, hl, hd⟩ := h.noted
  exact ⟨descents, hl, fun o ho => (hd o ho).imp (hs o) id⟩

/-- An object gets a copy, and may be gone below from here on. -/
theorem register (hs : s.Followed base root)
    (h : Touring s base root (depth + 1) (· = source) run) (hr : base.heap.Reaches root source)
    (new : run.copies.find? source = none) (v : Value) :
    Idle s base root depth { run with copies := run.copies.put source v } := by
  have hk : Kept s (base.heap.size ≤ ·) run { run with copies := run.copies.put source v } :=
    Kept.of_register v new
  refine ⟨h.kept.trans hk, ?_, ?_⟩
  · have hlt := Heap.card_unseen_put_lt (hs.mem_reachable hr) new v
    have hle := h.enough
    show (base.heap.unseen root (run.copies.put source v)).card ≤ depth
    omega
  · obtain ⟨descents, hl, hd⟩ := h.noted
    refine ⟨descents, hl, fun o ho => Or.inr ?_⟩
    rcases hd o ho with rfl | ⟨w, hw⟩
    · exact ⟨v, Copies.find?_put _ _ _⟩
    · exact ⟨w, hk.copies o w hw⟩

/-- An object that has no copy is not among those gone into, and may be noted. -/
theorem start (hs : s.Followed base root) (h : Idle s base root depth run)
    (hr : base.heap.Reaches root source) (new : run.copies.find? source = none) :
    Touring s base root depth (· = source)
      { run with journal := run.journal ++ [.descent source] } := by
  obtain ⟨descents, ⟨hj, hn, hall⟩, hd⟩ := h.noted
  have hnew : source ∉ descents := by
    intro hmem
    rcases hd source hmem with hf | ⟨v, hv⟩
    · exact hf
    · rw [new] at hv
      cases hv
  refine ⟨⟨h.kept.heap, h.kept.copies, h.kept.plans, h.kept.planOf, h.kept.classShared,
    h.kept.resolved⟩, h.enough, descents ++ [source], ⟨?_, ?_, ?_⟩, ?_⟩
  · simp [hj]
  · exact List.nodup_append.mpr ⟨hn, List.nodup_singleton _, by
      rintro o ho _ ho' rfl
      exact hnew (List.mem_singleton.mp ho' ▸ ho)⟩
  · intro o ho
    rcases List.mem_append.mp ho with ho | ho
    · exact hall o ho
    · rw [List.mem_singleton.mp ho]
      refine Heap.mem_unseen.mpr ⟨hs.mem_reachable hr, ?_⟩
      cases hf : base.copies.find? source with
      | none => rfl
      | some v =>
        rw [h.kept.copies source v hf] at new
        cases new
  · intro o ho
    rcases List.mem_append.mp ho with ho | ho
    · exact Or.inr ((hd o ho).resolve_left id)
    · exact Or.inl (List.mem_singleton.mp ho)

/-- Objects that are there are as they were. -/
theorem body_eq (h : Touring s base root depth started run) {o : ObjectId}
    (ho : o < base.heap.size) : run.heap.body o = base.heap.body o :=
  h.kept.heap.body_eq o ho (Nat.not_le.mpr ho)

end Touring

namespace Setting

open CloneM

/-! ## The invariant -/

/-- A clone with a log is on its way, however far it has come. -/
def touring (s : Setting) (base : Run) (root : Value) (depth : Nat) : Invariant where
  Good := Touring.Idle s base root depth
  Later _ := Touring.Idle s base root depth
  Stopped _ := Touring.Stopped base root
  Allows _ := base.heap.Meets root
  Gives _ _ _ := True
  refl h := h
  trans _ h := h
  good _ h := h
  stopped _ h := h
  failed h he := h.stopped he
  blamed h := ⟨by simp, h.2⟩
  allows _ h := h
  gives _ h := h

/-- A clone with a log has just gone into an object. -/
def starting (s : Setting) (base : Run) (root : Value) (depth : Nat) (source : ObjectId) :
    Invariant where
  Good := Touring s base root (depth + 1) (· = source)
  Later _ := Touring s base root (depth + 1) (· = source)
  Stopped _ := Touring.Stopped base root
  Allows _ _ := True
  Gives _ _ _ := True
  refl h := h
  trans _ h := h
  good _ h := h
  stopped _ h := h
  failed h he := h.stopped he
  blamed h := ⟨by simp, h.2⟩
  allows _ h := h
  gives _ h := h

variable {s : Setting} {base run : Run} {root : Value} {depth : Nat}
  {nested : Value → CloneM Value} {source target : ObjectId}

theorem receives_touring (hnew : base.heap.size ≤ target) :
    (s.touring base root depth).Receives target := by
  intro α x hx run h
  rw [ends_onMemory]
  refine ends_mono (hx run.memory) ?_ ?_
  · rintro _ m ⟨ht, -⟩
    exact ⟨h.step (Kept.of_memory (Spared.of_touched ht hnew)) rfl, trivial⟩
  · rintro e _ ⟨he, rfl⟩
    exact h.stopped he

/-! ## Duplicates -/

section Duplicating

variable (hs : s.Followed base root) (hr : base.heap.Reaches root source)
  (new : run.copies.find? source = none)
include hs hr new

/-- The object that was gone into gets a copy, so one object fewer is left without. -/
theorem starting_makeCopy {make : CopyM ObjectId} {fill : ObjectId → CloneM Unit}
    (hmake : MakesNext run.memory make)
    (hfill : ∀ target run', (s.touring base root depth).Receives target →
      (s.touring base root depth).Maintains (fill target) run' fun _ _ => True) :
    (s.starting base root depth source).Maintains (makeCopy register source make fill) run fun _ =>
      Touring.Idle s base root (depth + 1) := by
  intro h
  unfold makeCopy
  rw [ends_bind, ends_onMemory]
  refine ends_mono hmake ?_ ?_
  · rintro _ m ⟨rfl, x, hx⟩
    have h₁ : Touring s base root (depth + 1) (· = source) { run with memory := m } :=
      h.step (Kept.of_memory (hx ▸ Spared.of_add x)) rfl
    rw [ends_bind, ends_register, ends_bind]
    refine ends_mono (hfill _ _ (receives_touring h.kept.heap.size_le)
      (h₁.register hs hr new _)) ?_ fun _ _ h => h
    rintro _ run₂ ⟨h₂, -⟩
    exact ⟨h₂.mono (Nat.le_succ _) fun _ h => h.elim, h₂.mono (Nat.le_succ _) fun _ h => h⟩
  · rintro e m ⟨he, -⟩
    obtain ⟨descents, hl, -⟩ := h.noted
    exact ⟨he, descents, hl⟩

theorem copies_starting : (s.starting base root depth source).Copies (s.touring base root depth) s
    register source (MakesNext run.memory) (fun _ => Touring.Idle s base root (depth + 1)) run where
  copy make fill run₁ _ hmem hcopies hmake hfill :=
    starting_makeCopy hs hr (hcopies ▸ new) (hmem ▸ hmake) hfill
  allows run₁ v h hv _ o ho := by
    have hbody : run₁.heap.body source = base.heap.body source :=
      h.elim (·.body_eq (hr.lt_size hs.closed hs.root)) (·.body_eq (hr.lt_size hs.closed hs.root))
    exact hr.next (hbody ▸ hv o ho)
  plan h := by
    refine ends_mono (ends_plan_finds (A := (· = .containers)) _) ?_ ?_
    · rintro p run₁ ⟨hf, -⟩
      exact ⟨h.step (Kept.of_finds hf) (hf.journal hs.silent), hf.memory, hf.copies,
        makesNext_allocate s.backend run.memory p⟩
    · rintro _ _ ⟨⟨e, rfl⟩, rfl⟩
      exact h.stopped (by simp)

/-- A self-copy method adds what it makes, and its copy stands for the source. -/
theorem starting_copyItself {method : SelfCopy} (hm : method.Spares) (p : Plan) :
    (s.starting base root depth source).Maintains (copyItself method source p) run fun _ =>
      Touring.Idle s base root (depth + 1) := by
  intro h
  have hk : Kept s (base.heap.size ≤ ·) run
      { run with memory.heap := (method source run.heap).2 } :=
    Kept.of_memory ((hm source run.heap).mono fun _ _ h => h.elim)
  have h₁ := h.step hk rfl
  unfold copyItself
  simp only [ends_bind, ends_heap, ends_modify]
  cases (method source run.heap).1 with
  | ok copy =>
    have h₂ := h₁.register hs hr new (.ref copy)
    exact ⟨h₂.mono (Nat.le_succ _) fun _ h => h.elim, h₂.mono (Nat.le_succ _) fun _ h => h⟩
  | error e => cases e <;> exact h₁.stopped (by simp)

end Duplicating

/-! ## The rules -/

/-- An object that is to be copied has just been started; what is shared or turned into null has
not. -/
theorem tours_cloneNew (hs : s.Followed base root) (hn : (s.touring base root depth).Clones nested)
    (hr : base.heap.Reaches root source)
    (h : Touring s base root (depth + 1)
      (fun o => o = source ∧ s.fate base source = .copied) run)
    (new : run.copies.find? source = none) :
    Ends (s.cloneNew nested source) run (fun _ => Touring.Idle s base root (depth + 1))
      (Touring.Stopped base root) := by
  have hlt := hr.lt_size hs.closed hs.root
  have hfate : s.fate run source = s.fate base source := h.kept.fate_eq hlt
  have step : ∀ {run'}, Finds s (· = .containers) run run' →
      Touring s base root (depth + 1) (fun o => o = source ∧ s.fate base source = .copied) run' :=
    fun hf => h.step (Kept.of_finds hf) (hf.journal hs.silent)
  have settled : ∀ {run'}, Finds s (· = .containers) run run' → s.fate run source ≠ .copied →
      Touring.Idle s base root (depth + 1) run' := fun hf hne =>
    (step hf).mono (Nat.le_refl _) fun _ ho => hne (hfate.trans ho.2)
  have started : ∀ {run'}, Finds s (· = .containers) run run' →
      Touring s base root (depth + 1) (· = source) run' := fun hf =>
    (step hf).mono (Nat.le_refl _) fun _ ho => ho.1
  have hcopies : ∀ {run'}, Finds s (· = .containers) run run' →
      (s.starting base root depth source).Copies (s.touring base root depth) s register source
        (MakesNext run'.memory) (fun _ => Touring.Idle s base root (depth + 1)) run' := fun hf =>
    copies_starting hs hr (hf.copies ▸ new)
  refine ends_cloneNewBy ((h.kept.tame hs.tame).toBuiltIn.employs _) ?_ ?_ ?_ ?_ ?_ ?_
  · exact fun hnull run' hf => settled hf (by simp [hnull])
  · exact fun hshared run' hf => settled hf (by simp [hshared])
  · rintro - _ run' rfl hf
    refine ends_mono (Invariant.maintains_delegateBy ((hcopies hf).duplicateContainer hn)
      (D := fun _ => Touring.Idle s base root (depth + 1)) ?_ (started hf)) (fun _ _ h => h.2)
      fun _ _ h => h
    intro copy run₂ h₂ hg
    refine ends_settle (fun _ => ⟨hg, h₂⟩) fun hnone => ⟨hg.step ?_ rfl, h₂.step ?_ rfl⟩ <;>
      exact Kept.of_register copy hnone
  · intro _ p method run' hf hp hon hself
    refine ends_mono (starting_copyItself hs hr (hf.copies ▸ new) ?_ p (started hf))
      (fun _ _ h => h.2) fun _ _ h => h
    exact (h.kept.tame hs.tame).methods hon _ p method hp hself
  · intro _ p run' hf _
    exact ends_mono ((hcopies hf).duplicate hn (makesNext_allocate s.backend _ p)
      (makesNext_allocateSlots s.backend _ _) (makesNext_duplicatePacked s.backend _ source)
      (started hf)) (fun _ _ h => h.2) fun _ _ h => h
  · exact fun e run' hf => (started hf).stopped (by simp)

/-- A clone of a value with a log, as long as no more objects than `depth` are to be reached that
have no copy: it does not go too deep, and goes into each object once at most. -/
theorem clones_cloneNoting (hs : s.Followed base root) (depth : Nat) :
    (s.touring base root depth).Clones (cloneNoting s depth) := by
  induction depth with
  | zero =>
    intro run v hv h
    cases v with
    | ref o =>
      unfold cloneNoting
      rw [ends_bind, ends_copyOf]
      split
      · exact ⟨h, trivial⟩
      · rename_i hc
        have hlt := Heap.card_unseen_put_lt (hs.mem_reachable (hv o rfl)) hc .null
        exact absurd (Nat.lt_of_lt_of_le hlt h.enough) (Nat.not_lt_zero _)
    | _ =>
      unfold cloneNoting
      exact ⟨h, trivial⟩
  | succ depth ih =>
    intro run v hv h
    cases v with
    | ref o =>
      have hr := hv o rfl
      unfold cloneNoting
      rw [ends_bind, ends_copyOf]
      split
      · exact ⟨h, trivial⟩
      · rename_i hc
        rw [ends_bind, ends_get, ends_bind, ends_write,
          h.kept.fate_eq (hr.lt_size hs.closed hs.root)]
        refine ends_mono (tours_cloneNew hs ih hr ?_ hc) (fun _ _ h => ⟨h, trivial⟩) fun _ _ h => h
        split
        · rename_i hf
          exact (h.start hs hr hc).mono (Nat.le_refl _) fun _ ho => ⟨ho, hf⟩
        · rw [List.append_nil]
          exact h.mono (Nat.le_refl _) fun _ hf => hf.elim
    | _ =>
      unfold cloneNoting
      exact ⟨h, trivial⟩

end Setting

end DeepCopy
