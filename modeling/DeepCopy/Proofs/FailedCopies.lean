-- Copies into an instance that fail. Nothing that was written is taken back: the
-- fields before the one that could not be copied stay copied, and direct access has
-- by then carried all primitives of the source over. What comes later is as it was.
import DeepCopy.Proofs.CopyInto
import DeepCopy.Proofs.Untouched

namespace DeepCopy

namespace Setting

open CloneM

variable {s : Setting} {nested : Value → CloneM Value} {run run' : Run} {stop : Stop}
  {source target : ObjectId}

/-! ## The field that could not be copied -/

/-- If fields cannot all be copied, one of them could not be after those before it were. -/
theorem exists_failed_field {bulk : Bool} {fs : List PlannedField}
    (h : s.copyFieldsFrom nested source target bulk fs run = .error stop run') :
    ∃ done f rest mid, fs = done ++ f :: rest ∧
      s.copyFieldsFrom nested source target bulk done run = .ok () mid ∧
      s.copyField nested source target bulk f mid = .error stop run' := by
  induction fs generalizing run with
  | nil => cases h
  | cons f fs ih =>
    unfold copyFieldsFrom at h
    cases hf : s.copyField nested source target bulk f run with
    | error e r =>
      rw [bind_of_error hf] at h
      cases h
      exact ⟨[], f, fs, run, rfl, rfl, hf⟩
    | ok u r =>
      rw [bind_of_ok hf] at h
      obtain ⟨done, g, rest, mid, rfl, hdone, hg⟩ := ih h
      exact ⟨f :: done, g, rest, mid, rfl, (bind_of_ok hf).trans hdone, hg⟩

end Setting

/-! ## What the copied fields make of an instance -/

/-- Whether a backend carries the block of one instance into another at once. -/
def Backend.carriesOver (b : Backend) (source target : Body) : Bool :=
  match b, source, target with
  | .fast, .record block _, .record old _ => old.length == block.length
  | _, _, _ => false

/-- The target after the backend has carried over what it carries at once. -/
def Backend.begun (b : Backend) (source target : Body) : Body :=
  match b, source, target with
  | .fast, .record block _, .record old refs =>
    if old.length = block.length then .record block refs else .record old refs
  | _, _, target => target

namespace Backend

variable {b : Backend} {m : Memory} {source target : ObjectId}

theorem ends_copyBlock_begun (hne : source ≠ target) (ht : target < m.heap.size) :
    Ends (b.copyBlock source target) m
      (fun bulk m' => bulk = b.carriesOver (m.heap.body source) (m.heap.body target) ∧
        Touched target m.heap m'.heap ∧
        m'.heap.body target = b.begun (m.heap.body source) (m.heap.body target))
      (fun _ _ => False) := by
  cases b with
  | portable r => exact ⟨rfl, Or.inl rfl, rfl⟩
  | fast =>
    simp only [copyBlock, if_neg hne, ends_bind, ends_get, Direct.copyBlock?]
    cases hs : m.heap.body source with
    | record block refs =>
      cases hb : m.heap.body target with
      | record old slots =>
        simp only [carriesOver, begun]
        split
        · rename_i w hw
          split at hw
          · rename_i hlen
            cases hw
            refine ⟨by simp [hlen], Or.inr ⟨_, rfl⟩, ?_⟩
            simp only [if_pos hlen]
            exact Heap.body_setBody ht _
          · cases hw
        · rename_i hw
          split at hw
          · cases hw
          · rename_i hlen
            exact ⟨by simp [hlen], Or.inl rfl, by rw [if_neg hlen]; exact hb⟩
      | _ => exact ⟨rfl, Or.inl rfl, hb⟩
    | _ => exact ⟨rfl, Or.inl rfl, rfl⟩

/-- A primitive that was carried over reads as at the source. -/
theorem readFrom_begun_of_bytes {f : Field} {offset : Nat} {kind : Primitive.Kind}
    (hp : f.place = .bytes offset kind) (b : Backend) (source target : Body) :
    f.readFrom (b.begun source target) =
      f.readFrom (if b.carriesOver source target then source else target) := by
  unfold begun carriesOver
  split
  · rename_i block srefs old refs
    by_cases hlen : old.length = block.length
    · simp only [hlen, beq_self_eq_true, if_true, Field.readFrom, hp, Body.readBytes]
    · simp only [hlen, beq_eq_false_iff_ne.mpr hlen, if_false, Bool.false_eq_true]
  · simp

/-- Slots are not carried over. -/
theorem readFrom_begun_of_slot {f : Field} {index : Nat} (hp : f.place = .slot index) (b : Backend)
    (source target : Body) : f.readFrom (b.begun source target) = f.readFrom target := by
  unfold begun
  split
  · split
    · simp only [Field.readFrom, hp, Body.readSlot]
    · rfl
  · rfl

end Backend

namespace Backend

variable {r : Registry} {b : Backend} {m : Memory} {f : PlannedField} {source target : ObjectId}

/-- Checked access writes to the place of the field and to no other. -/
theorem rewrites_of_set {f : Field} {h : Heap} {v : Value} {w : Write} (ht : target < h.size)
    (hw : f.set h target v = .ok w) : Rewrites f target h (h.write w) := by
  obtain ⟨body, hx, rfl⟩ := write_of_map hw
  refine rewrites_of_alters ht ?_
  unfold Field.writeTo at hx
  cases hp : f.place with
  | bytes offset kind =>
    simp only [hp] at hx
    split at hx
    · rename_i p hu
      have hlen : p.encode.length = kind.width := by
        rw [Primitive.length_encode, Primitive.kind_of_unbox? hu]
      exact Body.alters_writeBytes hlen (ok_of_mapError hx)
    · cases hx
  | slot index =>
    simp only [hp] at hx
    split at hx
    · cases hx
    · exact Body.alters_writeSlot (ok_of_mapError hx)

theorem yields_rewrites_of_copyPrimitive (hb : b.Over r) (ht : target < m.heap.size) :
    Yields (b.copyPrimitive f source target) m
      fun _ m' => Rewrites f.toField target m.heap m'.heap := by
  rcases hb with rfl | rfl
  · refine yields_update fun w hw => ?_
    obtain ⟨v, -, hputs⟩ := puts_of_copyPrimitive ht hw
    exact hputs.1
  · refine yields_update fun w hw => ?_
    cases hr : ((f.get m.heap source).mapError (f.fault source)) with
    | error e =>
      rw [hr] at hw
      cases hw
    | ok v =>
      rw [hr] at hw
      exact rewrites_of_set ht (ok_of_mapError hw)

end Backend

/-- What an instance holds in the place of a field is no 32-bit pattern that is no number. -/
def Field.HoldsNumber (f : Field) (b : Body) : Prop :=
  ∀ offset kind bytes, f.place = .bytes offset kind → b.readBytes offset kind.width = .ok bytes →
    (Primitive.decode kind bytes).IsNumber

namespace Setting

open CloneM

variable {s : Setting} {nested : Value → CloneM Value} {run run' : Run} {stop : Stop}
  {source target : ObjectId} {f : PlannedField} {fs done rest : List PlannedField} {bulk : Bool}
  {body before between after : Body}

/-- Whether copying a field writes to its place. A primitive that was carried with the block is
left as it is. -/
def writesTo (s : Setting) (bulk : Bool) (f : PlannedField) : Prop :=
  s.policy.resets f.marks = true ∨ f.type.category ≠ .primitive ∨ bulk = false

/-- What copying some fields makes of an instance, where the source holds `body`. -/
structure Advances (s : Setting) (body : Body) (bulk : Bool) (done : List PlannedField)
    (before after : Body) : Prop where
  reset : ∀ f ∈ done, s.policy.resets f.marks = true →
    f.toField.readFrom after = .ok f.toField.default
  copied : ∀ f ∈ done, s.policy.resets f.marks = false → f.type.category = .primitive →
    bulk = false → f.toField.HoldsNumber body →
    f.toField.readFrom after = f.toField.readFrom body
  same : ∀ q : Place, (∀ f ∈ done, s.writesTo bulk f → f.place.Apart q) → q.Same before after

namespace Advances

theorem nil (s : Setting) (body : Body) (bulk : Bool) (b : Body) : s.Advances body bulk [] b b where
  reset := fun _ hf => by cases hf
  copied := fun _ hf => by cases hf
  same := fun q _ => Place.Same.refl q b

/-- A field that was written, and nothing else. -/
theorem of_alters (ha : Body.Alters f.place before after) (hw : s.writesTo bulk f)
    (hreset : s.policy.resets f.marks = true →
      f.toField.readFrom after = .ok f.toField.default)
    (hcopied : s.policy.resets f.marks = false → f.type.category = .primitive → bulk = false →
      f.toField.HoldsNumber body → f.toField.readFrom after = f.toField.readFrom body) :
    s.Advances body bulk [f] before after where
  reset := fun _ hg => List.mem_singleton.mp hg ▸ hreset
  copied := fun _ hg => List.mem_singleton.mp hg ▸ hcopied
  same := fun q hq => ha.same q (hq f List.mem_cons_self hw)

/-- A primitive that was carried over with the block is left as it is. -/
theorem of_carried (hkept : ¬ s.policy.resets f.marks = true) (b : Body) :
    s.Advances body true [f] b b where
  reset := fun _ hg h => absurd (List.mem_singleton.mp hg ▸ h) hkept
  copied := fun _ _ _ _ hbulk => by cases hbulk
  same := fun q _ => Place.Same.refl q b

/-- A field that was copied stays as it is while those that lie apart from it are copied. -/
theorem cons (h₁ : s.Advances body bulk [f] before between)
    (h₂ : s.Advances body bulk fs between after) (hapart : ∀ g ∈ fs, f.place.Apart g.place) :
    s.Advances body bulk (f :: fs) before after := by
  have hkept : f.toField.readFrom after = f.toField.readFrom between :=
    Field.readFrom_of_same (h₂.same f.place fun g hg _ => (hapart g hg).symm)
  refine ⟨?_, ?_, ?_⟩
  · intro g hg hreset
    rcases List.mem_cons.mp hg with rfl | hg
    · rw [hkept]
      exact h₁.reset _ List.mem_cons_self hreset
    · exact h₂.reset g hg hreset
  · intro g hg hreset hprim hbulk hn
    rcases List.mem_cons.mp hg with rfl | hg
    · rw [hkept]
      exact h₁.copied _ List.mem_cons_self hreset hprim hbulk hn
    · exact h₂.copied g hg hreset hprim hbulk hn
  · intro q hq
    have hfirst := h₁.same q fun g hg => hq g (List.mem_singleton.mp hg ▸ List.mem_cons_self)
    exact hfirst.trans (h₂.same q fun g hg => hq g (List.mem_cons_of_mem _ hg))

end Advances

/-! ## Copying fields -/

section Fields

variable {r : Registry} (hover : s.backend.Over r) (hlt : target < run.heap.size)
include hover hlt

theorem ends_resetField_advances (hreset : s.policy.resets f.marks = true) :
    Ends (onMemory (s.backend.resetField f target)) run
      (fun _ run' => s.Advances (run.heap.body source) bulk [f] (run.heap.body target)
        (run'.heap.body target))
      (fun _ run' => run'.heap.get target = run.heap.get target) := by
  rw [ends_onMemory]
  refine ends_mono (ends_and (s.backend.ends_resetField f target)
    (Backend.yields_resetField hover hlt)) ?_ ?_
  · rintro _ memory ⟨-, ⟨-, ha⟩, hread⟩
    exact .of_alters ha (Or.inl hreset) (fun _ => hread) fun h => absurd hreset (by simp [h])
  · rintro _ _ ⟨⟨-, rfl⟩, -⟩
    rfl

/-- Checked access copies a primitive as it is only where it is a number. Wherever it is copied, it
is written to its own place. -/
theorem ends_copyPrimitive_advances (hkept : ¬ s.policy.resets f.marks = true)
    (hbulk : bulk = false) :
    Ends (onMemory (s.backend.copyPrimitive f source target)) run
      (fun _ run' => s.Advances (run.heap.body source) bulk [f] (run.heap.body target)
        (run'.heap.body target))
      (fun _ run' => run'.heap.get target = run.heap.get target) := by
  rw [ends_onMemory]
  have hread : Yields (s.backend.copyPrimitive f source target) run.memory fun _ m' =>
      f.toField.HoldsNumber (run.heap.body source) →
        f.toField.readFrom (m'.heap.body target) =
          f.toField.readFrom (run.heap.body source) := by
    by_cases hnum : f.toField.HoldsNumber (run.heap.body source)
    · refine (Backend.yields_copyPrimitive hover hlt hnum).mono ?_
      rintro _ m' ⟨v, hv, -, hread⟩ _
      rw [hread, ← hv]
    · exact (Backend.yields_rewrites_of_copyPrimitive hover hlt).mono
        fun _ _ _ hn => absurd hn hnum
  refine ends_mono (ends_and (s.backend.ends_copyPrimitive f source target)
    (ends_and (Backend.yields_rewrites_of_copyPrimitive hover hlt) hread)) ?_ ?_
  · rintro _ memory ⟨-, ⟨-, ha⟩, hread⟩
    exact .of_alters ha (Or.inr (Or.inr hbulk)) (fun h => absurd h hkept) fun _ _ _ => hread
  · rintro _ _ ⟨⟨-, rfl⟩, -⟩
    rfl

/-- While the value of a field is cloned, nothing happens to the target. -/
theorem ends_copyReference_advances (hn : s.Nests nested) (ht : s.Tame run) {index : Nat}
    (hslot : f.place = .slot index) (hkept : ¬ s.policy.resets f.marks = true)
    (hprim : ¬ f.type.category = .primitive) :
    Ends (do
        let v ← onMemory (s.backend.readField f source)
        let copy ← nested v
        onMemory (s.backend.copyField f source target (some copy))) run
      (fun _ run' => s.Advances (run.heap.body source) bulk [f] (run.heap.body target)
        (run'.heap.body target))
      (fun _ run' => run'.heap.get target = run.heap.get target) := by
  simp only [ends_bind, ends_onMemory]
  refine ends_mono (s.backend.ends_readField f source) ?_ ?_
  · rintro v memory rfl
    refine ends_mono (hn run v ht) ?_ ?_
    · intro copy run₁ hk
      have hbody := hk.heap.body_eq target hlt (Nat.not_le.mpr hlt)
      have hlt₁ := Nat.lt_of_lt_of_le hlt hk.heap.size_le
      rw [Backend.copyField_some _ hprim]
      refine ends_mono (ends_and (s.backend.ends_writeReference f target copy)
        (Backend.yields_writeReference hover hlt₁ hslot copy)) ?_ ?_
      · rintro _ memory ⟨-, ⟨-, ha⟩, -⟩
        rw [hbody] at ha
        exact .of_alters ha (Or.inr (Or.inl hprim)) (fun h => absurd h hkept)
          fun _ h => absurd h hprim
      · rintro _ _ ⟨⟨-, rfl⟩, -⟩
        exact hk.heap.get_eq hlt (Nat.not_le.mpr hlt)
    · intro _ run₁ hk
      exact hk.heap.get_eq hlt (Nat.not_le.mpr hlt)
  · rintro _ _ ⟨-, rfl⟩
    rfl

end Fields

/-- A field that is copied advances the target. One that cannot be copied leaves it as it is. -/
theorem ends_copyField_advances (hn : s.Nests nested) (ht : s.Tame run)
    (hlt : target < run.heap.size) (hsuits : f.type.Suits f.place) :
    Ends (s.copyField nested source target bulk f) run
      (fun _ run' => s.Advances (run.heap.body source) bulk [f] (run.heap.body target)
        (run'.heap.body target))
      (fun _ run' => run'.heap.get target = run.heap.get target) := by
  obtain ⟨r, hover⟩ := s.backend.exists_over
  unfold copyField
  split
  · rename_i hreset
    exact ends_resetField_advances hover hlt hreset
  · rename_i hkept
    split
    · split
      · rename_i hbulk
        subst hbulk
        exact .of_carried hkept _
      · rename_i hbulk
        exact ends_copyPrimitive_advances hover hlt hkept (by simpa using hbulk)
    · rename_i hprim
      obtain ⟨index, hslot⟩ : ∃ index, f.place = .slot index := by
        cases hp : f.place with
        | bytes offset kind =>
          rw [hp] at hsuits
          exact absurd (FieldType.category_of_suits_bytes hsuits) hprim
        | slot index => exact ⟨index, rfl⟩
      exact ends_copyReference_advances hover hlt hn ht hslot hkept hprim

theorem yields_copyFieldsFrom_advances (hn : s.Nests nested) (ht : s.Tame run)
    (hne : source ≠ target) (hsource : source < run.heap.size) (hlt : target < run.heap.size)
    (hsuits : ∀ f ∈ fs, f.type.Suits f.place)
    (hapart : fs.Pairwise fun f g => f.place.Apart g.place) :
    Yields (s.copyFieldsFrom nested source target bulk fs) run fun _ run' =>
      s.Advances (run.heap.body source) bulk fs (run.heap.body target) (run'.heap.body target) ∧
        Kept s (· = target) run run' := by
  induction fs generalizing run with
  | nil => exact ⟨.nil s _ bulk _, Kept.refl run⟩
  | cons f fs ih =>
    have ⟨hfirst, hrest⟩ := List.pairwise_cons.mp hapart
    have hkeeps : s.Keeps (· = target) (s.copyField nested source target bulk f) run := by
      refine keeps_copyField hn ht ?_ bulk f
      rfl
    simp only [Yields, copyFieldsFrom, ends_bind]
    refine ends_mono (ends_and
      (ends_copyField_advances hn ht hlt (hsuits f List.mem_cons_self)) hkeeps) ?_
      (fun _ _ _ => trivial)
    rintro _ run₁ ⟨h₁, hk₁⟩
    have hbody := hk₁.heap.body_eq source hsource hne
    refine (ih (hk₁.tame ht) (Nat.lt_of_lt_of_le hsource hk₁.heap.size_le)
      (Nat.lt_of_lt_of_le hlt hk₁.heap.size_le)
      (fun g hg => hsuits g (List.mem_cons_of_mem _ hg)) hrest).mono ?_
    rintro _ run₂ ⟨h₂, hk₂⟩
    rw [hbody] at h₂
    exact ⟨h₁.cons h₂ hfirst, hk₁.trans hk₂⟩

theorem yields_copyFields_advances {p : Plan} (hn : s.Nests nested) (ht : s.Tame run)
    (hne : source ≠ target) (hsource : source < run.heap.size) (hlt : target < run.heap.size)
    (hsuits : ∀ f ∈ p.fields, f.type.Suits f.place)
    (hapart : p.fields.Pairwise fun f g => f.place.Apart g.place) :
    Yields (s.copyFields nested source target p) run fun _ run' =>
      s.Advances (run.heap.body source)
        (s.backend.carriesOver (run.heap.body source) (run.heap.body target)) p.fields
        (s.backend.begun (run.heap.body source) (run.heap.body target)) (run'.heap.body target) ∧
      Kept s (· = target) run run' := by
  simp only [Yields, copyFields, ends_bind, ends_onMemory]
  refine ends_mono (Backend.ends_copyBlock_begun hne hlt) ?_ (fun _ _ _ => trivial)
  rintro bulk memory ⟨rfl, htouch, hbegun⟩
  have hk : Kept s (· = target) run { run with memory } :=
    Kept.of_memory (Spared.of_touched htouch rfl)
  have hbody : memory.heap.body source = run.heap.body source :=
    hk.heap.body_eq source hsource hne
  refine (yields_copyFieldsFrom_advances hn (hk.tame ht) hne
    (Nat.lt_of_lt_of_le hsource hk.heap.size_le) (Nat.lt_of_lt_of_le hlt hk.heap.size_le) hsuits
    hapart).mono ?_
  rintro _ run' ⟨hadv, hk'⟩
  rw [show Heap.body _ source = _ from hbody, show Heap.body _ target = _ from hbegun] at hadv
  exact ⟨hadv, hk.trans hk'⟩

/-! ## What a copy that failed leaves behind -/

/-- What is left of the target `before` after a copy of `source` that failed, once the fields in
`done` were copied and before those in `rest` could be. -/
structure Abandoned (s : Setting) (source before after : Body) (done rest : List PlannedField) :
    Prop where
  reset : ∀ f ∈ done, s.policy.resets f.marks = true →
    f.toField.readFrom after = .ok f.toField.default
  copied : ∀ f ∈ done, s.policy.resets f.marks = false → f.type.category = .primitive →
    (s.backend.carriesOver source before = false → f.toField.HoldsNumber source) →
    f.toField.readFrom after = f.toField.readFrom source
  /-- Primitives to come are as they were, unless they were carried over at once. -/
  primitives : ∀ f ∈ rest, f.type.category = .primitive → f.toField.readFrom after =
    f.toField.readFrom (if s.backend.carriesOver source before then source else before)
  slots : ∀ f ∈ rest, f.type.category ≠ .primitive →
    f.toField.readFrom after = f.toField.readFrom before

theorem writesTo_congr {g : PlannedField} (h : g.toField = f.toField) (hw : s.writesTo bulk g) :
    s.writesTo bulk f := by
  unfold writesTo at *
  rw [← h]
  exact hw

theorem Advances.abandoned {sbody : Body}
    (h : s.Advances sbody (s.backend.carriesOver sbody before) done
      (s.backend.begun sbody before) after)
    {l : Layout} (hl : l.Sound) (hmem : ∀ f ∈ done ++ rest, f.toField ∈ l.fields)
    (hapart : (done ++ rest).Pairwise fun f g => f.place.Apart g.place) :
    s.Abandoned sbody before after done rest := by
  have hbetween := (List.pairwise_append.mp hapart).2.2
  have ahead : ∀ f ∈ rest, f.toField.readFrom after =
      f.toField.readFrom (s.backend.begun sbody before) := fun f hf =>
    Field.readFrom_of_same (h.same f.place fun g hg _ => hbetween g hg f hf)
  refine ⟨h.reset, ?_, ?_, ?_⟩
  · intro f hf hreset hprim hn
    cases hbulk : s.backend.carriesOver sbody before with
    | false =>
      rw [hbulk] at h
      exact h.copied f hf hreset hprim rfl (hn hbulk)
    | true =>
      rw [hbulk] at h
      have hin := hmem f (List.mem_append_left _ hf)
      have hunwritten : ¬ s.writesTo true f := by simp [writesTo, hreset, hprim]
      -- no other field of the layout has the place of this one, which is not written itself
      have hsame : f.toField.readFrom after =
          f.toField.readFrom (s.backend.begun sbody before) := by
        refine Field.readFrom_of_same (h.same f.place fun g hg hw => ?_)
        rcases hl.eq_or_apart (hmem g (List.mem_append_left _ hg)) hin with heq | hap
        · exact absurd (writesTo_congr heq hw) hunwritten
        · exact hap
      cases hp : f.place with
      | bytes offset kind =>
        rw [hsame, Backend.readFrom_begun_of_bytes hp, hbulk, if_pos rfl]
      | slot index => exact absurd hprim (hl.category_of_slot hin hp)
  · intro f hf hprim
    cases hp : f.place with
    | bytes offset kind => rw [ahead f hf, Backend.readFrom_begun_of_bytes hp]
    | slot index =>
      exact absurd hprim (hl.category_of_slot (hmem f (List.mem_append_right _ hf)) hp)
  · intro f hf hprim
    cases hp : f.place with
    | bytes offset kind =>
      exact absurd (hl.category_of_bytes (hmem f (List.mem_append_right _ hf)) hp) hprim
    | slot index => rw [ahead f hf, Backend.readFrom_begun_of_slot hp]

/-- A copy into an instance that fails has written nothing, or it failed when it copied fields. -/
theorem ends_copyInto_error (s : Setting) (run : Run) (source target : ObjectId) {depth : Nat}
    (hdepth : depthAllowance run.heap = depth) :
    Ends (s.copyInto source target) run (fun _ _ => True) (fun stop run' =>
      run'.heap = run.heap ∨ source ≠ target ∧
        ∃ p plans, run.plans.get s.registry s.classifier (run.heap.cls source) = .ok (p, plans) ∧
          s.copyFields (cloneValue s depth) source target p
            { run with plans, copies := Copies.put {} source (.ref target) } =
              .error stop run') := by
  subst hdepth
  simp only [copyInto, begin, ends_bind, ends_modify, ends_heap]
  split
  · trivial
  · rename_i hne
    split
    · exact Or.inl rfl
    · split
      · exact Or.inl rfl
      · rw [ends_bind, ends_plan]
        split
        · rename_i p plans hplan
          rw [ends_bind, ends_register]
          unfold Ends
          split
          · trivial
          · rename_i stop run' hfail
            exact Or.inr ⟨hne, p, plans, hplan, hfail⟩
        · exact Or.inl rfl

/-- Copying fields with a backend that carries what it can over first. -/
theorem exists_failed_field_of_copyFields {p : Plan}
    (h : s.copyFields nested source target p run = .error stop run') :
    ∃ done f rest mid bulk, p.fields = done ++ f :: rest ∧
      s.copyFields nested source target { p with fields := done } run = .ok () mid ∧
      s.copyField nested source target bulk f mid = .error stop run' := by
  unfold copyFields at h
  cases hblock : onMemory (s.backend.copyBlock source target) run with
  | error e r =>
    have hnever : Ends (onMemory (s.backend.copyBlock source target)) run (fun _ _ => True)
        (fun _ _ => False) :=
      ends_onMemory.mpr (ends_mono (s.backend.ends_copyBlock source target)
        (fun _ _ _ => trivial) fun _ _ h => h)
    exact ((ends_of_error hblock).mp hnever).elim
  | ok bulk r =>
    rw [bind_of_ok hblock] at h
    obtain ⟨done, f, rest, mid, hfields, hdone, hf⟩ := exists_failed_field h
    exact ⟨done, f, rest, mid, bulk, hfields, (bind_of_ok hblock).trans hdone, hf⟩

/-- A copy into an instance takes nothing back when it fails. Either it has not begun to write. Or
one field could not be copied, and the target is as copying just the fields before that one makes
it: they are at their default or hold what was copied. The fields from there on are as they were,
but for the primitives, which direct access has carried over from the source at the start. -/
theorem a_failed_copy_takes_nothing_back (hr : s.registry.Sound)
    (hplans : Plans.Fit s.registry run.plans) (ht : s.Tame run) (hsource : source < run.heap.size)
    (hlt : target < run.heap.size) (hfail : s.copyInto source target run = .error stop run') :
    run'.heap = run.heap ∨ ∃ p plans done f rest mid,
      s.planOf run (run.heap.cls source) = .ok p ∧ p.fields = done ++ f :: rest ∧
      s.copyFields (cloneValue s (depthAllowance run.heap)) source target { p with fields := done }
        { run with plans, copies := Copies.put {} source (.ref target) } = .ok () mid ∧
      run'.heap.get target = mid.heap.get target ∧
      s.Abandoned (run.heap.body source) (run.heap.body target) (run'.heap.body target) done
        (f :: rest) := by
  obtain ⟨depth, hdepth⟩ : ∃ depth, depthAllowance run.heap = depth := ⟨_, rfl⟩
  have hends := s.ends_copyInto_error run source target hdepth
  rcases (ends_of_error hfail).mp hends with hsame | ⟨hne, p, plans, hplan, hfail⟩
  · exact Or.inl hsame
  rw [hdepth]
  obtain ⟨done, f, rest, mid, bulk, hfields, hdone, hf⟩ := exists_failed_field_of_copyFields hfail
  obtain ⟨e, he, hd⟩ := hplans.describes hplan
  have hl := hr.layouts _ e he
  have hmem : ∀ g ∈ done ++ f :: rest, g.toField ∈ e.layout.fields := by
    intro g hg
    exact hd.mem_layout (hfields ▸ hg)
  have hapart : (done ++ f :: rest).Pairwise fun f g => f.place.Apart g.place := by
    rw [← hfields, hd.fields_eq]
    exact List.pairwise_map.mpr hl.apart
  have hsuits : ∀ g ∈ done ++ f :: rest, g.type.Suits g.place := fun g hg =>
    hl.suits _ (hmem g hg)
  have hnests := nests_cloneValue s depth
  have hfound : Kept s (· = target) { run with copies := {} } { run with plans, copies := {} } :=
    Kept.of_plan hplan
  have hbegun : Kept s (· = target) { run with plans, copies := {} }
      { run with plans, copies := Copies.put {} source (.ref target) } :=
    Kept.of_register (.ref target) (Copies.find?_empty source)
  have ht := (hfound.trans hbegun).tame ht.begun
  have hleft := yields_of_ok (yields_copyFields_advances hnests ht hne hsource hlt
    (fun g hg => hsuits g (List.mem_append_left _ hg)) (List.pairwise_append.mp hapart).1) hdone
  have hget := (ends_of_error hf).mp (ends_copyField_advances hnests (hleft.2.tame ht)
    (Nat.lt_of_lt_of_le hlt hleft.2.heap.size_le)
    (hsuits f (List.mem_append_right _ List.mem_cons_self)))
  have hbody : run'.heap.body target = mid.heap.body target := congrArg Object.body hget
  refine Or.inr ⟨p, plans, done, f, rest, mid, ?_, hfields, hdone, hget, ?_⟩
  · unfold planOf
    rw [hplan]
    rfl
  · rw [hbody]
    exact hleft.1.abandoned hl hmem hapart

/-- A class that names an implementor that is not there, so nothing clones its instances. -/
def stray : ClassDecl where
  name := "Stray"
  superclass := some Registry.rootClass
  cloneWith := some "nobody"

/-- A cloner with the standard policy for nodes and strays. -/
def straySetting (b : Backend) : Setting where
  registry := (Registry.initial.add ringNode).add stray
  backend := b
  policy := .standard

/-- A stray, a node that refers to it, and another node. -/
def strayRun : Run where
  memory := { heap := ⟨#[Object.new 13 (.record [] []),
    Object.new 12 (.record [1, 0, 0, 0] [.ref 0]), Object.new 12 (.record [2, 0, 0, 0] [.null])]⟩ }

theorem stray_stops_copyInto {b : Backend}
    (hb : b = .fast ∨ b = .portable ((Registry.initial.add ringNode).add stray)) :
    ∃ run', (straySetting b).copyInto 1 2 strayRun =
        .error (.failed (.config (.unknownRoutine "Stray" "nobody"))) run' ∧
      run'.heap.body 2 = .record [1, 0, 0, 0] [.null] := by
  have hends : (match (straySetting b).copyInto 1 2 strayRun with
      | .ok _ _ => none
      | .error stop run' => some (stop, run'.heap.body 2)) =
        some (.failed (.config (.unknownRoutine "Stray" "nobody")),
          .record [1, 0, 0, 0] [.null]) := by
    rcases hb with rfl | rfl
    · decide +kernel
    · decide +kernel
  cases hc : (straySetting b).copyInto 1 2 strayRun with
  | ok u run' =>
    rw [hc] at hends
    cases hends
  | error stop run' =>
    rw [hc] at hends
    obtain ⟨rfl, hbody⟩ := Prod.mk.inj (Option.some.inj hends)
    exact ⟨run', rfl, hbody⟩

/-- The copy of a node fails at its second field. The number is there by then, by both backends. -/
theorem a_failed_copy_can_change_its_target :
    (∃ run', (straySetting .fast).copyInto 1 2 strayRun =
        .error (.failed (.config (.unknownRoutine "Stray" "nobody"))) run' ∧
      run'.heap.body 2 ≠ strayRun.heap.body 2) ∧
    ∃ run', (straySetting (.portable ((Registry.initial.add ringNode).add stray))).copyInto 1 2
        strayRun = .error (.failed (.config (.unknownRoutine "Stray" "nobody"))) run' ∧
      run'.heap.body 2 ≠ strayRun.heap.body 2 := by
  obtain ⟨run₁, hfail₁, hbody₁⟩ := stray_stops_copyInto (Or.inl rfl)
  obtain ⟨run₂, hfail₂, hbody₂⟩ := stray_stops_copyInto (Or.inr rfl)
  refine ⟨⟨run₁, hfail₁, ?_⟩, ⟨run₂, hfail₂, ?_⟩⟩
  · rw [hbody₁]
    decide
  · rw [hbody₂]
    decide

/-- What is left of the node is what copying its number alone makes of it. -/
theorem a_stray_leaves_a_node_with_the_number_of_another : ∃ run' p done f rest,
    (straySetting .fast).copyInto 1 2 strayRun =
      .error (.failed (.config (.unknownRoutine "Stray" "nobody"))) run' ∧
    run'.heap.body 2 = .record [1, 0, 0, 0] [.null] ∧
    (straySetting .fast).planOf strayRun 12 = .ok p ∧ p.fields = done ++ f :: rest ∧
    (straySetting .fast).Abandoned (strayRun.heap.body 1) (strayRun.heap.body 2)
      (run'.heap.body 2) done (f :: rest) := by
  obtain ⟨run', hfail, hbody⟩ := stray_stops_copyInto (b := .fast) (Or.inl rfl)
  have ht : (straySetting .fast).Tame strayRun := by
    refine ⟨⟨fun _ _ _ h => Policy.standard_override h,
      fun _ _ _ _ _ _ h => Catalog.initial_maker h, fun _ _ h => ?_⟩, fun h => ?_⟩
    · cases h
    · cases h
  have hsizes : 1 < strayRun.heap.size ∧ 2 < strayRun.heap.size := by decide
  rcases a_failed_copy_takes_nothing_back ((Registry.sound_initial.add _).add _) (Plans.fit_nil _)
      ht hsizes.1 hsizes.2 hfail with hsame | ⟨p, -, done, f, rest, -, hplan, hfields, -, -, hleft⟩
  · have hchanged : (.record [1, 0, 0, 0] [.null] : Body) = strayRun.heap.body 2 := by
      rw [← hbody, hsame]
    exact absurd hchanged (by decide)
  · exact ⟨run', p, done, f, rest, hfail, hbody, hplan, hfields, hleft⟩

end Setting

end DeepCopy
