-- A clone that goes well stays in order at every step: what comes out for a
-- value stands for it, and an object that is duplicated has its copy filled by
-- the time it is done. The proof follows the traversal, one lemma for each part.
import DeepCopy.Proofs.Mirror

namespace DeepCopy

/-- A setting and a run that a clone may start from: no routine takes part but the one that rebuilds
containers, nor any self-copy method, and every object fits its class. -/
structure Setting.Ready (s : Setting) (base : Run) : Prop where
  plain : s.Plain
  plans : Plans.Fit s.registry base.plans
  resolved : ∀ cls i, Assoc.find? cls base.resolved = some i → i = .containers
  typed : base.heap.Typed s.registry

namespace Setting

open CloneM Invariant

/-! ## Nested values -/

/-- A value that a clone may come to: what it refers to is there, and is among the objects to be
duplicated unless the rules say otherwise. -/
def Sought (s : Setting) (base : Run) (root v : Value) : Prop :=
  ∀ o, v = .ref o → o < base.heap.size ∧
    (s.fate base o = .copied → s.Duplicates base.heap (s.fate base) root o)

/-- A clone that goes well stays in order, and what comes out for a value stands for it. -/
def mirroring (s : Setting) (base : Run) (root : Value) (busy : ObjectId → Prop) : Invariant :=
  standing (s.fate base) (s.Sought base root) (Mirrors s base root busy)

/-- Nested values are cloned in order, whichever copies are yet to be filled. -/
def Mirroring (s : Setting) (base : Run) (root : Value) (nested : Value → CloneM Value) : Prop :=
  ∀ busy, (s.mirroring base root busy).Clones nested

variable {s : Setting} {base run : Run} {root : Value} {busy : ObjectId → Prop}
  {nested : Value → CloneM Value} {source target : ObjectId}

theorem Ready.tame (hr : s.Ready base) : s.Tame base := hr.plain.tame hr.plans hr.resolved

/-- What a clone meets in an object that it duplicates may be come to, if no reference leads out of
the heap. -/
theorem sought_of_follows
    (hc : ∀ o < base.heap.size, ∀ v ∈ (base.heap.body o).values, base.heap.Has v)
    (hlt : source < base.heap.size) (hd : s.Duplicates base.heap (s.fate base) root source)
    {v : Value} (hv : s.Follows base.heap source v) : s.Sought base root v := by
  rintro o rfl
  exact ⟨hc source hlt _ hv.mem_values o rfl, hd.follow hv⟩

theorem Ready.sought (hr : s.Ready base) (hlt : source < base.heap.size)
    (hd : s.Duplicates base.heap (s.fate base) root source) {v : Value}
    (hv : s.Follows base.heap source v) : s.Sought base root v :=
  sought_of_follows hr.typed.closed hlt hd hv

section Filling

variable (hn : s.Nests nested) (ht : s.Tame base) (hm : s.Mirroring base root nested)
include hn ht hm

/-- Nested values that are cloned in order leave alone what is there. -/
theorem Mirroring.yields {v : Value} (h : Mirrors s base root busy run)
    (hv : s.Sought base root v) :
    Yields (nested v) run fun w run' => (Mirrors s base root busy run' ∧
      Stands (s.fate base) run'.copies v w) ∧ Kept s (run.heap.size ≤ ·) run run' := by
  have hnested : Yields (nested v) run fun w run' =>
      Mirrors s base root busy run' ∧ Stands (s.fate base) run'.copies v w :=
    ends_mono (hm busy run v hv h) (fun _ _ h' => ⟨h'.1.1, h'.2⟩) fun _ _ h' => h'
  exact hnested.and_ends (hn run v (h.kept.tame ht))

/-- The elements of an array are cloned one by one: those behind are still null. -/
theorem yields_cloneElements (hb : busy target) (hle : base.heap.size ≤ target)
    {vs filled : List Value} (h : Mirrors s base root busy run) (hlt : target < run.heap.size)
    (hv : ∀ v ∈ vs, s.Sought base root v)
    (hbody : run.heap.body target = .slots (filled ++ List.replicate vs.length .null)) :
    Yields (s.cloneElements nested target filled.length vs) run fun _ run' =>
      Mirrors s base root busy run' ∧ ∃ ws,
        List.Forall₂ (Stands (s.fate base) run'.copies) vs ws ∧
          run'.heap.body target = .slots (filled ++ ws) := by
  induction vs generalizing run filled with
  | nil => exact ⟨h, [], .nil, hbody⟩
  | cons v vs ih =>
    simp only [Yields, cloneElements, ends_bind, ends_onMemory]
    apply (hm.yields hn ht h (hv v List.mem_cons_self)).mono
    intro w run₁ hpost
    rcases hpost with ⟨⟨h₁, hw⟩, hk₁⟩
    have hbody₁ : run₁.heap.body target = .slots (filled ++ List.replicate (vs.length + 1) .null) :=
      (hk₁.heap.body_eq target hlt (Nat.not_le.mpr hlt)).trans hbody
    have hlt₁ := Nat.lt_of_lt_of_le hlt hk₁.heap.size_le
    refine (Yields.and_ends (s.backend.yields_writeElement hbody₁)
      (s.backend.ends_writeElement target filled.length w)).mono ?_
    rintro _ memory ⟨hmem, htouch⟩
    have h₂ := h₁.touched hb hle htouch
    have hbody₂ : memory.heap.body target =
        .slots ((filled ++ [w]) ++ List.replicate vs.length .null) := by
      rw [hmem, Heap.body_setBody hlt₁]
      simp [List.replicate_succ]
    have hlt₂ : target < memory.heap.size := by
      rw [hmem, Heap.size_setBody]
      exact hlt₁
    have hnext := ih h₂ hlt₂ (fun v hv' => hv v (List.mem_cons_of_mem _ hv')) hbody₂
    rw [List.length_append, List.length_singleton] at hnext
    have hkeeps : s.Keeps (· = target) (s.cloneElements nested target (filled.length + 1) vs)
        { run₁ with memory } := keeps_cloneElements hn (h₂.kept.tame ht) (by rfl) _ vs
    apply (hnext.and_ends hkeeps).mono
    intro _ run₃ hpost
    rcases hpost with ⟨⟨h₃, ws, hws, hb₃⟩, hk₃⟩
    refine ⟨h₃, w :: ws, .cons (hw.mono hk₃.copies) hws, ?_⟩
    rw [hb₃, List.append_assoc, List.singleton_append]

end Filling

/-! ## Fields -/

/-- A copy of an instance that is being filled. -/
structure Fills (s : Setting) (base : Run) (root : Value) (busy : ObjectId → Prop)
    (source target : ObjectId) (run : Run) : Prop where
  mirrors : Mirrors s base root busy run
  source_lt : source < base.heap.size
  copy : run.copies.find? source = some (.ref target)
  busy : busy target

/-- A field of the copy is as it is to be. -/
def FieldDone (s : Setting) (base : Run) (source target : ObjectId) (run : Run) (f : Field) :
    Prop :=
  s.FieldCopied (Stands (s.fate base) run.copies) (base.heap.body source) (run.heap.body target) f

/-- From one point of a run to a later one the copy is still being filled, and the fields that were
done still are. -/
structure Feeds (s : Setting) (base : Run) (root : Value) (busy : ObjectId → Prop)
    (source target : ObjectId) (l : Layout) (run run' : Run) : Prop where
  fills : s.Fills base root busy source target run'
  copies : run.copies.Within run'.copies
  sized : ∀ blockSize slotCount, (run.heap.body target).Sized blockSize slotCount →
    (run'.heap.body target).Sized blockSize slotCount
  done : ∀ f ∈ l.fields, s.FieldDone base source target run f →
    s.FieldDone base source target run' f

variable {run' run'' : Run} {l : Layout} {e : Registry.Entry} {f : PlannedField}

theorem Fills.target_le (hf : s.Fills base root busy source target run) :
    base.heap.size ≤ target ∧ target < run.heap.size := by
  obtain ⟨t, ht, -, hle, hlt, -⟩ := hf.mirrors.copies source _ hf.copy
  cases ht
  exact ⟨hle, hlt⟩

theorem Fills.duplicates (hf : s.Fills base root busy source target run) :
    s.Duplicates base.heap (s.fate base) root source := by
  obtain ⟨t, -, hd, -⟩ := hf.mirrors.copies source _ hf.copy
  exact hd

theorem Feeds.refl (hf : s.Fills base root busy source target run) :
    s.Feeds base root busy source target l run run :=
  ⟨hf, .refl _, fun _ _ h => h, fun _ _ h => h⟩

theorem Feeds.trans (h₁ : s.Feeds base root busy source target l run run')
    (h₂ : s.Feeds base root busy source target l run' run'') :
    s.Feeds base root busy source target l run run'' :=
  ⟨h₂.fills, h₁.copies.trans h₂.copies, fun m n h => h₂.sized m n (h₁.sized m n h),
    fun f hf h => h₂.done f hf (h₁.done f hf h)⟩

/-- The clone of a nested value does not touch the copy that is being filled. -/
theorem Feeds.of_nested (hf : s.Fills base root busy source target run)
    (h : Mirrors s base root busy run') (hk : Kept s (run.heap.size ≤ ·) run run') :
    s.Feeds base root busy source target l run run' := by
  have hlt := hf.target_le.2
  have hbody := hk.heap.body_eq target hlt (Nat.not_le.mpr hlt)
  refine ⟨⟨h, hf.source_lt, hk.copies _ _ hf.copy, hf.busy⟩, hk.copies, ?_, ?_⟩
  · intro m n hs
    rw [hbody]
    exact hs
  · intro g _ hg
    unfold FieldDone at *
    rw [hbody]
    exact hg.mono fun v w => Stands.mono hk.copies

/-- A field that is written is done if it got the right value, and all others stay as they are. -/
theorem Feeds.of_puts (hf : s.Fills base root busy source target run) (hl : l.Sound)
    (hfl : f.toField ∈ l.fields) {v : Value} {memory : Memory}
    (hp : Backend.Puts f.toField target v run.memory memory)
    (hd : s.FieldDone base source target { run with memory } f.toField) :
    s.Feeds base root busy source target l run { run with memory } := by
  obtain ⟨⟨htouch, halt⟩, -⟩ := hp
  refine ⟨⟨hf.mirrors.touched hf.busy hf.target_le.1 htouch, hf.source_lt, hf.copy, hf.busy⟩,
    .refl _, halt.sized, ?_⟩
  intro g hg hdone
  rcases hl.eq_or_apart hfl hg with heq | hapart
  · rw [← heq]
    exact hd
  · exact hdone.of_same (halt.same g.place hapart)

/-- While a copy is being filled, the fields that are done stay so. -/
def feeding (s : Setting) (base : Run) (root : Value) (busy : ObjectId → Prop)
    (source target : ObjectId) (l : Layout) : Invariant where
  Good := s.Fills base root busy source target
  Later := s.Feeds base root busy source target l
  Stopped _ _ _ := True
  Allows _ := s.Sought base root
  Gives run := Stands (s.fate base) run.copies
  refl := Feeds.refl
  trans := Feeds.trans
  good _ h := h.fills
  stopped _ _ := trivial
  failed _ _ := trivial
  blamed _ := trivial
  allows _ h := h
  gives h hw := hw.mono h.copies

section Feeding

variable (hr : s.Ready base) (hn : s.Nests nested) (hm : s.Mirroring base root nested)
include hr hn hm

theorem clones_feeding : (s.feeding base root busy source target l).Clones nested := by
  intro run v hv hf
  refine ends_mono (hm.yields hn hr.tame hf.mirrors hv) ?_ fun _ _ _ => trivial
  rintro w run' ⟨⟨h, hw⟩, hk⟩
  exact ⟨.of_nested hf h hk, hw⟩

omit hr hn hm in
/-- A write to a field that gives it the right value does that field. -/
theorem feeding_puts (hl : l.Sound) (hfl : f.toField ∈ l.fields) {x : CopyM Unit}
    (hx : s.Fills base root busy source target run →
      Yields x run.memory fun _ memory => ∃ v, Backend.Puts f.toField target v run.memory memory ∧
        s.FieldDone base source target { run with memory } f.toField) :
    (s.feeding base root busy source target l).Maintains (onMemory x) run fun _ run' =>
      s.FieldDone base source target run' f.toField := by
  intro hf
  rw [ends_onMemory]
  refine ends_mono (hx hf) ?_ fun _ _ _ => trivial
  rintro _ memory ⟨v, hp, hd⟩
  exact ⟨.of_puts hf hl hfl hp hd, hd⟩

variable (he : s.registry.get? (base.heap.cls source) = some e)
include he

theorem feeding_copyField (hfl : f.toField ∈ e.layout.fields)
    (hnum : ∀ offset kind bytes, f.place = .bytes offset kind →
      (base.heap.body source).readBytes offset kind.width = .ok bytes →
      (Primitive.decode kind bytes).IsNumber)
    {bulk : Bool} (hbulk : bulk = true → s.policy.resets f.marks = false →
      f.type.category = .primitive → s.FieldDone base source target run f.toField) :
    (s.feeding base root busy source target e.layout).Maintains
      (s.copyField nested source target bulk f) run fun _ run' =>
        s.FieldDone base source target run' f.toField := by
  have hl := hr.plain.registry.layouts _ _ he
  refine maintains_copyField (D := fun run' => s.FieldDone base source target run' f.toField)
    (clones_feeding hr hn hm) ?_ ?_ ?_ ?_
  · intro hreset
    refine feeding_puts hl hfl fun hf => ?_
    refine (Backend.yields_resetField hr.plain.backend hf.target_le.2).mono ?_
    exact fun _ memory hp => ⟨_, hp, FieldCopied.of_reset hreset hp.2⟩
  · exact fun hreset hprim hb => hbulk hb hreset hprim
  · intro hreset hprim _
    refine feeding_puts hl hfl fun hf => ?_
    have hsource := hf.mirrors.body_eq hf.source_lt
    refine (Backend.yields_copyPrimitive hr.plain.backend hf.target_le.2 (by
      rw [hsource]
      exact hnum)).mono ?_
    rintro _ memory ⟨v, hv, hp⟩
    rw [hsource] at hv
    have hobj := Field.object?_of_primitive hl hfl hprim hv
    exact ⟨v, hp, FieldCopied.of_readFrom (by simp [hreset]) hv (Stands.of_object? hobj) hp.2⟩
  · intro hreset hprim hf
    rw [ends_onMemory]
    refine (Backend.yields_readField hr.plain.backend).mono ?_
    rintro v _ ⟨hv, rfl⟩
    rw [hf.mirrors.body_eq hf.source_lt] at hv
    refine ⟨.refl hf, hr.sought hf.source_lt hf.duplicates (.field he hfl hreset hv), ?_⟩
    intro w run₂ _ hw
    refine feeding_puts hl hfl fun hf₂ => ?_
    cases hplace : f.place with
    | bytes offset kind => exact absurd (hl.category_of_bytes hfl hplace) hprim
    | slot index =>
      refine (Backend.yields_writeReference hr.plain.backend hf₂.target_le.2 hplace w).mono ?_
      exact fun _ memory hp =>
        ⟨w, hp, FieldCopied.of_readFrom (by simp [hreset]) hv hw hp.2⟩

/-- A bare copy is filled field by field. -/
theorem yields_copyFields {p : Plan} (hf : s.Fills base root busy source target run)
    (hd : p.Describes (base.heap.cls source) e)
    (hsized : (base.heap.body source).Sized e.layout.blockSize e.layout.slotCount)
    (hnum : ∀ f ∈ e.layout.fields, ∀ offset kind bytes, f.place = .bytes offset kind →
      (base.heap.body source).readBytes offset kind.width = .ok bytes →
      (Primitive.decode kind bytes).IsNumber) :
    Yields (s.copyFields nested source target p) run fun _ run' =>
      s.Fills base root busy source target run' ∧ run.copies.Within run'.copies ∧
      (∀ m n, (run.heap.body target).Sized m n → (run'.heap.body target).Sized m n) ∧
      ∀ f ∈ e.layout.fields, s.FieldDone base source target run' f := by
  have hl := hr.plain.registry.layouts _ _ he
  have hsource : run.heap.body source = base.heap.body source := hf.mirrors.body_eq hf.source_lt
  obtain ⟨hle, hlt⟩ := hf.target_le
  have hfields : ∀ g ∈ p.fields, g.toField ∈ e.layout.fields := fun _ hg => hd.mem_layout hg
  simp only [Yields, copyFields, ends_bind, ends_onMemory]
  refine ends_mono (Backend.yields_copyBlock hlt) ?_ (fun _ _ _ => trivial)
  intro bulk memory hpost
  rcases hpost with ⟨htouch, hs₁, hblock⟩
  have h₁ : s.Fills base root busy source target { run with memory } :=
    ⟨hf.mirrors.touched hf.busy hle htouch, hf.source_lt, hf.copy, hf.busy⟩
  -- What was carried with the block is done, unless it is to be reset.
  have hcarried : bulk = true → ∀ f ∈ p.fields, s.policy.resets f.marks = false →
      f.type.category = .primitive →
      s.FieldDone base source target { run with memory } f.toField := by
    intro hb f hfl hreset hprim
    obtain ⟨v, hv⟩ := Field.exists_readFrom (hl.within _ (hfields f hfl)) hsized
    cases hplace : f.place with
    | slot index =>
      exact absurd hprim (hl.category_of_slot (hfields f hfl) hplace)
    | bytes offset kind =>
      have hread : f.toField.readFrom (memory.heap.body target) = .ok v := by
        rw [hblock hb f.toField offset kind hplace, hsource]
        exact hv
      exact FieldCopied.of_readFrom (by simp [hreset]) hv
        (Stands.of_object? (Field.object?_of_readFrom hplace hv)) hread
  have hfed := maintains_copyFieldsFrom (I := s.feeding base root busy source target e.layout)
    (D := fun f run' => s.FieldDone base source target run' f.toField)
    (fun f hfl _ _ h => h.done _ (hfields f hfl)) fun f hfl run' h =>
      feeding_copyField hr hn hm he (hfields f hfl) (hnum _ (hfields f hfl))
        fun hb hreset hprim => h.done _ (hfields f hfl) (hcarried hb f hfl hreset hprim)
  refine ends_mono (hfed h₁) ?_ fun _ _ _ => trivial
  rintro _ run₂ ⟨h₂, hds⟩
  refine ⟨h₂.fills, h₂.copies, fun m n h => h₂.sized m n (hs₁ m n h), ?_⟩
  intro f hfl
  apply hds { f with holder := e.decl.name }
  rw [hd.fields_eq]
  exact List.mem_map_of_mem hfl

end Feeding

/-! ## Duplicates -/

section Duplicating

variable (hr : s.Ready base) (hs : source < base.heap.size)
  (hd : s.Duplicates base.heap (s.fate base) root source)
  (new : run.copies.find? source = none)

section

include hs hd new

/-- A bare copy is made of an object, and is done when it holds what stands for what that holds. -/
theorem mirroring_makeCopy {make : CopyM ObjectId} {fill : ObjectId → CloneM Unit} {body : Body}
    (hmake : Mirrors s base root busy run →
      Yields make run.memory (Backend.Adds (base.heap.cls source) body run.memory))
    (hshape : body.shape = base.heap.shape source)
    (hfill : ∀ target run₁, s.Fills base root (fun t => busy t ∨ t = target) source target run₁ →
      run₁.heap.body target = body →
      Yields (fill target) run₁ fun _ run₂ =>
        Mirrors s base root (fun t => busy t ∨ t = target) run₂ ∧
        run₁.copies.Within run₂.copies ∧
        ∀ e, s.registry.get? (base.heap.cls source) = some e →
          s.Copied e.layout (Stands (s.fate base) run₂.copies) (base.heap.body source)
            (run₂.heap.body target)) :
    (s.mirroring base root busy).Maintains (makeCopy register source make fill) run fun w run' =>
      run'.copies.find? source = some w := by
  refine standing_makeCopy (M := fun target run₁ =>
    s.Fills base root (fun t => busy t ∨ t = target) source target run₁ ∧
      run₁.heap.body target = body) new (fun h => ?_) ?_
  · refine (hmake h).mono ?_
    rintro _ memory ⟨rfl, hadd⟩
    refine ⟨⟨h.made hadd hshape hd new, hs, Copies.find?_put _ _ _, Or.inr rfl⟩, ?_⟩
    show memory.heap.body run.heap.size = body
    rw [hadd, Heap.body, Heap.get_add_new]
    rfl
  · rintro target run₁ ⟨hf, hb⟩ hfound
    refine (hfill target run₁ hf hb).mono ?_
    rintro _ run₂ ⟨h₂, hc, hcopied⟩
    exact ⟨h₂.finish (hc source _ hfound) hcopied, hc⟩

end

include hr hs hd new

theorem mirroring_duplicatePacked (hshape : base.heap.shape source = .packed) :
    (s.mirroring base root busy).Maintains (makeCopy register source
      (s.backend.duplicatePacked source) fun _ => pure ()) run fun w run' =>
        run'.copies.find? source = some w := by
  obtain ⟨e, he, htakes⟩ := hr.typed.takes source hs
  obtain ⟨kind, bytes, hx⟩ := Body.exists_packed ((hr.typed.header source hs).symm.trans hshape)
  rw [hx] at htakes
  have hcopy : (Body.packed kind bytes).shape = base.heap.shape source := hshape.symm
  refine mirroring_makeCopy hs hd new (fun h => ?_) hcopy ?_
  · have hbody : run.memory.heap.body source = .packed kind bytes := (h.body_eq hs).trans hx
    have hcls : run.memory.heap.cls source = base.heap.cls source := h.cls_eq hs
    refine (Backend.yields_duplicatePacked hr.plain.backend (hcls ▸ he) ?_).mono ?_
    · intro kind' bytes' hx'
      cases hbody.symm.trans hx'
      exact htakes.packed
    · rintro target memory ⟨kind', bytes', hx', hadds⟩
      cases hbody.symm.trans hx'
      exact hcls ▸ hadds
  · intro target run₁ hf hbody
    exact ⟨hf.mirrors, .refl _, fun _ _ => hx ▸ hbody⟩

variable (hn : s.Nests nested) (hm : s.Mirroring base root nested)
include hn hm

theorem mirroring_duplicateSlots (hshape : base.heap.shape source = .slots) :
    (s.mirroring base root busy).Maintains (s.duplicateSlots nested source) run fun w run' =>
      run'.copies.find? source = some w := by
  refine maintains_duplicateSlots fun items hx h => ?_
  obtain ⟨e, he, htakes⟩ := hr.typed.takes source hs
  rw [h.body_eq hs] at hx
  rw [hx] at htakes
  obtain ⟨c, hk⟩ := htakes.slots
  rw [h.cls_eq hs]
  refine mirroring_makeCopy hs hd new (fun _ =>
    (Backend.adds_allocateSlots hr.plain.backend he hk items.length).yields) hshape.symm ?_ h
  intro target run₁ hf hbare
  obtain ⟨hle, hlt⟩ := hf.target_le
  have hsought : ∀ v ∈ items, s.Sought base root v := fun v hv => hr.sought hs hd (.element hx hv)
  have hkeeps : s.Keeps (· = target) (s.cloneElements nested target 0 items) run₁ :=
    keeps_cloneElements hn (hf.mirrors.kept.tame hr.tame) (by rfl) 0 items
  have hnull : run₁.heap.body target = .slots ([] ++ List.replicate items.length .null) := hbare
  refine ((yields_cloneElements hn hr.tame hm hf.busy hle hf.mirrors hlt hsought hnull).and_ends
    hkeeps).mono ?_
  rintro _ run₂ ⟨⟨h₂, ws, hws, hfilled⟩, hk₂⟩
  refine ⟨h₂, hk₂.copies, fun _ _ => ?_⟩
  rw [hx]
  exact ⟨ws, hws, hfilled⟩

theorem mirroring_duplicateContainer :
    (s.mirroring base root busy).Maintains (s.duplicateContainer nested source) run fun w run' =>
      run'.copies.find? source = some w := by
  intro h
  obtain ⟨e, he, htakes⟩ := hr.typed.takes source hs
  refine maintains_duplicateContainer (P := fun p run₁ => p.Describes (base.heap.cls source) e ∧
    run₁.copies = run.copies) (fun h => ?_) (fun p run₁ contents _ hp hx h₁ => ?_) h
  · refine ends_mono (ends_plan_finds (A := (· = .containers)) _) ?_ fun _ _ _ => trivial
    rintro p run₁ ⟨hf, hplan⟩
    rw [h.kept.planOf, h.cls_eq hs] at hplan
    obtain ⟨e', he', hdesc⟩ := describes_of_planOf hr.plans hplan
    cases he.symm.trans he'
    exact ⟨⟨h.of_kept (.of_finds hf) hf.memory hf.copies, hf.copies ▸ .refl _⟩, hdesc, hf.copies⟩
  · rw [h₁.body_eq hs] at hx
    rw [hx] at htakes
    have hshape : base.heap.shape source = .container := by
      rw [hr.typed.header source hs, hx]
      rfl
    refine mirroring_makeCopy hs hd (hp.2 ▸ new) (fun _ =>
      (Backend.adds_container hr.plain.backend he hp.1 htakes.container).yields) hshape.symm ?_ h₁
    intro target run₂ hf _
    have hsought : ∀ v ∈ contents.values, s.Sought base root v := fun v hv =>
      hr.sought hs hd (.entry hx hv)
    have hcontents : Yields (cloneContents nested contents) run₂ _ :=
      maintains_cloneContents (hm _) hsought hf.mirrors
    have hkeeps : s.Keeps (fun _ => False) (cloneContents nested contents) run₂ :=
      keeps_cloneContents hn (hf.mirrors.kept.tame hr.tame) contents
    rw [Yields, ends_bind]
    refine (hcontents.and_ends hkeeps).mono ?_
    rintro copies run₃ ⟨⟨⟨h₃, -⟩, hrebuilt⟩, hk₃⟩
    have hlt : target < run₃.heap.size := Nat.lt_of_lt_of_le hf.target_le.2 hk₃.heap.size_le
    unfold setContents
    rw [ends_onMemory]
    refine (Yields.and_ends (Backend.yields_setContents p target copies)
      (Backend.ends_setContents p target copies)).mono ?_
    rintro _ memory ⟨hset, htouch⟩
    refine ⟨h₃.touched hf.busy hf.target_le.1 htouch, hk₃.copies, fun _ _ => ?_⟩
    rw [hx]
    refine ⟨copies, hrebuilt, ?_⟩
    show memory.heap.body target = _
    rw [hset]
    exact Heap.body_setBody hlt _

theorem mirroring_duplicateRecord (hshape : base.heap.shape source = .record) {p : Plan}
    (he : s.registry.get? (base.heap.cls source) = some e)
    (hdesc : p.Describes (base.heap.cls source) e) :
    (s.mirroring base root busy).Maintains (makeCopy register source (s.backend.allocate p)
      fun target => s.copyFields nested source target p) run fun w run' =>
        run'.copies.find? source = some w := by
  obtain ⟨e', he', htakes⟩ := hr.typed.takes source hs
  cases he.symm.trans he'
  obtain ⟨hk, hsized, hnum⟩ := htakes.concrete ((hr.typed.header source hs).symm.trans hshape)
  refine mirroring_makeCopy hs hd new (fun _ =>
    (Backend.adds_bare hr.plain.backend he hdesc hk).yields) hshape.symm ?_
  intro target run₁ hf hbare
  refine (yields_copyFields hr hn hm he hf hdesc hsized hnum).mono ?_
  rintro _ run₂ ⟨hfills, hc, hsized₂, hdone⟩
  refine ⟨hfills.mirrors, hc, ?_⟩
  intro e' he'
  cases he.symm.trans he'
  have hx : (run₂.heap.body target).Sized e.layout.blockSize e.layout.slotCount := by
    refine hsized₂ _ _ ?_
    rw [hbare]
    exact ⟨by simp [Bytes.zeros], by simp⟩
  unfold FieldDone at hdone
  cases hbody : base.heap.body source with
  | record block refs =>
    rw [hbody] at hsized hdone
    obtain ⟨hblock, hrefs⟩ := hsized
    refine ⟨?_, hdone⟩
    rw [hblock, hrefs]
    exact hx
  | _ =>
    rw [hbody] at hsized
    exact hsized.elim

theorem mirroring_duplicate {p : Plan} (he : s.registry.get? (base.heap.cls source) = some e)
    (hdesc : p.Describes (base.heap.cls source) e) :
    (s.mirroring base root busy).Maintains (s.duplicate nested source p) run fun w run' =>
      run'.copies.find? source = some w := by
  intro h
  have hshape := h.shape_eq hs
  refine maintains_duplicate (fun hx => ?_) (fun hx => ?_) (fun _ => ?_) (fun hx => ?_) h
  · exact mirroring_duplicatePacked hr hs hd new (hshape ▸ hx)
  · exact mirroring_duplicateSlots hr hs hd new hn hm (hshape ▸ hx)
  · exact mirroring_duplicateContainer hr hs hd new hn hm
  · exact mirroring_duplicateRecord hr hs hd new hn hm (hshape ▸ hx) he hdesc

end Duplicating

/-- The clone of a value is in order, however deep it goes. -/
theorem mirroring_cloneValue (hr : s.Ready base) (root : Value) (depth : Nat) :
    s.Mirroring base root (cloneValue s depth) := by
  refine clones_standing (G := Mirrors s base root) ?_ ?_ depth
  · intro busy run o w h hf
    obtain ⟨-, -, hd, -⟩ := h.copies o w hf
    exact hd.fate_eq
  · intro depth hm busy run o hv new h
    obtain ⟨hlt, hd⟩ := hv o rfl
    have hn := nests_cloneValue s depth
    have ht := h.kept.tame hr.tame
    refine standing_cloneNew (ht.toBuiltIn.employs o) h.kept hlt
      (fun run' hf h => h.of_kept (.of_finds hf) hf.memory hf.copies) ?_ ?_ ?_ h
    · intro hon p hp
      obtain ⟨e, he, hdesc⟩ := describes_of_planOf hr.plans hp
      rw [hdesc.selfCopy_eq, hr.plain.methods hon _ e he]
    · exact fun hf run' hfound =>
        mirroring_duplicateContainer hr hlt (hd hf) (hfound.copies ▸ new) hn hm
    · intro hf p run' hfound hp
      obtain ⟨e, he, hdesc⟩ := describes_of_planOf hr.plans hp
      exact mirroring_duplicate hr hlt (hd hf) (hfound.copies ▸ new) hn hm he hdesc

end Setting

end DeepCopy
