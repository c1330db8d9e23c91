-- The duplicates that the two backends make of an object, side by side. Of an
-- instance, direct access carries the whole block at once and checked access every
-- primitive by itself. A slot is written alike, unless its value is refused.
import DeepCopy.Proofs.Agreement
import DeepCopy.Proofs.RefusalSimulation

namespace DeepCopy

open CloneM

namespace Setting

variable {s : Setting} {base : Heap} {leaves : Prop} {a b : Run} {source target : ObjectId}

/-! ## Writes -/

/-- Both sides write to one object. -/
theorem meets_write (h : Alongside s base leaves a b) (ht : base.size ≤ target) {x y : CopyM Unit}
    {u v : Body} (hx : Backend.Draws x a.memory target u) (hy : Backend.Draws y b.memory target v)
    (huv : u.Akin v) (hv : (b.heap.body target).Steady v) :
    s.Meets base leaves (onMemory x) (onMemory y) a b fun _ _ _ => True := by
  refine meets_of_succeeds (succeeds_onMemory hx) (succeeds_onMemory hy) ?_
  rintro _ _ a' b' ⟨m, rfl, hm⟩ ⟨m', rfl, hm'⟩
  refine ⟨rfl, h.memory ?_ ?_ ?_ ?_, trivial⟩
  · rw [hm, hm']
    exact h.heap.setBody target huv
  · exact Spared.of_touched (Or.inr ⟨u, hm⟩) ht
  · exact Spared.of_touched (Or.inr ⟨v, hm'⟩) ht
  · rw [hm']
    exact Heap.steady_setBody fun _ => hv

/-- Only the second side writes, to the block of an instance. -/
theorem meets_catchUp (h : Alongside s base leaves a b) (ht : base.size ≤ target) {y : CopyM Unit}
    {v : Body} (hy : Backend.Draws y b.memory target v) (huv : (a.heap.body target).Akin v)
    (hv : (b.heap.body target).Steady v) :
    s.Meets base leaves (pure ()) (onMemory y) a b fun _ _ _ => True := by
  refine meets_of_succeeds (P := fun _ a' => a' = a) rfl (succeeds_onMemory hy) ?_
  rintro _ _ _ b' rfl ⟨m', rfl, hm'⟩
  refine ⟨rfl, h.memory ?_ (Spared.refl _) (Spared.of_touched (Or.inr ⟨v, hm'⟩) ht) ?_, trivial⟩
  · rw [hm', ← Heap.setBody_body (Memory.heap _) target]
    exact h.heap.setBody target huv
  · rw [hm']
    exact Heap.steady_setBody fun _ => hv

/-- Access that fails on both sides. -/
theorem meets_update_errors {change change' : Heap → Except CloneError Write}
    {Q : Unit → Run → Run → Prop} (hl : ∃ e, change a.heap = .error e)
    (hr : ∃ e, change' b.heap = .error e) :
    s.Meets base leaves (onMemory (CopyM.update change)) (onMemory (CopyM.update change')) a b
      Q := by
  obtain ⟨e, hl⟩ := hl
  obtain ⟨e', hr⟩ := hr
  refine meets_of_fails ?_ ?_
  · rw [ends_onMemory, ends_copy_update, hl]
    trivial
  · rw [ends_onMemory, ends_copy_update, hr]
    trivial

/-! ## Fields -/

/-- An instance there was, and a new one of the same size that is to be filled from it. -/
structure Pours (base : Heap) (l : Layout) (source target : ObjectId) (b : Run) : Prop where
  old : source < base.size
  whole : (base.body source).Sized l.blockSize l.slotCount
  arrays : l.HoldsArrays base (base.body source)
  new : base.size ≤ target
  lt : target < b.heap.size
  sized : (b.heap.body target).Sized l.blockSize l.slotCount

theorem Pours.ahead {l : Layout} {a' b' : Run} (hp : Pours base l source target b)
    (h : Ahead s base leaves a b a' b') : Pours base l source target b' :=
  { hp with
    lt := Nat.lt_of_lt_of_le hp.lt h.right.size_le
    sized := (h.steady target hp.lt).sized _ _ hp.sized }

/-- The clones of a nested value meet, and what comes out for an array is one if arrays are left
alone. -/
def Meeting (s : Setting) (base : Heap) (leaves : Prop) (nested nested' : Value → CloneM Value) :
    Prop :=
  ∀ a b v, Alongside s base leaves a b → base.Has v →
    s.Meets base leaves (nested v) (nested' v) a b fun w a' _ =>
      leaves → Field.takesArray base v = true → Field.takesArray a'.heap w = true

section Fields

variable {l : Layout} {f : PlannedField}
  (h : Alongside s base leaves a b) (hp : Pours base l source target b) (hl : l.Sound)
  (hf : f.toField ∈ l.fields)
include h hp hl hf

theorem meets_resetField (r : Registry) :
    s.Meets base leaves (onMemory (Backend.fast.resetField f target))
      (onMemory ((Backend.portable r).resetField f target)) a b fun _ _ _ => True := by
  have hw := hl.within _ hf
  have hsl := (h.heap.body target).symm.sized hp.sized
  exact meets_write h hp.new (Backend.draws_resetField _ hsl hw)
    (Backend.draws_resetField _ hp.sized hw) ((h.heap.body target).cleared hsl hw)
    (hp.sized.steady (Place.sized_cleared hp.sized hw))

/-- A primitive is carried on both sides, or on the second only if the first has carried the whole
block. -/
theorem meets_copyPrimitive (r : Registry) (hprim : f.type.category = .primitive) (bulk : Bool) :
    s.Meets base leaves
      (if bulk then pure () else onMemory (Backend.fast.copyPrimitive f source target))
      (onMemory ((Backend.portable r).copyPrimitive f source target)) a b fun _ _ _ => True := by
  have hw := hl.within _ hf
  have hakin := h.heap.body target
  have hsl := hakin.symm.sized hp.sized
  cases hplace : f.place with
  | slot index => exact absurd hprim (hl.category_of_slot hf hplace)
  | bytes offset kind =>
    rw [hplace] at hw
    obtain ⟨bytes, hread⟩ := hp.whole.exists_readBytes hw
    have hlen := Body.length_of_readBytes hread
    have hfits : ∀ backend : Backend,
        offset + (backend.carried kind bytes).length ≤ l.blockSize := by
      intro backend
      rw [backend.length_carried hlen]
      exact hw
    have hreadr : (b.memory.heap.body source).readBytes offset kind.width = .ok bytes :=
      (congrArg (Body.readBytes offset kind.width) (h.body_right hp.old)).trans hread
    have hreadl : (a.memory.heap.body source).readBytes offset kind.width = .ok bytes :=
      (congrArg (Body.readBytes offset kind.width) (h.body_left hp.old)).trans hread
    have hy := Backend.draws_copyPrimitive (.portable r) hplace hreadr hp.sized hw
    have hsteady := hp.sized.steady (hp.sized.withBytes (hfits (.portable r)))
    cases bulk with
    | true =>
      exact meets_catchUp h hp.new hy (hakin.withBytes_right hsl (hfits (.portable r))) hsteady
    | false =>
      exact meets_write h hp.new (Backend.draws_copyPrimitive _ hplace hreadl hsl hw) hy
        (hakin.withBytes hsl (hfits .fast) (hfits (.portable r))) hsteady

/-- Both sides read the same from a slot of the source. -/
theorem meets_readField (r : Registry) (hh : base.Orderly s.registry)
    (hprim : f.type.category ≠ .primitive) :
    s.Meets base leaves (onMemory (Backend.fast.readField f source))
      (onMemory ((Backend.portable r).readField f source)) a b fun v _ _ =>
        base.Has v ∧ (f.type.category = .array → Field.takesArray base v = true) := by
  have hw := hl.within _ hf
  cases hplace : f.place with
  | bytes offset kind => exact absurd (hl.category_of_bytes hf hplace) hprim
  | slot index =>
    rw [hplace] at hw
    have hsl : (a.memory.heap.body source).Sized l.blockSize l.slotCount :=
      (h.body_left hp.old).symm ▸ hp.whole
    have hsr : (b.memory.heap.body source).Sized l.blockSize l.slotCount :=
      (h.body_right hp.old).symm ▸ hp.whole
    refine meets_of_succeeds (succeeds_onMemory (Backend.succeeds_readField _ hplace hsl hw))
      (succeeds_onMemory (Backend.succeeds_readField _ hplace hsr hw)) ?_
    rintro v w _ _ ⟨m, rfl, hv, rfl⟩ ⟨m', rfl, hw, rfl⟩
    have hv : (base.body source).readSlot index = .ok v := h.body_left hp.old ▸ hv
    have hw : (base.body source).readSlot index = .ok w := h.body_right hp.old ▸ hw
    cases hv.symm.trans hw
    refine ⟨rfl, h.refl, ?_, fun hcat => hp.arrays _ hf index v hplace hcat hv⟩
    exact hh.closed source hp.old v (Body.mem_values_of_readSlot hv)

/-- A value is put into a slot on both sides, or it is refused. -/
theorem meets_writeReference (r : Registry) {v : Value} (hprim : f.type.category ≠ .primitive)
    (hv : leaves → f.type.category = .array → Field.takesArray a.heap v = true) :
    s.Meets base leaves (onMemory (Backend.fast.writeReference f target v))
      (onMemory ((Backend.portable r).writeReference f target v)) a b fun _ _ _ => True := by
  have hw := hl.within _ hf
  have hakin := h.heap.body target
  have hsl := hakin.symm.sized hp.sized
  cases hplace : f.place with
  | bytes offset kind => exact absurd (hl.category_of_bytes hf hplace) hprim
  | slot index =>
    rw [hplace] at hw
    by_cases htakes : f.type.category = .array → Field.takesArray a.heap v = true
    · exact meets_write h hp.new (Backend.draws_writeReference _ hplace hsl hw htakes)
        (Backend.draws_writeReference _ hplace hp.sized hw
          fun hcat => (h.heap.takesArray v).trans (htakes hcat))
        (hakin.withSlot index v) (hp.sized.steady (hp.sized.withSlot index v))
    · obtain ⟨hcat, hn⟩ := Classical.not_imp.mp htakes
      have hnot : Field.takesArray b.memory.heap v = false :=
        (h.heap.takesArray v).trans (Bool.eq_false_iff.mpr hn)
      have hset : f.set b.memory.heap target v = .error (f.refusal .array v) := by
        simp only [Field.set, Field.writeTo, hplace, hcat, hnot]
        rfl
      refine Or.inl ⟨fun hleaves => htakes (hv hleaves), refuses_of_ends ?_⟩
      rw [ends_onMemory, Backend.writeReference, ends_copy_update, hset]
      exact ⟨f.fault target (f.refusal .array v), rfl, trivial⟩

variable {nested nested' : Value → CloneM Value}

theorem meets_copyField (hh : base.Orderly s.registry) (hn : s.Meeting base leaves nested nested')
    (bulk : Bool) :
    s.Meets base leaves (s.direct.copyField nested source target bulk f)
      (s.checked.copyField nested' source target false f) a b fun _ _ _ => True := by
  unfold copyField
  by_cases hr : s.policy.resets f.marks = true
  · rw [if_pos hr, if_pos hr]
    exact meets_resetField h hp hl hf _
  · rw [if_neg hr, if_neg hr]
    by_cases hprim : f.type.category = .primitive
    · rw [if_pos hprim, if_pos hprim]
      exact meets_copyPrimitive h hp hl hf _ hprim bulk
    · rw [if_neg hprim, if_neg hprim]
      refine (meets_readField h hp hl hf _ hh hprim).bind ?_
      rintro v a₁ b₁ h₁ ⟨hhas, hv⟩
      refine (hn a₁ b₁ v h₁.along hhas).bind ?_
      intro copy a₂ b₂ h₂ hcopy
      rw [Backend.copyField_some _ hprim, Backend.copyField_some _ hprim]
      exact meets_writeReference h₂.along ((hp.ahead h₁).ahead h₂) hl hf _ hprim
        fun hleaves hcat => hcopy hleaves (hv hcat)

end Fields

section Contents

variable {nested nested' : Value → CloneM Value} (hn : s.Meeting base leaves nested nested')
include hn

theorem meets_cloneContents (h : Alongside s base leaves a b) {c : Container}
    (hv : ∀ v ∈ c.values, base.Has v) :
    s.Meets base leaves (cloneContents nested c) (cloneContents nested' c) a b
      fun _ _ _ => True :=
  (sequential_meets (fun h => h) fun _ h => h.along).cloneContents (fun i => cond i nested' nested)
    (fun v hmem a b h => (hn a b v h (hv v hmem)).mono fun _ _ _ _ _ => trivial) a b h

/-- An array of elements that has been made and is being filled. -/
structure FillsSlots (s : Setting) (base : Heap) (leaves : Prop) (target : ObjectId) (a b : Run) :
    Prop where
  along : Alongside s base leaves a b
  lt : target < b.heap.size
  shape : (b.heap.body target).shape = .slots

omit hn in
theorem FillsSlots.ahead {a' b' : Run} (hf : s.FillsSlots base leaves target a b)
    (h : Ahead s base leaves a b a' b') : s.FillsSlots base leaves target a' b' :=
  ⟨h.along, Nat.lt_of_lt_of_le hf.lt h.right.size_le, (h.steady target hf.lt).shape.trans hf.shape⟩

omit hn in
/-- An element is written on both sides or on neither. -/
theorem meets_writeElement (hf : s.FillsSlots base leaves target a b) (hnew : base.size ≤ target)
    (index : Nat) (w : Value) :
    s.Meets base leaves (onMemory (Backend.fast.writeElement target index w))
      (onMemory ((Backend.portable s.registry).writeElement target index w)) a b
      fun _ _ _ => True := by
  have hnot : (b.heap.body target).shape ≠ .record := by
    rw [hf.shape]
    decide
  obtain ⟨items, hr⟩ := Body.exists_slots hf.shape
  have hl : a.heap.body target = .slots items :=
    ((hf.along.heap.body target).symm.eq_of_shape hnot).trans hr
  by_cases hi : index < items.length
  · exact meets_write hf.along hnew (Backend.draws_writeElement _ hl hi w)
      (Backend.draws_writeElement _ hr hi w) (.refl _)
      (Body.steady_of_shape hnot (by rw [hr]; rfl))
  · have hset : b.heap.setElement target index w =
        .error (.outOfBounds index items.length) := by
      simp only [Heap.setElement, hr, Body.setElement, if_neg hi]
      rfl
    refine meets_update_errors
      ⟨elementFault a.heap target index (.outOfBounds index items.length), ?_⟩
      ⟨.access (s.registry.className (b.heap.cls target)) (toString index) target
        (.outOfBounds index items.length), ?_⟩
    · simp only [Direct.writeElement, hl, if_neg hi]
    · rw [hset]
      rfl

theorem meets_cloneElements (hnew : base.size ≤ target) {vs : List Value}
    (hv : ∀ v ∈ vs, base.Has v) (hf : s.FillsSlots base leaves target a b) :
    s.Meets base leaves (s.direct.cloneElements nested target 0 vs)
      (s.checked.cloneElements nested' target 0 vs) a b fun _ _ _ => True :=
  (sequential_meets FillsSlots.along FillsSlots.ahead).cloneElements
    (fun i => cond i nested' nested) (fun i => cond i s.checked s.direct)
    (fun v hmem a b hf => (hn a b v hf.along (hv v hmem)).mono fun _ _ _ _ _ => trivial)
    (fun index _ w _ _ hf => meets_writeElement hf hnew index w) a b hf

end Contents

section Filling

variable {nested nested' : Value → CloneM Value} (hh : base.Orderly s.registry)
  (hn : s.Meeting base leaves nested nested')
include hh hn

theorem meets_copyFieldsFrom (h : Alongside s base leaves a b) {l : Layout} (hl : l.Sound)
    (hp : Pours base l source target b) (bulk : Bool) {fs : List PlannedField}
    (hfs : ∀ f ∈ fs, f.toField ∈ l.fields) :
    s.Meets base leaves (s.direct.copyFieldsFrom nested source target bulk fs)
      (s.checked.copyFieldsFrom nested' source target false fs) a b fun _ _ _ => True := by
  have hseq : Sequential fun α (x : Bool → CloneM α) => ∀ a b,
      Alongside s base leaves a b ∧ Pours base l source target b →
        s.Meets base leaves (x false) (x true) a b fun _ _ _ => True :=
    sequential_meets (fun h => h.1) fun h h' => ⟨h'.along, h.2.ahead h'⟩
  refine hseq.copyFieldsFrom (fun i => cond i nested' nested) (fun i => cond i s.checked s.direct)
    (fun i => cond i false bulk) (fun f hf a b h => ?_) a b ⟨h, hp⟩
  exact meets_copyField h.1 h.2 hl (hfs f hf) hh hn bulk

/-- The first side carries the whole block, the second carries each primitive. -/
theorem meets_copyFields (h : Alongside s base leaves a b) {e : Registry.Entry} {cls : ClassId}
    (hl : e.layout.Sound) (hp : Pours base e.layout source target b) {p : Plan}
    (hd : p.Describes cls e) :
    s.Meets base leaves (s.direct.copyFields nested source target p)
      (s.checked.copyFields nested' source target p) a b fun _ _ _ => True := by
  obtain ⟨block, refs, hbody, hlen, -⟩ := hp.whole.exists_record
  have hbl : a.memory.heap.body source = .record block refs := (h.body_left hp.old).trans hbody
  have hsl := (h.heap.body target).symm.sized hp.sized
  have hne : source ≠ target := fun he => Nat.not_lt.mpr hp.new (he ▸ hp.old)
  show s.Meets base leaves (onMemory (Backend.fast.copyBlock source target) >>= fun bulk =>
      s.direct.copyFieldsFrom nested source target bulk p.fields)
    (s.checked.copyFieldsFrom nested' source target false p.fields) a b _
  have hcopy := Backend.succeeds_copyBlock .fast hne hbl (hlen.symm ▸ hsl)
  refine Meets.bind_left (succeeds_onMemory hcopy) ?_
  rintro _ _ ⟨m, rfl, rfl, hm⟩
  have h₁ : Ahead s base leaves a b { a with memory := m } b := by
    have hm : m.heap = a.heap.setBody target ((a.heap.body target).withBlock block) := hm
    refine h.memory ?_ (Spared.of_touched (Or.inr ⟨_, hm⟩) hp.new) (Spared.refl _) (.refl _)
    rw [hm, ← Heap.setBody_body (Memory.heap _) target]
    exact h.heap.setBody target ((h.heap.body target).withBlock hsl hlen)
  exact ⟨h₁, meets_copyFieldsFrom hh hn h₁.along hl (hp.ahead h₁) _ fun f hf => hd.mem_layout hf⟩

end Filling

/-! ## New objects -/

/-- What comes out for an object. For an array it is one if arrays are left alone. -/
abbrev StandsFor (base : Heap) (leaves : Prop) (source : ObjectId) (w : Value) (a _ : Run) : Prop :=
  leaves → Field.takesArray base (.ref source) = true → Field.takesArray a.heap w = true

/-- Both sides let a value stand for an object. -/
theorem meets_register (h : Alongside s base leaves a b) (o : ObjectId) {v : Value}
    (hv : leaves → Field.takesArray base (.ref o) = true → Field.takesArray a.heap v = true) :
    s.Meets base leaves (register o v) (register o v) a b fun _ a' b' =>
      a'.memory = a.memory ∧ b'.memory = b.memory :=
  Or.inr ⟨rfl, h.registered o hv, rfl, rfl⟩

/-- There is a new object of a class, with a body. -/
structure Anew (base : Heap) (cls : ClassId) (body : Body) (t : ObjectId) (b : Run) : Prop where
  new : base.size ≤ t
  lt : t < b.heap.size
  get_eq : b.heap.get t = Object.new cls body

theorem meets_adds (h : Alongside s base leaves a b) {x y : CopyM ObjectId} {cls : ClassId}
    {body : Body} (hx : Succeeds x a.memory (Backend.Adds cls body a.memory))
    (hy : Succeeds y b.memory (Backend.Adds cls body b.memory)) :
    s.Meets base leaves (onMemory x) (onMemory y) a b fun t _ b' => Anew base cls body t b' := by
  refine meets_of_succeeds (succeeds_onMemory hx) (succeeds_onMemory hy) ?_
  rintro t u _ _ ⟨m, rfl, rfl, hm⟩ ⟨m', rfl, rfl, hm'⟩
  refine ⟨h.heap.size, h.memory ?_ ?_ ?_ ?_, ?_, ?_, ?_⟩
  · rw [hm, hm']
    exact h.heap.add _
  · exact hm ▸ Spared.of_add _
  · exact hm' ▸ Spared.of_add _
  · exact .of_spared (hm' ▸ Spared.of_add _)
  · exact h.left.size_le
  · show a.heap.size < m'.heap.size
    rw [hm', Heap.size_add]
    exact Nat.lt_succ_of_le (Nat.le_of_eq h.heap.size.symm)
  · show m'.heap.get a.heap.size = _
    have hsize : a.heap.size = b.memory.heap.size := h.heap.size.symm
    rw [hm', hsize, Heap.get_add_new]

/-- A new object that is an array can be put where an array was. -/
theorem Anew.takesArray {cls : ClassId} {body : Body} {t : ObjectId}
    (hm : Anew base cls body t b) (h : Alongside s base leaves a b)
    (hb : body.shape.isArray = true) : Field.takesArray a.heap (.ref t) = true := by
  rw [← h.heap.takesArray]
  simp only [Field.takesArray, Heap.isArrayRef, Heap.shape, hm.get_eq]
  exact hb

/-- A new object stands for its source from now on, and is filled then. -/
theorem Anew.meets_register {cls : ClassId} {body : Body} {t : ObjectId}
    (hm : Anew base cls body t b) (h : Alongside s base leaves a b)
    (hb : Field.takesArray base (.ref source) = true → body.shape.isArray = true)
    {x y : CloneM Value}
    (hx : ∀ a' b', Ahead s base leaves a b a' b' → Anew base cls body t b' →
      s.Meets base leaves x y a' b' fun w _ _ => w = .ref t) :
    s.Meets base leaves (register source (.ref t) >>= fun _ => x)
      (register source (.ref t) >>= fun _ => y) a b (StandsFor base leaves source) := by
  have harray := fun ha => hm.takesArray h (hb ha)
  refine (Setting.meets_register h source fun _ => harray).bind ?_
  rintro _ a₁ b₁ h₁ ⟨hl, hr⟩
  have hr : b₁.heap = b.heap := congrArg Memory.heap hr
  refine (hx a₁ b₁ h₁ ⟨hm.new, hr ▸ hm.lt, hr ▸ hm.get_eq⟩).mono ?_
  rintro _ a₂ b₂ h₂ rfl
  exact fun _ ha => takesArray_mono (h₁.trans h₂).left (harray ha)

/-! ## What both sides find out -/

theorem meets_plan (h : Alongside s base leaves a b) (cls : ClassId) :
    s.Meets base leaves (s.direct.plan cls) (s.checked.plan cls) a b fun p _ _ =>
      ∃ e, s.registry.get? cls = some e ∧ p.Describes cls e := by
  refine Or.inr ?_
  unfold Tandem
  simp only [ends_plan, h.plans]
  cases hp : a.plans.get s.registry s.classifier cls with
  | error e => exact trivial
  | ok found =>
    obtain ⟨p, plans⟩ := found
    exact ⟨rfl, h.learned ⟨rfl, rfl⟩ ⟨rfl, rfl⟩ rfl h.answers h.resolved (h.fit.get hp)
      (h.keeps.of_resolved rfl), h.fit.describes hp⟩

theorem meets_verdict (h : Alongside s base leaves a b) (cls : ClassId) (o : ObjectId) :
    s.Meets base leaves (s.direct.verdict cls o) (s.checked.verdict cls o) a b fun v _ _ =>
      v = s.judge a cls o := by
  have rest : ∀ run, (s.asked run cls).plans = run.plans ∧
      (s.asked run cls).resolved = run.resolved := by
    intro run
    unfold asked
    split <;> exact ⟨rfl, rfl⟩
  have answers : (s.asked b cls).answers = (s.asked a cls).answers := by
    unfold asked
    split
    · exact h.answers
    · simp only [h.answers]
  have shared : ∀ c, s.classShared b c = s.classShared a c := by
    intro c
    unfold classShared
    rw [h.answers]
  refine Or.inr ?_
  unfold Tandem
  simp only [ends_verdict]
  refine ⟨judge_congr shared cls o, h.learned ⟨memory_asked cls, copies_asked cls⟩
    ⟨memory_asked cls, copies_asked cls⟩ ?_ answers ?_ ?_ (h.keeps.of_resolved (rest a).2), rfl⟩
  · exact ((rest b).1.trans h.plans).trans (rest a).1.symm
  · exact ((rest b).2.trans h.resolved).trans (rest a).2.symm
  · exact (rest a).1.symm ▸ h.fit

/-- Both sides find one implementor, or none. -/
theorem meets_namedImplementor (h : Alongside s base leaves a b) (p : Plan) (name : String) :
    s.Meets base leaves (s.direct.namedImplementor p name) (s.checked.namedImplementor p name) a b
      fun i _ _ => i.KeepsTo (fun _ r => r.GoesBy s.registry base leaves []) s.scope := by
  refine Or.inr ?_
  unfold Tandem namedImplementor
  simp only [ends_bind, ends_get, h.resolved]
  cases hr : Assoc.find? p.cls a.resolved with
  | some i => exact ⟨rfl, h.refl, h.keeps.resolved p.cls i hr⟩
  | none =>
    cases hm : Assoc.find? name s.catalog with
    | none => exact trivial
    | some maker =>
      have hi := h.keeps.catalog name maker hm
      simp only [ends_bind, ends_write, ends_modify, ends_pure]
      refine ⟨trivial, h.learned ⟨rfl, rfl⟩ ⟨rfl, rfl⟩ h.plans h.answers ?_ h.fit
        (h.keeps.remembered hi rfl), hi⟩
      show Assoc.put p.cls maker.implementor b.resolved = _
      rw [h.resolved]

/-! ## Duplicates -/

section Duplicating

variable {nested nested' : Value → CloneM Value} {e : Registry.Entry} {p : Plan}
  (hr : s.registry.Sound) (hh : base.Orderly s.registry) (hn : s.Meeting base leaves nested nested')
  (h : Alongside s base leaves a b) (hs : source < base.size)
  (he : s.registry.get? (base.cls source) = some e)
include hh h hs he

theorem meets_duplicatePacked (hshape : base.shape source = .packed) :
    s.Meets base leaves (s.direct.duplicatePacked source) (s.checked.duplicatePacked source) a b
      (StandsFor base leaves source) := by
  obtain ⟨kind, bytes, hx⟩ := Body.exists_packed ((hh.header source hs).symm.trans hshape)
  obtain ⟨e', he', hadmits⟩ := hh.admits source hs
  cases he.symm.trans he'
  obtain ⟨hk, hdvd⟩ := (hx ▸ hadmits).packed
  have hl := Backend.adds_duplicatePacked (Or.inl rfl) he (h.cls_left hs)
    ((h.body_left hs).trans hx) hk hdvd
  have hr := Backend.adds_duplicatePacked (Or.inr rfl) he (h.cls_right hs)
    ((h.body_right hs).trans hx) hk hdvd
  refine (meets_adds h hl hr).bind fun t a₁ b₁ h₁ hm => ?_
  exact hm.meets_register h₁.along (fun _ => rfl) fun a₂ b₂ h₂ _ => meets_pure h₂.along rfl

include hn

theorem meets_duplicateSlots (hshape : base.shape source = .slots) :
    s.Meets base leaves (s.direct.duplicateSlots nested source)
      (s.checked.duplicateSlots nested' source) a b (StandsFor base leaves source) := by
  obtain ⟨items, hx⟩ := Body.exists_slots ((hh.header source hs).symm.trans hshape)
  obtain ⟨e', he', hadmits⟩ := hh.admits source hs
  cases he.symm.trans he'
  obtain ⟨c, hk⟩ := (hx ▸ hadmits).slots
  have hitems : s.Meets base leaves (s.direct.slotItems source) (s.checked.slotItems source) a b
      fun items' _ _ => items' = items := by
    refine Or.inr ?_
    unfold Tandem slotItems
    have hl : a.memory.heap.body source = .slots items := (h.body_left hs).trans hx
    have hr : b.memory.heap.body source = .slots items := (h.body_right hs).trans hx
    simp only [ends_bind, ends_heap, hl, hr, ends_pure]
    exact ⟨trivial, h.refl, trivial⟩
  unfold duplicateSlots duplicateSlotsBy
  refine hitems.bind ?_
  rintro items a₁ b₁ h₁ rfl
  refine meets_heap ?_
  rw [show a₁.memory.heap.cls source = _ from h₁.along.cls_left hs,
    show b₁.memory.heap.cls source = _ from h₁.along.cls_right hs]
  refine (meets_adds h₁.along (Backend.adds_allocateSlots (Or.inl rfl) he hk _)
    (Backend.adds_allocateSlots (Or.inr rfl) he hk _)).bind fun t a₂ b₂ h₂ hm => ?_
  refine hm.meets_register h₂.along (fun _ => rfl) fun a₃ b₃ h₃ hm₃ => ?_
  have hbody : (b₃.heap.body t).shape = .slots := by
    rw [Heap.body, hm₃.get_eq]
    rfl
  have hhas : ∀ v ∈ items, base.Has v := fun v hv => hh.closed source hs v (hx.symm ▸ hv)
  exact (meets_cloneElements hn hm.new hhas ⟨h₃.along, hm₃.lt, hbody⟩).bind
    fun _ a₄ b₄ h₄ _ => meets_pure h₄.along rfl

include hr

theorem meets_duplicateRecord (hshape : base.shape source = .record)
    (hd : p.Describes (base.cls source) e) :
    s.Meets base leaves (s.direct.duplicateRecord nested source p)
      (s.checked.duplicateRecord nested' source p) a b (StandsFor base leaves source) := by
  obtain ⟨e', he', hadmits⟩ := hh.admits source hs
  cases he.symm.trans he'
  obtain ⟨hk, hsized, harrays⟩ := hadmits.record ((hh.header source hs).symm.trans hshape)
  have hnone : ¬ Field.takesArray base (.ref source) = true := by
    simp [Field.takesArray, Heap.isArrayRef, hshape, Shape.isArray]
  refine (meets_adds h (Backend.adds_bare (Or.inl rfl) he hd hk)
    (Backend.adds_bare (Or.inr rfl) he hd hk)).bind fun t a₁ b₁ h₁ hm => ?_
  refine hm.meets_register h₁.along (fun ha => absurd ha hnone) fun a₂ b₂ h₂ hm₂ => ?_
  have hbare : (b₂.heap.body t).Sized e.layout.blockSize e.layout.slotCount := by
    rw [Heap.body, hm₂.get_eq]
    simp [Object.new, Body.bareRecord, Body.Sized, Bytes.zeros]
  exact (meets_copyFields hh hn h₂.along (hr.layouts _ e he)
    ⟨hs, hsized, harrays, hm₂.new, hm₂.lt, hbare⟩ hd).bind
    fun _ a₃ b₃ h₃ _ => meets_pure h₃.along rfl

omit hr he in
/-- A container is rebuilt on both sides, and what is none is reported on both sides. -/
theorem meets_duplicateContainer :
    s.Meets base leaves (s.direct.duplicateContainer nested source)
      (s.checked.duplicateContainer nested' source) a b (StandsFor base leaves source) := by
  obtain ⟨e, he, hadmits⟩ := hh.admits source hs
  unfold duplicateContainer duplicateContainerBy
  refine meets_heap ?_
  rw [show a.memory.heap.cls source = _ from h.cls_left hs,
    show b.memory.heap.cls source = _ from h.cls_right hs]
  refine (meets_plan h _).bind ?_
  rintro p a₁ b₁ h₁ ⟨e', he', hd⟩
  cases he.symm.trans he'
  refine meets_heap ?_
  have hl : a₁.memory.heap.contents? source = (base.body source).contents? :=
    congrArg Body.contents? (h₁.along.body_left hs)
  have hr : b₁.memory.heap.contents? source = (base.body source).contents? :=
    congrArg Body.contents? (h₁.along.body_right hs)
  rw [hl, hr]
  cases hx : base.body source with
  | container c =>
    have hk := (hx ▸ hadmits).container
    have hnone : ¬ Field.takesArray base (.ref source) = true := by
      simp [Field.takesArray, Heap.isArrayRef, hh.header source hs, hx, Body.shape, Shape.isArray]
    refine (meets_adds h₁.along (Backend.adds_container (Or.inl rfl) he hd hk)
      (Backend.adds_container (Or.inr rfl) he hd hk)).bind fun t a₂ b₂ h₂ hm => ?_
    refine hm.meets_register h₂.along (fun ha => absurd ha hnone) fun a₃ b₃ h₃ hm₃ => ?_
    have hhas : ∀ v ∈ c.values, base.Has v := fun v hv => hh.closed source hs v (hx.symm ▸ hv)
    refine (meets_cloneContents hn h₃.along hhas).bind fun copies a₄ b₄ h₄ _ => ?_
    have hshape : (b₄.heap.body t).shape = .container := by
      rw [(h₄.steady t hm₃.lt).shape, Heap.body, hm₃.get_eq]
      rfl
    have hnot : (b₄.heap.body t).shape ≠ .record := by
      rw [hshape]
      decide
    obtain ⟨old, hr⟩ := Body.exists_container hshape
    have hl : a₄.heap.body t = .container old :=
      ((h₄.along.heap.body t).symm.eq_of_shape hnot).trans hr
    refine (meets_write h₄.along hm.new (Backend.draws_setContents hl p copies)
      (Backend.draws_setContents hr p copies) (.refl _)
      (Body.steady_of_shape hnot (by rw [hr]; rfl))).bind ?_
    exact fun _ a₅ b₅ h₅ _ => meets_pure h₅.along rfl
  | _ => exact meets_fail _ _

theorem meets_duplicate (hd : p.Describes (base.cls source) e) :
    s.Meets base leaves (s.direct.duplicate nested source p) (s.checked.duplicate nested' source p)
      a b (StandsFor base leaves source) := by
  unfold duplicate duplicateBy
  refine meets_heap ?_
  have hl : a.memory.heap.shape source = base.shape source := congrArg Object.shape (h.get_left hs)
  have hr' : b.memory.heap.shape source = base.shape source :=
    congrArg Object.shape (h.get_right hs)
  rw [hl, hr']
  cases hx : base.shape source with
  | packed => exact meets_duplicatePacked hh h hs he hx
  | slots => exact meets_duplicateSlots hh hn h hs he hx
  | container => exact meets_duplicateContainer hh hn h hs
  | record => exact meets_duplicateRecord hr hh hn h hs he hx hd

end Duplicating

end Setting

end DeepCopy
