-- An object duplicated on both sides: the same plan is found, the same object is
-- made and entered into the map of copies, and it is filled with the same. Where
-- one side fails, so does the other.
import DeepCopy.Proofs.Contents
import DeepCopy.Proofs.Filling

namespace DeepCopy

namespace Setting

open CloneM

/-! ## New objects -/

/-- Both sides have made a new object of a class, with one body. -/
structure MadeBoth (s : Setting) (base : Run) (busy : ObjectId → Prop) (cls : ClassId) (body : Body)
    (a : Run) (t t' : ObjectId) (a' b' : Run) : Prop where
  eq : t' = t
  next : t = a.heap.size
  abreast : Abreast s base (fun o => busy o ∨ o = t) a' b'
  copies : a'.copies = a.copies
  left : a'.heap.get t = Object.new cls body
  right : b'.heap.get t = Object.new cls body
  lt : t < a'.heap.size
  size_le : a.heap.size ≤ a'.heap.size

section Steps

variable {s : Setting} {base a b : Run} {busy : ObjectId → Prop} {source : ObjectId}

theorem matches_adds {x y : CopyM ObjectId} {cls : ClassId} {body : Body}
    (h : Abreast s base busy a b) (hx : Succeeds x a.memory (Backend.Adds cls body a.memory))
    (hy : Succeeds y b.memory (Backend.Adds cls body b.memory)) :
    Matches (onMemory x) (onMemory y) a b (s.MadeBoth base busy cls body a) := by
  refine Tandem.onMemory (Q := fun t t' m m' => Backend.Adds cls body a.memory t m ∧
    Backend.Adds cls body b.memory t' m') ?_ ?_
  · exact ends_mono hx (fun t m ht => ends_mono hy (fun t' m' ht' => ⟨ht, ht'⟩) fun _ _ h => h)
      fun _ _ h => h.elim
  · intro t t' m m' hpost
    rcases hpost with ⟨⟨rfl, hl⟩, ⟨rfl, hr⟩⟩
    refine ⟨h.size, rfl, h.added rfl rfl hl hr, rfl, ?_, ?_, ?_, ?_⟩
    · show m.heap.get a.heap.size = _
      rw [hl, Heap.get_add_new]
    · show m'.heap.get a.heap.size = _
      rw [hr, ← h.size, Heap.get_add_new]
    · show a.heap.size < m.heap.size
      rw [hl, Heap.size_add]
      exact Nat.lt_succ_self _
    · show a.heap.size ≤ m.heap.size
      rw [hl, Heap.size_add]
      exact Nat.le_succ _

/-- Where a class has no instances, both sides say so. -/
theorem matches_allocate_record {cls : ClassId} {e : Registry.Entry} {p : Plan}
    (h : Abreast s base busy a b) (he : s.registry.get? cls = some e) (hd : p.Describes cls e)
    (hk : e.decl.kind.isBuiltIn = false) :
    Matches (onMemory (s.direct.backend.allocate p)) (onMemory (s.checked.backend.allocate p)) a b
      (s.MadeBoth base busy cls (Body.bareRecord e.layout.blockSize e.layout.slotCount) a) := by
  cases hkind : e.decl.kind with
  | concrete =>
    exact matches_adds h (Backend.adds_bare (Or.inl rfl) he hd hkind)
      (Backend.adds_bare (Or.inr rfl) he hd hkind)
  | abstract | interface | enum =>
    refine Tandem.onMemory (Q := fun _ _ _ _ => False) ?_ (fun _ _ _ _ h => h.elim)
    unfold Tandem
    simp only [Backend.allocate, hd.kind_eq, hd.cls_eq, hkind, ends_allocating, Allocator.allocate,
      ends_bind, ends_memory_read, decl_of_get? he, ends_throw]
    exact ⟨rfl, hd.name_eq.symm⟩
  | array c =>
    rw [hkind] at hk
    cases hk
  | container kind =>
    rw [hkind] at hk
    cases hk

/-! ## What both sides find out -/

/-- Both sides have found out the same, and nothing else has happened. -/
structure LearnedBoth (s : Setting) (base : Run) (busy : ObjectId → Prop) (a a' b' : Run) :
    Prop where
  abreast : Abreast s base busy a' b'
  copies : a'.copies = a.copies
  heap : a'.heap = a.heap

theorem matches_plan (h : Abreast s base busy a b) (cls : ClassId) :
    Matches (s.direct.plan cls) (s.checked.plan cls) a b fun p p' a' b' =>
      p' = p ∧ s.planOf base cls = .ok p ∧ s.LearnedBoth base busy a a' b' := by
  unfold Matches Tandem
  simp only [ends_plan, h.plans]
  cases hp : a.plans.get s.registry s.classifier cls with
  | error e => exact CloneError.Alike.refl e
  | ok found =>
    obtain ⟨p, plans⟩ := found
    refine ⟨rfl, ?_, ?_, rfl, rfl⟩
    · rw [← h.left.planOf cls, planOf, hp]
      rfl
    · exact h.learned (Kept.of_plan hp) (Kept.of_plan (h.plans ▸ hp)) rfl rfl ⟨rfl, rfl⟩ rfl
        h.answers h.resolved (h.fit.get hp)

theorem matches_verdict (h : Abreast s base busy a b) (cls : ClassId) (o : ObjectId) :
    Matches (s.direct.verdict cls o) (s.checked.verdict cls o) a b fun v v' a' b' =>
      v' = v ∧ v = s.judge base cls o ∧ s.LearnedBoth base busy a a' b' := by
  have hl : s.judge a cls o = s.judge base cls o := judge_congr h.left.classShared cls o
  have hr : s.judge b cls o = s.judge base cls o := judge_congr h.right.classShared cls o
  have answers : (s.asked b cls).answers = (s.asked a cls).answers := by
    unfold asked
    split
    · exact h.answers
    · simp only [h.answers]
  have rest : ∀ run, (s.asked run cls).plans = run.plans ∧
      (s.asked run cls).resolved = run.resolved := by
    intro run
    unfold asked
    split <;> exact ⟨rfl, rfl⟩
  unfold Matches Tandem
  simp only [ends_verdict]
  refine ⟨hr.trans hl.symm, hl, ?_, copies_asked cls, congrArg Memory.heap (memory_asked cls)⟩
  refine h.learned (Kept.of_asked cls) (Kept.of_asked cls) (congrArg Memory.heap (memory_asked cls))
    (congrArg Memory.heap (memory_asked cls)) ⟨copies_asked cls, copies_asked cls⟩ ?_ answers ?_ ?_
  · exact ((rest b).1.trans h.plans).trans (rest a).1.symm
  · exact ((rest b).2.trans h.resolved).trans (rest a).2.symm
  · exact (rest a).1 ▸ h.fit

/-- Both sides find the one implementor there is, or none. -/
theorem matches_namedImplementor (hc : s.Comparable base) (h : Abreast s base busy a b)
    {cls : ClassId} {p : Plan} (hp : s.planOf base cls = .ok p) {name : String}
    (hname : p.cloneWith = some name) :
    Matches (s.direct.namedImplementor p name) (s.checked.namedImplementor p name) a b
      fun i i' a' b' => i = .containers ∧ i' = .containers ∧ s.LearnedBoth base busy a a' b' := by
  unfold Matches Tandem namedImplementor
  simp only [ends_bind, ends_get, h.resolved]
  cases hr : Assoc.find? p.cls a.resolved with
  | some i =>
    have hi := (h.left.tame hc.tame).resolved p.cls i hr
    exact ⟨hi, hi, h, rfl, rfl⟩
  | none =>
    cases hm : Assoc.find? name s.catalog with
    | none =>
      simp only [ends_fail]
      exact CloneError.Alike.refl (.config (.unknownRoutine p.name name))
    | some maker =>
      have hi := hc.tame.named cls p name maker hp hname hm
      have resolved : Assoc.put p.cls .containers b.resolved =
          Assoc.put p.cls .containers a.resolved := by rw [h.resolved]
      simp only [ends_bind, ends_write, ends_modify, ends_pure, hi]
      refine ⟨trivial, trivial, ?_, rfl, rfl⟩
      exact h.learned (Kept.of_resolved _ _) (Kept.of_resolved _ _) rfl rfl ⟨rfl, rfl⟩ h.plans
        h.answers resolved h.fit

end Steps

/-! ## Elements and entries -/

/-- An array of so many elements is being filled on both sides, and holds the same on both. -/
structure FillsArrays (s : Setting) (base : Run) (busy : ObjectId → Prop) (depth : Nat)
    (t : ObjectId) (length : Nat) (a b : Run) : Prop where
  abreast : Abreast s base busy a b
  missing : a.copies.missing base.heap.size ≤ depth
  lt : t < a.heap.size
  items : ∃ items, items.length = length ∧ a.heap.body t = .slots items ∧
    b.heap.body t = .slots items

section Contents

variable {s : Setting} {base a b : Run} {busy : ObjectId → Prop} {depth : Nat}
  {nested nested' : Value → CloneM Value} (hc : s.Comparable base)
  (hn : s.Pairs base depth nested nested')
include hc hn

theorem matches_cloneContents (h : Abreast s base busy a b)
    (hd : a.copies.missing base.heap.size ≤ depth) {c : Container}
    (hv : ∀ v ∈ c.values, base.heap.Has v) :
    Matches (cloneContents nested c) (cloneContents nested' c) a b fun d d' a' b' =>
      d' = d ∧ Onward s base busy a b a' b' := by
  have hclone : ∀ v ∈ c.values, Abides (Onward s base busy a b) (fun e e' _ _ => e.Alike e')
      (nested v) (nested' v) := by
    intro v hmem a₁ b₁ ho₁
    refine (hn.clone hc.tame ho₁.abreast (hv v hmem)
      (Nat.le_trans (ho₁.missing_le _) hd)).mono ?_ fun _ _ _ _ h => h
    rintro _ w a₂ b₂ ⟨rfl, ho₂, -⟩
    exact ⟨rfl, ho₁.trans ho₂⟩
  exact sequential_abides.cloneContents (fun i => cond i nested' nested) hclone a b (.refl h)

/-- Element by element both sides write the same into arrays that hold the same. -/
theorem matches_cloneElements {t : ObjectId} (hnew : base.heap.size ≤ t) (hbusy : busy t)
    {vs : List Value} (hv : ∀ v ∈ vs, base.heap.Has v)
    (h : s.FillsArrays base busy depth t vs.length a b) :
    Matches (s.direct.cloneElements nested t 0 vs) (s.checked.cloneElements nested' t 0 vs)
      a b fun _ _ a' b' => s.FillsArrays base busy depth t vs.length a' b' := by
  have hclone : ∀ v ∈ vs, Abides (s.FillsArrays base busy depth t vs.length)
      (fun e e' _ _ => e.Alike e') (nested v) (nested' v) := by
    intro v hmem a₁ b₁ h₁
    refine (hn.clone hc.tame h₁.abreast (hv v hmem) h₁.missing).mono ?_ fun _ _ _ _ h => h
    rintro _ w a₂ b₂ ⟨rfl, ho, -⟩
    obtain ⟨items, hlen, hl, hr⟩ := h₁.items
    exact ⟨rfl, ho.abreast, Nat.le_trans (ho.missing_le _) h₁.missing,
      Nat.lt_of_lt_of_le h₁.lt ho.left.heap.size_le, items, hlen,
      (ho.body_left h₁.lt).trans hl, (ho.body_right h₁.lt).trans hr⟩
  have hwrite : ∀ k < 0 + vs.length, ∀ w, Abides (s.FillsArrays base busy depth t vs.length)
      (fun e e' _ _ => e.Alike e') (onMemory (Backend.fast.writeElement t k w))
      (onMemory ((Backend.portable s.registry).writeElement t k w)) := by
    intro k hk w a₁ b₁ h₁
    obtain ⟨items, hlen, hbl, hbr⟩ := h₁.items
    have hin : k < items.length := by omega
    have hl : Direct.writeElement a₁.heap t k w = .ok ⟨t, .slots (items.set k w)⟩ := by
      simp only [Direct.writeElement, hbl, if_pos hin]
    have hr : (b₁.heap.setElement t k w).mapError
        (CloneError.access (s.registry.className (b₁.heap.cls t)) (toString k) t) =
          .ok ⟨t, .slots (items.set k w)⟩ := by
      simp only [Heap.setElement, hbr, Body.setElement, if_pos hin]
      rfl
    refine (matches_update h₁.abreast hnew h₁.lt hbusy hl hr).mono ?_ fun _ _ _ _ h => h
    rintro _ _ a₂ b₂ ⟨h₂, hcopies, hlt₂, hx, hy⟩
    exact ⟨rfl, h₂, hcopies ▸ h₁.missing, hlt₂, _, (List.length_set ..).trans hlen, hx, hy⟩
  refine (sequential_abides.cloneElements (fun i => cond i nested' nested)
    (fun i => cond i s.checked s.direct) hclone hwrite a b h).mono ?_ fun _ _ _ _ h => h
  exact fun _ _ _ _ h => h.2

end Contents

/-! ## Sources -/

section Sources

variable {s : Setting} {base : Run} {source : ObjectId} (hc : s.Comparable base)
  (hs : source < base.heap.size)
include hc hs

theorem Comparable.has_values {b : Body} (hb : base.heap.body source = b) :
    ∀ v ∈ b.values, base.heap.Has v := by
  subst hb
  exact hc.heap.closed source hs

/-- An object whose header says that it is an instance is one, of a class that may have some. -/
theorem Comparable.record_of_shape (hh : base.heap.Headed)
    (hshape : base.heap.shape source = .record) :
    ∃ e block refs, s.registry.get? (base.heap.cls source) = some e ∧
      base.heap.body source = .record block refs ∧ e.decl.kind.isBuiltIn = false ∧
      e.layout.Canonical base.heap (.record block refs) := by
  obtain ⟨e, he, haccepts⟩ := hc.heap.accepts source hs
  obtain ⟨block, refs, hx⟩ := Body.exists_record ((hh source hs).symm.trans hshape)
  rw [hx] at haccepts
  exact ⟨e, block, refs, he, hx, haccepts⟩

theorem Comparable.packed_of_shape (hh : base.heap.Headed)
    (hshape : base.heap.shape source = .packed) :
    ∃ e kind bytes, s.registry.get? (base.heap.cls source) = some e ∧
      base.heap.body source = .packed kind bytes ∧ e.decl.kind = .array (.primitive kind) ∧
      kind.width ∣ bytes.length := by
  obtain ⟨e, he, haccepts⟩ := hc.heap.accepts source hs
  obtain ⟨kind, bytes, hx⟩ := Body.exists_packed ((hh source hs).symm.trans hshape)
  rw [hx] at haccepts
  exact ⟨e, kind, bytes, he, hx, haccepts⟩

theorem Comparable.slots_of_shape (hh : base.heap.Headed)
    (hshape : base.heap.shape source = .slots) :
    ∃ e c items, s.registry.get? (base.heap.cls source) = some e ∧
      base.heap.body source = .slots items ∧ e.decl.kind = .array (.reference c) := by
  obtain ⟨e, he, haccepts⟩ := hc.heap.accepts source hs
  obtain ⟨items, hx⟩ := Body.exists_slots ((hh source hs).symm.trans hshape)
  rw [hx] at haccepts
  obtain ⟨c, hk⟩ := haccepts
  exact ⟨e, c, items, he, hx, hk⟩

end Sources

/-! ## Duplicates -/

section Duplicating

variable {s : Setting} {base a b : Run} {busy : ObjectId → Prop} {depth : Nat}
  {source : ObjectId} {nested nested' : Value → CloneM Value}

theorem matches_heap {α β : Type} {f : Heap → CloneM α} {g : Heap → CloneM β}
    {Q : α → β → Run → Run → Prop} (h : Matches (f a.heap) (g b.heap) a b Q) :
    Matches (heap >>= f) (heap >>= g) a b Q := h

theorem matches_register {α β : Type} {o : ObjectId} {v : Value} {x : CloneM α} {y : CloneM β}
    {Q : α → β → Run → Run → Prop}
    (h : Matches x y { a with copies := a.copies.put o v }
      { b with copies := b.copies.put o v } Q) :
    Matches (register o v >>= fun _ => x) (register o v >>= fun _ => y) a b Q := h

theorem matches_slotItems {items : List Value} (hl : a.heap.body source = .slots items)
    (hr : b.heap.body source = .slots items) :
    Matches (s.direct.slotItems source) (s.checked.slotItems source) a b fun u v a' b' =>
      u = items ∧ v = items ∧ a' = a ∧ b' = b := by
  unfold Matches Tandem slotItems
  simp only [ends_bind, ends_heap, hl, hr, ends_pure]
  exact ⟨trivial, trivial, trivial, trivial⟩

section Made

variable {cls : ClassId} {body : Body} {t t' : ObjectId} {a' b' : Run}
  (hm : s.MadeBoth base busy cls body a t t' a' b')
include hm

/-- A new array is an array. -/
theorem MadeBoth.takesArray (hb : body.shape.isArray = true) :
    Field.takesArray a'.heap (.ref t) = true := by
  simp only [Field.takesArray, Heap.isArrayRef, Heap.shape, hm.left]
  exact hb

/-- A new object that stands for its source on both sides. -/
theorem MadeBoth.register (new : a.copies.find? source = none)
    (ha : Field.takesArray base.heap (.ref source) = true → body.shape.isArray = true) :
    Abreast s base (fun o => busy o ∨ o = t) { a' with copies := a'.copies.put source (.ref t) }
      { b' with copies := b'.copies.put source (.ref t) } :=
  hm.abreast.register (hm.copies ▸ new) fun harray => hm.takesArray (ha harray)

theorem MadeBoth.new (h : Abreast s base busy a b) : base.heap.size ≤ t := by
  rw [hm.next]
  exact h.left.heap.size_le

theorem MadeBoth.body_eq : a'.heap.body t = body ∧ b'.heap.body t = body := by
  rw [Heap.body, hm.left, Heap.body, hm.right]
  exact ⟨rfl, rfl⟩

/-- The source is no longer without a copy. -/
theorem MadeBoth.missing_le (hs : source < base.heap.size)
    (new : a.copies.find? source = none) (hd : a.copies.missing base.heap.size ≤ depth + 1) :
    (a'.copies.put source (.ref t)).missing base.heap.size ≤ depth := by
  have := Copies.missing_put_lt (.ref t) hs new
  rw [hm.copies]
  omega

end Made

variable (hc : s.Comparable base) (hh : base.heap.Headed) (hn : s.Pairs base depth nested nested')
  (h : Abreast s base busy a b) (hs : source < base.heap.size)
  (new : a.copies.find? source = none) (hd : a.copies.missing base.heap.size ≤ depth + 1)
include hc hh h hs new

theorem matches_duplicatePacked (hshape : base.heap.shape source = .packed) :
    Matches (s.direct.duplicatePacked source) (s.checked.duplicatePacked source) a b
      (SameAnswer s base busy (.ref source)) := by
  obtain ⟨e, kind, bytes, he, hx, hk, hdvd⟩ := hc.packed_of_shape hs hh hshape
  have hl := Backend.adds_duplicatePacked (Or.inl rfl) he (h.cls_left hs)
    ((h.body_left hs).trans hx) hk hdvd
  have hr := Backend.adds_duplicatePacked (Or.inr rfl) he (h.cls_right hs)
    ((h.body_right hs).trans hx) hk hdvd
  apply (matches_adds h hl hr).bind
  intro _ t a₁ b₁ hm
  obtain rfl := hm.eq
  refine matches_register ⟨rfl, (hm.register new fun _ => rfl).finish ?_, fun _ => ?_⟩
  · show (a₁.heap.body t).Agrees _ (b₁.heap.body t)
    rw [hm.body_eq.1, hm.body_eq.2]
    exact Body.Agrees.refl _ _
  · exact hm.takesArray rfl

include hn hd

theorem matches_duplicateSlots (hshape : base.heap.shape source = .slots) :
    Matches (s.direct.duplicateSlots nested source) (s.checked.duplicateSlots nested' source) a b
      (SameAnswer s base busy (.ref source)) := by
  obtain ⟨e, c, items, he, hx, hk⟩ := hc.slots_of_shape hs hh hshape
  have hhas : ∀ v ∈ items, base.heap.Has v := hc.has_values hs hx
  unfold duplicateSlots duplicateSlotsBy
  apply (matches_slotItems ((h.body_left hs).trans hx) ((h.body_right hs).trans hx)).bind
  intro _ items a b hpost
  rcases hpost with ⟨rfl, rfl, rfl, rfl⟩
  apply matches_heap
  rw [show a.memory.heap.cls source = _ from h.cls_left hs,
    show b.memory.heap.cls source = _ from h.cls_right hs]
  refine (matches_adds h (Backend.adds_allocateSlots (Or.inl rfl) he hk _)
    (Backend.adds_allocateSlots (Or.inr rfl) he hk _)).bind ?_
  intro _ t a₁ b₁ hm
  obtain rfl := hm.eq
  apply matches_register
  have h₁ := hm.register new fun _ => rfl
  have hfills : s.FillsArrays base (fun o => busy o ∨ o = t) depth t items.length _ _ :=
    ⟨h₁, hm.missing_le hs new hd, hm.lt, _, List.length_replicate, hm.body_eq⟩
  have hkl : s.direct.Keeps (· = t) (s.direct.cloneElements nested t 0 items) _ :=
    keeps_cloneElements hn.left ((h₁.left.tame hc.tame).over _) (by rfl) 0 items
  have hkr : s.checked.Keeps (· = t) (s.checked.cloneElements nested' t 0 items) _ :=
    keeps_cloneElements hn.right ((h₁.right.tame hc.tame).over _) (by rfl) 0 items
  refine (Keeps.matches (matches_cloneElements hc hn (hm.new h) (Or.inr rfl) hhas hfills)
    hkl hkr).bind ?_
  intro _ _ a₂ b₂ hpost
  rcases hpost with ⟨⟨h₂, -, -, items', -, hl, hr⟩, hkept, -⟩
  have hfound := hkept.copies source _ (Copies.find?_put _ _ _)
  refine ⟨rfl, h₂.finish ?_, h₂.arrays source _ hfound⟩
  rw [hl, hr]
  exact Body.Agrees.refl _ _

/-- A container is rebuilt on both sides. An object that is none is refused on both sides. -/
theorem matches_duplicateContainer :
    Matches (s.direct.duplicateContainer nested source)
      (s.checked.duplicateContainer nested' source) a b (SameAnswer s base busy (.ref source)) := by
  obtain ⟨e, he, haccepts⟩ := hc.heap.accepts source hs
  unfold duplicateContainer duplicateContainerBy
  apply matches_heap
  rw [show a.memory.heap.cls source = _ from h.cls_left hs,
    show b.memory.heap.cls source = _ from h.cls_right hs]
  apply (matches_plan h _).bind
  intro _ p a₁ b₁ hpost
  rcases hpost with ⟨rfl, hp, hlearned⟩
  obtain ⟨e', he', hdesc⟩ := describes_of_planOf hc.plans hp
  cases he.symm.trans he'
  have h₁ := hlearned.abreast
  apply matches_heap
  have hl : a₁.memory.heap.contents? source = (base.heap.body source).contents? :=
    congrArg Body.contents? (h₁.body_left hs)
  have hr : b₁.memory.heap.contents? source = (base.heap.body source).contents? :=
    congrArg Body.contents? (h₁.body_right hs)
  rw [hl, hr]
  cases hx : base.heap.body source with
  | container c =>
    rw [hx] at haccepts
    have hhas : ∀ v ∈ c.values, base.heap.Has v := hc.has_values hs hx
    have harray : ¬ Field.takesArray base.heap (.ref source) = true := by
      simp [Field.takesArray, Heap.isArrayRef, hh source hs, hx, Body.shape, Shape.isArray]
    refine (matches_adds h₁ (Backend.adds_container (Or.inl rfl) he hdesc haccepts)
      (Backend.adds_container (Or.inr rfl) he hdesc haccepts)).bind ?_
    intro _ t a₂ b₂ hm
    obtain rfl := hm.eq
    have new₁ : a₁.copies.find? source = none := hlearned.copies ▸ new
    apply matches_register
    refine (matches_cloneContents hc hn (hm.register new₁ fun ha => absurd ha harray)
      (hm.missing_le hs new₁ (hlearned.copies ▸ hd)) hhas).bind ?_
    rintro _ d a₃ b₃ ⟨rfl, ho⟩
    have hset : ∀ {x : Heap} {c' : Container}, x.body t = .container c' →
        (x.setContents t d).mapError (contentsFault p t) = .ok ⟨t, .container d⟩ := by
      intro x c' hbody
      simp only [Heap.setContents, Heap.contents, Heap.contents?, hbody, Body.contents?]
      rfl
    refine (matches_update ho.abreast (hm.new h₁) (Nat.lt_of_lt_of_le hm.lt ho.left.heap.size_le)
      (Or.inr rfl) (hset ((ho.body_left hm.lt).trans hm.body_eq.1))
      (hset ((ho.body_right hm.lt).trans hm.body_eq.2))).bind ?_
    intro _ _ a₄ b₄ hpost
    rcases hpost with ⟨h₄, -, -, hx₄, hy₄⟩
    refine ⟨rfl, h₄.finish ?_, fun ha => absurd ha harray⟩
    rw [hx₄, hy₄]
    exact Body.Agrees.refl _ _
  | _ => exact CloneError.Alike.refl (contentsFault p source (.wrongBody p.name .container))

/-- An instance is duplicated on both sides, or its class has no instances on both sides. -/
theorem matches_duplicateRecord (hshape : base.heap.shape source = .record) {p : Plan}
    (hp : s.planOf base (base.heap.cls source) = .ok p) :
    Matches (s.direct.duplicateRecord nested source p) (s.checked.duplicateRecord nested' source p)
      a b (SameAnswer s base busy (.ref source)) := by
  obtain ⟨e, block, refs, he, hx, hkind, hcan⟩ := hc.record_of_shape hs hh hshape
  obtain ⟨e', he', hdesc⟩ := describes_of_planOf hc.plans hp
  cases he.symm.trans he'
  have harray : ¬ Field.takesArray base.heap (.ref source) = true := by
    simp [Field.takesArray, Heap.isArrayRef, hshape, Shape.isArray]
  unfold duplicateRecord duplicateRecordBy
  apply (matches_allocate_record h he hdesc hkind).bind
  intro _ t a₁ b₁ hm
  obtain rfl := hm.eq
  apply matches_register
  have h₁ := hm.register new fun ha => absurd ha harray
  have hkl : s.direct.Keeps (· = t) (s.direct.copyFields nested source t p) _ :=
    keeps_copyFields (· = t) hn.left ((h₁.left.tame hc.tame).over _) (by rfl) p
  have hkr : s.checked.Keeps (· = t) (s.checked.copyFields nested' source t p) _ :=
    keeps_copyFields (· = t) hn.right ((h₁.right.tame hc.tame).over _) (by rfl) p
  refine (Keeps.matches (matches_copyFields hc hn (hc.registry.sound.layouts _ e he) hs hx hcan
    hdesc rfl h₁ (hm.missing_le hs new hd) (hm.new h) hm.lt (Or.inr rfl) hm.body_eq.1
    hm.body_eq.2) hkl hkr).bind ?_
  intro _ _ a₂ b₂ hpost
  rcases hpost with ⟨⟨h₂, hagrees⟩, hkept, -⟩
  refine ⟨rfl, h₂.finish ?_, fun ha => absurd ha harray⟩
  have hmade : a₁.heap.cls t = base.heap.cls source := by
    rw [Heap.cls, hm.left]
    rfl
  rw [(hkept.heap.cls_eq t hm.lt).trans hmade, Registry.fieldsOf_of_get? he]
  exact hagrees

end Duplicating

end Setting

end DeepCopy
