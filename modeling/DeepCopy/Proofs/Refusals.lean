-- The two backends where implementors may answer what they like. Direct access
-- lets anything pass into a slot; checked access refuses what is no array where
-- the class declares an array. Nothing else comes between the two: where nothing
-- is refused, both end well with one result and the same slots, or both fail.
import DeepCopy.Proofs.BackendDuplicates

namespace DeepCopy

open CloneM

namespace Setting

variable {α : Type} {s : Setting} {base : Heap} {leaves : Prop} {a b : Run}
  {source target : ObjectId}

/-! ## Routines -/

/-- An object that a routine has had made: it is new, and an instance is as large as its class
says. -/
structure Fresh (r : Registry) (base : Heap) (t : ObjectId) (b : Run) : Prop where
  new : base.size ≤ t
  lt : t < b.heap.size
  sized : ∀ e, r.get? (b.heap.cls t) = some e → b.heap.shape t = .record →
    (b.heap.body t).Sized e.layout.blockSize e.layout.slotCount

theorem Fresh.ahead {r : Registry} {t : ObjectId} {a' b' : Run} (hf : Fresh r base t b)
    (h : Ahead s base leaves a b a' b') : Fresh r base t b' := by
  refine ⟨hf.new, Nat.lt_of_lt_of_le hf.lt h.right.size_le, ?_⟩
  rw [h.right.cls_eq t hf.lt, h.right.shape_eq t hf.lt]
  exact fun e he hshape => (h.steady t hf.lt).sized _ _ (hf.sized e he hshape)

variable {nested nested' : Value → CloneM Value}

/-- A reply that is the same on both sides. -/
theorem meets_reply (h : Alongside s base leaves a b) {x y : CloneM α} {u : α} (hx : x a = .ok u a)
    (hy : y b = .ok u b) : s.Meets base leaves x y a b fun v _ _ => v = u :=
  Or.inr ((tandem_of_ok hx hy).mpr ⟨rfl, h.refl, rfl⟩)

theorem meets_copyOf (h : Alongside s base leaves a b) (o : ObjectId) :
    s.Meets base leaves (copyOf o) (copyOf o) a b fun found _ _ => found = a.copies.find? o := by
  have hr : copyOf o b = .ok (a.copies.find? o) b :=
    congrArg (EStateM.Result.ok · b) (congrArg (Copies.find? · o) h.copies)
  exact meets_reply h rfl hr

/-- A field by name is set on both sides, or both are told the same error. -/
theorem meets_setField (h : Alongside s base leaves a b) (ho : base.size ≤ target) (name : String)
    (v : Value) :
    s.Meets base leaves (s.direct.answer nested (.setField target name v))
      (s.checked.answer nested' (.setField target name v)) a b fun _ _ _ => True := by
  unfold answer
  refine meets_heap ?_
  have hboth : Both _ (s.registry.setField a.memory.heap target name v)
      (s.registry.setField b.memory.heap target name v) :=
    s.registry.setField_akin h.heap target name
  generalize s.registry.setField a.memory.heap target name v = x at hboth ⊢
  generalize s.registry.setField b.memory.heap target name v = y at hboth ⊢
  cases hboth with
  | error e => exact meets_pure h trivial
  | @ok w w' hw =>
    obtain ⟨w, x⟩ := w
    obtain ⟨w', y⟩ := w'
    obtain ⟨rfl, rfl, hxy, hsteady⟩ := hw
    refine Or.inr ⟨rfl, h.memory ?_ ?_ ?_ ?_, trivial⟩
    · exact h.heap.setBody _ hxy
    · exact Spared.of_touched (Or.inr ⟨x, rfl⟩) ho
    · exact Spared.of_touched (Or.inr ⟨y, rfl⟩) ho
    · exact Heap.steady_setBody fun _ => hsteady

/-- A request whose failure a routine passes on. -/
theorem meets_asking {x y : CloneM α} {R : α → Run → Run → Prop} {k : Except CloneError α → Routine}
    (hx : s.Meets base leaves x y a b R) (hf : ∀ e, k (.error e) = .finish (.error e))
    (hk : ∀ u a' b', Ahead s base leaves a b a' b' → R u a' b' →
      s.Meets base leaves (s.direct.runRoutine nested (k (.ok u)))
        (s.checked.runRoutine nested' (k (.ok u))) a' b' fun _ _ _ => True) :
    s.Meets base leaves (outcome x >>= fun reply => s.direct.runRoutine nested (k reply))
      (outcome y >>= fun reply => s.checked.runRoutine nested' (k reply)) a b
      fun _ _ _ => True := by
  have passes : ∀ (t : Setting) (n : Value → CloneM Value),
      PassesOn fun reply => t.runRoutine n (k reply) := by
    intro t n e run
    refine ⟨e, run, ?_, id⟩
    show t.runRoutine n (k (.error e)) run = _
    rw [hf]
    rfl
  exact hx.outcome (passes _ _) (passes _ _) hk

section Routines

variable (hr : s.registry.Sound) (hh : base.Orderly s.registry)
  (hn : s.Meeting base leaves nested nested') (h : Alongside s base leaves a b)
include h

/-- A bare object that is no array is the same on both sides. Where a class has no instances, both
sides say so. -/
theorem meets_allocate {cls : ClassId}
    (hc : ∀ e c, s.registry.get? cls = some e → e.decl.kind ≠ .array c) :
    s.Meets base leaves (s.direct.allocate cls) (s.checked.allocate cls) a b fun t _ b' =>
      Fresh s.registry base t b' := by
  refine (meets_plan h cls).bind ?_
  rintro p a₁ b₁ h₁ ⟨e, he, hd⟩
  have made : ∀ {body : Body}, (body.shape = .record →
      body.Sized e.layout.blockSize e.layout.slotCount) →
      ∀ t a₂ b₂, Ahead s base leaves a₁ b₁ a₂ b₂ →
        Anew base cls body t b₂ → Fresh s.registry base t b₂ := by
    intro body hb t a₂ b₂ _ hm
    refine ⟨hm.new, hm.lt, ?_⟩
    intro e' he' hshape
    rw [Heap.cls, hm.get_eq] at he'
    rw [Heap.shape, hm.get_eq] at hshape
    rw [Heap.body, hm.get_eq]
    cases he.symm.trans he'
    exact hb hshape
  cases hk : e.decl.kind with
  | concrete =>
    refine (meets_adds h₁.along (Backend.adds_bare (Or.inl rfl) he hd hk)
      (Backend.adds_bare (Or.inr rfl) he hd hk)).mono (made fun _ => ?_)
    simp [Body.bareRecord, Body.Sized, Bytes.zeros]
  | container kind =>
    exact (meets_adds h₁.along (Backend.adds_container (Or.inl rfl) he hd hk)
      (Backend.adds_container (Or.inr rfl) he hd hk)).mono (made fun hs => by cases hs)
  | array c => exact absurd hk (hc e c he)
  | abstract | interface | enum =>
    refine meets_of_fails ?_ ?_
    · simp only [ends_onMemory, Backend.allocate, hd.kind_eq, hk, ends_throw]
    · simp only [ends_onMemory, Backend.allocate, ends_allocating, hd.cls_eq, Allocator.allocate,
        ends_bind, ends_memory_read, decl_of_get? he, hk, ends_throw]

include hr hh hn

theorem meets_cloneFields (hs : source < base.size) (ht : Fresh s.registry base target b) :
    s.Meets base leaves (s.direct.cloneFields nested source target)
      (s.checked.cloneFields nested' source target) a b fun _ _ _ => True := by
  unfold cloneFields
  refine meets_heap ?_
  have hcls : a.memory.heap.cls source = b.memory.heap.cls source := (h.heap.cls_eq source).symm
  have hclst : a.memory.heap.cls target = b.memory.heap.cls target := (h.heap.cls_eq target).symm
  have hshape : a.memory.heap.shape source = b.memory.heap.shape source :=
    (h.heap.shape_eq source).symm
  have hshapet : a.memory.heap.shape target = b.memory.heap.shape target :=
    (h.heap.shape_eq target).symm
  rw [hcls, hclst, hshape, hshapet]
  refine (meets_plan h _).bind ?_
  rintro p a₁ b₁ h₁ ⟨e, he, hd⟩
  split
  · exact meets_fail _ _
  · rename_i hrecord
    split
    · exact meets_fail _ _
    · rename_i hrecordt
      split
      · exact meets_fail _ _
      · rename_i hsame
        have hrecord : base.shape source = .record :=
          (congrArg Object.shape (h.get_right hs)).symm.trans (Decidable.not_not.mp hrecord)
        obtain ⟨e', he', hadmits⟩ := hh.admits source hs
        have hclass : b.memory.heap.cls source = base.cls source := h.cls_right hs
        cases (hclass ▸ he).symm.trans he'
        obtain ⟨-, hsized, harrays⟩ := hadmits.record ((hh.header source hs).symm.trans hrecord)
        have ht₁ := ht.ahead h₁
        refine meets_copyFields hh hn h₁.along (hr.layouts _ _ he') ⟨hs, hsized, harrays, ht.new,
          ht₁.lt, ht₁.sized _ ?_ ?_⟩ hd
        · rw [h₁.right.cls_eq target ht.lt]
          exact Decidable.not_not.mp hsame ▸ he
        · rw [h₁.right.shape_eq target ht.lt]
          exact Decidable.not_not.mp hrecordt

theorem meets_runRoutine {own : List ObjectId} {r : Routine}
    (hg : r.GoesBy s.registry base leaves own) (hown : ∀ t ∈ own, Fresh s.registry base t b) :
    s.Meets base leaves (s.direct.runRoutine nested r) (s.checked.runRoutine nested' r) a b
      fun _ _ _ => True := by
  induction hg generalizing a b with
  | finish result => exact meets_ofExcept h result
  | @ask own q next hq hf _ ih =>
    have kept : ∀ {a' b'}, Ahead s base leaves a b a' b' → ∀ t ∈ own, Fresh s.registry base t b' :=
      fun h' t ht => (hown t ht).ahead h'
    show s.Meets base leaves
      (s.direct.answer nested q >>= fun reply => s.direct.runRoutine nested (next reply))
      (s.checked.answer nested' q >>= fun reply => s.checked.runRoutine nested' (next reply)) a b _
    cases q with
    | clone v =>
      exact meets_asking (hn a b v h hq) (fun e => hf (.error e) e rfl)
        fun u a' b' h' _ => ih (.ok u) trivial h'.along (kept h')
    | cloneFields source target =>
      exact meets_asking (meets_cloneFields hr hh hn h hq.1 (hown target hq.2))
        (fun e => hf (.error e) e rfl) fun u a' b' h' _ => ih (.ok u) trivial h'.along (kept h')
    | allocate cls =>
      refine meets_asking (meets_allocate h hq) (fun e => hf (.error e) e rfl)
        fun t a' b' h' ht => ih (.ok t) trivial h'.along ?_
      intro t' ht'
      rcases List.mem_cons.mp ht' with rfl | ht'
      · exact ht
      · exact kept h' t' ht'
    | plan cls =>
      exact meets_asking (meets_plan h cls) (fun e => hf (.error e) e rfl)
        fun p a' b' h' _ => ih (.ok p) trivial h'.along (kept h')
    | register o copy =>
      have hv : leaves → Field.takesArray base (.ref o) = true →
          Field.takesArray a.heap copy = true := by
        intro hleaves ha
        rw [hq hleaves] at ha
        cases ha
      exact (meets_register h o hv).bind fun _ a' b' h' _ => ih () trivial h'.along (kept h')
    | copyOf o =>
      exact (meets_copyOf h o).bind fun v a' b' h' _ => ih v trivial h'.along (kept h')
    | visited =>
      have hr : s.checked.answer nested' .visited b = .ok a.copies.size b :=
        congrArg (EStateM.Result.ok · b) (congrArg Copies.size h.copies)
      exact (meets_reply h rfl hr).bind fun n a' b' h' _ => ih n trivial h'.along (kept h')
    | backend => exact hq.elim
    | flags =>
      exact (meets_reply h rfl rfl).bind fun f a' b' h' _ => ih f trivial h'.along (kept h')
    | look o =>
      have hl : s.direct.answer nested (.look o) a = .ok (base.get o) a :=
        congrArg (EStateM.Result.ok · a) (h.get_left hq)
      have hr : s.checked.answer nested' (.look o) b = .ok (base.get o) b :=
        congrArg (EStateM.Result.ok · b) (h.get_right hq)
      exact (meets_reply h hl hr).bind fun x a' b' h' hx => ih x hx h'.along (kept h')
    | create cls body =>
      exact (meets_adds h (x := Memory.create cls body) (y := Memory.create cls body) ⟨rfl, rfl⟩
        ⟨rfl, rfl⟩).bind fun t a' b' h' _ => ih t trivial h'.along (kept h')
    | overwrite o body => exact hq.elim
    | getField o name =>
      have hl : s.direct.answer nested (.getField o name) a =
          .ok (s.registry.getField base o name) a :=
        congrArg (EStateM.Result.ok · a) (Registry.getField_congr (h.get_left hq))
      have hr : s.checked.answer nested' (.getField o name) b =
          .ok (s.registry.getField base o name) b :=
        congrArg (EStateM.Result.ok · b) (Registry.getField_congr (h.get_right hq))
      exact (meets_reply h hl hr).bind fun v a' b' h' hv => ih v hv h'.along (kept h')
    | setField o name v =>
      exact (meets_setField h (hown o hq).new name v).bind
        fun reply a' b' h' _ => ih reply trivial h'.along (kept h')
    | note n =>
      have hnoted : Ahead s base leaves a b { a with journal := a.journal ++ [n] }
          { b with journal := b.journal ++ [n] } :=
        h.learned ⟨rfl, rfl⟩ ⟨rfl, rfl⟩ h.plans h.answers h.resolved h.fit (h.keeps.of_resolved rfl)
      exact Meets.bind (R := fun _ _ _ => True) (Or.inr ⟨rfl, hnoted, trivial⟩)
        fun _ a' b' h' _ => ih () trivial h'.along (kept h')

theorem meets_implement (hs : source < base.size) {i : Implementor}
    (hi : i.KeepsTo (fun _ r => r.GoesBy s.registry base leaves []) s.scope) :
    s.Meets base leaves (s.direct.implement nested i source) (s.checked.implement nested' i source)
      a b fun _ _ _ => True := by
  cases i with
  | containers => exact (meets_duplicateContainer hh hn h hs).mono fun _ _ _ _ _ => trivial
  | script script => exact meets_runRoutine hr hh hn h (hi source) fun _ ht => by cases ht
  | routine f => exact meets_runRoutine hr hh hn h (hi source) fun _ ht => by cases ht

/-- A refusal is not put down to the implementor in whose work it happens. -/
theorem meets_delegate (hs : source < base.size) {i : Implementor}
    (hi : i.KeepsTo (fun _ r => r.GoesBy s.registry base leaves []) s.scope)
    (hnone : leaves → ¬ Field.takesArray base (.ref source) = true) :
    s.Meets base leaves (s.direct.delegate nested i source) (s.checked.delegate nested' i source)
      a b (StandsFor base leaves source) := by
  unfold delegate delegateBy
  refine (meets_implement hr hh hn h hs hi).outcome ?_ ?_ ?_
  · exact fun e run => ⟨_, run, rfl, fun he => he.blame _⟩
  · exact fun e run => ⟨_, run, rfl, fun he => he.blame _⟩
  · intro copy a₁ b₁ h₁ _
    refine (meets_copyOf h₁.along source).bind ?_
    intro found a₂ b₂ h₂ _
    have hstands : ∀ a' b', StandsFor base leaves source copy a' b' :=
      fun _ _ hleaves ha => absurd ha (hnone hleaves)
    cases found with
    | some _ => exact meets_pure h₂.along (hstands _ _)
    | none =>
      exact (meets_register h₂.along source fun hleaves ha => absurd ha (hnone hleaves)).bind
        fun _ a₃ b₃ h₃ _ => meets_pure h₃.along (hstands _ _)

end Routines

/-! ## The rules -/

/-- A setting and a heap on which two backends can be compared. Self-copy methods, where they are
used, go by the objects there were. If arrays are left alone, no implementor is registered for
them. -/
structure Parallel (s : Setting) (base : Heap) (leaves : Prop) : Prop where
  registry : s.registry.Built
  heap : base.Orderly s.registry
  overrides : leaves → s.policy.flags.useOverrides = true → ∀ cls i e c,
    s.policy.override? cls = some i → s.registry.get? cls = some e → e.decl.kind ≠ .array c
  methods : s.policy.flags.useSelfCopy = true → ∀ cls e method, s.registry.get? cls = some e →
    e.decl.selfCopy = some method → method.GoesBy base

section Rules

variable {e : Registry.Entry} {p : Plan}
  (hp : s.Parallel base leaves) (h : Alongside s base leaves a b) (hs : source < base.size)
include hp h hs

/-- No array copies itself. -/
theorem meets_copyItself (he : s.registry.get? (base.cls source) = some e) {method : SelfCopy}
    (hself : e.decl.selfCopy = some method) (hg : method.GoesBy base) :
    s.Meets base leaves (copyItself method source p) (copyItself method source p) a b
      (StandsFor base leaves source) := by
  have hnone : ¬ Field.takesArray base (.ref source) = true := by
    rw [hp.heap.takesArray_iff hs he]
    rintro ⟨c, hk⟩
    obtain ⟨_, hdecl⟩ := hp.registry.decl_of_array he hk
    rw [hdecl] at hself
    cases hself
  obtain ⟨result, made, hl, hr⟩ := hg.same source hs a.heap b.heap (fun _ => h.get_left)
    (fun _ => h.get_right) h.heap.size
  have h₁ : Ahead s base leaves a b { a with memory.heap := a.heap.addAll made }
      { b with memory.heap := b.heap.addAll made } :=
    h.memory (h.heap.addAll made) (Heap.spared_addAll made) (Heap.spared_addAll made)
      (.of_spared (Heap.spared_addAll made))
  refine Or.inr ?_
  unfold Tandem copyItself
  simp only [ends_bind, ends_heap, ends_modify, hl, hr]
  cases result with
  | ok copy =>
    simp only [ends_bind, ends_register, ends_pure]
    exact ⟨trivial, h₁.trans (h₁.along.registered source fun _ ha => absurd ha hnone),
      fun _ ha => absurd ha hnone⟩
  | error fault => cases fault <;> exact trivial

variable (hn : s.Meeting base leaves nested nested')
include hn

theorem meets_cloneByPlan (he : s.registry.get? (base.cls source) = some e)
    (hd : p.Describes (base.cls source) e) :
    s.Meets base leaves (s.direct.cloneByPlan nested source p)
      (s.checked.cloneByPlan nested' source p) a b (StandsFor base leaves source) := by
  unfold cloneByPlan cloneByPlanBy
  rw [show s.direct.planVerdict p = s.planVerdict p from rfl,
    show s.checked.planVerdict p = s.planVerdict p from rfl]
  cases hv : s.planVerdict p with
  | shared => exact meets_pure h fun _ ha => takesArray_mono h.left ha
  | named name =>
    have hname := cloneWith_of_planVerdict hv
    refine (meets_namedImplementor h p name).bind fun i a₁ b₁ h₁ hi => ?_
    refine meets_delegate hp.registry.sound hp.heap hn h₁.along hs hi fun _ => ?_
    rw [hp.heap.takesArray_iff hs he]
    rintro ⟨c, hk⟩
    obtain ⟨_, hdecl⟩ := hp.registry.decl_of_array he hk
    rw [hd.cloneWith_eq, hdecl] at hname
    cases hname
  | selfCopied method =>
    obtain ⟨hf, hself⟩ := selfCopy_of_planVerdict hv
    rw [hd.selfCopy_eq] at hself
    exact meets_copyItself hp h hs he hself (hp.methods hf _ e method he hself)
  | duplicated => exact meets_duplicate hp.registry.sound hp.heap hn h hs he hd

theorem meets_cloneNew :
    s.Meets base leaves (s.direct.cloneNew nested source) (s.checked.cloneNew nested' source) a b
      (StandsFor base leaves source) := by
  unfold cloneNew cloneNewBy
  refine meets_heap ?_
  rw [show a.memory.heap.cls source = _ from h.cls_left hs,
    show b.memory.heap.cls source = _ from h.cls_right hs]
  refine (meets_verdict h _ source).bind fun v a₁ b₁ h₁ hv => ?_
  cases v with
  | nulled => exact meets_pure h₁.along fun _ _ => rfl
  | shared => exact meets_pure h₁.along fun _ ha => takesArray_mono h₁.along.left ha
  | overridden i =>
    obtain ⟨hflag, hi⟩ := override_of_judge hv.symm
    obtain ⟨e, he, -⟩ := hp.heap.admits source hs
    refine meets_delegate hp.registry.sound hp.heap hn h₁.along hs
      (h₁.along.keeps.overrides _ i hi) fun hleaves => ?_
    rw [hp.heap.takesArray_iff hs he]
    rintro ⟨c, hk⟩
    exact hp.overrides hleaves hflag _ i e c hi he hk
  | «open» =>
    refine (meets_plan h₁.along _).bind ?_
    rintro p a₂ b₂ h₂ ⟨e, he, hd⟩
    exact meets_cloneByPlan hp h₂.along hs hn he hd

end Rules

/-- A value that refers to nothing is its own clone. -/
theorem meets_itself (h : Alongside s base leaves a b) {v : Value} (hv : v.object? = none) :
    s.Meets base leaves (pure v) (pure v) a b fun w a' _ =>
      leaves → Field.takesArray base v = true → Field.takesArray a'.heap w = true := by
  refine meets_pure h fun _ ha => ?_
  cases v with
  | ref o => cases hv
  | null => rfl
  | _ => cases ha

/-- Both clones of a value meet, however deep they go. -/
theorem meeting_cloneValue (hp : s.Parallel base leaves) (depth : Nat) :
    s.Meeting base leaves (cloneValue s.direct depth) (cloneValue s.checked depth) := by
  -- What stands for an object stands for it on both sides.
  have found : ∀ {a b a₁ b₁ : Run} {o : ObjectId} {copy : Value}, Alongside s base leaves a b →
      Ahead s base leaves a b a₁ b₁ → some copy = a.copies.find? o →
      s.Meets base leaves (pure copy) (pure copy) a₁ b₁ (StandsFor base leaves o) :=
    fun h h₁ hf => meets_pure h₁.along fun hleaves ha =>
      takesArray_mono h₁.left (h.arrays hleaves _ _ hf.symm ha)
  induction depth with
  | zero =>
    intro a b v h hv
    cases v with
    | ref o =>
      unfold cloneValue
      refine (meets_copyOf h o).bind fun copy a₁ b₁ h₁ hf => ?_
      cases copy with
      | some copy => exact found h h₁ hf
      | none => exact Or.inr trivial
    | _ =>
      unfold cloneValue
      exact meets_itself h rfl
  | succ depth ih =>
    intro a b v h hv
    cases v with
    | ref o =>
      unfold cloneValue
      refine (meets_copyOf h o).bind fun copy a₁ b₁ h₁ hf => ?_
      cases copy with
      | some copy => exact found h h₁ hf
      | none => exact meets_cloneNew hp h₁.along (hv o rfl) ih
    | _ =>
      unfold cloneValue
      exact meets_itself h rfl

/-- Two clones of a value that are begun together meet. -/
theorem meets_clone {run : Run} (hp : s.Parallel run.heap leaves)
    (hplans : Plans.Fit s.registry run.plans)
    (hk : s.KeepsTo (fun _ r => r.GoesBy s.registry run.heap leaves []) run) {v : Value}
    (hv : run.heap.Has v) :
    s.Meets run.heap leaves (s.direct.clone v) (s.checked.clone v) run run fun _ _ _ => True := by
  have h : Alongside s run.heap leaves { run with copies := {} } { run with copies := {} } := by
    refine ⟨rfl, rfl, rfl, rfl, .refl _, Spared.refl _, Spared.refl _, hplans,
      hk.of_resolved rfl, ?_⟩
    intro _ o w hw
    rw [Copies.find?_empty] at hw
    cases hw
  refine (meeting_cloneValue hp (depthAllowance run.heap) _ _ v h hv).imp ?_ ?_
  · rintro ⟨hl, e, b', hy, he⟩
    refine ⟨hl, e, b', ?_, he⟩
    unfold clone begin
    exact (bind_of_ok rfl).trans ((bind_of_ok rfl).trans hy)
  · intro hmeet
    unfold Tandem clone begin
    simp only [ends_bind, ends_modify, ends_heap]
    exact hmeet.mono (fun _ _ _ _ h => ⟨h.1, ⟨h.2.1.along, h.2.1.left, h.2.1.right, h.2.1.steady⟩,
      trivial⟩) fun _ _ _ _ h => h

/-- Whatever implementors answer, a clone by checked access leaves nothing but arrays in array
fields, however it ends. Where it goes well, so does a clone by direct access, with the same result
and with arrays in array fields. Direct access goes well in just one other case: where checked
access refuses a value for an array field. That does not happen if implementors leave arrays
alone. -/
theorem only_checked_access_keeps_array_fields {run : Run} {v : Value} (hs : s.checked.Checked)
    (ht : Tidy s.checked run) :
    Ends (s.checked.clone v) run (fun _ b => b.heap.HoldsArrays s.registry)
        (fun _ b => b.heap.HoldsArrays s.registry) ∧
      ∀ leaves, s.Parallel run.heap leaves →
        s.KeepsTo (fun _ r => r.GoesBy s.registry run.heap leaves []) run → run.heap.Has v →
          (∀ w b, s.checked.clone v run = .ok w b → ∃ a, s.direct.clone v run = .ok w a ∧
            a.heap.Akin b.heap ∧ a.heap.HoldsArrays s.registry) ∧
          ∀ w a, s.direct.clone v run = .ok w a → (∃ b, s.checked.clone v run = .ok w b) ∨
            ¬ leaves ∧ Refuses (s.checked.clone v) run := by
  have harrays : Ends (s.checked.clone v) run (fun _ b => b.heap.HoldsArrays s.registry)
      (fun _ b => b.heap.HoldsArrays s.registry) :=
    ends_mono (tidies_clone hs v ht) (fun _ _ h => h.1.tidy.heap) fun _ _ h => h.tidy.heap
  refine ⟨harrays, fun leaves hp hk hv => ?_⟩
  rcases meets_clone hp ht.plans hk hv with ⟨hl, hrefuses⟩ | hmeet
  · refine ⟨fun w b hb => ?_, fun _ _ _ => Or.inr ⟨hl, hrefuses⟩⟩
    obtain ⟨e, b', hy, -⟩ := hrefuses
    cases hb.symm.trans hy
  · rcases tandem_iff.mp hmeet with ⟨_, a, u, b, hx, hy, rfl, h, -⟩ | ⟨e, a, e', b, hx, hy, -⟩
    · refine ⟨fun w b' hb => ?_, fun w a' ha => Or.inl ⟨b, ?_⟩⟩
      · cases hb.symm.trans hy
        exact ⟨a, hx, h.along.heap, h.along.heap.holdsArrays ((ends_of_ok hb).mp harrays)⟩
      · cases ha.symm.trans hx
        exact hy
    · refine ⟨fun w b' hb => ?_, fun w a' ha => ?_⟩
      · cases hb.symm.trans hy
      · cases ha.symm.trans hx

/-! ## An answer that is no array -/

/-- A class with a field for numbers and one for a list. -/
def holderClass : ClassDecl where
  name := "Holder"
  superclass := some Registry.rootClass
  fields := [{ name := "numbers", type := .array 12 }, { name := "list", type := .object 6 }]

/-- A registry with both classes. -/
def holderRegistry : Registry := (Registry.initial.add numbersClass).add holderClass

/-- A cloner by which a text stands for every object of a class. -/
def wordySetting (cls : ClassId) : Setting where
  registry := holderRegistry
  backend := .fast
  policy := { overrides := [(cls, .routine fun _ => .finish (.ok (.text "none")))] }

/-- A holder, its numbers and its list. -/
def holderRun : Run where
  memory := { heap := ⟨#[Object.new 13 (.record [] [.ref 1, .ref 2]),
    Object.new 12 (.packed .i32 [7, 0, 0, 0]), Object.new 6 (.container (.list []))]⟩ }

theorem built_holder : holderRegistry.Built := by
  have hholder : (Registry.initial.add numbersClass).define holderClass =
      .ok ((Registry.initial.add numbersClass).size, holderRegistry) :=
    Registry.define_eq (by decide) rfl rfl
  exact .define built_numbers hholder

theorem fieldsOf_holder : holderRegistry.fieldsOf 13 =
    [⟨13, "Holder", "numbers", .array 12, .slot 0, {}⟩,
      ⟨13, "Holder", "list", .object 6, .slot 1, {}⟩] := by
  decide

theorem orderly_holder : holderRun.heap.Orderly holderRegistry := by
  refine .of_objects ?_ (by decide) (by decide)
  intro o ho
  match o, ho with
  | 0, _ =>
    have he := Registry.get?_add_new (Registry.initial.add numbersClass) holderClass
    refine ⟨_, he, ⟨rfl, rfl⟩, ?_⟩
    intro f hf index v hp ht hr
    have hf : f ∈ holderRegistry.fieldsOf 13 := (Registry.fieldsOf_of_get? he).symm ▸ hf
    rw [fieldsOf_holder] at hf
    simp only [List.mem_cons, List.not_mem_nil, or_false] at hf
    rcases hf with rfl | rfl
    · cases hp
      cases hr
      decide
    · cases ht
  | 1, _ =>
    have he := Registry.extends_add (Registry.initial.add numbersClass) holderClass 12 _
      (Registry.get?_add_new Registry.initial numbersClass)
    exact ⟨_, he, rfl, ⟨1, rfl⟩⟩
  | 2, _ => exact Registry.Entry.Admits.exists_container built_holder.sound (.list [])

theorem keepsTo_wordy (cls : ClassId) {rule : ObjectId → Routine → Prop}
    (hr : ∀ source, rule source (.finish (.ok (.text "none")))) :
    (wordySetting cls).KeepsTo rule holderRun := by
  refine ⟨?_, ?_, ?_⟩
  · intro c i hi
    obtain ⟨-, rfl⟩ := Prod.mk.inj (List.mem_singleton.mp (Assoc.mem_of_find? hi))
    exact hr
  · intro name maker hm
    rw [Catalog.initial_maker hm]
    trivial
  · intro c i hi
    cases hi

/-- The object that a clone makes first. -/
def firstCopy (_ : Value) (run : Run) : Object := run.heap.get 3

/-- Lists are no arrays. -/
theorem parallel_wordy : (wordySetting 6).Parallel holderRun.heap True where
  registry := built_holder
  heap := orderly_holder
  overrides := by
    intro _ _ c i e component hi he hk
    obtain ⟨rfl, -⟩ := Prod.mk.inj (List.mem_singleton.mp (Assoc.mem_of_find? hi))
    obtain ⟨e', he', hlist⟩ := built_holder.sound.containers .arrayList
    cases he.symm.trans he'
    rw [hlist] at hk
    cases hk
  methods := fun h => by cases h

/-- With a text for the list both clones go well. -/
theorem a_list_can_become_a_text : ∃ w a b,
    (wordySetting 6).direct.clone (.ref 0) holderRun = .ok w a ∧
      (wordySetting 6).checked.clone (.ref 0) holderRun = .ok w b ∧
        b.heap.HoldsArrays holderRegistry := by
  have hchecked : (wordySetting 6).checked.Checked := ⟨rfl, built_holder, fun h => by cases h⟩
  have hwrites : (wordySetting 6).KeepsTo (fun _ r => r.WritesByField holderRegistry) holderRun :=
    keepsTo_wordy 6 fun _ => .finish _
  have htidy : Tidy (wordySetting 6).checked holderRun :=
    ⟨orderly_holder.holdsArrays, Plans.fit_nil _, hwrites.over _⟩
  have hhas : holderRun.heap.Has (.ref 0) := by
    intro o ho
    cases ho
    decide
  obtain ⟨harrays, hboth⟩ := only_checked_access_keeps_array_fields (v := .ref 0) hchecked htidy
  obtain ⟨hsame, hmore⟩ := hboth True parallel_wordy (keepsTo_wordy 6 fun _ => .finish _) hhas
  have hcopy : peek? firstCopy ((wordySetting 6).direct.clone (.ref 0)) holderRun =
      some (Object.new 13 (.record [] [.ref 4, .text "none"])) := by
    decide +kernel
  obtain ⟨w, a, ha, -⟩ := exists_of_peek? hcopy
  rcases hmore w a ha with ⟨b, hb⟩ | ⟨hno, -⟩
  · exact ⟨w, a, b, ha, hb, (ends_of_ok hb).mp harrays⟩
  · exact absurd trivial hno

/-- A text for the numbers is refused by checked access. By direct access the clone goes well, and
the text is in the field for arrays. -/
theorem direct_access_lets_anything_pass :
    holderRun.heap.Orderly holderRegistry ∧
      (∃ w a, (wordySetting 12).direct.clone (.ref 0) holderRun = .ok w a ∧
        ¬ a.heap.HoldsArrays holderRegistry) ∧
      ∃ e b, (wordySetting 12).checked.clone (.ref 0) holderRun = .error (.failed e) b := by
  refine ⟨orderly_holder, ?_, ?_⟩
  · have hcopy : peek? firstCopy ((wordySetting 12).direct.clone (.ref 0)) holderRun =
        some (Object.new 13 (.record [] [.text "none", .ref 4])) := by
      decide +kernel
    obtain ⟨w, a, ha, hget⟩ := exists_of_peek? hcopy
    refine ⟨w, a, ha, fun hholds => ?_⟩
    have hcls : a.heap.cls 3 = 13 := congrArg Object.cls hget
    have hbody : a.heap.body 3 = .record [] [.text "none", .ref 4] := congrArg Object.body hget
    have he : holderRegistry.get? 13 = some ⟨holderClass, _⟩ :=
      Registry.get?_add_new (Registry.initial.add numbersClass) holderClass
    have hf : (⟨13, "Holder", "numbers", .array 12, .slot 0, {}⟩ : Field) ∈
        holderRegistry.fieldsOf 13 := by
      rw [fieldsOf_holder]
      exact List.mem_cons_self
    rw [Registry.fieldsOf_of_get? he] at hf
    have htakes := hholds 3 _ (hcls.symm ▸ he) _ hf 0 (.text "none") rfl rfl (by rw [hbody]; rfl)
    cases htakes
  · have herror : errorOf? ((wordySetting 12).checked.clone (.ref 0)) holderRun =
        some (.access "Holder" "numbers" 3
          (.typeMismatch "Holder" "numbers" .array (.value .text))) := by
      decide +kernel
    exact ⟨_, errorOf?_eq_some.mp herror⟩

end Setting

end DeepCopy
