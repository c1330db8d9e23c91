-- Plain data, and two ways to clone it. Where neither the policy nor a class asks
-- for more than a duplicate, cloning by all rules and cloning by none go step by
-- step the same way: the same objects are made, in the same order, with the same
-- bodies, and what goes wrong goes wrong in both.
import DeepCopy.Proofs.ArrayStandIns
import DeepCopy.Proofs.Contents
import DeepCopy.Proofs.Placed
import DeepCopy.Proofs.RegistrationRules
import DeepCopy.Proofs.SameSteps

namespace DeepCopy

open CloneM

/-! ## Plain data -/

namespace Setting

/-- An object that a clone of `root` comes to, as long as it duplicates what it comes to. -/
def Reaches (s : Setting) (h : Heap) (root : Value) (o : ObjectId) : Prop :=
  s.Duplicates h (fun _ => .copied) root o

/-- Of an object nothing but a duplicate is asked: the policy neither nulls nor shares it, and has
no implementor for its class but the one that rebuilds containers, for a class of containers; nor
does the plan of its class share it, name an implementor, or have a self-copy method that is
used. -/
structure Ordinary (s : Setting) (run : Run) (o : ObjectId) : Prop where
  notNulled : s.policy.nullsClass (run.heap.cls o) = false
  notShared : s.classShared run (run.heap.cls o) = false
  notSharedItself : s.policy.sharesObject o = false
  override : ∀ i, s.policy.override? (run.heap.cls o) = some i → i = .containers ∧
    ∃ e kind, s.registry.get? (run.heap.cls o) = some e ∧ e.decl.kind = .container kind
  plan : ∀ p, s.planOf run (run.heap.cls o) = .ok p → s.sharesPlan p = false ∧
    p.cloneWith = none ∧ (s.policy.flags.useSelfCopy = true → p.selfCopy = none)

/-- All objects that a clone of `root` comes to are ordinary. -/
structure PlainData (s : Setting) (run : Run) (root : Value) : Prop where
  plans : Plans.Fit s.registry run.plans
  heap : run.heap.Orderly s.registry
  ordinary : ∀ o, s.Reaches run.heap root o → s.Ordinary run o
  root : run.heap.Has root

/-- A value that refers to an object only if a clone of `root` comes to the object. -/
def Seen (s : Setting) (h : Heap) (root v : Value) : Prop := ∀ o, v = .ref o → s.Reaches h root o

variable {s : Setting} {run base : Run} {root : Value} {o : ObjectId}

theorem seen_root (s : Setting) (h : Heap) (root : Value) : s.Seen h root root :=
  fun _ ho => .root ho rfl

theorem Reaches.seen {h : Heap} (ho : s.Reaches h root o) {v : Value} (hv : s.Follows h o v) :
    s.Seen h root v := by
  rintro o' rfl
  exact .follow ho hv rfl

theorem PlainData.lt_size (hp : s.PlainData base root) (ho : s.Reaches base.heap root o) :
    o < base.heap.size := ho.reaches.lt_size hp.heap.closed hp.root

/-- An object of which nothing is asked is left to the plan of its class, or it is a container and
left to the implementor of containers. -/
theorem Ordinary.judge_eq (h : s.Ordinary base o)
    (hs : ∀ cls, s.classShared run cls = s.classShared base cls) :
    s.judge run (base.heap.cls o) o = .open ∨
      s.judge run (base.heap.cls o) o = .overridden .containers ∧
        ∃ e kind, s.registry.get? (base.heap.cls o) = some e ∧ e.decl.kind = .container kind := by
  rw [judge_congr hs]
  unfold judge
  simp only [h.notNulled, h.notShared, h.notSharedItself, Bool.or_self, Bool.false_eq_true,
    if_false]
  split
  · exact Or.inl rfl
  · split
    · cases hi : s.policy.override? (base.heap.cls o) with
      | none => exact Or.inl rfl
      | some i =>
        obtain ⟨rfl, hkind⟩ := h.override i hi
        exact Or.inr ⟨rfl, hkind⟩
    · exact Or.inl rfl

theorem Ordinary.planVerdict_eq (h : s.Ordinary base o) {p : Plan}
    (hp : s.planOf base (base.heap.cls o) = .ok p) : s.planVerdict p = .duplicated := by
  obtain ⟨hshared, hnamed, hself⟩ := h.plan p hp
  unfold planVerdict
  split
  · rfl
  · rw [hshared, hnamed]
    cases hm : p.selfCopy with
    | none => rfl
    | some method =>
      simp only [Bool.false_eq_true, if_false]
      split
      · rename_i hu
        rw [hself hu] at hm
        cases hm
      · rfl

end Setting

/-! ## Parts of the traversal -/

/-- Two settings by which an object is duplicated in the same way. The second one is minimal. -/
structure Setting.Counterpart (s t : Setting) : Prop where
  mode : t.mode = .minimal
  registry : t.registry = s.registry
  backend : t.backend = s.backend
  resets : ∀ marks, t.policy.resets marks = s.policy.resets marks

/-- What the clones of a nested value do side by side. -/
def Setting.Accompanies (s t : Setting) (base base' : Run) (root : Value)
    (nested nested' : Value → CloneM Value) : Prop :=
  ∀ v a b, s.Seen base.heap root v → Level s t base base' a b →
    InStep s t base base' (fun _ => True) (nested v) (nested' v) a b

namespace Setting

variable {s t : Setting} {base base' a b : Run} {root : Value}
  {nested nested' : Value → CloneM Value}

section Contents

variable (hn : s.Accompanies t base base' root nested nested')
include hn

theorem Accompanies.abides {v : Value} (hv : s.Seen base.heap root v) :
    Abides (Level s t base base') (fun e e' a b => e' = e ∧ Even a b) (nested v) (nested' v) :=
  fun a b hl => (hn v a b hv hl).abides

theorem inStep_cloneContents (hl : Level s t base base' a b) {c : Container}
    (hc : ∀ v ∈ c.values, s.Seen base.heap root v) :
    InStep s t base base' (fun _ => True) (cloneContents nested c) (cloneContents nested' c)
      a b :=
  .of_abides hl (sequential_abides.cloneContents (fun i => cond i nested' nested)
    fun v hv => hn.abides (hc v hv))

/-- Elements are written alike into a new array. -/
theorem inStep_cloneElements (hc : s.Counterpart t) (hl : Level s t base base' a b)
    {target : ObjectId} (ht : base.heap.size ≤ target) {vs : List Value}
    (hvs : ∀ v ∈ vs, s.Seen base.heap root v) :
    InStep s t base base' (fun _ => True) (s.cloneElements nested target 0 vs)
      (t.cloneElements nested' target 0 vs) a b := by
  refine .of_abides hl (sequential_abides.cloneElements (fun i => cond i nested' nested)
    (fun i => cond i t s) (fun v hv => hn.abides (hvs v hv)) fun k _ w a₁ b₁ hl₁ => ?_)
  show Tandem (onMemory (s.backend.writeElement target k w))
    (onMemory (t.backend.writeElement target k w)) a₁ b₁ _ _
  rw [hc.backend]
  exact (inStep_touching hl₁ ht (s.backend.ends_writeElement target k w)).abides

end Contents

section Fields

variable {source target : ObjectId} {e : Registry.Entry} (hc : s.Counterpart t)
  (hn : s.Accompanies t base base' root nested nested') (ho : s.Reaches base.heap root source)
  (hs : source < base.heap.size) (ht : base.heap.size ≤ target)
  (he : s.registry.get? (base.heap.cls source) = some e)
include hc hn ho hs ht he

theorem inStep_copyField (hl : Level s t base base' a b) (bulk : Bool) {f : PlannedField}
    (hf : f.toField ∈ e.layout.fields) :
    InStep s t base base' (fun _ => True) (s.copyField nested source target bulk f)
      (t.copyField nested' source target bulk f) a b := by
  unfold copyField
  rw [hc.resets, hc.backend]
  split
  · exact inStep_touching hl ht (s.backend.ends_resetField f target)
  · rename_i hr
    split
    · split
      · exact inStep_pure hl trivial
      · exact inStep_touching hl ht (s.backend.ends_copyPrimitive f source target)
    · obtain ⟨r, hr'⟩ := s.backend.exists_over
      have hread : InStep s t base base' (s.Seen base.heap root)
          (onMemory (s.backend.readField f source)) (onMemory (s.backend.readField f source))
          a b := by
        refine inStep_onMemory hl (Backend.yields_readField hr') ?_
        rintro v _ ⟨hv, rfl⟩
        rw [hl.body_eq hs] at hv
        exact ⟨ho.seen (.field he hf (Bool.eq_false_iff.mpr hr) hv), hl.heap⟩
      refine hread.bind fun v a₁ b₁ hv hl₁ => (hn v a₁ b₁ hv hl₁).bind fun copy a₂ b₂ _ hl₂ => ?_
      exact inStep_touching hl₂ ht (s.backend.ends_copyField f source target _)

theorem inStep_copyFields (hl : Level s t base base' a b) {p : Plan}
    (hp : p.Describes (base.heap.cls source) e) :
    InStep s t base base' (fun _ => True) (s.copyFields nested source target p)
      (t.copyFields nested' source target p) a b := by
  unfold copyFields
  rw [hc.backend]
  refine (inStep_touching hl ht (s.backend.ends_copyBlock source target)).bind
    fun bulk a₁ b₁ _ hl₁ => ?_
  exact .of_abides hl₁ (sequential_abides.copyFieldsFrom (fun i => cond i nested' nested)
    (fun i => cond i t s) (fun _ => bulk) fun f hf a₂ b₂ hl₂ =>
      (inStep_copyField hc hn ho hs ht he hl₂ bulk (hp.mem_layout hf)).abides)

end Fields

/-! ## Duplicates -/

/-- Both find a plan of a registered class. The two plans may classify it differently. -/
theorem tandem_plan {e : Registry.Entry} (hc : s.Counterpart t)
    (hf : Plans.Fit s.registry base.plans) (hf' : Plans.Fit s.registry base'.plans)
    (hl : Level s t base base' a b) {cls : ClassId} (he : s.registry.get? cls = some e)
    {E : Stop → Stop → Run → Run → Prop} :
    Tandem (s.plan cls) (t.plan cls) a b (fun p p' a' b' => p.Describes cls e ∧
      s.planOf base cls = .ok p ∧ (∃ classification, p' = { p with classification }) ∧
        Level s t base base' a' b') E := by
  have he' : t.registry.get? cls = some e := hc.registry.symm ▸ he
  obtain ⟨p, hpa⟩ := exists_planOf he a
  obtain ⟨p', hpb⟩ := exists_planOf he' b
  have hp := (hl.planOf cls).symm.trans hpa
  have hp' := (hl.planOf' cls).symm.trans hpb
  obtain ⟨e₁, he₁, hd⟩ := describes_of_planOf hf hp
  obtain ⟨e₂, he₂, hd'⟩ := describes_of_planOf (hc.registry.symm ▸ hf') hp'
  cases he.symm.trans he₁
  cases he'.symm.trans he₂
  refine tandem_of_succeeds (succeeds_plan_of_planOf hpa) (succeeds_plan_of_planOf hpb) ?_
  rintro _ _ _ _ ⟨rfl, plans, hg, rfl⟩ ⟨rfl, plans', hg', rfl⟩
  refine ⟨hd, hp, ⟨_, hd.eq_of hd'⟩, ⟨hl.memory, hl.copies⟩, hl.heap, hl.classShared, ?_, ?_⟩
  · exact fun c => (Plans.get_get hg c).trans (hl.planOf c)
  · exact fun c => (Plans.get_get hg' c).trans (hl.planOf' c)

theorem slotItems_eq (hc : s.Counterpart t) (source : ObjectId) :
    t.slotItems source = s.slotItems source := by
  unfold slotItems
  rw [hc.registry]

section Duplicates

variable {source : ObjectId} (hc : s.Counterpart t) (hp : s.PlainData base root)
  (hf' : Plans.Fit s.registry base'.plans) (hn : s.Accompanies t base base' root nested nested')
  (ho : s.Reaches base.heap root source) (hl : Level s t base base' a b)
include hc hp hn ho hl

omit hp hn ho in
theorem inStep_duplicatePacked :
    InStep s t base base' (fun _ => True) (s.duplicatePacked source) (t.duplicatePacked source)
      a b := by
  unfold duplicatePacked duplicatePackedBy
  rw [hc.backend]
  refine (inStep_making hl (E := fun _ _ => True) ?_).bind fun target a₁ b₁ _ hl₁ =>
    (inStep_register hl₁ source _).bind fun _ a₂ b₂ _ hl₂ => inStep_pure hl₂ trivial
  refine ends_mono (s.backend.ends_duplicatePacked source) ?_ fun _ _ _ => trivial
  rintro o m ⟨ho, body, shape, hm⟩
  exact ⟨ho, _, hm⟩

theorem inStep_duplicateSlots :
    InStep s t base base' (fun _ => True) (s.duplicateSlots nested source)
      (t.duplicateSlots nested' source) a b := by
  have hbody := hl.body_eq (hp.lt_size ho)
  have hitems : InStep s t base base' (∀ v ∈ ·, s.Seen base.heap root v) (s.slotItems source)
      (s.slotItems source) a b := by
    refine inStep_heap_bind hl ?_
    split
    · rename_i items hb
      exact inStep_pure hl fun v hv => ho.seen (.element (hbody.symm.trans hb) hv)
    · exact inStep_throw hl _
  unfold duplicateSlots duplicateSlotsBy
  rw [slotItems_eq hc, hc.backend]
  refine hitems.bind fun items a₁ b₁ hitems hl₁ => inStep_heap_bind hl₁ ?_
  refine (inStep_making hl₁ (E := fun _ _ => True) ?_).bind fun target a₂ b₂ ht hl₂ => ?_
  · refine ends_mono (s.backend.ends_allocateSlots _ _) ?_ fun _ _ _ => trivial
    rintro o m ⟨ho, body, hm⟩
    exact ⟨ho, _, hm⟩
  · refine (inStep_register hl₂ source _).bind fun _ a₃ b₃ _ hl₃ => ?_
    refine (inStep_cloneElements hn hc hl₃ ht hitems).bind fun _ a₄ b₄ _ hl₄ => ?_
    exact inStep_pure hl₄ trivial

omit hp hn ho in
/-- A bare object is made for a plan, whatever the plan says of sharing. -/
theorem inStep_allocate (p : Plan) :
    InStep s t base base' (base.heap.size ≤ ·) (onMemory (s.backend.allocate p))
      (onMemory (t.backend.allocate p)) a b := by
  rw [hc.backend]
  refine inStep_making hl (E := fun _ _ => True) ?_
  refine ends_mono (s.backend.ends_allocate p) ?_ fun _ _ _ => trivial
  rintro o m ⟨ho, body, hm⟩
  exact ⟨ho, _, hm⟩

theorem inStep_duplicateRecord {e : Registry.Entry} {p : Plan}
    (he : s.registry.get? (base.heap.cls source) = some e)
    (hd : p.Describes (base.heap.cls source) e) :
    InStep s t base base' (fun _ => True) (s.duplicateRecord nested source p)
      (t.duplicateRecord nested' source p) a b := by
  refine (inStep_allocate hc hl p).bind fun target a₁ b₁ ht hl₁ => ?_
  refine (inStep_register hl₁ source _).bind fun _ a₂ b₂ _ hl₂ => ?_
  refine (inStep_copyFields hc hn ho (hp.lt_size ho) ht he hl₂ hd).bind fun _ a₃ b₃ _ hl₃ => ?_
  exact inStep_pure hl₃ trivial

include hf'

theorem inStep_duplicateContainer :
    InStep s t base base' (fun _ => True) (s.duplicateContainer nested source)
      (t.duplicateContainer nested' source) a b := by
  have hs := hp.lt_size ho
  obtain ⟨e, he, -⟩ := hp.heap.admits source hs
  have hcls : a.heap.cls source = base.heap.cls source := hl.heap.cls_eq source hs
  refine inStep_heap_bind hl (Tandem.bind (tandem_plan hc hp.plans hf' hl (hcls ▸ he)) ?_)
  rintro p _ a₁ b₁ ⟨hd, -, ⟨classification, rfl⟩, hl₁⟩
  refine inStep_heap_bind hl₁ ?_
  have hbody := hl₁.body_eq hs
  cases hcon : a₁.heap.contents? source with
  | none => exact inStep_throw hl₁ _
  | some contents =>
    have hb := hbody.symm.trans (Heap.body_of_contents? hcon)
    refine (inStep_allocate hc hl₁ p).bind fun target a₂ b₂ ht hl₂ => ?_
    refine (inStep_register hl₂ source _).bind fun _ a₃ b₃ _ hl₃ => ?_
    refine (inStep_cloneContents hn hl₃ fun v hv => ho.seen (.entry hb hv)).bind
      fun copies a₄ b₄ _ hl₄ => ?_
    refine (inStep_touching hl₄ ht (Backend.ends_setContents p target copies)).bind
      fun _ a₅ b₅ _ hl₅ => ?_
    exact inStep_pure hl₅ trivial

theorem inStep_duplicate {e : Registry.Entry} {p : Plan}
    (he : s.registry.get? (base.heap.cls source) = some e)
    (hd : p.Describes (base.heap.cls source) e) :
    InStep s t base base' (fun _ => True) (s.duplicate nested source p)
      (t.duplicate nested' source p) a b := by
  refine inStep_heap_bind hl ?_
  split
  · exact inStep_duplicatePacked hc hl
  · exact inStep_duplicateSlots hc hp hn ho hl
  · exact inStep_duplicateContainer hc hp hf' hn ho hl
  · exact inStep_duplicateRecord hc hp hn ho hl he hd

end Duplicates

/-! ## An object that has no copy yet -/

section New

variable {source : ObjectId} (hc : s.Counterpart t) (hp : s.PlainData base root)
  (hf' : Plans.Fit s.registry base'.plans) (hn : s.Accompanies t base base' root nested nested')
  (ho : s.Reaches base.heap root source) (hl : Level s t base base' a b)
  (hstands : ∀ v, Preserves (fun run => (run.copies.find? source).isSome) (nested v))
  (hplaced : ∀ v, Places (nested' v))
include hc hp hf' hn ho hl hstands hplaced

/-- What the implementor of containers is asked to do, it does just as a container is duplicated. -/
theorem inStep_delegate :
    InStep s t base base' (fun _ => True) (s.delegate nested .containers source)
      (t.duplicateContainer nested' source) a b := by
  have hboth := inStep_duplicateContainer hc hp hf' hn ho hl
  have hends : Ends (s.implement nested .containers source) a
      (fun _ run' => (run'.copies.find? source).isSome) fun e _ => e.Named := by
    have h := hboth.and_ends (leads_duplicateContainer_standing hstands a trivial)
      (places_duplicateContainer hplaced source b)
    refine h.ends_left (fun _ _ _ _ hq => hq.2.1) ?_
    rintro e _ _ _ ⟨⟨rfl, -⟩, -, he⟩
    exact he.named
  exact hboth.congr_left (delegate_eq_implement hends)

theorem inStep_cloneNew :
    InStep s t base base' (fun _ => True) (s.cloneNew nested source) (t.cloneNew nested' source)
      a b := by
  have hs := hp.lt_size ho
  obtain ⟨e, he, hadm⟩ := hp.heap.admits source hs
  have hcls : a.heap.cls source = base.heap.cls source := hl.heap.cls_eq source hs
  rw [cloneNew_minimal hc.mode]
  refine inStep_heap_bind hl ?_
  rw [hcls]
  refine Tandem.bind_left (ends_verdict (Q := fun v run' => v = s.judge a (base.heap.cls source)
    source ∧ run' = s.asked a (base.heap.cls source)) _ _ |>.mpr ⟨rfl, rfl⟩) ?_
  rintro _ _ ⟨rfl, rfl⟩
  have hl₁ := hl.asked (base.heap.cls source)
  have hord := hp.ordinary source ho
  rcases hord.judge_eq hl.classShared with hj | ⟨hj, e', kind, he', hk⟩
  · rw [hj]
    refine Tandem.bind (tandem_plan hc hp.plans hf' hl₁ he) ?_
    rintro p _ a₂ b₂ ⟨hd, hplan, ⟨classification, rfl⟩, hl₂⟩
    unfold cloneByPlanBy
    simp only [hord.planVerdict_eq hplan]
    exact inStep_duplicate hc hp hf' hn ho hl₂ he hd
  · rw [hj]
    cases he.symm.trans he'
    obtain ⟨c, hb⟩ := hadm.contents hk
    have hshape : base.heap.shape source = .container := by
      rw [hp.heap.header source hs, hb]
      rfl
    -- The second side looks at the plan once more before it finds that it has a container.
    obtain ⟨p, hpb⟩ := exists_planOf (s := t) (hc.registry.symm ▸ he) b
    refine Tandem.bind_right (succeeds_plan_of_planOf hpb) ?_
    rintro _ _ ⟨rfl, plans, hg, rfl⟩
    have hl₂ : Level s t base base' (s.asked a (base.heap.cls source)) { b with plans } :=
      ⟨⟨hl₁.memory, hl₁.copies⟩, hl₁.heap, hl₁.classShared, hl₁.planOf,
        fun c => (Plans.get_get hg c).trans (hl₁.planOf' c)⟩
    have hshape' : b.memory.heap.shape source = .container := by
      rw [hl.memory]
      exact (hl.heap.shape_eq source hs).trans hshape
    unfold duplicate duplicateBy
    rw [tandem_heap_right]
    simp only [hshape']
    exact inStep_delegate hc hp hf' hn ho hl₂ hstands hplaced

end New

/-! ## Whole clones -/

theorem accompanies_cloneValue (hc : s.Counterpart t) (hp : s.PlainData base root)
    (hf' : Plans.Fit s.registry base'.plans) (depth : Nat) :
    s.Accompanies t base base' root (cloneValue s depth) (cloneValue t depth) := by
  induction depth with
  | zero =>
    intro v a b hv hl
    cases v with
    | ref o =>
      unfold cloneValue
      refine inStep_copyOf_bind hl ?_
      split
      · exact inStep_pure hl trivial
      · exact inStep_throw hl _
    | _ =>
      unfold cloneValue
      exact inStep_pure hl trivial
  | succ depth ih =>
    intro v a b hv hl
    cases v with
    | ref o =>
      unfold cloneValue
      refine inStep_copyOf_bind hl ?_
      split
      · exact inStep_pure hl trivial
      · exact inStep_cloneNew hc hp hf' ih (hv o rfl) hl (preserves_standing s o depth)
          (places_cloneValue hc.mode depth)
    | _ =>
      unfold cloneValue
      exact inStep_pure hl trivial

/-- From the same objects two clones begin level. -/
theorem level_begun (hm : base'.memory = base.memory) :
    Level s t base base' { base with copies := {} } { base' with copies := {} } :=
  ⟨⟨hm, rfl⟩, Spared.refl _, fun _ => rfl, fun _ => rfl, fun _ => rfl⟩

/-- A clone of plain data by all rules ends as one in minimal mode does. -/
theorem endAlike_minimal (hc : s.Counterpart t) (hp : s.PlainData base root)
    (hf' : Plans.Fit s.registry base'.plans) (hm : base'.memory = base.memory) :
    EndAlike Even (s.clone root) (t.clone root) base base' := by
  have hheap : base'.heap = base.heap := congrArg Memory.heap hm
  have hbegin : Tandem begin begin base base' (fun _ _ a b => a = { base with copies := {} } ∧
      b = { base' with copies := {} }) fun e e' a' b' => e' = e ∧ Even a' b' := ⟨rfl, rfl⟩
  unfold EndAlike Setting.clone
  refine hbegin.bind ?_
  rintro _ _ _ _ ⟨rfl, rfl⟩
  rw [tandem_heap]
  show Tandem (cloneValue s (depthAllowance base.heap) root)
    (cloneValue t (depthAllowance base'.heap) root) _ _ _ _
  rw [hheap]
  have hboth := accompanies_cloneValue hc hp hf' (depthAllowance base.heap) root _ _
    (seen_root s base.heap root) (level_begun hm)
  exact Tandem.mono hboth (fun _ _ _ _ h => ⟨h.1, h.2.2.toEven⟩) fun _ _ _ _ h => h

end Setting

end DeepCopy
