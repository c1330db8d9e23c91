-- The two backends clone alike. From one run, both clones end well and have made
-- the same objects, or both report errors that say the same. The proof follows
-- both traversals at once; an object that has no copy gets one before anything
-- it refers to is cloned, so neither goes too deep.
import DeepCopy.Proofs.ArrayClasses
import DeepCopy.Proofs.PairedDuplicates
import DeepCopy.Proofs.Untouched

namespace DeepCopy

namespace Setting

open CloneM

section Rules

variable {s : Setting} {base a b : Run} {busy : ObjectId → Prop} {depth : Nat}
  {source : ObjectId} {nested nested' : Value → CloneM Value} {p : Plan}
  (hc : s.Comparable base) (hh : base.heap.Headed) (hn : s.Pairs base depth nested nested')
  (h : Abreast s base busy a b) (hs : source < base.heap.size)
  (new : a.copies.find? source = none) (hd : a.copies.missing base.heap.size ≤ depth + 1)
include hc hh h hs new

/-- An object that copies itself does so alike on both sides. No array does. -/
theorem matches_copyItself {e : Registry.Entry}
    (he : s.registry.get? (base.heap.cls source) = some e) {method : SelfCopy}
    (hself : e.decl.selfCopy = some method) (hg : method.GoesBy base.heap) :
    Matches (copyItself method source p) (copyItself method source p) a b
      (SameAnswer s base busy (.ref source)) := by
  obtain ⟨e', he', haccepts⟩ := hc.heap.accepts source hs
  cases he.symm.trans he'
  have harray : ¬ Field.takesArray base.heap (.ref source) = true := by
    intro ha
    simp only [Field.takesArray, Heap.isArrayRef, hh source hs] at ha
    have hkind : ∃ c, e.decl.kind = .array c := by
      cases hx : base.heap.body source with
      | packed kind bytes => exact ⟨_, (hx ▸ haccepts).1⟩
      | slots items =>
        rw [hx] at haccepts
        obtain ⟨c, hk⟩ := haccepts
        exact ⟨_, hk⟩
      | _ =>
        rw [hx] at ha
        cases ha
    obtain ⟨c, hk⟩ := hkind
    obtain ⟨name, hdecl⟩ := hc.registry.decl_of_array he hk
    rw [hdecl] at hself
    cases hself
  obtain ⟨result, made, hl, hr⟩ := hg.same source hs a.heap b.heap (fun _ => h.get_left)
    (fun _ => h.get_right) h.size
  have h₁ : Abreast s base busy { a with memory.heap := a.heap.addAll made }
      { b with memory.heap := b.heap.addAll made } := h.addedAll made rfl rfl
  unfold Matches Tandem copyItself
  simp only [ends_bind, ends_heap, ends_modify, hl, hr]
  cases result with
  | ok copy =>
    simp only [ends_bind, ends_register, ends_pure]
    exact ⟨rfl, h₁.register new fun ha => absurd ha harray, fun ha => absurd ha harray⟩
  | error fault =>
    cases fault with
    | clone e => exact CloneError.Alike.refl e
    | other fault => exact CloneError.Alike.refl (.delegate p.name fault)

include hn hd

theorem matches_duplicate (hp : s.planOf base (base.heap.cls source) = .ok p) :
    Matches (s.direct.duplicate nested source p) (s.checked.duplicate nested' source p) a b
      (SameAnswer s base busy (.ref source)) := by
  unfold duplicate duplicateBy
  apply matches_heap
  have hl : a.memory.heap.shape source = base.heap.shape source := h.shape_left hs
  have hr : b.memory.heap.shape source = base.heap.shape source := (h.shape source).trans hl
  rw [hl, hr]
  cases hx : base.heap.shape source with
  | packed => exact matches_duplicatePacked hc hh h hs new hx
  | slots => exact matches_duplicateSlots hc hh hn h hs new hd hx
  | container => exact matches_duplicateContainer hc hh hn h hs new hd
  | record => exact matches_duplicateRecord hc hh hn h hs new hd hx hp

/-- A failure is put down to the class of the source on both sides. -/
theorem matches_delegate :
    Matches (s.direct.delegate nested .containers source)
      (s.checked.delegate nested' .containers source) a b
      (SameAnswer s base busy (.ref source)) := by
  have new' : b.copies.find? source = none := h.copies ▸ new
  have hlta : source < a.heap.size := Nat.lt_of_lt_of_le hs h.left.heap.size_le
  have hltb : source < b.heap.size := Nat.lt_of_lt_of_le hs h.right.heap.size_le
  have hkl := keeps_duplicateContainer (Nat.le_refl _) new hn.left ((h.left.tame hc.tame).over _)
  have hkr := keeps_duplicateContainer (Nat.le_refl _) new' hn.right ((h.right.tame hc.tame).over _)
  have both := ((matches_duplicateContainer hc hh hn h hs new hd).and_ends hkl hkr).mono
    (fun _ _ _ _ hq => hq.1)
    (fun _ _ a' b' (he : _ ∧ _ ∧ _) => (⟨he.1, (he.2.1.heap.cls_eq source hlta).trans
      ((h.cls_left hs).trans ((h.cls_right hs).symm.trans (he.2.2.heap.cls_eq source hltb).symm))⟩ :
        _ ∧ a'.heap.cls source = b'.heap.cls source))
  unfold delegate delegateBy
  apply both.outcome.bind
  intro _ _ a₁ b₁ houtcome
  rcases houtcome with ⟨w, w', rfl, rfl, hw⟩ | ⟨e, e', rfl, rfl, he, hcls⟩
  · obtain ⟨rfl, h₁, ha⟩ := hw
    unfold Tandem
    simp only [ends_bind, ends_copyOf, h₁.copies]
    cases hf : a₁.copies.find? source with
    | some copy => exact ⟨rfl, h₁, ha⟩
    | none => exact ⟨rfl, h₁.register hf ha, ha⟩
  · apply matches_heap
    have hcls : a₁.memory.heap.cls source = b₁.memory.heap.cls source := hcls
    rw [hcls]
    exact he.blame _

theorem matches_cloneByPlan (hp : s.planOf base (base.heap.cls source) = .ok p) :
    Matches (s.direct.cloneByPlan nested source p) (s.checked.cloneByPlan nested' source p) a b
      (SameAnswer s base busy (.ref source)) := by
  obtain ⟨e, he, hdesc⟩ := describes_of_planOf hc.plans hp
  unfold cloneByPlan cloneByPlanBy
  rw [show s.direct.planVerdict p = s.planVerdict p from rfl,
    show s.checked.planVerdict p = s.planVerdict p from rfl]
  cases hv : s.planVerdict p with
  | shared => exact ⟨rfl, h, takesArray_mono h.left.heap⟩
  | named name =>
    apply (matches_namedImplementor hc h hp (cloneWith_of_planVerdict hv)).bind
    intro _ _ a₁ b₁ hpost
    rcases hpost with ⟨rfl, rfl, hlearned⟩
    exact matches_delegate hc hh hn hlearned.abreast hs (hlearned.copies ▸ new)
      (hlearned.copies ▸ hd)
  | selfCopied method =>
    obtain ⟨hf, hself⟩ := selfCopy_of_planVerdict hv
    rw [hdesc.selfCopy_eq] at hself
    exact matches_copyItself hc hh h hs new he hself (hc.methods hf _ e method he hself)
  | duplicated => exact matches_duplicate hc hh hn h hs new hd hp

theorem matches_cloneNew :
    Matches (s.direct.cloneNew nested source) (s.checked.cloneNew nested' source) a b
      (SameAnswer s base busy (.ref source)) := by
  unfold cloneNew cloneNewBy
  apply matches_heap
  rw [show a.memory.heap.cls source = _ from h.cls_left hs,
    show b.memory.heap.cls source = _ from h.cls_right hs]
  apply (matches_verdict h _ source).bind
  intro _ v a₁ b₁ hpost
  rcases hpost with ⟨rfl, hv, hlearned⟩
  have h₁ := hlearned.abreast
  have new₁ : a₁.copies.find? source = none := hlearned.copies ▸ new
  have hd₁ : a₁.copies.missing base.heap.size ≤ depth + 1 := hlearned.copies ▸ hd
  cases v with
  | nulled => exact ⟨rfl, h₁, fun _ => rfl⟩
  | shared => exact ⟨rfl, h₁, takesArray_mono h₁.left.heap⟩
  | overridden i =>
    obtain rfl := hc.tame.of_judge hv.symm
    exact matches_delegate hc hh hn h₁ hs new₁ hd₁
  | «open» =>
    apply (matches_plan h₁ _).bind
    intro _ p a₂ b₂ hpost
    rcases hpost with ⟨rfl, hp, hlearned₂⟩
    exact matches_cloneByPlan hc hh hn hlearned₂.abreast hs (hlearned₂.copies ▸ new₁)
      (hlearned₂.copies ▸ hd₁) hp

end Rules

/-! ## The whole clone -/

/-- Values that refer to nothing are their own clones. -/
theorem sameAnswer_of_object? {s : Setting} {base a b : Run} {busy : ObjectId → Prop} {v : Value}
    (h : Abreast s base busy a b) (hv : v.object? = none) : SameAnswer s base busy v v v a b := by
  refine ⟨rfl, h, ?_⟩
  intro ha
  cases v with
  | ref o => cases hv
  | null => rfl
  | _ => cases ha

/-- Both clones of a value do the same, however deep they go. -/
theorem pairs_cloneValue {s : Setting} {base : Run} (hc : s.Comparable base)
    (hh : base.heap.Headed) (depth : Nat) :
    s.Pairs base depth (cloneValue s.direct depth) (cloneValue s.checked depth) := by
  refine ⟨nests_cloneValue _ depth, nests_cloneValue _ depth, ?_⟩
  induction depth with
  | zero =>
    intro busy a b v h hv hd
    cases v with
    | ref o =>
      unfold Matches Tandem cloneValue
      simp only [ends_bind, ends_copyOf, h.copies]
      cases hf : a.copies.find? o with
      | some copy => exact ⟨rfl, h, h.arrays o copy hf⟩
      | none =>
        -- An object without a copy is one of those still missing one.
        have := Copies.missing_put_lt .null (hv o rfl) hf
        omega
    | _ =>
      unfold cloneValue
      exact sameAnswer_of_object? h rfl
  | succ depth ih =>
    intro busy a b v h hv hd
    cases v with
    | ref o =>
      unfold Matches Tandem cloneValue
      simp only [ends_bind, ends_copyOf, h.copies]
      cases hf : a.copies.find? o with
      | some copy => exact ⟨rfl, h, h.arrays o copy hf⟩
      | none =>
        exact matches_cloneNew hc hh ⟨nests_cloneValue _ depth, nests_cloneValue _ depth, ih⟩ h
          (hv o rfl) hf hd
    | _ =>
      unfold cloneValue
      exact sameAnswer_of_object? h rfl

end Setting

/-- Two clones of one run have made the same objects: they have the same headers and hold the same
elements, entries and fields. What was there is as it was. -/
structure SameObjects (s : Setting) (run a b : Run) : Prop where
  size : b.heap.size = a.heap.size
  old : ∀ o < run.heap.size, a.heap.get o = run.heap.get o ∧ b.heap.get o = run.heap.get o
  header : ∀ o, b.heap.cls o = a.heap.cls o ∧ b.heap.shape o = a.heap.shape o
  body : ∀ o, run.heap.size ≤ o → o < a.heap.size →
    (a.heap.body o).Agrees (s.registry.fieldsOf (a.heap.cls o)) (b.heap.body o)

namespace Setting

/-- Whichever backend is used, the clone of a value is the same, or it fails with an error that says
the same. -/
def BackendsAgree (s : Setting) (run : Run) (v : Value) : Prop :=
  (∃ r a b, s.direct.clone v run = .ok r a ∧ s.checked.clone v run = .ok r b ∧
    SameObjects s run a b) ∨
  ∃ e e' a b, s.direct.clone v run = .error (.failed e) a ∧
    s.checked.clone v run = .error (.failed e') b ∧ e.Alike e'

/-- Where headers are right the backend does not matter: both clones end well with the same value
and the same objects, or both fail with errors that say the same. -/
theorem both_backends_clone_alike {s : Setting} {run : Run} {v : Value} (hc : s.Comparable run)
    (hh : run.heap.Headed) (hv : run.heap.Has v) : s.BackendsAgree run v := by
  have hmatch : Matches (s.direct.clone v) (s.checked.clone v) run run
      (SameAnswer s { run with copies := {} } (fun _ => False) v) := by
    have h := Abreast.start hc.begun rfl
    have hd : ({} : Copies).missing run.heap.size ≤ depthAllowance run.heap := by
      unfold depthAllowance
      exact Nat.le_trans (Copies.missing_le _ _) (Nat.le_add_right _ _)
    unfold Matches Tandem clone begin
    simp only [ends_bind, ends_modify, ends_heap]
    exact (pairs_cloneValue hc.begun hh (depthAllowance run.heap)).abreast _ _ _ v h hv hd
  rcases tandem_iff.mp hmatch with ⟨r, a, r', b, hl, hr, heq, h, -⟩ | ⟨e, a, e', b, hl, hr, he⟩
  · subst heq
    refine Or.inl ⟨r', a, b, hl, hr, h.size, ?_, fun o => ⟨h.cls o, h.shape o⟩, ?_⟩
    · intro o ho
      exact ⟨h.get_left ho, h.get_right ho⟩
    · intro o hle hlt
      exact h.same o hle hlt fun hf => hf
  · cases e with
    | failed e =>
      cases e' with
      | failed e' => exact Or.inr ⟨e, e', a, b, hl, hr, he⟩
      | _ => exact he.elim
    | _ => exact he.elim

/-! ## Instances that are gapped or short -/

/-- A class with a gap between its fields: the second begins at a multiple of its width. -/
def gappedNode : ClassDecl where
  name := "Node"
  superclass := some Registry.rootClass
  fields := [{ name := "flag", type := .primitive .bool },
    { name := "label", type := .primitive .i32 },
    { name := "next", type := .object Registry.rootClass }]

/-- A cloner with the standard policy for such instances. -/
def gappedSetting : Setting where
  registry := Registry.initial.add gappedNode
  backend := .fast
  policy := .standard

/-- An instance that refers to itself and has something in the gap, and one that is too short for
its second field. -/
def gappedRun : Run where
  memory := { heap := ⟨#[Object.new 12 (.record [1, 9, 9, 9, 7, 0, 0, 0] [.ref 0]),
    Object.new 12 (.record [1, 0] [.ref 0])]⟩ }

theorem built_add {d : ClassDecl} (hl : Registry.initial.lookup d.name = none)
    (hs : Registry.initial.resolveSuperclass d = .ok d.superclass)
    (hf : Registry.initial.checkFields d.name [] d.fields = .ok ()) :
    (Registry.initial.add d).Built :=
  .define .initial (Registry.define_eq hl hs hf)

/-- With the overrides of the standard policy, what is left to ask is of the heap and of self-copy
methods. -/
theorem comparable_standard {r : Registry} {flags : CloneFlags} {run : Run} (hr : r.Built)
    (hmethods : flags.useSelfCopy = true → ∀ cls e method, r.get? cls = some e →
      e.decl.selfCopy = some method → method.GoesBy run.heap)
    (hplans : run.plans = []) (hres : run.resolved = []) (hheap : run.heap.Fitting r)
    (hlone : ∀ o < run.heap.size, ∀ entries, run.heap.body o = .container (.treeMap entries) →
      Container.Lone (entries.map (·.1.value))) :
    Comparable { registry := r, backend := .fast, policy := { Policy.standard with flags } }
      run where
  registry := hr
  overrides := fun _ _ _ h => Policy.standard_override h
  named := fun _ _ _ _ _ _ h => Catalog.initial_maker h
  methods := hmethods
  plans := hplans ▸ Plans.fit_nil r
  resolved := by
    intro cls i h
    rw [hres] at h
    cases h
  heap := hheap
  lone := hlone

/-- The flag is a byte and the label four bytes past the gap, if they are there. -/
theorem canonical_gapped {h : Heap} {block : List UInt8} {refs : List Value}
    (hflag : ∀ bytes, Bytes.window? 0 1 block = some bytes → bytes = [1])
    (hlabel : ∀ bytes, Bytes.window? 4 4 block = some bytes → bytes = [7, 0, 0, 0]) :
    (Registry.initial.layoutOf 12 gappedNode).Canonical h (.record block refs) := by
  have hfields : (Registry.initial.layoutOf 12 gappedNode).fields =
      [⟨12, "Node", "flag", .primitive .bool, .bytes 0 .bool, {}⟩,
        ⟨12, "Node", "label", .primitive .i32, .bytes 4 .i32, {}⟩,
        ⟨12, "Node", "next", .object 0, .slot 0, {}⟩] := by
    decide
  have hread : ∀ {offset width bytes},
      Body.readBytes offset width (.record block refs) = .ok bytes →
        Bytes.window? offset width block = some bytes := by
    intro offset width bytes h
    simp only [Body.readBytes] at h
    split at h
    · cases h
      assumption
    · cases h
  constructor
  · intro f hf offset kind bytes hp hr
    rw [hfields] at hf
    simp only [List.mem_cons, List.not_mem_nil, or_false] at hf
    rcases hf with rfl | rfl | rfl
    · cases hp
      exact ⟨.bool true, rfl, trivial, hflag bytes (hread hr)⟩
    · cases hp
      exact ⟨.i32 7, rfl, trivial, hlabel bytes (hread hr)⟩
    · cases hp
  · intro f hf index v hp hc
    rw [hfields] at hf
    simp only [List.mem_cons, List.not_mem_nil, or_false] at hf
    rcases hf with rfl | rfl | rfl
    · cases hc
    · cases hc
    · cases hc

theorem comparable_gapped : gappedSetting.Comparable gappedRun := by
  refine comparable_standard (built_add (by decide) rfl rfl) (fun h => by cases h) rfl rfl
    ⟨?_, ?_⟩ ?_
  · intro o ho
    have hnode : gappedSetting.registry.get? 12 =
        some ⟨gappedNode, Registry.initial.layoutOf 12 gappedNode⟩ :=
      Registry.get?_add_new Registry.initial gappedNode
    match o, ho with
    | 0, _ =>
      refine ⟨_, hnode, rfl, canonical_gapped ?_ ?_⟩
      · intro bytes hb
        cases hb
        rfl
      · intro bytes hb
        cases hb
        rfl
    | 1, _ =>
      refine ⟨_, hnode, rfl, canonical_gapped ?_ ?_⟩
      · intro bytes hb
        cases hb
        rfl
      · intro bytes hb
        cases hb
  · intro o ho v hv
    have hval : ∀ v ∈ (gappedRun.heap.body o).values, v = .ref 0 := by
      match o, ho with
      | 0, _ => decide
      | 1, _ => decide
    obtain rfl := hval v hv
    intro o' ho'
    cases ho'
    decide
  · intro o ho entries he
    match o, ho with
    | 0, _ => cases he
    | 1, _ => cases he

/-! ## Self-copies -/

/-- The self-copy methods that classes can be given go by the instance alone. -/
theorem goesBy_of_named {name : String} {method : SelfCopy}
    (h : SelfCopies.named? name = some method) (base : Heap) : method.GoesBy base where
  spares := SelfCopies.spares_of_named h
  same := by
    intro o ho a b ha hb hsize
    have hget : b.get o = a.get o := (hb o ho).trans (ha o ho).symm
    have hbody : b.body o = a.body o := congrArg Object.body hget
    have hcls : b.cls o = a.cls o := congrArg Object.cls hget
    unfold SelfCopies.named? at h
    split at h <;> cases h
    · unfold SelfCopies.shallow
      rw [hbody, hcls, hsize]
      split
      · exact ⟨_, [_], rfl, rfl⟩
      · exact ⟨_, [], rfl, rfl⟩
    · exact ⟨_, [], rfl, rfl⟩
    · unfold SelfCopies.bare
      rw [hsize]
      exact ⟨_, [_], rfl, rfl⟩
    · exact ⟨_, [], rfl, rfl⟩
    · exact ⟨_, [], rfl, rfl⟩
    · exact ⟨_, [], rfl, rfl⟩

/-- The class of arrays of 32-bit numbers, as it is made on demand. -/
def numbersClass : ClassDecl where
  name := "i32[]"
  kind := .array (.primitive .i32)
  superclass := some Registry.rootClass

/-- A class with a field for an object and one for numbers. -/
def keeperClass : ClassDecl where
  name := "Keeper"
  superclass := some Registry.rootClass
  fields := [{ name := "kept", type := .object Registry.rootClass },
    { name := "numbers", type := .array 12 }]

/-- A class whose instances copy themselves. -/
def ownClass (method : SelfCopy) : ClassDecl where
  name := "Own"
  superclass := some Registry.rootClass
  fields := [{ name := "owner", type := .object Registry.rootClass }]
  selfCopy := some method

/-- A registry with all three. -/
def ownRegistry (method : SelfCopy) : Registry :=
  ((Registry.initial.add numbersClass).add keeperClass).add (ownClass method)

/-- A cloner with the standard policy that lets instances copy themselves. -/
def ownSetting (method : SelfCopy) : Setting where
  registry := ownRegistry method
  backend := .fast
  policy := { Policy.standard with flags := { useSelfCopy := true } }

/-- A keeper and an instance that copies itself, which refer to each other. -/
def ownRun : Run where
  memory := { heap := ⟨#[Object.new 13 (.record [] [.ref 1, .null]),
    Object.new 14 (.record [] [.ref 0])]⟩ }

theorem built_numbers : (Registry.initial.add numbersClass).Built := by
  have harray : Registry.initial.arrayOf (.primitive .i32) =
      .ok (Registry.initial.size, Registry.initial.add numbersClass) :=
    Registry.arrayOf_of_new rfl (by decide)
  exact .arrayOf .initial harray

theorem built_own (method : SelfCopy) : (ownRegistry method).Built := by
  have hkeeper : (Registry.initial.add numbersClass).define keeperClass =
      .ok ((Registry.initial.add numbersClass).size,
        (Registry.initial.add numbersClass).add keeperClass) :=
    Registry.define_eq (by decide) rfl rfl
  have hown : ((Registry.initial.add numbersClass).add keeperClass).define (ownClass method) =
      .ok (((Registry.initial.add numbersClass).add keeperClass).size, ownRegistry method) := by
    have hnew : ((Registry.initial.add numbersClass).add keeperClass).lookup "Own" = none := by
      decide
    exact Registry.define_eq hnew rfl rfl
  exact .define (.define built_numbers hkeeper) hown

/-- Only one of the classes has a self-copy method. -/
theorem eq_of_selfCopy {method method' : SelfCopy} {cls : ClassId} {e : Registry.Entry}
    (he : (ownRegistry method).get? cls = some e) (hm : e.decl.selfCopy = some method') :
    method' = method := by
  rcases Registry.get?_add he with ⟨-, he⟩ | ⟨-, rfl⟩
  · rcases Registry.get?_add he with ⟨-, he⟩ | ⟨-, rfl⟩
    · rcases Registry.get?_add he with ⟨-, he⟩ | ⟨-, rfl⟩
      · rw [Registry.initial_selfCopy he] at hm
        cases hm
      · cases hm
    · cases hm
  · cases hm
    rfl

theorem headed_ownRun : ownRun.heap.Headed := by
  intro o ho
  match o, ho with
  | 0, _ => rfl
  | 1, _ => rfl

theorem has_ownRun : ownRun.heap.Has (.ref 0) := by
  intro o ho
  cases ho
  decide

/-- The keeper holds no primitives, and nothing where its numbers go. -/
theorem canonical_keeper (h : Heap) :
    ((Registry.initial.add numbersClass).layoutOf 13 keeperClass).Canonical h
      (.record [] [.ref 1, .null]) := by
  have hfields : ((Registry.initial.add numbersClass).layoutOf 13 keeperClass).fields =
      [⟨13, "Keeper", "kept", .object 0, .slot 0, {}⟩,
        ⟨13, "Keeper", "numbers", .array 12, .slot 1, {}⟩] := by
    decide
  constructor
  · intro f hf offset kind bytes hp hr
    rw [hfields] at hf
    simp only [List.mem_cons, List.not_mem_nil, or_false] at hf
    rcases hf with rfl | rfl
    · cases hp
    · cases hp
  · intro f hf index v hp hc hr
    rw [hfields] at hf
    simp only [List.mem_cons, List.not_mem_nil, or_false] at hf
    rcases hf with rfl | rfl
    · cases hc
    · cases hp
      cases hr
      rfl

theorem canonical_own (method : SelfCopy) (h : Heap) :
    (((Registry.initial.add numbersClass).add keeperClass).layoutOf 14
      (ownClass method)).Canonical h (.record [] [.ref 0]) := by
  have hfields : (((Registry.initial.add numbersClass).add keeperClass).layoutOf 14
      (ownClass method)).fields = [⟨14, "Own", "owner", .object 0, .slot 0, {}⟩] := rfl
  constructor
  · intro f hf offset kind bytes hp hr
    rw [hfields] at hf
    cases List.mem_singleton.mp hf
    cases hp
  · intro f hf index v hp hc hr
    rw [hfields] at hf
    cases List.mem_singleton.mp hf
    cases hc

theorem fitting_ownRun (method : SelfCopy) : ownRun.heap.Fitting (ownRegistry method) := by
  constructor
  · intro o ho
    match o, ho with
    | 0, _ =>
      have he := Registry.extends_add _ (ownClass method) 13 _
        (Registry.get?_add_new (Registry.initial.add numbersClass) keeperClass)
      exact ⟨_, he, rfl, canonical_keeper _⟩
    | 1, _ =>
      have he := Registry.get?_add_new ((Registry.initial.add numbersClass).add keeperClass)
        (ownClass method)
      exact ⟨_, he, rfl, canonical_own method _⟩
  · intro o ho v hv o' ho'
    subst ho'
    have hall : ∀ o < 2, ∀ v ∈ (ownRun.heap.body o).values,
        v.object?.all (· < ownRun.heap.size) = true := by decide
    simpa [Value.object?] using hall o ho _ hv

theorem comparable_own {method : SelfCopy} {flags : CloneFlags}
    (hm : flags.useSelfCopy = true → method.GoesBy ownRun.heap) :
    Comparable { registry := ownRegistry method, backend := .fast
                 policy := { Policy.standard with flags } } ownRun := by
  refine comparable_standard (built_own method) ?_ rfl rfl (fitting_ownRun method) ?_
  · intro hf cls e method' he hself
    rw [eq_of_selfCopy he hself]
    exact hm hf
  · intro o ho entries he
    match o, ho with
    | 0, _ => cases he
    | 1, _ => cases he

/-! ## Where the backends are alike -/

/-- Of two instances one is cloned alike, whatever is in its gap, and one is refused alike, and so
is a keeper cloned whose object copies itself. -/
theorem gapped_and_short_instances_are_cloned_alike :
    gappedSetting.BackendsAgree gappedRun (.ref 0) ∧
      gappedSetting.BackendsAgree gappedRun (.ref 1) ∧
      (ownSetting SelfCopies.shallow).BackendsAgree ownRun (.ref 0) := by
  have hh : gappedRun.heap.Headed := by
    intro o ho
    match o, ho with
    | 0, _ => rfl
    | 1, _ => rfl
  have hshallow : SelfCopies.shallow.GoesBy ownRun.heap :=
    goesBy_of_named (show SelfCopies.named? "shallow" = some _ from rfl) _
  refine ⟨both_backends_clone_alike comparable_gapped hh ?_,
    both_backends_clone_alike comparable_gapped hh ?_,
    both_backends_clone_alike (comparable_own fun _ => hshallow) headed_ownRun has_ownRun⟩
  · intro o ho
    cases ho
    decide
  · intro o ho
    cases ho
    decide

/-! ## Where they are not -/

/-- A class without fields. -/
def bareClass : ClassDecl where
  name := "P"
  superclass := some Registry.rootClass

def misheadedSetting : Setting where
  registry := Registry.initial.add bareClass
  backend := .fast
  policy := .standard

/-- An instance whose header says that it is a primitive array: it was made as one, and was given
another body. -/
def misheadedRun : Run where
  memory := { heap := ⟨#[⟨12, .packed, .record [] []⟩]⟩ }

/-- A self-copy method that puts the instance where the keeper has its numbers, and returns it. -/
def spoiling : SelfCopy := fun o h => (.ok o, h.setBody 0 (.record [] [.ref o, .ref o]))

theorem comparable_misheaded : misheadedSetting.Comparable misheadedRun := by
  refine comparable_standard (built_add (by decide) rfl rfl) (fun h => by cases h) rfl rfl
    ⟨?_, ?_⟩ ?_
  · intro o ho
    have hclass : misheadedSetting.registry.get? 12 =
        some ⟨bareClass, Registry.initial.layoutOf 12 bareClass⟩ :=
      Registry.get?_add_new Registry.initial bareClass
    have hnone : (Registry.initial.layoutOf 12 bareClass).fields = [] := by decide
    match o, ho with
    | 0, _ =>
      refine ⟨_, hclass, rfl, ⟨?_, ?_⟩⟩
      · rw [hnone]
        intro f hf
        cases hf
      · rw [hnone]
        intro f hf
        cases hf
  · intro o ho v hv
    match o, ho with
    | 0, _ => cases hv
  · intro o ho entries he
    match o, ho with
    | 0, _ => cases he

/-- Where a header is wrong the statement is false: of the instance that is taken for an array,
direct access names the class by its identifier and an element, checked access names the class
itself. So it is where a self-copy method writes to an object that is yet to be cloned: direct
access puts into the field for numbers what checked access refuses. -/
theorem backends_can_be_told_apart :
    (misheadedSetting.Comparable misheadedRun ∧ misheadedRun.heap.Has (.ref 0) ∧
      ¬ misheadedSetting.BackendsAgree misheadedRun (.ref 0)) ∧
    ({ ownSetting spoiling with policy := .standard }.Comparable ownRun ∧
      ownRun.heap.Headed ∧ ownRun.heap.Has (.ref 0) ∧
      ¬ (ownSetting spoiling).BackendsAgree ownRun (.ref 0)) := by
  refine ⟨⟨comparable_misheaded, ?_, ?_⟩, comparable_own (fun h => by cases h), headed_ownRun,
    has_ownRun, ?_⟩
  · intro o ho
    cases ho
    decide
  · have hl : errorOf? (misheadedSetting.direct.clone (.ref 0)) misheadedRun =
        some (.access "ClassId(12)" "0" 0 (.wrongBody "ClassId(12)" .packedArray)) := by
      decide +kernel
    have hr : errorOf? (misheadedSetting.checked.clone (.ref 0)) misheadedRun =
        some (.access "P" "[]" 0 (.wrongBody "P" .packedArray)) := by
      decide +kernel
    obtain ⟨_, hl⟩ := errorOf?_eq_some.mp hl
    obtain ⟨_, hr⟩ := errorOf?_eq_some.mp hr
    rintro (⟨r, a, b, hx, -⟩ | ⟨e, e', a, b, hx, hy, he⟩)
    · cases hx.symm.trans hl
    · cases hx.symm.trans hl
      cases hy.symm.trans hr
      have he : CloneError.access "P" "[]" 0 (.wrongBody "P" .packedArray) =
        .access "ClassId(12)" "0" 0 (.wrongBody "ClassId(12)" .packedArray) := he
      exact absurd he (by decide)
  · have hl : errorOf? ((ownSetting spoiling).direct.clone (.ref 0)) ownRun = none := by
      decide +kernel
    have hr : errorOf? ((ownSetting spoiling).checked.clone (.ref 0)) ownRun =
        some (.access "Keeper" "numbers" 2
          (.typeMismatch "Keeper" "numbers" .array (.value .ref))) := by
      decide +kernel
    obtain ⟨_, hr⟩ := errorOf?_eq_some.mp hr
    rintro (⟨r, a, b, -, hy, -⟩ | ⟨e, e', a, b, hx, -⟩)
    · cases hy.symm.trans hr
    · rw [errorOf?_eq_some.mpr ⟨a, hx⟩] at hl
      cases hl

end Setting

end DeepCopy
