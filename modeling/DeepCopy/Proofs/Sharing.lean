-- A deep clone that goes well is a copy that keeps sharing: each object that is
-- to be duplicated has one copy, all else is shared or turned into null as the
-- rules say, and what held one object twice holds one copy twice.
import DeepCopy.Proofs.Mirroring

namespace DeepCopy

/-- What a copy holds in the place of a value, where `φ` names the copies of objects. -/
def Fate.image (fate : ObjectId → Fate) (φ : ObjectId → ObjectId) : Value → Value
  | .ref o =>
    match fate o with
    | .nulled => .null
    | .shared => .ref o
    | .copied => .ref (φ o)
  | v => v

/-- What a deep clone of `v` has come to: `r` is what came out, and `φ` takes each object that was
to be duplicated to its copy. -/
structure SharingCopy (s : Setting) (run run' : Run) (v r : Value) (φ : ObjectId → ObjectId) :
    Prop where
  result : r = Fate.image (s.fate run) φ v
  injective : ∀ o o', s.Duplicates run.heap (s.fate run) v o →
    s.Duplicates run.heap (s.fate run) v o' → φ o = φ o' → o = o'
  /-- The copies are the new objects. -/
  new : ∀ o, s.Duplicates run.heap (s.fate run) v o →
    run.heap.size ≤ φ o ∧ φ o < run'.heap.size
  onto : ∀ t, run.heap.size ≤ t → t < run'.heap.size →
    ∃ o, s.Duplicates run.heap (s.fate run) v o ∧ φ o = t
  header : ∀ o, s.Duplicates run.heap (s.fate run) v o →
    run'.heap.cls (φ o) = run.heap.cls o ∧ run'.heap.shape (φ o) = run.heap.shape o
  body : ∀ o, s.Duplicates run.heap (s.fate run) v o →
    ∃ e, s.registry.get? (run.heap.cls o) = some e ∧
      s.Copied e.layout (fun v w => w = Fate.image (s.fate run) φ v) (run.heap.body o)
        (run'.heap.body (φ o))
  /-- A container none of whose keys turns into null has its entries in their old places. -/
  entries : ∀ o, s.Duplicates run.heap (s.fate run) v o → ∀ c, run.heap.body o = .container c →
    c.Proper → (∀ k ∈ c.keys, ∀ o', k.value = .ref o' → s.fate run o' ≠ .nulled) →
    run'.heap.body (φ o) = .container (c.mapValues (Fate.image (s.fate run) φ))
  /-- What was there is as it was. -/
  old : ∀ o < run.heap.size, run'.heap.get o = run.heap.get o

/-! ## What is followed is stood for -/

theorem exists_of_forall₂ {α β : Type} {R : α → β → Prop} {xs : List α} {ys : List β}
    (h : List.Forall₂ R xs ys) : ∀ x ∈ xs, ∃ y, R x y := by
  induction h with
  | nil => simp
  | cons hxy _ ih =>
    intro x hx
    rcases List.mem_cons.mp hx with rfl | hx
    · exact ⟨_, hxy⟩
    · exact ih x hx

theorem Container.exists_of_rebuilt {R : Value → Value → Prop} {c c' : Container}
    (h : c.Rebuilt R c') : ∀ v ∈ c.values, ∃ w, R v w := by
  have pairs : ∀ {entries : Assoc Key Value} {entries' : List (Value × Value)},
      List.Forall₂ (fun e e' => R e.1.value e'.1 ∧ R e.2 e'.2) entries entries' →
      ∀ v ∈ entries.flatMap (fun e => [e.1.value, e.2]), ∃ w, R v w := by
    intro entries entries' he v hv
    obtain ⟨e, hmem, hv⟩ := List.mem_flatMap.mp hv
    obtain ⟨e', hk, hval⟩ := exists_of_forall₂ he e hmem
    simp only [List.mem_cons, List.not_mem_nil, or_false] at hv
    rcases hv with rfl | rfl
    · exact ⟨_, hk⟩
    · exact ⟨_, hval⟩
  cases c with
  | list items =>
    obtain ⟨items', hi, -⟩ := h
    exact exists_of_forall₂ hi
  | linked items =>
    obtain ⟨items', hi, -⟩ := h
    exact exists_of_forall₂ hi
  | hashSet keys =>
    obtain ⟨items', hi, -⟩ := h
    exact exists_of_forall₂ hi
  | hashMap entries =>
    obtain ⟨entries', hi, -⟩ := h
    exact pairs hi
  | treeMap entries =>
    obtain ⟨entries', hi, -⟩ := h
    exact pairs hi
  | calendar moment =>
    intro v hv
    cases hv

namespace Setting

variable {s : Setting} {h : Heap} {o : ObjectId} {v : Value}

theorem Follows.exists_stand {R : Value → Value → Prop} {e : Registry.Entry} {b' : Body}
    (hf : s.Follows h o v) (he : s.registry.get? (h.cls o) = some e)
    (hc : s.Copied e.layout R (h.body o) b') : ∃ w, R v w := by
  cases hf with
  | element hb hv =>
    rw [hb] at hc
    obtain ⟨items', hi, -⟩ := hc
    exact exists_of_forall₂ hi v hv
  | entry hb hv =>
    rw [hb] at hc
    obtain ⟨c', hi, -⟩ := hc
    exact Container.exists_of_rebuilt hi v hv
  | field he' hfl hr hv =>
    cases he.symm.trans he'
    cases hb : h.body o with
    | record block refs =>
      rw [hb] at hc hv
      have hfield := hc.2 _ hfl
      unfold FieldCopied at hfield
      rw [if_neg (by simp [hr])] at hfield
      obtain ⟨v', w, hv', hw, -⟩ := hfield
      cases hv.symm.trans hv'
      exact ⟨w, hw⟩
    | _ =>
      rw [hb] at hv
      unfold Field.readFrom at hv
      split at hv <;> cases hv

/-! ## The whole clone -/

variable {run run' : Run} {root r : Value}

theorem mirrors_begun (s : Setting) (run : Run) (root : Value) :
    Mirrors s (begun run) root (fun _ => False) (begun run) := by
  have none := find?_begun run
  refine ⟨Kept.refl _, fun o v hv => (none o v hv).elim, fun o _ v hv => (none o v hv).elim, ?_,
    fun o _ hv => (none o _ hv).elim⟩
  intro t hle hlt
  exact absurd hlt (Nat.not_lt.mpr hle)

theorem Ready.begun (hr : s.Ready run) : s.Ready (begun run) :=
  ⟨hr.plain, hr.plans, hr.resolved, hr.typed⟩

/-- The copy of each object, as the map of copies has it. -/
def copyIn (copies : Copies) (o : ObjectId) : ObjectId :=
  match copies.find? o with
  | some (.ref t) => t
  | _ => o

theorem copyIn_of_find? {copies : Copies} {t : ObjectId} (h : copies.find? o = some (.ref t)) :
    copyIn copies o = t := by
  unfold copyIn
  rw [h]

/-- When nothing is left to be filled, every object that was to be duplicated has a copy. -/
theorem find?_of_duplicates {base : Run} (hr : s.Ready base)
    (hm : Mirrors s base root (fun _ => False) run) (hroot : Stands (s.fate base) run.copies root r)
    (hv : base.heap.Has root) (ho : s.Duplicates base.heap (s.fate base) root o) :
    o < base.heap.size ∧ run.copies.find? o = some (.ref (copyIn run.copies o)) := by
  have known : ∀ {o w}, run.copies.find? o = some w →
      run.copies.find? o = some (.ref (copyIn run.copies o)) := by
    intro o w hw
    obtain ⟨t, rfl, -⟩ := hm.copies o w hw
    rw [copyIn_of_find? hw]
    exact hw
  induction ho with
  | root hr' hf =>
    subst hr'
    exact ⟨hv _ rfl, known ((stands_of_copied hf).mp hroot)⟩
  | follow ho hfollow hf ih =>
    obtain ⟨hlt, hfind⟩ := ih
    obtain ⟨e, he, -⟩ := hr.typed.takes _ hlt
    obtain ⟨w, hw⟩ := hfollow.exists_stand he (hm.done _ _ hfind (fun h => h) e he)
    exact ⟨(hr.sought hlt ho hfollow _ rfl).1, known ((stands_of_copied hf).mp hw)⟩

theorem image_of_stands {fate : ObjectId → Fate} {copies : Copies} {v w : Value}
    (href : ∀ o w, copies.find? o = some w → ∃ t, w = .ref t) (h : Stands fate copies v w) :
    w = Fate.image fate (copyIn copies) v := by
  cases v with
  | ref o =>
    unfold Stands at h
    unfold Fate.image
    cases hf : fate o with
    | nulled => simpa only [hf] using h
    | shared => simpa only [hf] using h
    | copied =>
      simp only [hf] at h
      obtain ⟨t, rfl⟩ := href o w h
      simp only [hf, copyIn_of_find? h]
  | _ => exact h

/-- What stands for an object that does not turn into null is an object. -/
theorem exists_image_ref {fate : ObjectId → Fate} (φ : ObjectId → ObjectId)
    (hf : fate o ≠ .nulled) : ∃ t, Fate.image fate φ (.ref o) = .ref t := by
  unfold Fate.image
  cases hfate : fate o with
  | nulled => exact absurd hfate hf
  | shared => exact ⟨o, by simp only [hfate]⟩
  | copied => exact ⟨φ o, by simp only [hfate]⟩

/-- What stands for objects tells them apart: copies are new and all different, and what is shared
is old. -/
theorem image_injOn {fate : ObjectId → Fate} {φ : ObjectId → ObjectId} {n : Nat}
    {D : ObjectId → Prop} (hinj : ∀ o o', D o → D o' → φ o = φ o' → o = o')
    (hnew : ∀ o, D o → n ≤ φ o) {x y : Value}
    (hx : ∀ o, x = .ref o → o < n ∧ fate o ≠ .nulled ∧ (fate o = .copied → D o))
    (hy : ∀ o, y = .ref o → o < n ∧ fate o ≠ .nulled ∧ (fate o = .copied → D o))
    (h : Fate.image fate φ x = Fate.image fate φ y) : x = y := by
  cases x with
  | ref o =>
    obtain ⟨hlt, hn, hd⟩ := hx o rfl
    cases y with
    | ref o' =>
      obtain ⟨hlt', hn', hd'⟩ := hy o' rfl
      unfold Fate.image at h
      cases hf : fate o <;> cases hf' : fate o' <;> simp only [hf, hf', Value.ref.injEq] at h
      case nulled.nulled => exact absurd hf hn
      case shared.shared => rw [h]
      case shared.copied => exact absurd hlt (Nat.not_lt.mpr (h ▸ hnew o' (hd' hf')))
      case copied.shared => exact absurd hlt' (Nat.not_lt.mpr (h ▸ hnew o (hd hf)))
      case copied.copied => rw [hinj o o' (hd hf) (hd' hf') h]
      all_goals cases h
    | _ =>
      obtain ⟨t, ht⟩ := exists_image_ref φ hn
      rw [ht] at h
      cases h
  | _ =>
    cases y with
    | ref o' =>
      obtain ⟨t, ht⟩ := exists_image_ref φ (hy o' rfl).2.1
      rw [ht] at h
      cases h
    | _ => exact h

/-- The entries of a rebuilt container keep their places if what stands for its keys tells them
apart. -/
theorem eq_mapValues_of_copied {fate : ObjectId → Fate} {φ : ObjectId → ObjectId} {n : Nat}
    {D : ObjectId → Prop} (hinj : ∀ o o', D o → D o' → φ o = φ o' → o = o')
    (hnew : ∀ o, D o → n ≤ φ o) {c c' : Container} (hproper : c.Proper)
    (hkey : ∀ k ∈ c.keys, ∀ o, k.value = .ref o →
      o < n ∧ fate o ≠ .nulled ∧ (fate o = .copied → D o))
    (h : c.Rebuilt (fun v w => w = Fate.image fate φ v) c') :
    c' = c.mapValues (Fate.image fate φ) := by
  refine Container.eq_mapValues_of_rebuilt hproper ?_ ?_ ?_ h
  · intro k hk k' hk' heq
    exact Key.value_injective (image_injOn hinj hnew (hkey k hk) (hkey k' hk') heq)
  · intro k _ hnone
    cases hval : k.value with
    | ref o =>
      rw [hval] at hnone
      cases hnone
    | _ => rfl
  · intro k hk o ho
    rw [ho]
    exact exists_image_ref _ (hkey k hk o ho).2.1

/-- A deep clone that goes well is a copy that keeps sharing: there is one copy for each object that
is to be duplicated, the copies are the new objects, and each holds what stands for what its source
holds. -/
theorem a_deep_clone_is_a_copy_that_keeps_sharing {s : Setting} {run run' : Run} {v r : Value}
    (hr : s.Ready run) (hv : run.heap.Has v) (h : s.clone v run = .ok r run') :
    ∃ φ, SharingCopy s run run' v r φ := by
  have hsought : s.Sought (begun run) v v := fun o ho => ⟨hv o ho, fun hf => .root ho hf⟩
  obtain ⟨hm, hstands⟩ := yields_of_ok (yields_clone_standing
    (fun depth => mirroring_cloneValue hr.begun v depth _) (mirrors_begun s run v) hsought) h
  have hfind : ∀ o, s.Duplicates run.heap (s.fate run) v o →
      o < run.heap.size ∧ run'.copies.find? o = some (.ref (copyIn run'.copies o)) := by
    intro o ho
    have found := find?_of_duplicates hr.begun hm hstands hv ho
    exact found
  have himage : ∀ v w, Stands (s.fate run) run'.copies v w →
      w = Fate.image (s.fate run) (copyIn run'.copies) v := by
    refine fun v w => image_of_stands fun o w hw => ?_
    obtain ⟨t, rfl, -⟩ := hm.copies o w hw
    exact ⟨t, rfl⟩
  have hcopy : ∀ o, s.Duplicates run.heap (s.fate run) v o →
      run.heap.size ≤ copyIn run'.copies o ∧ copyIn run'.copies o < run'.heap.size ∧
      run'.heap.cls (copyIn run'.copies o) = run.heap.cls o ∧
      run'.heap.shape (copyIn run'.copies o) = run.heap.shape o := by
    intro o ho
    obtain ⟨t, ht, -, hrest⟩ := hm.copies o _ (hfind o ho).2
    cases ht
    exact hrest
  have hinj : ∀ o o', s.Duplicates run.heap (s.fate run) v o →
      s.Duplicates run.heap (s.fate run) v o' →
      copyIn run'.copies o = copyIn run'.copies o' → o = o' := by
    intro o o' ho ho' heq
    have ho₂ := (hfind o' ho').2
    rw [← heq] at ho₂
    exact hm.injective o o' _ (hfind o ho).2 ho₂
  have hbody : ∀ o, s.Duplicates run.heap (s.fate run) v o →
      ∃ e, s.registry.get? (run.heap.cls o) = some e ∧
        s.Copied e.layout (fun v w => w = Fate.image (s.fate run) (copyIn run'.copies) v)
          (run.heap.body o) (run'.heap.body (copyIn run'.copies o)) := by
    intro o ho
    obtain ⟨hlt, hf⟩ := hfind o ho
    obtain ⟨e, he, -⟩ := hr.typed.takes o hlt
    exact ⟨e, he, (hm.done o _ hf (fun h => h) e he).mono himage⟩
  refine ⟨copyIn run'.copies, himage _ _ hstands, hinj, fun o ho => ⟨(hcopy o ho).1,
    (hcopy o ho).2.1⟩, ?_, fun o ho => (hcopy o ho).2.2, hbody, ?_, fun o ho => hm.get_eq ho⟩
  · intro t hle hlt
    obtain ⟨o, ho⟩ := hm.covers t hle hlt
    obtain ⟨-, -, hd, -⟩ := hm.copies o _ ho
    exact ⟨o, hd, copyIn_of_find? ho⟩
  · intro o ho c hc hproper hnulled
    obtain ⟨e, he, hcopied⟩ := hbody o ho
    rw [hc] at hcopied
    obtain ⟨c', hrebuilt, hb⟩ := hcopied
    have hkey : ∀ k ∈ c.keys, ∀ o', k.value = .ref o' → o' < run.heap.size ∧
        s.fate run o' ≠ .nulled ∧
        (s.fate run o' = .copied → s.Duplicates run.heap (s.fate run) v o') := by
      intro k hk o' ho'
      have hfollow : s.Follows run.heap o (.ref o') := .entry hc (ho' ▸ c.value_mem_values hk)
      have := hr.begun.sought (hfind o ho).1 ho hfollow o' rfl
      exact ⟨this.1, hnulled k hk o' ho', this.2⟩
    rw [hb, eq_mapValues_of_copied hinj (fun o ho => (hcopy o ho).1) hproper hkey hrebuilt]

/-- A class whose instances hold a number and a list. -/
def ringNode : ClassDecl where
  name := "Node"
  superclass := some Registry.rootClass
  fields := [{ name := "label", type := .primitive .i32 },
    { name := "items", type := .object Registry.rootClass }]

/-- A portable cloner with the standard policy. -/
def ringSetting : Setting where
  registry := Registry.initial.add ringNode
  backend := .portable (Registry.initial.add ringNode)
  policy := .standard

/-- An instance with a list that holds the instance twice. -/
def ringRun : Run where
  memory := { heap := ⟨#[Object.new 12 (.record [7, 0, 0, 0] [.ref 1]),
    Object.new 6 (.container (.list [.ref 0, .ref 0]))]⟩ }

theorem ready_ring : ringSetting.Ready ringRun := by
  refine ⟨⟨Or.inr rfl, Registry.sound_initial.add _, ?_, ?_, ?_⟩, Plans.fit_nil _, ?_, ⟨?_, ?_, ?_⟩⟩
  · intro _ cls i h
    exact Policy.standard_override h
  · intro _ _ _ maker _ _ h
    exact Catalog.initial_maker h
  · intro h
    cases h
  · intro cls i h
    cases h
  · intro o ho
    have hnode : ringSetting.registry.get? 12 = some
        ⟨ringNode, ⟨12, 4, 1, [⟨12, "Node", "label", .primitive .i32, .bytes 0 .i32, {}⟩,
          ⟨12, "Node", "items", .object 0, .slot 0, {}⟩]⟩⟩ := by
      rw [ringSetting]
      exact (Registry.get?_add_new Registry.initial ringNode).trans
        (congrArg (fun l => some (Registry.Entry.mk ringNode l)) (by decide))
    match o, ho with
    | 0, _ =>
      refine ⟨_, hnode, ⟨rfl, rfl⟩, ?_⟩
      intro f hf offset kind bytes hp _
      simp only [List.mem_cons, List.not_mem_nil, or_false] at hf
      rcases hf with rfl | rfl
      · cases hp
        trivial
      · cases hp
    | 1, _ =>
      obtain ⟨e, he, hk⟩ := (Registry.sound_initial.add ringNode).containers .arrayList
      refine ⟨e, he, ?_⟩
      unfold Registry.Entry.Takes
      rw [hk]
      rfl
  · intro o ho
    match o, ho with
    | 0, _ => rfl
    | 1, _ => rfl
  · intro o ho v hv
    have hval : ∀ v ∈ (ringRun.heap.body o).values, v = .ref 0 ∨ v = .ref 1 := by
      match o, ho with
      | 0, _ => decide
      | 1, _ => decide
    rcases hval v hv with rfl | rfl
    · intro o' ho'
      cases ho'
      decide
    · intro o' ho'
      cases ho'
      decide

/-- What a clone of the instance makes: a copy of it and one of its list. -/
def ringCopies : Array Object :=
  #[Object.new 12 (.record [7, 0, 0, 0] [.ref 3]),
    Object.new 6 (.container (.list [.ref 2, .ref 2]))]

theorem ring_is_cloned : ∃ r run', ringSetting.clone (.ref 0) ringRun = .ok r run' ∧
    run'.heap.objects = ringRun.heap.objects ++ ringCopies :=
  exists_of_peek? (by decide +kernel)

/-- The instance, its list, and the two ways from the one to the other are copied as they are. -/
theorem a_ring_is_copied_as_a_ring :
    ∃ r run' φ, ringSetting.clone (.ref 0) ringRun = .ok r run' ∧
      run'.heap.objects = ringRun.heap.objects ++ ringCopies ∧
      SharingCopy ringSetting ringRun run' (.ref 0) r φ := by
  obtain ⟨r, run', h, hobjects⟩ := ring_is_cloned
  have has : ringRun.heap.Has (.ref 0) := by
    intro o ho
    cases ho
    decide
  obtain ⟨φ, hφ⟩ := a_deep_clone_is_a_copy_that_keeps_sharing ready_ring has h
  exact ⟨r, run', φ, h, hobjects, hφ⟩

end Setting

end DeepCopy
