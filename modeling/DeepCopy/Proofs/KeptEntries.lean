-- Containers that are cloned lose no entries. A clone lets new objects stand for
-- what it duplicates, each for one object only, and what is shared is older than
-- all of them; so keys that were apart stay apart, whatever else goes wrong in
-- the heap around them.
import DeepCopy.Proofs.Sharing
import DeepCopy.Proofs.Tours

namespace DeepCopy

/-- An object that is a container by its header, with its contents. -/
def Heap.Contains (h : Heap) (o : ObjectId) (c : Container) : Prop :=
  h.shape o = .container ∧ h.body o = .container c

/-! ## A clone as it grows -/

/-- A clone begun in `base`, as far as it has come: copies are new and all different, and where the
contents of a container have been put in, they are those of its source built anew. The copies of
`busy` are yet to be filled. -/
structure Stocked (s : Setting) (base : Run) (busy : ObjectId → Prop) (run : Run) : Prop where
  kept : Kept s (base.heap.size ≤ ·) base run
  copies : ∀ o v, run.copies.find? o = some v → ∃ t, v = .ref t ∧ s.fate base o = .copied ∧
    base.heap.size ≤ t ∧ t < run.heap.size
  injective : ∀ o o' v, run.copies.find? o = some v → run.copies.find? o' = some v → o = o'
  rebuilt : ∀ o t c, run.copies.find? o = some (.ref t) → ¬ busy t → base.heap.Contains o c →
    ∃ c', c.Rebuilt (Stands (s.fate base) run.copies) c' ∧ run.heap.body t = .container c'

namespace Stocked

variable {s : Setting} {base run run' : Run} {busy : ObjectId → Prop} {o t : ObjectId}

/-- Objects that were there are as they were. -/
theorem get_eq (h : Stocked s base busy run) (ho : o < base.heap.size) :
    run.heap.get o = base.heap.get o :=
  h.kept.heap.get_eq ho (Nat.not_le.mpr ho)

theorem body_eq (h : Stocked s base busy run) (ho : o < base.heap.size) :
    run.heap.body o = base.heap.body o := congrArg Object.body (h.get_eq ho)

/-- A step that only finds something out. -/
theorem of_kept (h : Stocked s base busy run) (hk : Kept s (base.heap.size ≤ ·) run run')
    (hmem : run'.memory = run.memory) (hc : run'.copies = run.copies) :
    Stocked s base busy run' := by
  have hheap : run'.heap = run.heap := congrArg Memory.heap hmem
  refine ⟨h.kept.trans hk, ?_, ?_, ?_⟩
  · rw [hc, hheap]
    exact h.copies
  · rw [hc]
    exact h.injective
  · rw [hc, hheap]
    exact h.rebuilt

/-- A step that writes to a copy that is being filled. -/
theorem touched (h : Stocked s base busy run) (hb : busy t) (hle : base.heap.size ≤ t)
    {memory : Memory} (ht : Touched t run.heap memory.heap) :
    Stocked s base busy { run with memory } := by
  have hs : Spared (· = t) run.heap memory.heap := Spared.of_touched ht rfl
  refine ⟨h.kept.trans (Kept.of_memory (Spared.of_touched ht hle)), ?_, h.injective, ?_⟩
  · intro o v hv
    obtain ⟨t', hv', hf, hle', hlt⟩ := h.copies o v hv
    exact ⟨t', hv', hf, hle', Nat.lt_of_lt_of_le hlt hs.size_le⟩
  · intro o t' c hf hnb hc
    obtain ⟨t'', ht'', -, -, hlt⟩ := h.copies o _ hf
    cases ht''
    have hne : ¬ t' = t := fun heq => hnb (heq ▸ hb)
    show ∃ c', c.Rebuilt (Stands (s.fate base) run.copies) c' ∧ memory.heap.body t' = .container c'
    rw [hs.body_eq t' hlt hne]
    exact h.rebuilt o t' c hf hnb hc

/-- The next object will be behind all copies, so no object has it. -/
theorem find?_ne_next (h : Stocked s base busy run) (o : ObjectId) :
    run.copies.find? o ≠ some (.ref run.heap.size) := by
  intro hf
  obtain ⟨t, ht, -, -, hlt⟩ := h.copies o _ hf
  cases ht
  exact absurd hlt (Nat.lt_irrefl _)

/-- A step that makes an object and lets it stand for another, to be filled later. -/
theorem made (h : Stocked s base busy run) {x : Object} {memory : Memory}
    (hadd : memory.heap = run.heap.add x) (hf : s.fate base o = .copied)
    (hnew : run.copies.find? o = none) :
    Stocked s base (fun t => busy t ∨ t = run.heap.size)
      { run with memory, copies := run.copies.put o (.ref run.heap.size) } := by
  have hs : Spared (fun _ => False) run.heap memory.heap := hadd ▸ Spared.of_add _
  have hsize : memory.heap.size = run.heap.size + 1 := by rw [hadd, Heap.size_add]
  have hmem : Kept s (base.heap.size ≤ ·) run { run with memory } := Kept.of_memory
    (hs.mono fun _ _ h => h.elim)
  have hreg : Kept s (base.heap.size ≤ ·) run
      { run with memory, copies := run.copies.put o (.ref run.heap.size) } :=
    hmem.trans (Kept.of_register _ hnew)
  refine ⟨h.kept.trans hreg, ?_, ?_, ?_⟩
  · intro o' v hv
    by_cases ho : o' = o
    · subst ho
      rw [Copies.find?_put] at hv
      cases hv
      refine ⟨_, rfl, hf, h.kept.heap.size_le, ?_⟩
      show run.heap.size < memory.heap.size
      omega
    · rw [Copies.find?_put_ne _ _ ho] at hv
      obtain ⟨t, hv', hf', hle, hlt⟩ := h.copies o' v hv
      exact ⟨t, hv', hf', hle, Nat.lt_of_lt_of_le hlt hs.size_le⟩
  · exact Copies.injective_put h.injective h.find?_ne_next o
  · intro o' t c hfind hnb hc
    have hne : o' ≠ o := by
      rintro rfl
      rw [Copies.find?_put] at hfind
      cases hfind
      exact hnb (Or.inr rfl)
    rw [Copies.find?_put_ne _ _ hne] at hfind
    obtain ⟨t', ht', -, -, hlt⟩ := h.copies o' _ hfind
    cases ht'
    obtain ⟨c', hr, hb⟩ := h.rebuilt o' t c hfind (fun h => hnb (Or.inl h)) hc
    exact ⟨c', hr.mono fun v w => Stands.mono hreg.copies, (hs.body_eq t hlt (by simp)).trans hb⟩

/-- A copy that was filled is no longer one to be filled. -/
theorem finish (h : Stocked s base (fun x => busy x ∨ x = t) run)
    (hf : run.copies.find? o = some (.ref t))
    (hc : ∀ c, base.heap.Contains o c → ∃ c', c.Rebuilt (Stands (s.fate base) run.copies) c' ∧
      run.heap.body t = .container c') : Stocked s base busy run := by
  refine ⟨h.kept, h.copies, h.injective, ?_⟩
  intro o' t' c hf' hnb hcon
  -- A copy is that of one object only, so the one that was filled is the copy of `o`.
  by_cases ht : t' = t
  · subst ht
    cases h.injective o o' _ hf hf'
    exact hc c hcon
  · exact h.rebuilt o' t' c hf' (fun h => h.elim hnb ht) hcon

end Stocked

namespace Setting

open CloneM Invariant

/-- A clone that goes well stays in order, and what comes out for a value stands for it. -/
def stocking (s : Setting) (base : Run) (busy : ObjectId → Prop) : Invariant :=
  standing (s.fate base) base.heap.Has (Stocked s base busy)

variable {s : Setting} {base run : Run} {busy : ObjectId → Prop}
  {nested : Value → CloneM Value} {source target : ObjectId}

theorem receives_stocking (hb : busy target) (hle : base.heap.size ≤ target) :
    (s.stocking base busy).Receives target :=
  receives_standing fun _ _ h ht _ => h.touched hb hle ht

/-! ## Duplicates -/

/-- If the source is a container, the copy holds its contents built anew. -/
def Restocked (s : Setting) (base : Run) (source target : ObjectId) (run : Run) : Prop :=
  ∀ c, base.heap.Contains source c → ∃ c', c.Rebuilt (Stands (s.fate base) run.copies) c' ∧
    run.heap.body target = .container c'

section Duplicating

variable (hf : s.fate base source = .copied) (new : run.copies.find? source = none)
include hf new

/-- An object is made, stands for its source from then on, and is filled. -/
theorem stocking_makeCopy {make : CopyM ObjectId} {fill : ObjectId → CloneM Unit}
    (hmake : MakesNext run.memory make)
    (hfill : ∀ target run₁, base.heap.size ≤ target →
      Stocked s base (fun t => busy t ∨ t = target) run₁ →
      run₁.copies.find? source = some (.ref target) →
      Yields (fill target) run₁ fun _ run₂ => Stocked s base (fun t => busy t ∨ t = target) run₂ ∧
        run₁.copies.Within run₂.copies ∧ s.Restocked base source target run₂) :
    (s.stocking base busy).Maintains (makeCopy register source make fill) run fun w run' =>
      run'.copies.find? source = some w := by
  refine standing_makeCopy (M := fun target run₁ => base.heap.size ≤ target ∧
    Stocked s base (fun t => busy t ∨ t = target) run₁) new (fun h => ?_) ?_
  · refine ends_mono hmake ?_ fun _ _ _ => trivial
    rintro _ m ⟨rfl, x, hm⟩
    exact ⟨h.kept.heap.size_le, h.made hm hf new⟩
  · rintro target run₁ ⟨hle, h₁⟩ hfound
    refine Yields.mono (hfill target run₁ hle h₁ hfound) ?_
    rintro _ run₂ ⟨h₂, hc₂, hr⟩
    exact ⟨h₂.finish (hc₂ source _ hfound) hr, hc₂⟩

/-- What is made of an object that is no container holds no contents. -/
theorem stocking_makeCopy_bare {make : CopyM ObjectId} {fill : ObjectId → CloneM Unit}
    (hshape : base.heap.shape source ≠ .container) (hmake : MakesNext run.memory make)
    (hfill : ∀ target run₁, (s.stocking base fun t => busy t ∨ t = target).Receives target →
      (s.stocking base fun t => busy t ∨ t = target).Maintains (fill target) run₁
        fun _ _ => True) :
    (s.stocking base busy).Maintains (makeCopy register source make fill) run fun w run' =>
      run'.copies.find? source = some w := by
  refine stocking_makeCopy hf new hmake fun target run₁ hle h₁ _ => ?_
  refine ends_mono (hfill target run₁ (receives_stocking (Or.inr rfl) hle) h₁) ?_ fun _ _ h => h
  rintro _ run₂ ⟨⟨h₂, hc₂⟩, -⟩
  exact ⟨h₂, hc₂, fun c hcon => absurd hcon.1 hshape⟩

variable (hc : base.heap.Closed) (hn : ∀ busy, (s.stocking base busy).Clones nested)
  (hs : source < base.heap.size)
include hc hn hs

theorem stocking_duplicateSlots (hshape : base.heap.shape source ≠ .container) :
    (s.stocking base busy).Maintains (s.duplicateSlots nested source) run fun w run' =>
      run'.copies.find? source = some w := by
  refine maintains_duplicateSlots fun items hbody h => ?_
  rw [h.body_eq hs] at hbody
  have hhas : ∀ v ∈ items, base.heap.Has v := fun v hv => hc source hs v (hbody ▸ hv)
  refine stocking_makeCopy_bare hf new hshape (makesNext_allocateSlots s.backend _ _ _)
    (fun target run₁ hr => ?_) h
  exact (maintains_cloneElements (hn _) (fun run index _ w _ =>
    hr (s.backend.writesTo_writeElement target index w) run) hhas 0).mono fun _ _ _ _ _ => trivial

theorem stocking_duplicateRecord (hshape : base.heap.shape source ≠ .container) (p : Plan) :
    (s.stocking base busy).Maintains (makeCopy register source (s.backend.allocate p) fun target =>
      s.copyFields nested source target p) run fun w run' => run'.copies.find? source = some w := by
  refine stocking_makeCopy_bare hf new hshape (makesNext_allocate s.backend _ p)
    fun target run₁ hr => ?_
  refine (maintains_copyFields (hn _) (follows_none _ s source) hr
    fun f _ run₂ v h₂ _ _ hv => ?_).mono fun _ _ _ _ _ => trivial
  rintro o rfl
  have hbody : run₂.heap.body source = base.heap.body source := h₂.body_eq hs
  rw [hbody] at hv
  exact hc source hs _ (Field.mem_values_of_readFrom hv) o rfl

theorem stocking_duplicateContainer :
    (s.stocking base busy).Maintains (s.duplicateContainer nested source) run fun w run' =>
      run'.copies.find? source = some w := by
  refine maintains_duplicateContainer (P := fun _ run₁ => run₁.copies = run.copies) (fun h => ?_)
    fun p run₁ contents _ hcopies hx h₁ => ?_
  · refine ends_mono (ends_plan_finds (A := (· = .containers)) _) ?_ fun _ _ _ => trivial
    rintro p run₁ ⟨hfinds, -⟩
    exact ⟨⟨h.of_kept (.of_finds hfinds) hfinds.memory hfinds.copies, hfinds.copies ▸ .refl _⟩,
      hfinds.copies⟩
  · rw [h₁.body_eq hs] at hx
    refine stocking_makeCopy hf (hcopies ▸ new) (makesNext_allocate s.backend _ p)
      (fun target run₂ hle h₂ hfound => ?_) h₁
    have hvalues : ∀ v ∈ contents.values, base.heap.Has v := by
      intro v hv
      refine hc source hs v ?_
      rw [hx]
      exact hv
    rw [Yields, ends_bind]
    refine ends_mono (maintains_cloneContents (hn _) hvalues h₂) ?_ fun _ _ h => h
    rintro contents' run₃ ⟨⟨h₃, hc₃⟩, hr⟩
    -- Cloning the entries may have made objects, but the copy is still there to be filled.
    obtain ⟨t, ht, -, -, hlt⟩ := h₃.copies source _ (hc₃ source _ hfound)
    cases ht
    unfold setContents
    rw [ends_onMemory]
    refine (Yields.and_ends (Backend.yields_setContents p _ contents')
      (Backend.ends_setContents p _ contents')).mono ?_
    rintro _ memory ⟨hset, htouch⟩
    refine ⟨h₃.touched (Or.inr rfl) hle htouch, hc₃, ?_⟩
    rintro c ⟨-, hcon⟩
    cases hx.symm.trans hcon
    refine ⟨contents', hr, ?_⟩
    show memory.heap.body target = _
    rw [hset]
    exact Heap.body_setBody hlt _

theorem stocking_duplicate (p : Plan) :
    (s.stocking base busy).Maintains (s.duplicate nested source p) run fun w run' =>
      run'.copies.find? source = some w := by
  intro h
  have hshape : run.heap.shape source = base.heap.shape source :=
    congrArg Object.shape (h.get_eq hs)
  refine maintains_duplicate (fun hx => ?_) (fun hx => ?_) (fun _ => ?_) (fun hx => ?_) h
  · exact stocking_makeCopy_bare hf new (by simp [← hshape, hx])
      (makesNext_duplicatePacked s.backend _ source) fun _ _ _ => maintains_pure trivial
  · exact stocking_duplicateSlots hf new hc hn hs (by simp [← hshape, hx])
  · exact stocking_duplicateContainer hf new hc hn hs
  · exact stocking_duplicateRecord hf new hc hn hs (by simp [← hshape, hx]) p

end Duplicating

/-- The clone of a value is in order, however deep it goes. -/
theorem stocking_cloneValue (ht : s.Tame base) (hoff : s.policy.flags.useSelfCopy = false)
    (hc : base.heap.Closed) (depth : Nat) (busy : ObjectId → Prop) :
    (s.stocking base busy).Clones (cloneValue s depth) := by
  refine clones_standing (G := Stocked s base) ?_ ?_ depth busy
  · intro busy run o w h hfind
    obtain ⟨-, -, hf, -⟩ := h.copies o w hfind
    exact hf
  · intro depth hn busy run o hv new h
    refine standing_cloneNew ((h.kept.tame ht).toBuiltIn.employs o) h.kept (hv o rfl)
      (fun run' hf h => h.of_kept (.of_finds hf) hf.memory hf.copies) ?_ ?_ ?_ h
    · intro hon
      -- No class copies itself where that is switched off.
      rw [hoff] at hon
      cases hon
    · exact fun hf run' hfound =>
        stocking_duplicateContainer hf (hfound.copies ▸ new) hc hn (hv o rfl)
    · exact fun hf p run' hfound _ =>
        stocking_duplicate hf (hfound.copies ▸ new) hc hn (hv o rfl) p

/-! ## The whole clone -/

theorem stocked_begun (s : Setting) (run : Run) :
    Stocked s (begun run) (fun _ => False) (begun run) := by
  have none := find?_begun run
  exact ⟨Kept.refl _, fun o v hv => (none o v hv).elim, fun o _ v hv => (none o v hv).elim,
    fun o _ _ hv => (none o _ hv).elim⟩

section Ended

variable (h : Stocked s base (fun _ => False) run)
include h

theorem exists_ref_of_stocked {o : ObjectId} {w : Value} (hw : run.copies.find? o = some w) :
    ∃ t, w = .ref t ∧ base.heap.size ≤ t ∧ t < run.heap.size := by
  obtain ⟨t, ht, -, hrest⟩ := h.copies o w hw
  exact ⟨t, ht, hrest⟩

theorem image_of_stocked (v w : Value) (hw : Stands (s.fate base) run.copies v w) :
    w = Fate.image (s.fate base) (copyIn run.copies) v := by
  refine image_of_stands (fun o w hw => ?_) hw
  obtain ⟨t, ht, -⟩ := exists_ref_of_stocked h hw
  exact ⟨t, ht⟩

/-- Copies are behind all that was there. -/
theorem le_copyIn_of_stocked (o : ObjectId) (ho : ∃ t, run.copies.find? o = some (.ref t)) :
    base.heap.size ≤ copyIn run.copies o := by
  obtain ⟨t, ht⟩ := ho
  obtain ⟨t', ht', hle, -⟩ := exists_ref_of_stocked h ht
  cases ht'
  rw [copyIn_of_find? ht]
  exact hle

theorem copyIn_inj_of_stocked (o o' : ObjectId) (ho : ∃ t, run.copies.find? o = some (.ref t))
    (ho' : ∃ t, run.copies.find? o' = some (.ref t))
    (heq : copyIn run.copies o = copyIn run.copies o') : o = o' := by
  obtain ⟨t, ht⟩ := ho
  obtain ⟨t', ht'⟩ := ho'
  rw [copyIn_of_find? ht, copyIn_of_find? ht'] at heq
  subst heq
  exact h.injective o o' _ ht ht'

/-- When nothing is left to be filled, the copy of a container has the entries of its source in
their places. -/
theorem entries_of_stocked (hc : base.heap.Closed) {o t : ObjectId} (ho : o < base.heap.size)
    {c : Container} (hcon : base.heap.Contains o c) (hproper : c.Proper)
    (hnulled : ∀ k ∈ c.keys, ∀ o', k.value = .ref o' → s.fate base o' ≠ .nulled)
    (hfind : run.copies.find? o = some (.ref t)) :
    ∃ g, (∀ v ∈ c.values, Stands (s.fate base) run.copies v (g v)) ∧
      run.heap.body t = .container (c.mapValues g) := by
  obtain ⟨c', hrebuilt, hbody⟩ := h.rebuilt o t c hfind id hcon
  have hstands : ∀ v ∈ c.values,
      Stands (s.fate base) run.copies v (Fate.image (s.fate base) (copyIn run.copies) v) := by
    intro v hv
    obtain ⟨w, hw⟩ := Container.exists_of_rebuilt hrebuilt v hv
    rw [← image_of_stocked h v w hw]
    exact hw
  have hkey : ∀ k ∈ c.keys, ∀ o', k.value = .ref o' → o' < base.heap.size ∧
      s.fate base o' ≠ .nulled ∧
      (s.fate base o' = .copied → ∃ t, run.copies.find? o' = some (.ref t)) := by
    intro k hk o' ho'
    have hmem : k.value ∈ c.values := c.value_mem_values hk
    refine ⟨hc o ho k.value (hcon.2 ▸ hmem) o' ho', hnulled k hk o' ho', fun hcopied => ?_⟩
    have hfound := (stands_of_copied hcopied).mp (ho' ▸ hstands _ hmem)
    obtain ⟨t', ht', -⟩ := exists_ref_of_stocked h hfound
    exact ⟨t', hfound.trans (congrArg some ht')⟩
  -- What stands for the keys tells them apart, so none falls on another when they are put in.
  refine ⟨_, hstands, ?_⟩
  rw [hbody, eq_mapValues_of_copied (copyIn_inj_of_stocked h) (le_copyIn_of_stocked h) hproper
    hkey (hrebuilt.mono (image_of_stocked h))]

end Ended

/-- What a clone of `v` with the result `r` makes of containers. -/
structure EntriesKept (s : Setting) (run run' : Run) (v r : Value) : Prop where
  result : Stands (s.fate run) run'.copies v r
  /-- A copy is a new object, and that of one object only. -/
  new : ∀ o w, run'.copies.find? o = some w →
    ∃ t, w = .ref t ∧ run.heap.size ≤ t ∧ t < run'.heap.size
  injective : ∀ o o' w, run'.copies.find? o = some w → run'.copies.find? o' = some w → o = o'
  /-- Each entry of a container that has a copy is found there in its place, with what stands for
  its key and what stands for its value. -/
  entries : ∀ o < run.heap.size, ∀ c, run.heap.Contains o c → c.Proper →
    (∀ k ∈ c.keys, ∀ o', k.value = .ref o' → s.fate run o' ≠ .nulled) →
    ∀ t, run'.copies.find? o = some (.ref t) →
      ∃ g, (∀ v ∈ c.values, Stands (s.fate run) run'.copies v (g v)) ∧
        run'.heap.body t = .container (c.mapValues g)
  /-- What was there is as it was. -/
  old : ∀ o < run.heap.size, run'.heap.get o = run.heap.get o

/-- When a clone has gone well, nothing is left to be filled, and what came out stands for the
value. -/
theorem stocked_of_clone {s : Setting} {run run' : Run} {v r : Value} (ht : s.Tame run)
    (hoff : s.policy.flags.useSelfCopy = false) (hc : run.heap.Closed) (hv : run.heap.Has v)
    (h : s.clone v run = .ok r run') :
    Stocked s (begun run) (fun _ => False) run' ∧ Stands (s.fate run) run'.copies v r := by
  have ht' : s.Tame (begun run) := ⟨⟨ht.overrides, ht.named, ht.resolved⟩, ht.methods⟩
  have hpost := yields_of_ok (yields_clone_standing
    (fun depth => stocking_cloneValue ht' hoff hc depth _) (stocked_begun s run) hv) h
  exact hpost

/-- A container that is cloned keeps its entries, in their order, if none of its keys turns into
null: keys that are different objects or values come out different, be they duplicated or shared,
met before or met again on the way down. -/
theorem a_cloned_container_keeps_its_entries {s : Setting} {run run' : Run} {v r : Value}
    (ht : s.Tame run) (hoff : s.policy.flags.useSelfCopy = false) (hc : run.heap.Closed)
    (hv : run.heap.Has v) (h : s.clone v run = .ok r run') : EntriesKept s run run' v r := by
  obtain ⟨hm, hresult⟩ := stocked_of_clone ht hoff hc hv h
  refine ⟨hresult, fun o w => exists_ref_of_stocked hm, hm.injective, ?_, fun o => hm.get_eq⟩
  intro o ho c hcon hproper hnulled t hfind
  exact entries_of_stocked hm hc ho hcon hproper hnulled hfind

/-- A portable cloner that shares the object 2. -/
def mixedSetting : Setting where
  registry := Registry.initial.add ringNode
  backend := .portable (Registry.initial.add ringNode)
  policy := Policy.standard.addImmutableObject 2

/-- Keys of all sorts: the map itself, an object to be copied, one to be shared, no number, and
both zeros. -/
def mixedMap : Container :=
  .hashMap [(.ref 0, .ref 1), (.ref 1, .ref 0), (.ref 2, .null),
    (.bits 0x7ff8000000000000, .ref 2), (.bits 0, .int 1), (.bits 0x8000000000000000, .ref 1)]

/-- A map with itself and two instances that refer to it. -/
def mixedRun : Run where
  memory := { heap := ⟨#[Object.new (Registry.containerClass .hashMap) (.container mixedMap),
    Object.new 12 (.record [1, 0, 0, 0] [.ref 0]), Object.new 12 (.record [2, 0, 0, 0] [.ref 0])]⟩ }

theorem mixed_is_cloned : ∃ run', mixedSetting.clone (.ref 0) mixedRun = .ok (.ref 3) run' ∧
    run'.copies.find? 0 = some (.ref 3) := by
  obtain ⟨r, run', h, hseen⟩ : ∃ r run', mixedSetting.clone (.ref 0) mixedRun = .ok r run' ∧
      (r, run'.copies.find? 0) = (.ref 3, some (.ref 3)) :=
    exists_of_peek? (by decide +kernel)
  obtain ⟨rfl, hfind⟩ := Prod.mk.inj hseen
  exact ⟨run', h, hfind⟩

theorem a_map_with_itself_as_a_key_keeps_its_entries :
    ∃ run' g, mixedSetting.clone (.ref 0) mixedRun = .ok (.ref 3) run' ∧
      (∀ v ∈ mixedMap.values, Stands (mixedSetting.fate mixedRun) run'.copies v (g v)) ∧
      run'.heap.body 3 = .container (mixedMap.mapValues g) := by
  obtain ⟨run', h, hfind⟩ := mixed_is_cloned
  have ht : mixedSetting.Tame mixedRun := by
    refine ⟨⟨?_, ?_, ?_⟩, ?_⟩
    · intro _ cls i hi
      exact Policy.standard_override hi
    · intro _ _ _ maker _ _ hm
      exact Catalog.initial_maker hm
    · intro cls i hi
      cases hi
    · intro hf
      cases hf
  have hclosed : mixedRun.heap.Closed := by
    intro o ho v hv o' ho'
    subst ho'
    have hall : ∀ o < 3, ∀ v ∈ (mixedRun.heap.body o).values,
        v.object?.all (· < mixedRun.heap.size) = true := by decide
    simpa [Value.object?] using hall o ho _ hv
  have hhas : mixedRun.heap.Has (.ref 0) := by
    intro o ho
    cases ho
    decide
  have hkept := a_cloned_container_keeps_its_entries ht rfl hclosed hhas h
  have hnulled : ∀ k ∈ mixedMap.keys, ∀ o', k.value = .ref o' →
      mixedSetting.fate mixedRun o' ≠ .nulled := by
    intro k hk o' ho'
    have hall : ∀ k ∈ mixedMap.keys,
        k.value.object?.all (fun o => mixedSetting.fate mixedRun o ≠ .nulled) = true := by
      decide
    simpa [ho', Value.object?] using hall k hk
  obtain ⟨g, hg, hbody⟩ := hkept.entries 0 (by decide) mixedMap ⟨rfl, rfl⟩
    ⟨by decide, trivial⟩ hnulled 3 hfind
  exact ⟨run', g, h, hg, hbody⟩

/-- The same cloner with a policy that turns maps into null. -/
def mapsNulled : Setting :=
  { mixedSetting with policy := Policy.standard.addNulled (Registry.containerClass .hashMap) }

/-- The same cloner with a policy that shares maps. -/
def mapsShared : Setting :=
  { mixedSetting with policy := Policy.standard.addImmutable (Registry.containerClass .hashMap) }

/-- A map with one key, an instance that holds nothing. -/
def plainRun : Run where
  memory := { heap := ⟨#[
    Object.new (Registry.containerClass .hashMap) (.container (.hashMap [(.ref 1, .int 2)])),
    Object.new 12 (.record [1, 0, 0, 0] [.null])]⟩ }

/-- What a clone answers with. -/
def answerOf (s : Setting) (v : Value) (run : Run) : Option Value :=
  match s.clone v run with
  | .ok r _ => some r
  | .error _ _ => none

/-- A map that the rules turn into null has no entries left, and one that they share has the keys of
the source and not their copies, though a key is copied by itself. -/
theorem a_map_may_be_nulled_or_shared :
    mapsNulled.policy.nullsClass (plainRun.heap.cls 1) = false ∧
      mapsNulled.answerOf (.ref 0) plainRun = some .null ∧
    mapsShared.policy.nullsClass (plainRun.heap.cls 1) = false ∧
      mapsShared.answerOf (.ref 0) plainRun = some (.ref 0) ∧
      mapsShared.answerOf (.ref 1) plainRun = some (.ref 2) := by
  decide +kernel

end Setting

end DeepCopy
