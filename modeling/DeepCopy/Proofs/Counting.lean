-- Clones and counters. An allocator's tally accounts for all that its calls have
-- made, and a deep clone by the portable backend makes one object for each that
-- it duplicates: its tally grows by what those count for, each once, however
-- often they are met.
import DeepCopy.Proofs.Facades
import DeepCopy.Proofs.Tallies
import DeepCopy.Proofs.Termination

namespace DeepCopy

/-- The objects before a bound for which a value stands. -/
def Copies.sources (copies : Copies) (bound : Nat) : Finset ObjectId :=
  (Finset.range bound).filter fun o => copies.has o

theorem Copies.mem_sources {copies : Copies} {bound : Nat} {o : ObjectId} :
    o ∈ copies.sources bound ↔ o < bound ∧ ∃ w, copies.find? o = some w := by
  rw [sources, Finset.mem_filter, Finset.mem_range, has, Option.isSome_iff_exists]

theorem Copies.sources_put {copies : Copies} {bound : Nat} {o : ObjectId} (ho : o < bound)
    (w : Value) : (copies.put o w).sources bound = insert o (copies.sources bound) := by
  ext o'
  rw [Finset.mem_insert, mem_sources, mem_sources]
  by_cases heq : o' = o
  · subst heq
    simp [ho]
  · simp [heq, find?_put_ne copies w heq]

/-! ## A clone as it grows -/

/-- A clone of `root`, begun in `base`, as far as it has come: what has a copy is to be duplicated,
and the tally has grown by what these objects count for. Something stands for all that is met in
them, but for those of `busy`, which are not done. -/
structure Accounted (s : Setting) (base : Run) (root : Value) (busy : ObjectId → Prop) (run : Run) :
    Prop where
  kept : Kept s (base.heap.size ≤ ·) base run
  copies : ∀ o w, run.copies.find? o = some w → s.Duplicates base.heap (s.fate base) root o
  tally : run.memory.tally = base.memory.tally +
    ∑ o ∈ run.copies.sources base.heap.size, (base.heap.body o).counted
  met : ∀ o w, run.copies.find? o = some w → ¬ busy o → ∀ o', s.Follows base.heap o (.ref o') →
    ∃ w', Stands (s.fate base) run.copies (.ref o') w'

namespace Accounted

variable {s : Setting} {base run run' : Run} {root : Value} {busy : ObjectId → Prop} {o : ObjectId}

theorem get_eq (h : Accounted s base root busy run) (ho : o < base.heap.size) :
    run.heap.get o = base.heap.get o :=
  h.kept.heap.get_eq ho (Nat.not_le.mpr ho)

theorem body_eq (h : Accounted s base root busy run) (ho : o < base.heap.size) :
    run.heap.body o = base.heap.body o := congrArg Object.body (h.get_eq ho)

/-- A step that makes nothing and registers nothing. -/
theorem of_kept (h : Accounted s base root busy run) (hk : Kept s (base.heap.size ≤ ·) run run')
    (ht : run'.memory.tally = run.memory.tally) (hc : run'.copies = run.copies) :
    Accounted s base root busy run' := by
  refine ⟨h.kept.trans hk, ?_, ?_, ?_⟩
  · rw [hc]
    exact h.copies
  · rw [hc, ht]
    exact h.tally
  · rw [hc]
    exact h.met

/-- A step that makes an object, counts it for as much as its source, and lets it stand for that. -/
theorem made (h : Accounted s base root busy run) (ho : o < base.heap.size)
    (hd : s.Duplicates base.heap (s.fate base) root o) (hnew : run.copies.find? o = none)
    {x : Object} {memory : Memory} (hadd : memory.heap = run.heap.add x)
    (ht : memory.tally = run.memory.tally + (base.heap.body o).counted) :
    Accounted s base root (fun o' => busy o' ∨ o' = o)
      { run with memory, copies := run.copies.put o (.ref run.heap.size) } := by
  have hs : Spared (base.heap.size ≤ ·) run.heap memory.heap := hadd ▸ Spared.of_add _
  have hmem : Kept s (base.heap.size ≤ ·) run { run with memory } := Kept.of_memory hs
  have hreg : Kept s (base.heap.size ≤ ·) run
      { run with memory, copies := run.copies.put o (.ref run.heap.size) } :=
    hmem.trans (Kept.of_register _ hnew)
  refine ⟨h.kept.trans hreg, ?_, ?_, ?_⟩
  · intro o' w hw
    by_cases heq : o' = o
    · exact heq ▸ hd
    · rw [Copies.find?_put_ne _ _ heq] at hw
      exact h.copies o' w hw
  · have hnot : o ∉ run.copies.sources base.heap.size := by
      rw [Copies.mem_sources, hnew]
      simp
    rw [ht, h.tally, Copies.sources_put ho, Finset.sum_insert hnot, add_assoc,
      add_comm (Finset.sum _ _)]
  · intro o' w hw hnb o'' hf
    have hne : o' ≠ o := fun heq => hnb (Or.inr heq)
    rw [Copies.find?_put_ne _ _ hne] at hw
    obtain ⟨w', hw'⟩ := h.met o' w hw (fun hb => hnb (Or.inl hb)) o'' hf
    exact ⟨w', hw'.mono hreg.copies⟩

/-- Something stands for all that is met in an object, so it is done. -/
theorem finish (h : Accounted s base root (fun o' => busy o' ∨ o' = o) run)
    (hmet : ∀ o', s.Follows base.heap o (.ref o') →
      ∃ w, Stands (s.fate base) run.copies (.ref o') w) :
    Accounted s base root busy run := by
  refine ⟨h.kept, h.copies, h.tally, ?_⟩
  intro o' w hw hnb
  by_cases heq : o' = o
  · subst heq
    exact hmet
  · exact h.met o' w hw fun hb => hb.elim hnb heq

end Accounted

/-! ## New objects are counted -/

theorem Body.counted_of_sized {b : Body} {blockSize slotCount : Nat}
    (h : b.Sized blockSize slotCount) : (bareRecord blockSize slotCount).counted = b.counted := by
  cases b with
  | record block refs =>
    obtain ⟨hblock, hrefs⟩ := h
    rw [counted_bareRecord, counted, hblock, hrefs]
  | _ => exact h.elim

namespace Backend

variable {r : Registry} {m m' : Memory} {source : ObjectId}

/-- If an object was made and counted, the tally has grown by what it counts for. -/
theorem Adds.tally_eq {cls : ClassId} {body : Body} {o : ObjectId} (ha : Adds cls body m o m')
    (ht : m.Tallies 1 m') : m'.tally = m.tally + body.counted := by
  obtain ⟨-, hheap⟩ := ha
  rcases ht.eq_or_eq_add with ⟨hsize, -⟩ | ⟨-, htally⟩
  · rw [hheap, Heap.size_add] at hsize
    omega
  · rw [htally, hheap, Heap.body, Heap.get_add_new]
    rfl

theorem tallies_allocating {cls : String} {x : MemoryM HeapError ObjectId}
    (hx : Counts id 1 x m) :
    Yields (CopyM.allocating cls x) m fun _ m' => m.Tallies 1 m' :=
  (ends_allocating cls x).mpr (ends_mono hx (fun _ _ h => h) fun _ _ _ => trivial)

theorem tallies_allocate (r : Registry) (p : Plan) :
    Yields ((portable r).allocate p) m fun _ m' => m.Tallies 1 m' :=
  tallies_allocating (Allocator.counts_allocate r p.cls)

theorem tallies_allocateSlots (r : Registry) (cls : ClassId) (length : Nat) :
    Yields ((portable r).allocateSlots cls length) m fun _ m' => m.Tallies 1 m' :=
  tallies_allocating (Allocator.counts_allocateArray r cls length)

/-- The bytes that a new array is filled with are counted already. -/
theorem tally_fillPacked (copy : ObjectId) (bytes : List UInt8) :
    Yields (fillPacked copy bytes) m fun _ m' => m'.tally = m.tally := by
  simp only [Yields, fillPacked, ends_bind, ends_get]
  split
  · split
    · rfl
    · trivial
  · rfl

theorem tally_duplicatePacked {e : Registry.Entry} (he : r.get? (m.heap.cls source) = some e)
    {kind : Primitive.Kind} {bytes : List UInt8} (hx : m.heap.body source = .packed kind bytes)
    (hk : e.decl.kind = .array (.primitive kind)) (hd : kind.width ∣ bytes.length) :
    Yields ((portable r).duplicatePacked source) m fun _ m' =>
      m'.tally = m.tally + (Body.packed kind bytes).counted := by
  have hlen : (Bytes.zeros (Packed.length kind bytes * kind.width)).length = bytes.length := by
    simp [Bytes.zeros, Packed.length, Nat.div_mul_cancel hd]
  simp only [Yields, duplicatePacked, ends_bind, ends_get, hx]
  have hadds := (ends_allocating (Q := Adds _ _ m) (E := fun _ _ => False)
    (r.className (m.heap.cls source)) _).mpr (adds_packed he hk (Packed.length kind bytes))
  refine Yields.mono ((tallies_allocating
    (Allocator.counts_allocateArray r _ _)).and_ends hadds) ?_
  rintro copy m₁ ⟨hcounted, hadded⟩
  refine Yields.mono (tally_fillPacked copy bytes) ?_
  intro _ m₂ htally
  rw [ends_pure, htally, hadded.tally_eq hcounted, Body.counted, Body.counted, hlen]

end Backend

namespace Setting

open CloneM Invariant

variable {s : Setting} {base run : Run} {root : Value} {busy : ObjectId → Prop}
  {nested : Value → CloneM Value} {source : ObjectId}

/-- There is one more object, and it was counted for as much as the source. -/
def Renders (base : Run) (source : ObjectId) (m : Memory) (target : ObjectId) (m' : Memory) :
    Prop :=
  target = m.heap.size ∧ (∃ x, m'.heap = m.heap.add x) ∧
    m'.tally = m.tally + (base.heap.body source).counted

theorem renders_of_adds {m : Memory} {cls : ClassId} {body : Body} {x : CopyM ObjectId}
    (ha : Succeeds x m (Backend.Adds cls body m)) (ht : Yields x m fun _ m' => m.Tallies 1 m')
    (hcount : body.counted = (base.heap.body source).counted) :
    Yields x m (Renders base source m) := by
  refine Yields.mono (ht.and_ends ha) ?_
  rintro target m' ⟨htallies, hadds⟩
  refine ⟨hadds.1, ⟨_, hadds.2⟩, ?_⟩
  rw [hadds.tally_eq htallies, hcount]

section Rendering

variable {e : Registry.Entry} {p : Plan} {m : Memory} (hb : s.backend = .portable s.registry)
  (he : s.registry.get? (base.heap.cls source) = some e)
  (ha : e.Admits base.heap (base.heap.body source))
include hb he ha

theorem renders_record (hp : p.Describes (base.heap.cls source) e)
    (hx : (base.heap.body source).shape = .record) :
    Yields (s.backend.allocate p) m (Renders base source m) := by
  obtain ⟨hk, hsized, -⟩ := ha.record hx
  rw [hb]
  exact renders_of_adds (Backend.adds_bare (Or.inr rfl) he hp hk)
    (Backend.tallies_allocate s.registry p) (Body.counted_of_sized hsized)

theorem renders_container (hp : p.Describes (base.heap.cls source) e) {c : Container}
    (hx : base.heap.body source = .container c) :
    Yields (s.backend.allocate p) m (Renders base source m) := by
  rw [hx] at ha
  rw [hb]
  refine renders_of_adds (Backend.adds_container (Or.inr rfl) he hp ha.container)
    (Backend.tallies_allocate s.registry p) ?_
  rw [hx]
  rfl

theorem renders_slots {items : List Value} (hx : base.heap.body source = .slots items) :
    Yields (s.backend.allocateSlots (base.heap.cls source) items.length) m
      (Renders base source m) := by
  rw [hx] at ha
  obtain ⟨c, hk⟩ := ha.slots
  rw [hb]
  refine renders_of_adds (Backend.adds_allocateSlots (Or.inr rfl) he hk items.length)
    (Backend.tallies_allocateSlots s.registry _ items.length) ?_
  simp [hx, Body.counted]

theorem renders_packed (hget : m.heap.get source = base.heap.get source) {kind : Primitive.Kind}
    {bytes : List UInt8} (hx : base.heap.body source = .packed kind bytes) :
    Yields (s.backend.duplicatePacked source) m (Renders base source m) := by
  have hcls : m.heap.cls source = base.heap.cls source := congrArg Object.cls hget
  have hbody : m.heap.body source = .packed kind bytes := (congrArg Object.body hget).trans hx
  rw [hx] at ha
  obtain ⟨hk, hd⟩ := ha.packed
  rw [hb]
  refine Yields.mono ((Backend.tally_duplicatePacked (hcls ▸ he) hbody hk hd).and_ends
    (Backend.adds_duplicatePacked (Or.inr rfl) he hcls hbody hk hd)) ?_
  rintro target m' ⟨htally, hadds⟩
  exact ⟨hadds.1, ⟨_, hadds.2⟩, hx ▸ htally⟩

end Rendering

/-! ## Duplicates -/

/-- A clone that goes well stays accounted for, and what comes out for a value stands for it. -/
def accounting (s : Setting) (base : Run) (root : Value) (busy : ObjectId → Prop) : Invariant :=
  standing (s.fate base) (s.Sought base root) (Accounted s base root busy)

theorem receives_accounting {target : ObjectId} (hle : base.heap.size ≤ target) :
    (s.accounting base root busy).Receives target :=
  receives_standing fun _ _ h htouch htally =>
    h.of_kept (Kept.of_memory (Spared.of_touched htouch hle)) htally rfl

section Duplicating

variable (hu : s.Unaided base root) (hd : s.Duplicates base.heap (s.fate base) root source)
  (new : run.copies.find? source = none)
include hu hd new

/-- An object is made, stands for its source from then on, and something is found for all that is
met in that. -/
theorem accounting_makeCopy {make : CopyM ObjectId} {fill : ObjectId → CloneM Unit}
    (hmake : Accounted s base root busy run →
      Yields make run.memory (Renders base source run.memory))
    (hfill : ∀ target run₁,
      (s.accounting base root fun o => busy o ∨ o = source).Receives target →
      (s.accounting base root fun o => busy o ∨ o = source).Maintains (fill target) run₁
        fun _ run₂ => ∀ o, s.Follows base.heap source (.ref o) →
          ∃ w, Stands (s.fate base) run₂.copies (.ref o) w) :
    (s.accounting base root busy).Maintains (makeCopy register source make fill) run fun w run' =>
      run'.copies.find? source = some w := by
  refine standing_makeCopy (M := fun target run₁ => base.heap.size ≤ target ∧
    Accounted s base root (fun o => busy o ∨ o = source) run₁) new (fun h => ?_) ?_
  · refine Yields.mono (hmake h) ?_
    rintro target m ⟨rfl, ⟨y, hheap⟩, htally⟩
    exact ⟨h.kept.heap.size_le, h.made (hu.lt_size hd) hd new hheap htally⟩
  · rintro target run₁ ⟨hle, h₁⟩ -
    refine ends_mono (hfill target run₁ (receives_accounting hle) h₁) ?_ fun _ _ h => h
    rintro _ run₂ ⟨⟨h₂, hc₂⟩, hmet⟩
    exact ⟨h₂.finish hmet, hc₂⟩

variable (hb : s.backend = .portable s.registry)
include hb

theorem accounting_duplicatePacked (hshape : base.heap.shape source = .packed) :
    (s.accounting base root busy).Maintains (makeCopy register source
      (s.backend.duplicatePacked source) fun _ => pure ()) run fun w run' =>
        run'.copies.find? source = some w := by
  have hlt := hu.lt_size hd
  obtain ⟨e, he, ha, -⟩ := hu.exists_entry hd
  obtain ⟨kind, bytes, hx⟩ := Body.exists_packed ((hu.heap.header source hlt).symm.trans hshape)
  refine accounting_makeCopy hu hd new (fun h => renders_packed hb he ha (h.get_eq hlt) hx)
    fun _ _ _ => maintains_pure fun o hf => ?_
  have hmem := hf.mem_values
  rw [hx] at hmem
  cases hmem

variable (hn : ∀ busy, (s.accounting base root busy).Clones nested)
include hn

theorem accounting_duplicateSlots :
    (s.accounting base root busy).Maintains (s.duplicateSlots nested source) run fun w run' =>
      run'.copies.find? source = some w := by
  have hlt := hu.lt_size hd
  obtain ⟨e, he, ha, -⟩ := hu.exists_entry hd
  refine maintains_duplicateSlots fun items hx h => ?_
  have hcls : run.heap.cls source = base.heap.cls source := congrArg Object.cls (h.get_eq hlt)
  rw [h.body_eq hlt] at hx
  rw [hcls]
  have hsought : ∀ v ∈ items, s.Sought base root v := fun v hv => hu.sought hd (.element hx hv)
  refine accounting_makeCopy hu hd new (fun _ => renders_slots hb he ha hx)
    (fun target run₁ hr => ?_) h
  refine (maintains_cloneElements (hn _) (fun run index _ w _ =>
    hr (s.backend.writesTo_writeElement target index w) run) hsought 0).mono ?_
  intro _ run₂ _ _ hmet o hf
  have hmem := hf.mem_values
  rw [hx] at hmem
  exact hmet _ hmem

theorem accounting_duplicateRecord {p : Plan} {e : Registry.Entry}
    (he : s.registry.get? (base.heap.cls source) = some e)
    (hp : p.Describes (base.heap.cls source) e) (hshape : base.heap.shape source = .record) :
    (s.accounting base root busy).Maintains (makeCopy register source (s.backend.allocate p)
      fun target => s.copyFields nested source target p) run fun w run' =>
        run'.copies.find? source = some w := by
  have hlt := hu.lt_size hd
  have hx := (hu.heap.header source hlt).symm.trans hshape
  obtain ⟨e', he', ha, -⟩ := hu.exists_entry hd
  cases he.symm.trans he'
  refine accounting_makeCopy hu hd new (fun _ => renders_record hb he ha hp hx)
    fun target run₁ hr => ?_
  have hreads : (s.accounting base root fun o => busy o ∨ o = source).Follows s source fun f v =>
      s.policy.resets f.marks = false ∧ f.type.category ≠ .primitive ∧
        f.toField.readFrom (base.heap.body source) = .ok v := by
    rintro f v ⟨hreset, hprim, hv⟩
    refine ⟨hreset, hprim, fun run₂ h₂ => ?_⟩
    rw [h₂.body_eq hlt]
    exact hv
  refine (maintains_copyFields (hn _) hreads hr fun f hf run₂ v h₂ hreset _ hv => ?_).mono ?_
  · rw [h₂.body_eq hlt] at hv
    exact hu.sought hd (.field he (hp.mem_layout hf) hreset hv)
  · intro _ run₂ _ _ hmet o hf
    cases hf with
    | element hslots _ =>
      rw [hslots] at hx
      cases hx
    | entry hcontainer _ =>
      rw [hcontainer] at hx
      cases hx
    | field he'' hfl hreset hv =>
      cases he.symm.trans he''
      rename_i f
      -- A field that refers to an object is no primitive, so it was cloned.
      have hprim : f.type.category ≠ .primitive := by
        intro hprim
        cases Field.object?_of_primitive (hu.registry.sound.layouts _ _ he) hfl hprim hv
      refine hmet { f with holder := e.decl.name } ?_ _ ⟨hreset, hprim, hv⟩
      rw [hp.fields_eq]
      exact List.mem_map_of_mem hfl

theorem accounting_duplicateContainer :
    (s.accounting base root busy).Maintains (s.duplicateContainer nested source) run fun w run' =>
      run'.copies.find? source = some w := by
  have hlt := hu.lt_size hd
  obtain ⟨e, he, ha, -⟩ := hu.exists_entry hd
  refine maintains_duplicateContainer (P := fun p run₁ => p.Describes (base.heap.cls source) e ∧
    run₁.copies = run.copies) (fun h => ?_) fun p run₁ contents _ hp hx h₁ => ?_
  · refine ends_mono (ends_plan_finds (A := (· = .containers)) _) ?_ fun _ _ _ => trivial
    rintro p run₁ ⟨hf, hplan⟩
    rw [h.kept.planOf, show run.heap.cls source = base.heap.cls source from
      congrArg Object.cls (h.get_eq hlt)] at hplan
    obtain ⟨e', he', hdesc⟩ := describes_of_planOf hu.plans hplan
    cases he.symm.trans he'
    exact ⟨⟨h.of_kept (.of_finds hf) (congrArg Memory.tally hf.memory) hf.copies,
      hf.copies ▸ .refl _⟩, hdesc, hf.copies⟩
  · rw [h₁.body_eq hlt] at hx
    refine accounting_makeCopy hu hd (hp.2 ▸ new) (fun _ => renders_container hb he ha hp.1 hx)
      (fun target run₂ hr => ?_) h₁
    have hsought : ∀ v ∈ contents.values, s.Sought base root v := fun v hv =>
      hu.sought hd (.entry hx hv)
    refine (maintains_cloneContents (hn _) hsought).bind fun contents' run₃ _ _ hrebuilt => ?_
    refine (hr (Backend.writesTo_setContents p target contents') run₃).mono ?_
    intro _ run₄ _ h₄ _ o hf
    have hmem := hf.mem_values
    rw [hx] at hmem
    obtain ⟨w, hw⟩ := Container.exists_of_rebuilt hrebuilt _ hmem
    exact ⟨w, gives _ h₄ hw⟩

theorem accounting_duplicate {p : Plan} {e : Registry.Entry}
    (he : s.registry.get? (base.heap.cls source) = some e)
    (hp : p.Describes (base.heap.cls source) e) :
    (s.accounting base root busy).Maintains (s.duplicate nested source p) run fun w run' =>
      run'.copies.find? source = some w := by
  intro h
  have hshape : run.heap.shape source = base.heap.shape source :=
    congrArg Object.shape (h.get_eq (hu.lt_size hd))
  refine maintains_duplicate (fun hx => ?_) (fun _ => ?_) (fun _ => ?_) (fun hx => ?_) h
  · exact accounting_duplicatePacked hu hd new hb (hshape ▸ hx)
  · exact accounting_duplicateSlots hu hd new hb hn
  · exact accounting_duplicateContainer hu hd new hb hn
  · exact accounting_duplicateRecord hu hd new hb hn he hp (hshape ▸ hx)

end Duplicating

/-- The clone of a value is accounted for, however deep it goes. -/
theorem accounting_cloneValue (hu : s.Unaided base root) (hb : s.backend = .portable s.registry)
    (depth : Nat) (busy : ObjectId → Prop) :
    (s.accounting base root busy).Clones (cloneValue s depth) := by
  refine clones_standing (G := Accounted s base root) ?_ ?_ depth busy
  · exact fun busy run o w h hfind => (h.copies o w hfind).fate_eq
  · intro depth hn busy run o hs new h
    obtain ⟨hlt, hd⟩ := hs o rfl
    refine standing_cloneNew (hu.employs h.kept hs) h.kept hlt (fun run' hf h =>
      h.of_kept (.of_finds hf) (congrArg Memory.tally hf.memory) hf.copies) ?_ ?_ ?_ h
    · intro hon
      rw [hu.native] at hon
      cases hon
    · exact fun hf run' hfound =>
        accounting_duplicateContainer hu (hd hf) (hfound.copies ▸ new) hb hn
    · intro hf p run' hfound hp
      obtain ⟨e, he, hdesc⟩ := describes_of_planOf hu.plans hp
      exact accounting_duplicate hu (hd hf) (hfound.copies ▸ new) hb hn he hdesc

/-! ## The whole clone -/

theorem accounted_begun (s : Setting) (run : Run) (root : Value) :
    Accounted s (begun run) root (fun _ => False) (begun run) := by
  have none := find?_begun run
  refine ⟨Kept.refl _, fun o w hw => (none o w hw).elim, ?_, fun o w hw => (none o w hw).elim⟩
  have hempty : (begun run).copies.sources (begun run).heap.size = ∅ := by
    rw [Finset.eq_empty_iff_forall_notMem]
    intro o ho
    obtain ⟨-, w, hw⟩ := Copies.mem_sources.mp ho
    exact none o w hw
  rw [hempty, Finset.sum_empty, add_zero]

/-- When nothing is left to be done, exactly the objects that were to be duplicated have copies. -/
theorem mem_sources_iff_duplicates (hu : s.Unaided base root)
    (h : Accounted s base root (fun _ => False) run) {r : Value}
    (hroot : Stands (s.fate base) run.copies root r) (o : ObjectId) :
    o ∈ run.copies.sources base.heap.size ↔ s.Duplicates base.heap (s.fate base) root o := by
  rw [Copies.mem_sources]
  constructor
  · rintro ⟨-, w, hw⟩
    exact h.copies o w hw
  · intro hd
    refine ⟨hu.lt_size hd, ?_⟩
    induction hd with
    | root hr hf =>
      subst hr
      exact ⟨r, (stands_of_copied hf).mp hroot⟩
    | follow _ hfollow hf ih =>
      obtain ⟨w, hw⟩ := ih
      obtain ⟨w', hw'⟩ := h.met _ w hw id _ hfollow
      exact ⟨w', (stands_of_copied hf).mp hw'⟩

/-- From the one tally to the other all objects were counted that a clone of a value duplicates,
each once. -/
def CountsDuplicates (s : Setting) (run : Run) (v : Value) (tally tally' : Tally) : Prop :=
  ∃ duplicated : Finset ObjectId,
    (∀ o, o ∈ duplicated ↔ s.Duplicates run.heap (s.fate run) v o) ∧
    tally' = tally + ∑ o ∈ duplicated, (run.heap.body o).counted

theorem countsDuplicates_clone {run' : Run} {v r : Value} (hu : s.Unaided run v)
    (hb : s.backend = .portable s.registry) (h : s.clone v run = .ok r run') :
    s.CountsDuplicates run v run.memory.tally run'.memory.tally := by
  obtain ⟨h', hw⟩ := yields_of_ok (yields_clone_standing
    (fun depth => accounting_cloneValue hu.afresh hb depth _) (accounted_begun s run v)
    hu.afresh.sought_root) h
  have hiff := mem_sources_iff_duplicates hu.afresh h' hw
  exact ⟨_, hiff, h'.tally⟩

end Setting

namespace Workbench

variable {w w' : Workbench} {name : String} {c : Cloner} {i : Nat} {v r : Value}

/-- A portable backend keeps the tally that a clone has left. -/
theorem backendTally_keepRun (hp : c.portable = some i) (hi : i < w.portables.size) (run : Run)
    (name : String) : (keepRun name c run w).backendTally (some i) = run.memory.tally := by
  unfold keepRun keepMemory
  simp [hp, backendTally, portableStore, Array.getElem?_modify, Array.getElem?_eq_getElem hi]

theorem countsDuplicates_operate (hc : Assoc.find? name w.cloners = some c)
    (hp : c.portable = some i) (hi : i < w.portables.size)
    (hu : (w.setting c).Unaided (w.start c) v)
    (h : operate name (fun s => s.clone v) w = .ok r w') :
    (w.setting c).CountsDuplicates (w.start c) v (w.backendTally (some i))
      (w'.backendTally (some i)) := by
  have hb : (w.setting c).backend = .portable (w.setting c).registry := by
    rcases hu.backend with hfast | hportable
    · simp [setting, hp, backendOf] at hfast
    · exact hportable
  have hyields : Yields (operate name fun s => s.clone v) w fun _ w' =>
      (w.setting c).CountsDuplicates (w.start c) v (w.backendTally (some i))
        (w'.backendTally (some i)) := by
    refine (ends_operate_iff hc).mpr ?_
    cases hr : (w.setting c).clone v (w.start c) with
    | error e run =>
      rw [ends_of_error hr]
      trivial
    | ok r run =>
      have hbefore : (w.start c).memory.tally = w.backendTally (some i) :=
        congrArg w.backendTally hp
      rw [ends_of_ok hr, backendTally_keepRun hp hi run name, ← hbefore]
      exact Setting.countsDuplicates_clone hu hb hr
  have hpost := yields_of_ok hyields h
  exact hpost

end Workbench

/-- All objects are counted, and each once. A call on an allocator makes one object and counts it,
or none and counts nothing; so after any calls and writes the tally has grown by what the new
objects count for, those included that a later failure left behind. A deep clone by a portable
backend that goes well makes its tally grow by what the objects that it duplicates count for, and
so does that of a cloner on the workbench. -/
theorem every_object_that_is_made_is_counted_once :
    (∀ (reg : String) (w : Workbench) (before : Tally), Workbench.tally reg w = .ok before w →
      (∀ a : Workbench.Action, a.ByHand →
        let w' := after (a.perform reg) w
        (w'.heap.size = w.heap.size ∧ Workbench.tally reg w' = .ok before w') ∨
        (w'.heap.size = w.heap.size + 1 ∧
          Workbench.tally reg w' = .ok (before + (w'.heap.body w.heap.size).counted) w')) ∧
      ∀ actions : List Workbench.Action, (∀ a ∈ actions, a.ByHand) →
        let w' := w.playOn reg actions
        Workbench.tally reg w' = .ok (before +
          ∑ o ∈ Finset.Ico w.heap.size w'.heap.size, (w'.heap.body o).counted) w') ∧
    (∀ (s : Setting) (run run' : Run) (v r : Value), s.Unaided run v →
      s.backend = .portable s.registry → s.clone v run = .ok r run' →
      s.CountsDuplicates run v run.memory.tally run'.memory.tally) ∧
    ∀ (w w' : Workbench) (name : String) (c : Cloner) (i : Nat) (v r : Value),
      Assoc.find? name w.cloners = some c → c.portable = some i → i < w.portables.size →
      (w.setting c).Unaided (w.start c) v →
      Workbench.operate name (fun s => s.clone v) w = .ok r w' →
      (w.setting c).CountsDuplicates (w.start c) v (w.backendTally (some i))
        (w'.backendTally (some i)) := by
  refine ⟨?_, fun s run run' v r hu hb h => Setting.countsDuplicates_clone hu hb h,
    fun w w' name c i v r hc hp hi hu h => Workbench.countsDuplicates_operate hc hp hi hu h⟩
  intro reg w before hbefore
  cases hbefore
  constructor
  · intro a ha w'
    have hstep : (w.memoryOf reg).Tallies 1 (w'.memoryOf reg) :=
      ends_after (Workbench.counts_perform a ha)
    rcases hstep.eq_or_eq_add with ⟨hsize, htally⟩ | ⟨hsize, htally⟩
    · exact Or.inl ⟨hsize, congrArg (EStateM.Result.ok · w') htally⟩
    · exact Or.inr ⟨hsize, congrArg (EStateM.Result.ok · w') htally⟩
  · intro actions ha w'
    exact congrArg (EStateM.Result.ok · w') (Workbench.tallies_playOn actions ha).tally

/-- Calls of which one fails before it has made an object, and two break off at what they were to
write. -/
def brokenCalls : List Workbench.Action :=
  [ .define Setting.ringNode,
    .allocate 12,
    .instantiate 12 [("label", .int 7), ("nothing", .null)],
    .allocate 99,
    .newArray (.primitive .i32) [.int 1, .int 2, .null],
    .newContainer (.list [.ref 0, .ref 1]),
    .setField 0 "label" (.int 8) ]

/-- The instance and its list are duplicated, whichever cloner with the standard policy does it. -/
theorem Setting.duplicates_ring {s : Setting} {run : Run} (hu : s.Unaided run (.ref 0))
    (hreg : s.registry = ringSetting.registry) (hpolicy : s.policy = .standard)
    (hheap : run.heap = ringRun.heap) (hfate : ∀ o < 2, s.fate run o = .copied) {o : ObjectId} :
    s.Duplicates run.heap (s.fate run) (.ref 0) o ↔ o ∈ Finset.range 2 := by
  rw [Finset.mem_range]
  constructor
  · intro hd
    have hlt := hu.lt_size hd
    rw [hheap] at hlt
    exact hlt
  · intro ho
    have hroot : s.Duplicates run.heap (s.fate run) (.ref 0) 0 := .root rfl (hfate 0 (by decide))
    have hget : s.registry.get? (run.heap.cls 0) =
        some ⟨ringNode, Registry.initial.layoutOf 12 ringNode⟩ := by
      rw [hreg, hheap]
      exact Registry.get?_add_new Registry.initial ringNode
    have hitems : ⟨12, "Node", "items", .object 0, .slot 0, {}⟩ ∈
        (Registry.initial.layoutOf 12 ringNode).fields := by decide
    match o, ho with
    | 0, _ => exact hroot
    | 1, _ =>
      refine hroot.follow (.field hget hitems ?_ ?_) (hfate 1 (by decide))
      · rw [hpolicy]
        rfl
      · rw [hheap]
        rfl

/-- A cloner by the first portable backend. -/
def ringCloner : Cloner where
  portable := some 0
  store := 0

/-- A workbench with the instance and its list, and a portable backend that has made an array
before. -/
def ringBench : Workbench where
  heap := Setting.ringRun.heap
  registries := [("main", Setting.ringSetting.registry)]
  portables := #[{ registry := "main", tally := { arrays := 1, bytes := 8 } }]
  stores := #[{ registry := "main" }]
  cloners := [("cloner", ringCloner)]

theorem broken_calls_and_a_ring_are_counted :
    Workbench.tally "main" (({} : Workbench).playOn "main" brokenCalls) =
      .ok { instances := 3, arrays := 1, bytes := 84 }
        (({} : Workbench).playOn "main" brokenCalls) ∧
    (∃ r run', Setting.ringSetting.clone (.ref 0) Setting.ringRun = .ok r run' ∧
      run'.memory.tally = { instances := 2, bytes := 36 }) ∧
    ∃ r w', Workbench.operate "cloner" (fun s => s.clone (.ref 0)) ringBench = .ok r w' ∧
      w'.backendTally (some 0) = { instances := 2, arrays := 1, bytes := 44 } := by
  obtain ⟨hcalls, hclones, hcloners⟩ := every_object_that_is_made_is_counted_once
  refine ⟨?_, ?_, ?_⟩
  · have hall : ∀ a ∈ brokenCalls, a.ByHand := by simp [brokenCalls, Workbench.Action.ByHand]
    refine ((hcalls "main" {} {} rfl).2 brokenCalls hall).trans ?_
    refine congrArg (EStateM.Result.ok · _) ?_
    decide
  · obtain ⟨r, run', h, -⟩ := Setting.ring_is_cloned
    obtain ⟨duplicated, hmem, htally⟩ := hclones _ _ _ _ _ Setting.unaided_ring rfl h
    have heq : duplicated = Finset.range 2 :=
      Finset.ext fun o => (hmem o).trans
        (Setting.duplicates_ring Setting.unaided_ring rfl rfl rfl (by decide))
    refine ⟨r, run', h, htally.trans ?_⟩
    rw [heq]
    decide
  · have hu : (ringBench.setting ringCloner).Unaided (ringBench.start ringCloner) (.ref 0) :=
      Setting.unaided_of_standard Setting.unaided_ring.registry (Or.inr rfl) rfl
        (by decide +kernel) rfl Setting.unaided_ring.heap Setting.unaided_ring.root
    have hpeek : peek? (fun _ _ => ()) (Workbench.operate "cloner" (fun s => s.clone (.ref 0)))
        ringBench = some () := by
      decide +kernel
    obtain ⟨r, w', h, -⟩ := exists_of_peek? hpeek
    obtain ⟨duplicated, hmem, htally⟩ :=
      hcloners _ _ _ ringCloner 0 _ _ rfl rfl (by decide) hu h
    have heq : duplicated = Finset.range 2 :=
      Finset.ext fun o => (hmem o).trans
        (Setting.duplicates_ring hu rfl rfl rfl (by decide))
    refine ⟨r, w', h, htally.trans ?_⟩
    rw [heq]
    decide

end DeepCopy
