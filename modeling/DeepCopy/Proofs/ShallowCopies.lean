-- Copies of one level. Of whatever shape an object is, and however the backend
-- moves data, the copy is one more object of the same class that holds just what
-- the object holds. Every byte of an instance is a field's or zero and every slot
-- is a field's, so an instance whose fields are all carried is carried as a whole.
import DeepCopy.Proofs.Exclusion

namespace DeepCopy

/-- No field of 32-bit floating point has a pattern that is no number. -/
def Object.HasNumbers (r : Registry) (x : Object) : Prop :=
  ∀ e, r.get? x.cls = some e → ∀ f ∈ e.layout.fields, ∀ offset kind bytes,
    f.place = .bytes offset kind → x.body.readBytes offset kind.width = .ok bytes →
    (Primitive.decode kind bytes).IsNumber

/-- What an instance holds is written as numbers are. -/
theorem Layout.canonical_of_holds {l : Layout} {h : Heap} {block : List UInt8} {refs : List Value}
    (hh : l.Holds h block refs)
    (hn : ∀ f ∈ l.fields, ∀ offset kind bytes, f.place = .bytes offset kind →
      Body.readBytes offset kind.width (.record block refs) = .ok bytes →
      (Primitive.decode kind bytes).IsNumber) : l.Canonical h (.record block refs) := by
  constructor
  · intro f hf offset kind bytes hp hr
    obtain ⟨p, rfl, hw⟩ := hh.canonical f hf offset kind hp
    have hread : Body.readBytes offset p.kind.width (.record block refs) = .ok p.encode := by
      simp only [Body.readBytes, hw]
    cases hr.symm.trans hread
    have hnumber := hn f hf offset p.kind p.encode hp hread
    rw [Primitive.decode_encode] at hnumber
    exact ⟨p, rfl, hnumber, rfl⟩
  · intro f hf index v hp hcat hr
    refine hh.arrays f hf index hp hcat v ?_
    simp only [Body.readSlot] at hr
    split at hr
    · rename_i w hw
      cases hr
      exact hw
    · cases hr

/-! ## Writing what is there -/

theorem Bytes.overwrite_window? {offset width : Nat} {bytes block : List UInt8}
    (h : window? offset width block = some bytes) : overwrite offset bytes block = block := by
  unfold window? at h
  split at h
  · rename_i hw
    cases h
    have hlen : ((block.drop offset).take width).length = width := by
      simp only [List.length_take, List.length_drop]
      omega
    rw [overwrite, hlen, List.append_assoc, ← List.drop_drop, List.take_append_drop,
      List.take_append_drop]
  · cases h

namespace Body

variable {b : Body} {offset width index : Nat} {bytes : List UInt8} {v : Value}

theorem withBytes_of_readBytes (h : b.readBytes offset width = .ok bytes) :
    b.withBytes offset bytes = b := by
  cases b with
  | record block refs =>
    simp only [readBytes] at h
    split at h
    · rename_i hw
      cases h
      simp only [withBytes, Bytes.overwrite_window? hw]
    · cases h
  | _ => cases h

theorem withSlot_of_readSlot (h : b.readSlot index = .ok v) : b.withSlot index v = b := by
  cases b with
  | record block refs =>
    simp only [readSlot] at h
    split at h
    · rename_i hw
      cases h
      obtain ⟨hi, rfl⟩ := List.getElem?_eq_some_iff.mp hw
      simp only [withSlot, List.set_getElem_self]
    · cases h
  | _ => cases h

end Body

namespace Backend

/-- What is written by checked access for a number is what it was read from. -/
theorem carried_encode (b : Backend) {p : Primitive} (hp : p.IsNumber) :
    b.carried p.kind p.encode = p.encode := by
  cases b with
  | fast => rfl
  | portable r => simp only [carried, Primitive.decode_encode, Primitive.unbox?_box hp]

/-- A write to the last object leaves all others as they are. -/
theorem Draws.last {x : CopyM Unit} {m : Memory} {h : Heap} {cls : ClassId} {b b' : Body}
    (hm : m.heap = h.add (Object.new cls b)) (hx : Draws x m h.size b')
    (hshape : b'.shape = b.shape) :
    Succeeds x m fun _ m' => m'.heap = h.add (Object.new cls b') := by
  refine ends_mono hx ?_ (fun _ _ h => h)
  intro _ m' hm'
  rw [hm', hm, Heap.setBody_add_new]
  simp only [Object.new, hshape]

end Backend

namespace Setting

open CloneM

variable {s : Setting} {run : Run} {source : ObjectId} {h : Heap} {cls : ClassId}

/-! ## Arrays and containers -/

/-- Elements are put behind those that are there. -/
theorem succeeds_writeElements {done items : List Value}
    (hm : run.heap = h.add (Object.new cls (.slots (done ++ List.replicate items.length .null)))) :
    Succeeds (s.writeElements h.size done.length items) run fun _ run' =>
      run'.heap = h.add (Object.new cls (.slots (done ++ items))) := by
  induction items generalizing done run with
  | nil => exact hm
  | cons v items ih =>
    have hbody : run.heap.body h.size =
        .slots (done ++ List.replicate (v :: items).length .null) := by
      rw [hm, Heap.body, Heap.get_add_new]
      rfl
    have hlt : done.length < (done ++ List.replicate (v :: items).length Value.null).length := by
      simp
    have hdraws := s.backend.draws_writeElement (m := run.memory) hbody hlt v
    have hset : (done ++ List.replicate (v :: items).length Value.null).set done.length v =
        (done ++ [v]) ++ List.replicate items.length Value.null := by
      simp [List.replicate_succ]
    rw [hset] at hdraws
    simp only [writeElements, Succeeds, ends_bind]
    refine ends_mono (succeeds_onMemory (hdraws.last hm rfl)) ?_ (fun _ _ h => h)
    rintro _ _ ⟨m, rfl, hm'⟩
    have hrest : Succeeds (s.writeElements h.size (done ++ [v]).length items)
        { run with memory := m } fun _ run' =>
          run'.heap = h.add (Object.new cls (.slots (done ++ [v] ++ items))) := ih hm'
    simpa using hrest

/-- All elements of an array of references are put into the copy. -/
theorem succeeds_shallowSlots {e : Registry.Entry} {items : List Value}
    (hb : s.backend.Over s.registry) (he : s.registry.get? (run.heap.cls source) = some e)
    (hx : run.heap.body source = .slots items) (hk : ∃ c, e.decl.kind = .array (.reference c)) :
    Succeeds (s.shallowSlots source) run fun copy run' => copy = run.heap.size ∧
      run'.heap = run.heap.add (Object.new (run.heap.cls source) (.slots items)) := by
  obtain ⟨c, hk⟩ := hk
  simp only [shallowSlots, slotItems, Succeeds, ends_bind, ends_heap, hx, ends_pure]
  refine ends_mono (succeeds_onMemory
    (Backend.adds_allocateSlots hb he hk items.length (m := run.memory))) ?_ (fun _ _ h => h)
  rintro _ _ ⟨m, rfl, rfl, hm⟩
  have hbare : Run.heap { run with memory := m } = run.heap.add (Object.new (run.heap.cls source)
      (.slots ([] ++ List.replicate items.length .null))) := hm
  have hfill := succeeds_writeElements (s := s) hbare
  refine ends_mono hfill ?_ (fun _ _ h => h)
  exact fun _ _ hm' => ⟨rfl, hm'⟩

/-- The contents of a container are put into the copy. -/
theorem succeeds_shallowContainer {e : Registry.Entry} {c : Container}
    (hb : s.backend.Over s.registry) (hf : Plans.Fit s.registry run.plans)
    (he : s.registry.get? (run.heap.cls source) = some e) (ho : source < run.heap.size)
    (hx : run.heap.body source = .container c) (hk : e.decl.kind = .container c.kind) :
    Succeeds (s.shallowContainer source) run fun copy run' => copy = run.heap.size ∧
      run'.heap = run.heap.add (Object.new (run.heap.cls source) (.container c)) := by
  simp only [shallowContainer, Succeeds, ends_bind, ends_heap]
  have hkept : Kept s (fun _ => False) run run := Kept.refl run
  refine ends_mono (succeeds_plan hf hkept he) ?_ (fun _ _ h => h)
  rintro p _ ⟨hd, -, -, plans, rfl⟩
  refine ends_mono (succeeds_onMemory (Backend.adds_container hb he hd hk (m := run.memory))) ?_
    (fun _ _ h => h)
  rintro _ _ ⟨m, rfl, rfl, hm⟩
  have hcontents : m.heap.contents? source = some c := by
    rw [hm, Heap.contents?, Heap.body, Heap.get_add_of_lt _ ho]
    exact congrArg Body.contents? hx
  have hempty : m.heap.body run.heap.size = .container (.empty c.kind) := by
    rw [hm, Heap.body, Heap.get_add_new]
    rfl
  have hdraws := (Backend.draws_setContents hempty p c).last hm rfl
  simp only [hcontents, setContents, ends_bind]
  refine ends_mono (succeeds_onMemory hdraws) ?_ (fun _ _ h => h)
  rintro _ _ ⟨m', rfl, hm'⟩
  exact ⟨rfl, hm'⟩

/-! ## Instances -/

section Fields

variable {e : Registry.Entry} {b : Body} {m : Memory}

/-- A field of the source is carried to the copy, and no other spot of the copy changes. -/
theorem exists_draws_copyField (hl : e.layout.Sound)
    (hm : m.heap = h.add (Object.new cls b)) (ho : source < h.size)
    (hs : (h.body source).Sized e.layout.blockSize e.layout.slotCount)
    (hc : e.layout.Canonical h (h.body source)) (hv : ∀ v ∈ (h.body source).values, h.Has v)
    (ht : b.Sized e.layout.blockSize e.layout.slotCount) {f : PlannedField}
    (hf : f.toField ∈ e.layout.fields) :
    ∃ b', Backend.Draws (s.backend.copyField f source h.size none) m h.size b' ∧
      b'.Sized e.layout.blockSize e.layout.slotCount ∧
      ∀ x : Spot, (¬ f.place.Holds x → x.Alike (fun o => o) (h.body source) b) →
        x.Alike (fun o => o) (h.body source) b' := by
  have hsource : m.heap.body source = h.body source := by
    rw [hm]
    exact congrArg Object.body (Heap.get_add_of_lt _ ho)
  have hcopy : m.heap.body h.size = b := by
    rw [hm, Heap.body, Heap.get_add_new]
    rfl
  cases hp : f.place with
  | bytes offset kind =>
    have hw := hl.bytes_within hf hp
    obtain ⟨bytes, hr⟩ := hs.exists_readBytes hw
    obtain ⟨p, rfl, hnumber, rfl⟩ := hc.primitives f.toField hf offset kind bytes hp hr
    have hlen := Primitive.length_encode p
    have hdraws := s.backend.draws_copyPrimitive hp (m := m) (hsource ▸ hr) (hcopy ▸ ht) hw
    rw [hcopy, s.backend.carried_encode hnumber] at hdraws
    rw [Backend.copyField_primitive _ (hl.category_of_bytes hf hp)]
    refine ⟨_, hdraws, ht.withBytes (by rw [hlen]; exact hw), fun x hx => ?_⟩
    have halike := Spot.Alike.withBytes hs ht hlen hw hx
    rwa [Body.withBytes_of_readBytes hr] at halike
  | slot index =>
    have hw := hl.slot_within hf hp
    obtain ⟨v, hr⟩ := hs.exists_readSlot hw
    have hmem := hv v (Body.mem_values_of_readSlot hr)
    have htakes : f.type.category = .array → Field.takesArray m.heap v = true := by
      intro hcat
      have hspared : Spared (fun _ => False) h m.heap := hm ▸ Spared.of_add _
      rw [takesArray_grow hmem hspared]
      exact hc.arrays f.toField hf index v hp hcat hr
    have hdraws := s.backend.draws_writeReference hp (m := m) (hcopy ▸ ht) hw htakes
    rw [hcopy] at hdraws
    have hread := s.backend.succeeds_readField hp (m := m) (hsource ▸ hs) hw
    rw [hsource] at hread
    have hdo : Backend.Draws (s.backend.copyField f source h.size none) m h.size
        (b.withSlot index v) := by
      rw [Backend.copyField_none _ (hl.category_of_slot hf hp)]
      unfold Backend.Draws Succeeds
      rw [ends_bind]
      refine ends_mono hread ?_ (fun _ _ h => h)
      rintro w _ ⟨hr', rfl⟩
      cases hr.symm.trans hr'
      exact hdraws
    refine ⟨_, hdo, ht.withSlot index v, fun x hx => ?_⟩
    have halike := Spot.Alike.withSlot (ρ := fun o => o) (v := v) hs ht hw hx
    rwa [Value.rename_id, Body.withSlot_of_readSlot hr] at halike

/-- When the fields that are left are carried, the copy holds what the source holds. Before that the
two are alike at all spots that are not of these fields. -/
theorem succeeds_carryFields (hl : e.layout.Sound) (ho : source < h.size)
    (hs : (h.body source).Sized e.layout.blockSize e.layout.slotCount)
    (hc : e.layout.Canonical h (h.body source)) (hv : ∀ v ∈ (h.body source).values, h.Has v)
    {bulk : Bool} {fs : List PlannedField} (hfs : ∀ f ∈ fs, f.toField ∈ e.layout.fields)
    (hm : run.heap = h.add (Object.new cls b))
    (ht : b.Sized e.layout.blockSize e.layout.slotCount)
    (halike : ∀ x : Spot,
      (∀ f ∈ fs, ¬ (f.type.category = .primitive ∧ bulk) → ¬ f.place.Holds x) →
        x.Alike (fun o => o) (h.body source) b) :
    Succeeds (s.carryFields source h.size bulk fs) run fun _ run' =>
      run'.heap = h.add (Object.new cls (h.body source)) := by
  induction fs generalizing b run with
  | nil =>
    have heq : b = (h.body source).rename fun o => o :=
      Body.eq_rename_of_alike hs ht fun x => halike x fun f hf => (List.not_mem_nil hf).elim
    rw [Body.rename_eq_self fun _ _ => rfl] at heq
    exact heq ▸ hm
  | cons f fs ih =>
    have hfs' : ∀ g ∈ fs, g.toField ∈ e.layout.fields :=
      fun g hg => hfs g (List.mem_cons_of_mem _ hg)
    simp only [carryFields, Succeeds]
    by_cases hskip : f.type.category = .primitive ∧ bulk
    · rw [if_pos hskip]
      refine ih hfs' hm ht fun x hx => halike x fun g hg hkeep => ?_
      rcases List.mem_cons.mp hg with rfl | hg
      · exact absurd hskip hkeep
      · exact hx g hg hkeep
    · rw [if_neg hskip, ends_bind]
      obtain ⟨b', hdraws, ht', halike'⟩ :=
        exists_draws_copyField hl hm ho hs hc hv ht (hfs f List.mem_cons_self)
      obtain ⟨block, refs, rfl, -, -⟩ := ht.exists_record
      obtain ⟨block', refs', rfl, -, -⟩ := ht'.exists_record
      refine ends_mono (succeeds_onMemory (hdraws.last hm rfl)) ?_ (fun _ _ h => h)
      rintro _ _ ⟨m, rfl, hm'⟩
      refine ih hfs' hm' ht' fun x hx => halike' x fun hhead => halike x fun g hg hkeep => ?_
      rcases List.mem_cons.mp hg with rfl | hg
      · exact hhead
      · exact hx g hg hkeep

/-- A bare instance, with the block of the source if that is carried, differs from the source only
in what belongs to fields that are still to be carried. -/
theorem alike_begun {l : Layout} {block : List UInt8} {refs : List Value}
    (hh : l.Holds h block refs) (hfull : l.Full) (hl : l.Sound) {bulk : Bool} {x : Spot}
    (hx : ∀ f ∈ l.fields, ¬ (f.type.category = .primitive ∧ bulk) → ¬ f.place.Holds x) :
    x.Alike (fun o => o) (.record block refs)
      ((Body.bareRecord l.blockSize l.slotCount).withBlock
        (if bulk then block else Bytes.zeros l.blockSize)) := by
  cases x with
  | byte i =>
    cases bulk with
    | true => rfl
    | false =>
      show (Bytes.zeros l.blockSize)[i]? = block[i]?
      by_cases hi : i < l.blockSize
      · have hzero := hh.padding i (hh.blockSize ▸ hi) fun f hf => hx f hf (by simp)
        rw [hzero, Bytes.zeros, List.getElem?_replicate, if_pos hi]
      · have hlen : (Bytes.zeros l.blockSize).length = l.blockSize := by simp [Bytes.zeros]
        rw [List.getElem?_eq_none (by omega),
          List.getElem?_eq_none (Nat.le_of_not_lt (hh.blockSize ▸ hi))]
  | slot i =>
    show (List.replicate l.slotCount Value.null)[i]? = refs[i]?.map (Value.rename fun o => o)
    by_cases hi : i < l.slotCount
    · obtain ⟨f, hf, hp⟩ := hfull i hi
      exact absurd hp (hx f hf fun hcat => hl.category_of_slot hf hp hcat.1)
    · rw [List.getElem?_eq_none (by simpa using hi),
        List.getElem?_eq_none (Nat.le_of_not_lt (hh.slotCount ▸ hi))]
      rfl

/-- The new instance gets the block of the source or is left as it is. -/
theorem succeeds_copyBlock_bare {b : Backend} {block : List UInt8} {refs : List Value}
    {slotCount : Nat} (ho : source < h.size) (hx : h.body source = .record block refs)
    (hm : m.heap = h.add (Object.new cls (Body.bareRecord block.length slotCount))) :
    Succeeds (b.copyBlock source h.size) m fun bulk m' =>
      m'.heap = h.add (Object.new cls ((Body.bareRecord block.length slotCount).withBlock
        (if bulk then block else Bytes.zeros block.length))) := by
  have hsource : m.heap.body source = .record block refs := by
    rw [hm, ← hx]
    exact congrArg Object.body (Heap.get_add_of_lt _ ho)
  have hcopy : m.heap.body h.size = Body.bareRecord block.length slotCount := by
    rw [hm, Heap.body, Heap.get_add_new]
    rfl
  have hsized : (m.heap.body h.size).Sized block.length slotCount := by
    rw [hcopy]
    exact ⟨by simp [Bytes.zeros], by simp⟩
  refine ends_mono (b.succeeds_copyBlock (Nat.ne_of_lt ho) hsource hsized) ?_ (fun _ _ h => h)
  rintro bulk m' ⟨-, hm'⟩
  cases bulk with
  | true =>
    rw [hm', if_pos rfl, hcopy, hm, Heap.setBody_add_new]
    rfl
  | false => exact hm'.trans hm

/-- All fields of an instance are carried, and that is all there is to it. -/
theorem succeeds_shallowRecord {block : List UInt8} {refs : List Value}
    (hr : s.registry.Built) (hb : s.backend.Over s.registry)
    (hf : Plans.Fit s.registry run.plans)
    (he : s.registry.get? (run.heap.cls source) = some e) (ho : source < run.heap.size)
    (hx : run.heap.body source = .record block refs) (hk : e.decl.kind = .concrete)
    (hh : e.layout.Holds run.heap block refs)
    (hc : e.layout.Canonical run.heap (.record block refs)) (hv : ∀ v ∈ refs, run.heap.Has v) :
    Succeeds (s.shallowRecord source) run fun copy run' => copy = run.heap.size ∧
      run'.heap = run.heap.add (Object.new (run.heap.cls source) (.record block refs)) := by
  have hl : e.layout.Sound := hr.sound.layouts _ _ he
  simp only [shallowRecord, Succeeds, ends_bind, ends_heap]
  have hkept : Kept s (fun _ => False) run run := Kept.refl run
  refine ends_mono (succeeds_plan hf hkept he) ?_ (fun _ _ h => h)
  rintro p _ ⟨hd, -, -, plans, rfl⟩
  refine ends_mono (succeeds_onMemory (Backend.adds_bare hb he hd hk (m := run.memory))) ?_
    (fun _ _ h => h)
  rintro _ _ ⟨m, rfl, rfl, hm⟩
  rw [← hh.blockSize] at hm
  refine ends_mono (succeeds_onMemory (succeeds_copyBlock_bare ho hx hm)) ?_ (fun _ _ h => h)
  rintro bulk _ ⟨m', rfl, hm'⟩
  rw [hh.blockSize] at hm'
  have hlen : (if bulk then block else Bytes.zeros e.layout.blockSize).length =
      e.layout.blockSize := by
    split
    · exact hh.blockSize
    · simp [Bytes.zeros]
  have hbare : (Body.bareRecord e.layout.blockSize e.layout.slotCount).Sized
      e.layout.blockSize e.layout.slotCount := ⟨by simp [Bytes.zeros], by simp⟩
  rw [← hx]
  refine ends_mono (succeeds_carryFields hl ho (hx ▸ ⟨hh.blockSize, hh.slotCount⟩) (hx ▸ hc)
    (hx ▸ hv) (fun f hf => hd.mem_layout hf) hm' (hbare.withBlock hlen) ?_) ?_ (fun _ _ h => h)
  · intro x hspot
    rw [hx]
    refine alike_begun hh (hr.each Layout.inherited_full _ _ he) hl fun f hf => ?_
    have hplanned : { f with holder := e.decl.name } ∈ p.fields := by
      rw [hd.fields_eq]
      exact List.mem_map_of_mem hf
    exact hspot _ hplanned
  · intro _ _ hdone
    exact ⟨rfl, hdone⟩

end Fields

/-- The same object once more is what every way of copying one level makes of a well-formed one. -/
theorem succeeds_shallow (hr : s.registry.Built) (hb : s.backend.Over s.registry)
    (hf : Plans.Fit s.registry run.plans) (ho : source < run.heap.size)
    (hw : (run.heap.get source).WellFormed s.registry run.heap)
    (hn : (run.heap.get source).HasNumbers s.registry) :
    Succeeds (s.shallow source) run fun copy run' =>
      copy = run.heap.size ∧ run'.heap = run.heap.add (run.heap.get source) := by
  obtain ⟨e, he, hfits⟩ := hw.fits
  have hshape : run.heap.shape source = (run.heap.body source).shape := hw.header
  have hself : run.heap.get source =
      Object.new (run.heap.cls source) (run.heap.body source) := by
    rw [Object.new, ← hshape]
    rfl
  have hfits : e.Fits run.heap (run.heap.body source) := hfits
  have hclosed : ∀ v ∈ (run.heap.body source).values, run.heap.Has v := hw.closed
  simp only [shallow, Succeeds, ends_bind, ends_heap, hself, hshape]
  cases hx : run.heap.body source with
  | record block refs =>
    rw [hx] at hfits hclosed
    obtain ⟨hk, hh⟩ := Registry.Entry.fits_record.mp hfits
    have hc : e.layout.Canonical run.heap (.record block refs) :=
      Layout.canonical_of_holds hh (hx ▸ hn e he)
    exact succeeds_shallowRecord hr hb hf he ho hx hk hh hc hclosed
  | packed kind bytes =>
    rw [hx] at hfits
    obtain ⟨hk, hd⟩ := Registry.Entry.fits_packed.mp hfits
    have hadds := Backend.adds_duplicatePacked (m := run.memory) hb he rfl hx hk hd
    refine ends_mono (succeeds_onMemory hadds) ?_ (fun _ _ h => h)
    rintro _ _ ⟨m, rfl, hcopy, hm⟩
    exact ⟨hcopy, hm⟩
  | slots items =>
    rw [hx] at hfits
    exact succeeds_shallowSlots hb he hx (Registry.Entry.fits_slots.mp hfits)
  | container c =>
    rw [hx] at hfits
    exact succeeds_shallowContainer hb hf he ho hx (Registry.Entry.fits_container.mp hfits)

/-- A copy of one level of a well-formed object is made, by either backend and whatever the policy
says. It is one more object, the same as the one it was made of: of its class, with its bytes, and
with the very values it refers to. All other objects are as they were, the source among them. -/
theorem a_shallow_copy_is_the_same_object_once_more (hr : s.registry.Built)
    (hb : s.backend.Over s.registry) (hf : Plans.Fit s.registry run.plans)
    (ho : source < run.heap.size) (hw : (run.heap.get source).WellFormed s.registry run.heap)
    (hn : (run.heap.get source).HasNumbers s.registry) :
    ∃ run', s.shallow source run = .ok run.heap.size run' ∧
      run'.heap = run.heap.add (run.heap.get source) := by
  obtain ⟨_, run', hok, rfl, hheap⟩ := (succeeds_shallow hr hb hf ho hw hn).exists_ok
  exact ⟨run', hok, hheap⟩

/-- A portable cloner for memos. -/
def memoPortable : Setting := { memoSetting with backend := .portable memoSetting.registry }

/-- A memo that refers to itself, by a field that is not copied when it is cloned. -/
def selfMemo : Object := Object.new 12 (.record [7, 0, 0, 0, 1, 0, 0, 0] [.ref 0])

def selfMemoRun : Run where
  memory := { heap := ⟨#[selfMemo]⟩ }

theorem memo_fields : (Registry.initial.layoutOf 12 memoClass).fields =
    [⟨12, "Memo", "key", .primitive .i32, .bytes 0 .i32, {}⟩,
      ⟨12, "Memo", "hits", .primitive .i32, .bytes 4 .i32, { isSynthetic := true }⟩,
      ⟨12, "Memo", "cached", .object 0, .slot 0, { isSynthetic := true }⟩] := by
  decide

theorem holds_selfMemo : (Registry.initial.layoutOf 12 memoClass).Holds selfMemoRun.heap
    [7, 0, 0, 0, 1, 0, 0, 0] [.ref 0] := by
  refine ⟨by decide, by decide, ?_, ?_, ?_⟩
  · intro f hf offset kind hp
    rw [memo_fields] at hf
    simp only [List.mem_cons, List.not_mem_nil, or_false] at hf
    rcases hf with rfl | rfl | rfl
    · cases hp
      exact ⟨.i32 7, rfl, by decide⟩
    · cases hp
      exact ⟨.i32 1, rfl, by decide⟩
    · cases hp
  · intro i hi hfree
    rw [memo_fields] at hfree
    simp only [List.forall_mem_cons, Place.Covers] at hfree
    have hi : i < 8 := hi
    have h₁ := hfree.1
    have h₂ := hfree.2.1
    simp only [Primitive.Kind.width] at h₁ h₂
    omega
  · intro f hf index hp hcat
    rw [memo_fields] at hf
    simp only [List.mem_cons, List.not_mem_nil, or_false] at hf
    rcases hf with rfl | rfl | rfl <;> cases hcat

/-- The copy of a memo that refers to itself refers to that memo too. -/
theorem a_copy_refers_to_the_memo_that_refers_to_itself : ∃ run',
    memoPortable.shallow 0 selfMemoRun = .ok 1 run' ∧ run'.heap = ⟨#[selfMemo, selfMemo]⟩ := by
  have hr : memoPortable.registry.Built := built_add (by decide) rfl rfl
  have he : memoPortable.registry.get? 12 =
      some ⟨memoClass, Registry.initial.layoutOf 12 memoClass⟩ :=
    Registry.get?_add_new Registry.initial memoClass
  have hw : (selfMemoRun.heap.get 0).WellFormed memoPortable.registry selfMemoRun.heap := by
    refine ⟨⟨_, he, Registry.Entry.fits_record.mpr ⟨rfl, holds_selfMemo⟩⟩, rfl, ?_⟩
    intro v hv o ho
    cases List.mem_singleton.mp hv
    cases ho
    decide
  have hn : (selfMemoRun.heap.get 0).HasNumbers memoPortable.registry := by
    intro e he' f hf offset kind bytes hp _
    cases he.symm.trans he'
    rw [memo_fields] at hf
    simp only [List.mem_cons, List.not_mem_nil, or_false] at hf
    rcases hf with rfl | rfl | rfl <;> cases hp <;> trivial
  exact a_shallow_copy_is_the_same_object_once_more hr (Or.inr rfl) (Plans.fit_nil _) (by decide)
    hw hn

end Setting

end DeepCopy
