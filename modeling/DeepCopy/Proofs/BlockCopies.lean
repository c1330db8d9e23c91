-- The block of an instance carried over at once, beside its primitive fields
-- carried one by one. A block is carried whenever the two are of one length, and
-- then every field that lies in them comes out the same either way. A field that
-- reaches past their end is refused on its own, but the block hides that.
import DeepCopy.Proofs.Agreement
import DeepCopy.Proofs.InstanceComparison

namespace DeepCopy

/-- A primitive field reaches past the end of a block, and that is the error it is refused with. -/
def PlannedField.Overruns (f : PlannedField) (source : ObjectId) (blockSize : Nat) (stop : Stop) :
    Prop :=
  ∃ offset kind, f.place = .bytes offset kind ∧ blockSize < offset + kind.width ∧
    stop = .failed (f.missed source (.outside offset blockSize))

/-- The fields that are kept in the block. -/
def Plan.primitives (p : Plan) : List PlannedField :=
  p.fields.filter fun f => f.type.category = .primitive

theorem Plan.Describes.bytes_of_primitives {p : Plan} {cls : ClassId} {e : Registry.Entry}
    (hd : p.Describes cls e) (hl : e.layout.Sound) {f : PlannedField} (hf : f ∈ p.primitives) :
    ∃ offset kind, f.place = .bytes offset kind := by
  obtain ⟨hmem, hcat⟩ := List.mem_filter.mp hf
  cases hp : f.place with
  | bytes offset kind => exact ⟨offset, kind, rfl⟩
  | slot index =>
    exact absurd (of_decide_eq_true hcat) (hl.category_of_slot (hd.mem_layout hmem) hp)

namespace Backend

/-- Carries fields from one object to another, one after the other. -/
def copyPrimitives (b : Backend) (source target : ObjectId) : List PlannedField → CopyM Unit
  | [] => pure ()
  | f :: fs => do
    b.copyPrimitive f source target
    b.copyPrimitives source target fs

variable {m : Memory} {source target : ObjectId} {f : PlannedField} {n k k' : Nat}

/-- A field is carried if it lies in the two blocks, and is refused if it does not. -/
theorem ends_copyPrimitive_of_sized (hs : (m.heap.body source).Sized n k)
    (ht : (m.heap.body target).Sized n k') {offset : Nat} {kind : Primitive.Kind}
    (hp : f.place = .bytes offset kind) :
    Ends (fast.copyPrimitive f source target) m
      (fun _ m' => offset + kind.width ≤ n ∧ ∃ bytes,
        (m.heap.body source).readBytes offset kind.width = .ok bytes ∧
          m'.heap = m.heap.setBody target ((m.heap.body target).withBytes offset bytes))
      (fun e m' => f.Overruns source n e ∧ m' = m) := by
  by_cases hw : offset + kind.width ≤ n
  · obtain ⟨bytes, hr⟩ := hs.exists_readBytes hw
    refine ends_mono (draws_copyPrimitive fast hp hr ht hw) ?_ (fun _ _ h => h.elim)
    intro _ m' hm
    exact ⟨hw, bytes, hr, hm⟩
  · obtain ⟨block, refs, hb, rfl, -⟩ := hs.exists_record
    have hr : (m.heap.body source).readBytes offset kind.width =
        .error (.outside offset block.length) := by
      simp only [hb, Body.readBytes, Bytes.window?, if_neg hw]
    simp only [copyPrimitive, ends_copy_update, Direct.copyPrimitive, hp, hr]
    exact ⟨⟨offset, kind, hp, Nat.lt_of_not_le hw, rfl⟩, trivial⟩

/-- What is carried is at the target then, and what was the same there stays so. -/
theorem same_withBytes {b b' : Body} (ht : b'.Sized n k') {offset : Nat} {kind : Primitive.Kind}
    {bytes : List UInt8} (hr : b.readBytes offset kind.width = .ok bytes)
    (hw : offset + kind.width ≤ n) {q : Place}
    (hq : q = .bytes offset kind ∨ (Place.bytes offset kind).Apart q ∧ q.Same b b') :
    q.Same b (b'.withBytes offset bytes) := by
  have hlen := Body.length_of_readBytes hr
  rcases hq with rfl | ⟨hap, hsame⟩
  · have hwritten := ht.writeBytes_eq (by rw [hlen]; exact hw)
    have hback := Body.readBytes_writeBytes hwritten
    rw [hlen] at hback
    exact hback.trans hr.symm
  · exact hsame.trans ((ht.alters_withBytes hlen hw).same q hap)

/-- Fields are carried one by one up to the first that does not lie in the blocks. -/
theorem ends_copyPrimitives (hne : source ≠ target) (hlt : target < m.heap.size)
    (hs : (m.heap.body source).Sized n k) (ht : (m.heap.body target).Sized n k')
    {fs : List PlannedField} (hfs : ∀ f ∈ fs, ∃ offset kind, f.place = .bytes offset kind)
    (hap : ∀ f ∈ fs, ∀ g ∈ fs, f.place = g.place ∨ f.place.Apart g.place) :
    Ends (fast.copyPrimitives source target fs) m
      (fun _ m' => (∀ f ∈ fs, f.place.Within n k') ∧
        ∀ q : Place, q ∈ fs.map (·.place) ∨
          q.Same (m.heap.body source) (m.heap.body target) ∧
            (∀ f ∈ fs, f.place = q ∨ f.place.Apart q) →
          q.Same (m.heap.body source) (m'.heap.body target))
      (fun stop _ => ∃ done f rest, fs = done ++ f :: rest ∧
        (∀ g ∈ done, g.place.Within n k') ∧ f.Overruns source n stop) := by
  induction fs generalizing m with
  | nil =>
    refine ⟨fun f hf => (List.not_mem_nil hf).elim, ?_⟩
    rintro q (hq | hq)
    · exact (List.not_mem_nil hq).elim
    · exact hq.1
  | cons f fs ih =>
    obtain ⟨offset, kind, hp⟩ := hfs f List.mem_cons_self
    simp only [copyPrimitives, ends_bind]
    refine ends_mono (ends_copyPrimitive_of_sized hs ht hp) ?_ ?_
    · rintro _ m' ⟨hw, bytes, hr, hm⟩
      have hlen := Body.length_of_readBytes hr
      have hbody : m'.heap.body target = (m.heap.body target).withBytes offset bytes := by
        rw [hm, Heap.body_setBody hlt]
      have hsource : m'.heap.body source = m.heap.body source := by
        rw [hm]
        exact congrArg Object.body (Heap.get_setBody_of_ne _ hne)
      have ht' : (m'.heap.body target).Sized n k' := by
        rw [hbody]
        exact ht.withBytes (by rw [hlen]; exact hw)
      have hwithin : f.place.Within n k' := by
        rw [hp]
        exact hw
      refine ends_mono (ih (by rw [hm]; simpa using hlt) (hsource ▸ hs) ht'
        (fun g hg => hfs g (List.mem_cons_of_mem _ hg))
        fun g hg g' hg' => hap g (List.mem_cons_of_mem _ hg) g' (List.mem_cons_of_mem _ hg')) ?_ ?_
      · rintro _ m'' ⟨hall, hsame⟩
        refine ⟨?_, ?_⟩
        · intro g hg
          rcases List.mem_cons.mp hg with rfl | hg
          · exact hwithin
          · exact hall g hg
        · intro q hq
          rw [hsource, hbody] at hsame
          rcases hq with hq | ⟨hsameq, hapart⟩
          · rcases List.mem_cons.mp hq with rfl | hq
            · refine hsame _ (Or.inr ⟨same_withBytes ht hr hw (Or.inl hp), ?_⟩)
              exact fun g hg => hap g (List.mem_cons_of_mem _ hg) f List.mem_cons_self
            · exact hsame q (Or.inl hq)
          · refine hsame q (Or.inr ⟨same_withBytes ht hr hw ?_, ?_⟩)
            · rcases hapart f List.mem_cons_self with rfl | hap
              · exact Or.inl hp
              · exact Or.inr ⟨hp ▸ hap, hsameq⟩
            · exact fun g hg => hapart g (List.mem_cons_of_mem _ hg)
      · rintro stop _ ⟨done, g, rest, rfl, hdone, hover⟩
        refine ⟨f :: done, g, rest, rfl, ?_, hover⟩
        intro g' hg'
        rcases List.mem_cons.mp hg' with rfl | hg'
        · exact hwithin
        · exact hdone g' hg'
    · rintro stop _ ⟨hover, -⟩
      exact ⟨[], f, fs, rfl, fun g hg => (List.not_mem_nil hg).elim, hover⟩

/-- Whether a block is carried is a matter of its length alone. -/
theorem succeeds_copyBlock_of_length (hne : source ≠ target) (m : Memory) :
    Succeeds (fast.copyBlock source target) m fun bulk m' =>
      (bulk = false → m' = m ∧ ∀ n k k', (m.heap.body source).Sized n k →
        ¬ (m.heap.body target).Sized n k') ∧
      (bulk = true → ∃ n k k', (m.heap.body source).Sized n k ∧ (m.heap.body target).Sized n k' ∧
        m'.heap =
          m.heap.setBody target ((m.heap.body target).withBlock (m.heap.body source).block)) := by
  by_cases hlen : ∃ n k k', (m.heap.body source).Sized n k ∧ (m.heap.body target).Sized n k'
  · obtain ⟨n, k, k', hs, ht⟩ := hlen
    obtain ⟨block, refs, hb, rfl, -⟩ := hs.exists_record
    refine ends_mono (succeeds_copyBlock fast hne hb ht) ?_ (fun _ _ h => h)
    rintro _ m' ⟨rfl, hm⟩
    refine ⟨fun h => (by cases h), fun _ => ⟨_, k, k', hs, ht, ?_⟩⟩
    rw [hb]
    exact hm
  · have hnone : Direct.copyBlock? m.heap source target = none := by
      unfold Direct.copyBlock?
      split
      · rename_i block refs old slots hb hb'
        refine if_neg fun heq => hlen ⟨block.length, refs.length, slots.length, ?_, ?_⟩
        · rw [hb]
          exact ⟨rfl, rfl⟩
        · rw [hb']
          exact ⟨heq, rfl⟩
      · rfl
    simp only [Succeeds, copyBlock, if_neg hne, ends_bind, ends_get, hnone]
    exact ⟨fun _ => ⟨rfl, fun n k k' hs ht => hlen ⟨n, k, k', hs, ht⟩⟩, fun h => by cases h⟩

/-- A block is carried over at once if the two are of one length, and that is all that is asked. All
primitive fields that lie in the blocks come out as they do when each is carried on its own or one
after the other. One that reaches past the end is refused on its own, and ends the carrying of one
after the other, while the block is carried all the same. So the two ways agree if the blocks are as
long as the layout says. If the block is not carried, nothing changes. -/
theorem a_block_is_carried_by_its_length_alone {r : Registry} (hr : r.Built) {cls : ClassId}
    {e : Registry.Entry} (he : r.get? cls = some e) {p : Plan} (hd : p.Describes cls e)
    (hne : source ≠ target) (hlt : target < m.heap.size) :
    Succeeds (fast.copyBlock source target) m fun bulk bulked =>
      (bulk = false → bulked = m ∧ ∀ n k k', (m.heap.body source).Sized n k →
        ¬ (m.heap.body target).Sized n k') ∧
      (bulk = true → ∃ n k k', (m.heap.body source).Sized n k ∧ (m.heap.body target).Sized n k' ∧
        bulked.heap =
          m.heap.setBody target ((m.heap.body target).withBlock (m.heap.body source).block) ∧
        (∀ f ∈ p.primitives, Ends (fast.copyPrimitive f source target) m
          (fun _ single => f.place.Within n k' ∧
            f.place.Same (bulked.heap.body target) (single.heap.body target))
          (fun stop single => f.Overruns source n stop ∧ single = m)) ∧
        Ends (fast.copyPrimitives source target p.primitives) m
          (fun _ each => ∀ f ∈ p.primitives, f.place.Within n k' ∧
            f.place.Same (bulked.heap.body target) (each.heap.body target))
          (fun stop _ => ∃ done f rest, p.primitives = done ++ f :: rest ∧
            (∀ g ∈ done, g.place.Within n k') ∧ f.Overruns source n stop) ∧
        (e.layout.blockSize ≤ n → ∀ f ∈ p.primitives, ∀ stop, ¬ f.Overruns source n stop)) := by
  have hl : e.layout.Sound := hr.sound.layouts _ _ he
  have hbytes : ∀ f ∈ p.primitives, ∃ offset kind, f.place = .bytes offset kind :=
    fun f hf => hd.bytes_of_primitives hl hf
  have hmem : ∀ f ∈ p.primitives, f.toField ∈ e.layout.fields :=
    fun f hf => hd.mem_layout (List.mem_filter.mp hf).1
  refine ends_mono (succeeds_copyBlock_of_length hne m) ?_ (fun _ _ h => h)
  rintro bulk bulked ⟨hfalse, htrue⟩
  refine ⟨hfalse, fun hbulk => ?_⟩
  obtain ⟨n, k, k', hs, ht, hheap⟩ := htrue hbulk
  -- The block of the source is at the target, so what is the same as at the source is carried.
  have carried : ∀ {f : PlannedField} {m' : Memory}, f ∈ p.primitives →
      f.place.Same (m.heap.body source) (m'.heap.body target) →
      f.place.Same (bulked.heap.body target) (m'.heap.body target) := by
    intro f m' hf hsame
    obtain ⟨offset, kind, hp⟩ := hbytes f hf
    have hblock : f.place.Same (bulked.heap.body target) (m.heap.body source) := by
      obtain ⟨block, refs, hb, -, -⟩ := hs.exists_record
      obtain ⟨old, slots, hb', -, -⟩ := ht.exists_record
      rw [hheap, Heap.body_setBody hlt, hb, hb', hp]
      rfl
    exact hblock.trans hsame
  refine ⟨n, k, k', hs, ht, hheap, ?_, ?_, ?_⟩
  · intro f hf
    obtain ⟨offset, kind, hp⟩ := hbytes f hf
    refine ends_mono (ends_copyPrimitive_of_sized hs ht hp) ?_ (fun _ _ h => h)
    rintro _ single ⟨hw, bytes, hread, hsingle⟩
    refine ⟨by rw [hp]; exact hw, carried hf ?_⟩
    rw [hsingle, Heap.body_setBody hlt]
    exact same_withBytes ht hread hw (Or.inl hp)
  · refine ends_mono (ends_copyPrimitives hne hlt hs ht hbytes ?_) ?_ (fun _ _ h => h)
    · intro f hf g hg
      exact (hl.eq_or_apart (hmem f hf) (hmem g hg)).imp_left fun heq => congrArg Field.place heq
    · rintro _ each ⟨hwithin, hsame⟩ f hf
      exact ⟨hwithin f hf, carried hf (hsame _ (Or.inl (List.mem_map_of_mem hf)))⟩
  · rintro hsize f hf _ ⟨offset, kind, hp, hover, -⟩
    have := hl.bytes_within (hmem f hf) hp
    omega

/-- The plan of instances with a flag and a label behind a gap. -/
def gappedPlan : Plan :=
  .ofEntry (Registry.initial.add Setting.gappedNode) .byFlags 12
    ⟨Setting.gappedNode, Registry.initial.layoutOf 12 Setting.gappedNode⟩

/-- Two such instances that are too short for their labels. -/
def shortMemory : Memory :=
  { heap := ⟨#[Object.new 12 (.record [1, 0] [.null]), Object.new 12 (.record [0, 5] [.null])]⟩ }

/-- The error that a label could not be read. -/
def noLabel : Stop := .failed (.access "Node" "label" 0 (.outOfBounds 4 2))

/-- The field for labels. -/
def labelField : PlannedField :=
  { declaring := 12, declaringName := "Node", name := "label", type := .primitive .i32,
    place := .bytes 4 .i32, marks := {}, holder := "Node" }

/-- The block of a short instance is carried, though its label is refused by both backends. -/
theorem a_short_block_is_carried_though_a_field_is_refused :
    (∃ bulked, fast.copyBlock 0 1 shortMemory = .ok true bulked) ∧
    labelField ∈ gappedPlan.primitives ∧
    fast.copyPrimitive labelField 0 1 shortMemory = .error noLabel shortMemory ∧
    (portable (Registry.initial.add Setting.gappedNode)).copyPrimitive labelField 0 1 shortMemory =
      .error noLabel shortMemory := by
  refine ⟨⟨_, rfl⟩, ?_, rfl, rfl⟩
  decide

/-- Of a short instance the flag is carried on its own, and then the label is refused. -/
theorem short_instances_are_carried_up_to_their_labels : ∃ bulked done f rest m',
    fast.copyBlock 0 1 shortMemory = .ok true bulked ∧
    bulked.heap.body 1 = .record [1, 0] [.null] ∧
    fast.copyPrimitives 0 1 gappedPlan.primitives shortMemory = .error noLabel m' ∧
    gappedPlan.primitives = done ++ f :: rest ∧ (∀ g ∈ done, g.place.Within 2 1) ∧
    f.Overruns 0 2 noLabel := by
  have hr : (Registry.initial.add Setting.gappedNode).Built :=
    Setting.built_add (by decide) rfl rfl
  have he : (Registry.initial.add Setting.gappedNode).get? 12 =
      some ⟨Setting.gappedNode, Registry.initial.layoutOf 12 Setting.gappedNode⟩ :=
    Registry.get?_add_new Registry.initial Setting.gappedNode
  have hd : gappedPlan.Describes 12 ⟨Setting.gappedNode, Registry.initial.layoutOf 12 _⟩ :=
    Plan.describes_ofEntry _ .byFlags 12 _
  have hne : (0 : ObjectId) ≠ 1 := by decide
  have hlt : 1 < shortMemory.heap.size := by decide
  have hboth := a_block_is_carried_by_its_length_alone hr he hd hne hlt
  obtain ⟨bulk, bulked, hbulk, -, htrue⟩ := hboth.exists_ok
  obtain ⟨m', heach⟩ : ∃ m', fast.copyPrimitives 0 1 gappedPlan.primitives shortMemory =
      .error noLabel m' := ⟨_, rfl⟩
  obtain ⟨m₁, hrun, hbody⟩ : ∃ m', fast.copyBlock 0 1 shortMemory = .ok true m' ∧
      m'.heap.body 1 = .record [1, 0] [.null] := ⟨_, rfl, rfl⟩
  cases hbulk.symm.trans hrun
  obtain ⟨n, k, k', hs, ht, -, -, hall, -⟩ := htrue rfl
  obtain ⟨rfl, rfl⟩ : n = 2 ∧ k' = 1 := ⟨hs.1.symm, ht.2.symm⟩
  obtain ⟨done, f, rest, hfields, hdone, hover⟩ := (ends_of_error heach).mp hall
  exact ⟨bulked, done, f, rest, m', hrun, hbody, heach, hfields, hdone, hover⟩

end Backend

end DeepCopy
