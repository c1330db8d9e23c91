-- A deep copy into an instance that is there already is a deep clone whose root
-- is given. What can be reached from the instance afterwards is the same graph as
-- what can be reached from a clone, whatever the instance held before.
import DeepCopy.Proofs.Termination
import DeepCopy.Proofs.Twinning

namespace DeepCopy

/-! ## The same graph -/

namespace Heap

variable {h h' : Heap} {v v' : Value} {ρ : ObjectId → ObjectId} {o t : ObjectId}

/-- What can be reached from `v` in one heap is the same graph as what can be reached from `v'` in
another, where `ρ` names each object there. Only bytes that belong to no field may differ. -/
structure SameGraph (r : Registry) (ρ : ObjectId → ObjectId) (h : Heap) (v : Value) (h' : Heap)
    (v' : Value) : Prop where
  root : v' = v.rename ρ
  injective : ∀ o o', h.Reaches v o → h.Reaches v o' → ρ o = ρ o' → o = o'
  reaches : ∀ o, h.Reaches v o → h'.Reaches v' (ρ o)
  onto : ∀ t, h'.Reaches v' t → ∃ o, h.Reaches v o ∧ ρ o = t
  cls : ∀ o, h.Reaches v o → h'.cls (ρ o) = h.cls o
  shape : ∀ o, h.Reaches v o → h'.shape (ρ o) = h.shape o
  body : ∀ o, h.Reaches v o →
    ((h.body o).rename ρ).Agrees (r.fieldsOf (h.cls o)) (h'.body (ρ o))

/-- Objects refer to the same in both heaps, but for names. -/
def RefersAlike (ρ : ObjectId → ObjectId) (h : Heap) (v : Value) (h' : Heap) : Prop :=
  ∀ o, h.Reaches v o → (h'.body (ρ o)).values = (h.body o).values.map (Value.rename ρ)

theorem Reaches.renamed (hr : RefersAlike ρ h v h') (ho : h.Reaches v o) :
    h'.Reaches (v.rename ρ) (ρ o) := by
  induction ho with
  | here hv => exact .here (hv ▸ rfl)
  | next ho hv ih =>
    refine .next ih ?_
    rw [hr _ ho]
    exact List.mem_map_of_mem hv

theorem Reaches.exists_name (hr : RefersAlike ρ h v h') (ht : h'.Reaches (v.rename ρ) t) :
    ∃ o, h.Reaches v o ∧ ρ o = t := by
  induction ht with
  | here hv =>
    obtain ⟨o, rfl, ho⟩ := Value.exists_of_rename_eq_ref hv
    exact ⟨o, .here rfl, ho⟩
  | next _ hv ih =>
    obtain ⟨o, ho, rfl⟩ := ih
    rw [hr o ho] at hv
    obtain ⟨w, hw, hname⟩ := List.mem_map.mp hv
    obtain ⟨o', rfl, ho'⟩ := Value.exists_of_rename_eq_ref hname
    exact ⟨o', .next ho hw, ho'⟩

end Heap

namespace Body

variable {b b' : Body} {ρ : ObjectId → ObjectId}

theorem Agrees.values_eq {fields : List Field} (h : b.Agrees fields b') : b'.values = b.values := by
  cases b with
  | record block refs =>
    cases b' with
    | record block' refs' => exact h.2.1
    | _ => cases h
  | _ =>
    cases h
    rfl

/-- Instances that are alike wherever a field is hold the same, since every slot is of a field. -/
theorem agrees_of_alike {l : Layout} (hl : l.Sound) (hf : l.Full)
    (hs : b.Sized l.blockSize l.slotCount) (hs' : b'.Sized l.blockSize l.slotCount)
    (h : ∀ f ∈ l.fields, ∀ x, f.place.Holds x → x.Alike ρ b b') :
    (b.rename ρ).Agrees l.fields b' := by
  have hsame : ∀ f ∈ l.fields, f.place.Same (b.rename ρ) b' := fun f hmem =>
    Place.same_of_alike hs hs' (hl.within f hmem) (h f hmem)
  obtain ⟨block, refs, rfl, hb, hr⟩ := hs.exists_record
  obtain ⟨block', refs', rfl, hb', hr'⟩ := hs'.exists_record
  refine ⟨hb'.trans hb.symm, List.ext_getElem? fun i => ?_, hsame⟩
  rw [List.getElem?_map]
  by_cases hi : i < l.slotCount
  · obtain ⟨f, hmem, hp⟩ := hf i hi
    exact h f hmem (.slot i) hp
  · rw [List.getElem?_eq_none (by omega), List.getElem?_eq_none (by omega)]
    rfl

end Body

/-- A field at its default stays so when objects get other names. -/
theorem Field.readFrom_rename_default {f : Field} {b : Body} {ρ : ObjectId → ObjectId}
    (h : f.readFrom b = .ok f.default) : f.readFrom (b.rename ρ) = .ok f.default := by
  cases b with
  | record block refs =>
    cases hp : f.place with
    | bytes offset kind =>
      unfold readFrom at h ⊢
      rw [hp] at h ⊢
      exact h
    | slot index =>
      have hdefault : f.default = .null := by simp only [default, hp]
      rw [readFrom_of_slot hp, hdefault] at h ⊢
      simp only [Body.readSlot, Body.rename, List.getElem?_map] at h ⊢
      cases hv : refs[index]? with
      | none =>
        rw [hv] at h
        cases h
      | some v =>
        rw [hv] at h
        cases h
        rfl
  | _ => exact h

/-! ## An instance in the place of the root's copy -/

/-- The names of objects when the first new object is not made: `target` has its place, and every
later object comes one earlier. -/
def standIn (size target t : Nat) : Nat :=
  if t < size then t else if t = size then target else t - 1

section StandIn

variable {size target t t' : Nat}

theorem standIn_old (h : t < size) : standIn size target t = t := if_pos h

theorem standIn_first : standIn size target size = target := by simp [standIn]

theorem standIn_later (k : Nat) : standIn size target (size + 1 + k) = size + k := by
  unfold standIn
  rw [if_neg (by omega), if_neg (by omega)]
  omega

theorem standIn_new (h : size ≤ t) :
    standIn size target t = target ∨ size ≤ standIn size target t := by
  unfold standIn
  split
  · omega
  · split
    · exact Or.inl rfl
    · exact Or.inr (by omega)

/-- Different objects have different names, if `target` is not among them. -/
theorem standIn_inj (ht : target < size) (h : t ≠ target) (h' : t' ≠ target)
    (heq : standIn size target t = standIn size target t') : t = t' := by
  unfold standIn at heq
  split at heq <;> split at heq <;> (try split at heq) <;> (try split at heq) <;> omega

end StandIn

namespace Setting

open CloneM

variable {s : Setting} {run : Run} {memory : Memory} {source target : ObjectId}

/-- What is asked of two instances of one class for the one to be copied into the other: all objects
are in order, no routine is needed, a clone would duplicate the source, and the target cannot be
reached from it. A tree map that would be rebuilt has no more than one object among its keys, since
it puts objects in the order of their making. -/
structure CanFill (s : Setting) (run : Run) (source target : ObjectId) : Prop where
  unaided : s.Unaided run (.ref source)
  fits : s.FitsOverrides
  copied : s.fate run source = .copied
  lt_size : target < run.heap.size
  cls : run.heap.cls target = run.heap.cls source
  shape : run.heap.shape source = .record
  shape_target : run.heap.shape target = .record
  apart : ¬ run.heap.Reaches (.ref source) target
  trees : ∀ o, s.Duplicates run.heap (s.fate run) (.ref source) o → ∀ entries,
    run.heap.body o = .container (.treeMap entries) → Container.Lone (entries.map (·.1.value))

/-- A heap that differs from that of the run only in what one object holds, and is in order. -/
structure DiffersAt (s : Setting) (run : Run) (target : ObjectId) (h : Heap) : Prop where
  size : h.size = run.heap.size
  spared : Spared (· = target) run.heap h
  orderly : h.Orderly s.registry

/-- A clone of the source, and beside it a copy into the target in a heap where the target may hold
something else. -/
def besideTarget (run : Run) (memory : Memory) (source target : ObjectId) : Pairing where
  left := { run with copies := {} }
  right := { run with memory, copies := {} }
  root := .ref source
  name := standIn run.heap.size target
  given := (· = target)

/-- The target goes by the name of the copy of the source. -/
theorem name_besideTarget :
    (besideTarget run memory source target).name run.heap.size = target := standIn_first

/-- Once the copy of the source is made, every object of the first side is that copy, which the
target stands for, or was there and keeps its name. -/
theorem get_begun {m : Memory} {x : Object} {t : ObjectId} (target : ObjectId)
    (hm : m.heap = run.heap.add x) (ht : t < m.heap.size) :
    (t = run.heap.size ∧ m.heap.get t = x ∧ standIn run.heap.size target t = target) ∨
      (t < run.heap.size ∧ m.heap.get t = run.heap.get t ∧
        standIn run.heap.size target t = t) := by
  rw [hm, Heap.size_add] at ht
  rcases Nat.lt_succ_iff_lt_or_eq.mp ht with hlt | rfl
  · exact Or.inr ⟨hlt, by rw [hm, Heap.get_add_of_lt _ hlt], standIn_old hlt⟩
  · exact Or.inl ⟨rfl, by rw [hm, Heap.get_add_new], standIn_first⟩

section Filling

variable (hf : s.CanFill run source target) (hd : s.DiffersAt run target memory.heap)
include hf

theorem CanFill.ne : source ≠ target := by
  rintro rfl
  exact hf.apart (.here rfl)

theorem CanFill.source_lt_size : source < run.heap.size := hf.unaided.root source rfl

theorem CanFill.ne_of_reaches {o : ObjectId} (ho : run.heap.Reaches (.ref source) o) :
    o ≠ target := by
  rintro rfl
  exact hf.apart ho

theorem CanFill.duplicates : s.Duplicates run.heap (s.fate run) (.ref source) source :=
  .root rfl hf.copied

/-- The policy leaves the source to the plan of its class: it is no container. -/
theorem CanFill.judge_eq : s.judge run (run.heap.cls source) source = .open := by
  have hfate : s.fateOf run (run.heap.cls source) source = .copied := hf.copied
  cases hj : s.judge run (run.heap.cls source) source with
  | nulled => cases (fateOf_of_nulled hj).symm.trans hfate
  | shared => cases (fateOf_of_shared hj).symm.trans hfate
  | overridden i =>
    obtain ⟨hflag, hi, -⟩ := hf.unaided.eq_containers_of_judge hj
    obtain ⟨e, kind, he, hk⟩ := hf.fits hflag _ _ hi
    obtain ⟨e', he', ha⟩ := hf.unaided.heap.admits source hf.source_lt_size
    cases he.symm.trans he'
    obtain ⟨con, hb⟩ := ha.contents hk
    have hhead := hf.unaided.heap.header source hf.source_lt_size
    rw [hf.shape, hb] at hhead
    cases hhead
  | «open» => rfl

include hd

theorem CanFill.lt_size_right : target < memory.heap.size :=
  Nat.lt_of_lt_of_eq hf.lt_size hd.size.symm

theorem CanFill.sized_target {e : Registry.Entry}
    (he : s.registry.get? (run.heap.cls source) = some e) :
    (memory.heap.body target).Sized e.layout.blockSize e.layout.slotCount := by
  have hlt := hf.lt_size_right hd
  have hshape : (memory.heap.body target).shape = .record :=
    (hd.orderly.header target hlt).symm.trans
      ((hd.spared.shape_eq target hf.lt_size).trans hf.shape_target)
  obtain ⟨e', he', ha⟩ := hd.orderly.admits target hlt
  rw [hd.spared.cls_eq target hf.lt_size, hf.cls] at he'
  cases he.symm.trans he'
  exact (ha.record hshape).2.1

theorem paired_besideTarget : s.Paired (besideTarget run memory source target) where
  unaided := hf.unaided.afresh
  orderly := hd.orderly
  plans := hf.unaided.plans
  planOf := fun _ => rfl
  classShared := fun _ => rfl
  size := hd.size
  cls := hd.spared.cls_eq
  shape := hd.spared.shape_eq
  body := by
    intro o ho
    have hlt : o < run.heap.size := hf.unaided.lt_size ho
    have hsame : memory.heap.body o = run.heap.body o :=
      hd.spared.body_eq o hlt (hf.ne_of_reaches ho.reaches)
    show s.SameButReset _ (run.heap.body o) (memory.heap.body o)
    rw [hsame]
    exact SameButReset.refl _ _ _
  spared := fun o ho => hf.ne_of_reaches ho.reaches
  old := fun _ ho => standIn_old ho
  own := fun _ ht => standIn_new ht
  inj := by
    have hne : ∀ t, run.heap.size ≤ t ∨ run.heap.Reaches (.ref source) t → t ≠ target := by
      intro t ht
      rcases ht with hle | ho
      · exact (Nat.ne_of_lt (Nat.lt_of_lt_of_le hf.lt_size hle)).symm
      · exact hf.ne_of_reaches ho
    exact fun t t' ht ht' heq => standIn_inj hf.lt_size (hne t ht) (hne t' ht') heq
  trees := Or.inr hf.trees

/-- Both sides begin: the copy of the source is made on the one, and on the other the target stands
for the source. Both are yet to be filled. -/
theorem twins_besideTarget {a b : Run} {m : Memory} {body : Body}
    (hl : Kept s (fun _ => False) (besideTarget run memory source target).left a)
    (hr : Kept s (fun _ => False) (besideTarget run memory source target).right b)
    (ha : a.heap = run.heap) (hb : b.heap = memory.heap) (hc : a.copies = {}) (hc' : b.copies = {})
    (hm : m.heap = run.heap.add (Object.new (run.heap.cls source) body))
    (hshape : body.shape = .record) (hv : ∀ v ∈ body.values, v.object? = none) :
    Twins s (besideTarget run memory source target) (· = run.heap.size)
      { a with memory := m, copies := a.copies.put source (.ref run.heap.size) }
      { b with copies := b.copies.put source (.ref target) } := by
  have hnone : ∀ o, a.copies.find? o = none := fun o => hc ▸ Copies.find?_empty o
  have hnone' : ∀ o, b.copies.find? o = none := fun o => hc' ▸ Copies.find?_empty o
  have hsize : m.heap.size = run.heap.size + 1 := by rw [hm, Heap.size_add]
  have hsize' : b.heap.size = run.heap.size := by rw [hb, hd.size]
  have hthrive : Thriving s (besideTarget run memory source target).left a :=
    (Thriving.start rfl).step (hl.mono fun _ _ h => h.elim) hc
  have hadd : m.heap = a.heap.add (Object.new (run.heap.cls source) body) := ha.symm ▸ hm
  have hmade := hthrive.made (hnone source) hadd (hshape.trans hf.shape.symm)
  rw [ha] at hmade
  have hcopy : (besideTarget run memory source target).Familiar { a with memory := m }
      (.ref run.heap.size) := by
    rintro t ht
    cases ht
    exact ⟨Nat.lt_of_lt_of_eq (Nat.lt_succ_self _) hsize.symm, Or.inl (Nat.le_refl _)⟩
  have hempty : ∀ o, b.copies.find? o =
      (a.copies.find? o).map (Value.rename (standIn run.heap.size target)) := by
    intro o
    rw [hnone, hnone']
    rfl
  have hmadeNone : ∀ o w, a.copies.find? o = some w →
      (besideTarget run memory source target).Familiar { a with memory := m } w := by
    intro o w hw
    rw [hnone] at hw
    cases hw
  refine
    { left := hmade
      right := (hr.mono fun _ _ h => h.elim).trans (Kept.of_register _ (hnone' source))
      copies := Copies.find?_put_rename hempty standIn_first
      made := hcopy.put hmadeNone
      pace := ?pace, there := ?there, cls := ?cls, shape := ?shape, same := ?same,
      closed := ?closed }
  case pace =>
    intro k
    show standIn run.heap.size target (m.heap.size + k) = b.heap.size + k
    rw [hsize, hsize']
    exact standIn_later k
  case there =>
    intro t ht
    show standIn run.heap.size target t < b.heap.size
    rw [hsize']
    rcases get_begun target hm ht with ⟨-, -, hname⟩ | ⟨hlt, -, hname⟩
    · rw [hname]
      exact hf.lt_size
    · rw [hname]
      exact hlt
  case cls =>
    intro t ht
    show b.heap.cls (standIn run.heap.size target t) = (m.heap.get t).cls
    rw [hb]
    rcases get_begun target hm ht with ⟨-, hx, hname⟩ | ⟨hlt, hx, hname⟩
    · rw [hx, hname]
      exact (hd.spared.cls_eq target hf.lt_size).trans hf.cls
    · rw [hx, hname]
      exact hd.spared.cls_eq t hlt
  case shape =>
    intro t ht
    show b.heap.shape (standIn run.heap.size target t) = (m.heap.get t).shape
    rw [hb]
    rcases get_begun target hm ht with ⟨-, hx, hname⟩ | ⟨hlt, hx, hname⟩
    · rw [hx, hname]
      exact (hd.spared.shape_eq target hf.lt_size).trans (hf.shape_target.trans hshape.symm)
    · rw [hx, hname]
      exact hd.spared.shape_eq t hlt
  case same =>
    intro t hle ht hn
    rcases get_begun target hm ht with ⟨heq, -, -⟩ | ⟨hlt, -, -⟩
    · exact absurd heq hn
    · exact absurd hle (Nat.not_le.mpr hlt)
  case closed =>
    intro t hle ht v hmem
    have hmem : v ∈ (m.heap.get t).body.values := hmem
    rcases get_begun target hm ht with ⟨-, hx, -⟩ | ⟨hlt, -, -⟩
    · rw [hx] at hmem
      exact Pairing.Familiar.of_object? (hv v hmem)
    · exact absurd hle (Nat.not_le.mpr hlt)

/-- The clone of the source and the copy into the target have both gone well: the clone is the first
new object, and its fields and those of the target are alike. -/
structure FilledAlike (s : Setting) (run : Run) (memory : Memory) (source target : ObjectId)
    (e : Registry.Entry) (r : Value) (a b : Run) : Prop where
  result : r = .ref run.heap.size
  entry : s.registry.get? (run.heap.cls source) = some e
  tracing : s.Tracing (besideTarget run memory source target) (· = run.heap.size) run.heap.size
    e.layout (fun x => ∀ f ∈ e.layout.fields, ¬ f.place.Holds x) (fun _ => True) a b
  copy : b.copies.find? source = some (.ref target)

/-- The source is duplicated on the one side, and on the other its fields are copied into the
target. -/
theorem alike_duplicate_copyFields {a b : Run} {e : Registry.Entry} {p : Plan} {depth depth' : Nat}
    (hl : Kept s (fun _ => False) (besideTarget run memory source target).left a)
    (hr : Kept s (fun _ => False) (besideTarget run memory source target).right b)
    (ha : a.memory = run.memory) (hb : b.memory = memory) (hc : a.copies = {}) (hc' : b.copies = {})
    (he : s.registry.get? (run.heap.cls source) = some e)
    (hdesc : p.Describes (run.heap.cls source) e) (hle : depth ≤ depth')
    (hdepth : run.heap.size ≤ depth + 1) :
    s.GoAlike (s.duplicateRecord (cloneValue s depth) source p)
      (do
        register source (.ref target)
        s.copyFields (cloneValue s depth') source target p)
      a b fun r _ a b => s.FilledAlike run memory source target e r a b := by
  have hp := paired_besideTarget hf hd
  have hs : s.Sources (besideTarget run memory source target) e source :=
    hp.sources hf.duplicates he hf.shape
  have hsized := hf.sized_target hd he
  have hadds := Backend.adds_bare (m := a.memory) hf.unaided.backend he hdesc hs.concrete
  refine Tandem.bind_left (succeeds_onMemory hadds) ?_
  rintro o _ ⟨m, rfl, ho, hm⟩
  rw [ha] at ho hm
  obtain rfl : o = run.heap.size := ho
  have hstart := twins_besideTarget hf hd hl hr (congrArg Memory.heap ha) (congrArg Memory.heap hb)
    hc hc' hm rfl fun v hv => by
      rw [List.eq_of_mem_replicate hv]
      rfl
  have htracing : s.Tracing (besideTarget run memory source target) (· = run.heap.size)
      run.heap.size e.layout (fun _ => True) (fun _ => False)
      { a with memory := m, copies := a.copies.put source (.ref run.heap.size) }
      { b with copies := b.copies.put source (.ref target) } := by
    refine ⟨hstart, rfl, Nat.le_refl _, ?_, ?_, ?_, fun _ h => (h trivial).elim,
      fun _ _ h => h.elim⟩
    · show run.heap.size < m.heap.size
      rw [hm, Heap.size_add]
      exact Nat.lt_succ_self _
    · show ((m.heap.get run.heap.size).body).Sized _ _
      rw [hm, show run.memory.heap.add _ = run.heap.add _ from rfl, Heap.get_add_new]
      exact ⟨by simp [Bytes.zeros], by simp⟩
    · show (b.heap.body (standIn run.heap.size target run.heap.size)).Sized _ _
      rw [standIn_first, show b.heap = memory.heap from congrArg Memory.heap hb]
      exact hsized
  have hmissing : (a.copies.put source (.ref run.heap.size)).missing run.heap.size ≤ depth := by
    have hput := Copies.missing_put_lt (.ref run.heap.size) hf.source_lt_size
      (hc ▸ Copies.find?_empty source : a.copies.find? source = none)
    have hall := Copies.missing_le run.heap.size a.copies
    omega
  have hcopy := alike_copyFields hp (repliesAlike_cloneValue hp depth depth' hle) hs hdesc htracing
    (fun _ _ h => h) hmissing
  rw [name_besideTarget] at hcopy
  unfold Tandem
  simp only [ends_bind, ends_register, ends_pure]
  rcases tandem_iff.mp hcopy with ⟨_, a', _, b', hx, hy, h⟩ | ⟨err, a', err', b', hx, hy, herr⟩
  · rw [ends_of_ok hx, ends_of_ok hy]
    exact ⟨rfl, he, h.tracing.mono (fun _ hgap => hgap.2) fun _ _ hdone _ => hdone,
      h.strides.right.copies _ _ (Copies.find?_put _ _ _)⟩
  · rw [ends_of_error hx, ends_of_error hy]
    exact herr

/-- A clone of the source on the one side, and a copy into the target on the other. -/
theorem alike_cloneNew_copyInto {depth depth' : Nat} (hle : depth ≤ depth')
    (hdepth : run.heap.size ≤ depth + 1) :
    s.GoAlike (s.cloneNew (cloneValue s depth) source)
      (do
        let p ← s.plan (run.heap.cls source)
        register source (.ref target)
        s.copyFields (cloneValue s depth') source target p)
      { run with copies := {} } { run with memory, copies := {} }
      fun r _ a b => ∃ e, s.FilledAlike run memory source target e r a b := by
  have hp := paired_besideTarget hf hd
  obtain ⟨e, he, -⟩ := hf.unaided.heap.admits source hf.source_lt_size
  -- the first side asks whether the class is shared, and both look for the plan of the class
  have hverdict : Succeeds (s.verdict (run.heap.cls source) source) { run with copies := {} }
      fun r a => r = .open ∧ a = s.asked { run with copies := {} } (run.heap.cls source) :=
    ends_verdict _ _ |>.mpr ⟨hf.judge_eq, rfl⟩
  unfold cloneNew cloneNewBy GoAlike
  rw [tandem_heap_left]
  refine Tandem.bind_left hverdict ?_
  rintro _ _ ⟨rfl, rfl⟩
  have hasked : Kept s (fun _ => False) { run with copies := {} }
    (s.asked { run with copies := {} } (run.heap.cls source)) := Kept.of_asked _
  have hbegin : Kept s (fun _ => False) { run with memory, copies := {} }
    { run with memory, copies := {} } := Kept.refl _
  refine Tandem.bind (tandem_of_succeeds (succeeds_plan hp.unaided.plans hasked he)
    (succeeds_plan hp.plans hbegin he) fun _ _ _ _ hl hr => And.intro hl hr) ?_
  rintro p p' _ _ ⟨⟨hdesc, hof, hkl, plans, rfl⟩, ⟨-, hof', hkr, plans', rfl⟩⟩
  obtain rfl : p' = p := Except.ok.inj (hof'.symm.trans hof)
  rcases hp.unaided.planVerdict_of_open (fun _ => hf.duplicates) he hdesc hf.judge_eq hof with
    ⟨-, hshared⟩ | ⟨hv, -⟩
  · cases hshared.symm.trans hf.copied
  have hmemory : (s.asked { run with copies := {} } (run.heap.cls source)).memory = run.memory :=
    memory_asked _
  have hshape : (s.asked { run with copies := {} } (run.heap.cls source)).memory.heap.shape
      source = .record := by
    rw [hmemory]
    exact hf.shape
  have hfilled := alike_duplicate_copyFields hf hd (hasked.trans hkl) hkr hmemory rfl
    (copies_asked _) rfl he hdesc hle hdepth
  unfold cloneByPlanBy duplicateBy
  simp only [hv]
  rw [tandem_heap_left, hshape]
  exact Tandem.mono hfilled (fun _ _ _ _ h => ⟨e, h⟩) fun _ _ _ _ h => h

namespace FilledAlike

variable {e : Registry.Entry} {r : Value} {a b : Run} {t : ObjectId}
  (h : s.FilledAlike run memory source target e r a b)
include h

omit hd in
/-- What can be reached from the clone is new, or can be reached from the source. -/
theorem familiar (ht : a.heap.Reaches (.ref run.heap.size) t) :
    t < a.heap.size ∧ (run.heap.size ≤ t ∨ run.heap.Reaches (.ref source) t) := by
  induction ht with
  | here hv =>
    cases hv
    exact ⟨h.tracing.lt, Or.inl (Nat.le_refl _)⟩
  | next _ hv ih =>
    obtain ⟨hlt, hle | hold⟩ := ih
    · exact h.tracing.twins.closed _ hle hlt _ hv _ rfl
    · have hlt := hold.lt_size hf.unaided.heap.closed hf.unaided.root
      rw [h.tracing.twins.left.body_eq hlt] at hv
      have hnext := Heap.Reaches.next hold hv
      have hlt' := hnext.lt_size hf.unaided.heap.closed hf.unaided.root
      exact ⟨Nat.lt_of_lt_of_le hlt' h.tracing.twins.left.kept.heap.size_le, Or.inr hnext⟩

theorem cls_clone : a.heap.cls run.heap.size = run.heap.cls source := by
  have hcls := h.tracing.twins.cls run.heap.size h.tracing.lt
  rw [name_besideTarget] at hcls
  have hlt := hf.lt_size_right hd
  calc a.heap.cls run.heap.size = b.heap.cls target := hcls.symm
    _ = memory.heap.cls target := h.tracing.twins.right.heap.cls_eq target hlt
    _ = run.heap.cls target := hd.spared.cls_eq target hf.lt_size
    _ = run.heap.cls source := hf.cls

omit hd in
/-- The target holds what the clone holds. -/
theorem body_clone : ((a.heap.body run.heap.size).rename (standIn run.heap.size target)).Agrees
    (s.registry.fieldsOf (run.heap.cls source)) (b.heap.body target) := by
  have hl := hf.unaided.registry.sound.layouts _ _ h.entry
  have hfull := hf.unaided.registry.each Layout.inherited_full _ _ h.entry
  have hbody := Body.agrees_of_alike hl hfull h.tracing.left h.tracing.right
    fun f hmem x hx => h.tracing.alike x fun hgap => hgap f hmem hx
  rw [name_besideTarget] at hbody
  rw [Registry.fieldsOf_of_get? h.entry]
  exact hbody

/-- Objects that were there are as they were on both sides, and keep their names. -/
theorem body_old (ht : run.heap.Reaches (.ref source) t) :
    b.heap.body t = (a.heap.body t).rename (standIn run.heap.size target) := by
  have hlt := ht.lt_size hf.unaided.heap.closed hf.unaided.root
  have hne := hf.ne_of_reaches ht
  have hlt' : t < memory.heap.size := Nat.lt_of_lt_of_eq hlt hd.size.symm
  have hself : (run.heap.body t).rename (standIn run.heap.size target) = run.heap.body t :=
    Body.rename_eq_self fun o ho => standIn_old (hf.unaided.heap.closed t hlt _ ho o rfl)
  calc b.heap.body t = memory.heap.body t := h.tracing.twins.right.heap.body_eq t hlt' fun hown =>
        hown.elim hne (Nat.not_le.mpr hlt)
    _ = run.heap.body t := hd.spared.body_eq t hlt hne
    _ = (run.heap.body t).rename (standIn run.heap.size target) := hself.symm
    _ = _ := by rw [h.tracing.twins.left.body_eq hlt]; rfl

theorem body (ht : a.heap.Reaches (.ref run.heap.size) t) :
    ((a.heap.body t).rename (standIn run.heap.size target)).Agrees
      (s.registry.fieldsOf (a.heap.cls t)) (b.heap.body (standIn run.heap.size target t)) := by
  obtain ⟨hlt, hle | hold⟩ := h.familiar hf ht
  · by_cases hfirst : t = run.heap.size
    · subst hfirst
      rw [h.cls_clone hf hd, standIn_first]
      exact h.body_clone hf
    · have hsame : b.heap.body (standIn run.heap.size target t) = _ :=
        h.tracing.twins.same t hle hlt hfirst
      rw [hsame]
      exact Body.Agrees.refl _ _
  · rw [standIn_old (hold.lt_size hf.unaided.heap.closed hf.unaided.root), h.body_old hf hd hold]
    exact Body.Agrees.refl _ _

theorem sameGraph : Heap.SameGraph s.registry (standIn run.heap.size target) a.heap
    (.ref run.heap.size) b.heap (.ref target) := by
  have hrefers : Heap.RefersAlike (standIn run.heap.size target) a.heap (.ref run.heap.size)
      b.heap := fun t ht => (h.body hf hd ht).values_eq.trans (Body.values_rename _)
  have hroot : Value.ref target = (Value.ref run.heap.size).rename (standIn run.heap.size target) :=
    congrArg Value.ref standIn_first.symm
  have hp := paired_besideTarget hf hd
  refine ⟨hroot, fun o o' ho ho' => hp.inj o o' (h.familiar hf ho).2 (h.familiar hf ho').2, ?_, ?_,
    fun o ho => h.tracing.twins.cls o (h.familiar hf ho).1,
    fun o ho => h.tracing.twins.shape o (h.familiar hf ho).1, fun o ho => h.body hf hd ho⟩
  · intro o ho
    rw [hroot]
    exact ho.renamed hrefers
  · intro t ht
    rw [hroot] at ht
    exact ht.exists_name hrefers

omit hd in
/-- The fields that the policy resets are at their defaults in the target. -/
theorem reset : ∀ f ∈ s.registry.fieldsOf (run.heap.cls source), s.policy.resets f.marks = true →
    f.readFrom (b.heap.body target) = .ok f.default := by
  intro f hmem hr
  rw [(h.body_clone hf).readFrom_eq hmem]
  rw [Registry.fieldsOf_of_get? h.entry] at hmem
  exact Field.readFrom_rename_default (h.tracing.reset f hmem trivial hr)

end FilledAlike

end Filling

/-- What a copy into an instance does when nothing is wrong with the two instances. -/
theorem copyInto_eq {depth : Nat} (hdepth : depthAllowance run.heap = depth) (hne : source ≠ target)
    (hcls : run.heap.cls target = run.heap.cls source) (hs : run.heap.shape source = .record)
    (ht : run.heap.shape target = .record) :
    s.copyInto source target run =
      (do
        let p ← s.plan (run.heap.cls source)
        register source (.ref target)
        s.copyFields (cloneValue s depth) source target p)
      { run with copies := {} } := by
  subst hdepth
  unfold copyInto
  rw [begin_bind_heap]
  simp only [if_neg hne, hcls, hs, ht, ne_eq, not_true_eq_false, or_self, if_false]

/-- A deep copy into an instance is a deep clone with a given root. It goes well, and what can be
reached from the target afterwards is the same graph as what can be reached from a clone of the
source, with the target in the place of the clone. What the target held before does not matter: it
may be anything in the heap of the copy. -/
theorem copying_into_an_instance_is_cloning_with_a_given_root (hf : s.CanFill run source target)
    (hd : s.DiffersAt run target memory.heap) :
    ∃ a b, s.clone (.ref source) run = .ok (.ref run.heap.size) a ∧
      s.copyInto source target { run with memory } = .ok () b ∧
      Heap.SameGraph s.registry (standIn run.heap.size target) a.heap (.ref run.heap.size) b.heap
        (.ref target) ∧
      b.copies.find? source = some (.ref target) ∧
      ∀ f ∈ s.registry.fieldsOf (run.heap.cls source), s.policy.resets f.marks = true →
        f.readFrom (b.heap.body target) = .ok f.default := by
  have hlt := hf.source_lt_size
  have hpositive : 0 < depthAllowance run.heap :=
    Nat.lt_of_lt_of_le (Nat.zero_lt_of_lt hlt) (size_le_depthAllowance run.heap)
  obtain ⟨depth, hdepth⟩ := Nat.exists_eq_succ_of_ne_zero (Nat.ne_of_gt hpositive)
  have hle : depth ≤ depthAllowance memory.heap := by
    have heq : depthAllowance memory.heap = depthAllowance run.heap := by
      unfold depthAllowance
      rw [hd.size]
    rw [heq, hdepth]
    exact Nat.le_succ depth
  have hsize : run.heap.size ≤ depth + 1 :=
    Nat.le_trans (size_le_depthAllowance run.heap) (Nat.le_of_eq hdepth)
  have hcls : memory.heap.cls source = run.heap.cls source := hd.spared.cls_eq source hlt
  have hcopy : s.copyInto source target { run with memory } = _ := copyInto_eq rfl hf.ne
    ((hd.spared.cls_eq target hf.lt_size).trans (hf.cls.trans hcls.symm))
    ((hd.spared.shape_eq source hlt).trans hf.shape)
    ((hd.spared.shape_eq target hf.lt_size).trans hf.shape_target)
  rw [show ({ run with memory } : Run).heap.cls source = run.heap.cls source from hcls] at hcopy
  rcases tandem_iff.mp (alike_cloneNew_copyInto hf hd hle hsize) with
    ⟨_, a, _, b, hx, hy, e, h⟩ | ⟨_, _, _, _, _, _, hfit, -⟩
  · obtain rfl := h.result
    refine ⟨a, b, ?_, hcopy.trans hy, h.sameGraph hf hd, h.copy, h.reset hf⟩
    rw [clone_eq, hdepth, cloneValue_succ_of_new (Copies.find?_empty source)]
    exact hx
  · exact absurd hf.fits hfit

/-- An instance with a list that holds the instance twice, and another instance. -/
def pairRun : Run where
  memory := { heap := ⟨#[Object.new 12 (.record [7, 0, 0, 0] [.ref 1]),
    Object.new 6 (.container (.list [.ref 0, .ref 0])),
    Object.new 12 (.record [9, 0, 0, 0] [.null])]⟩ }

/-- The same, but the other instance refers to the first. -/
def pairMemory : Memory where
  heap := ⟨#[Object.new 12 (.record [7, 0, 0, 0] [.ref 1]),
    Object.new 6 (.container (.list [.ref 0, .ref 0])),
    Object.new 12 (.record [5, 0, 0, 0] [.ref 0])]⟩

theorem orderly_pair {block : List UInt8} {refs : List Value} (hlen : block.length = 4)
    (hone : refs.length = 1) (hrefs : ∀ v ∈ refs, v.object?.all (· < 3) = true) :
    (Heap.mk #[Object.new 12 (.record [7, 0, 0, 0] [.ref 1]),
      Object.new 6 (.container (.list [.ref 0, .ref 0])),
      Object.new 12 (.record block refs)]).Orderly ringSetting.registry := by
  have admits : ∀ {h : Heap} {block : List UInt8} {refs : List Value}, block.length = 4 →
      refs.length = 1 → ∃ e, ringSetting.registry.get? 12 = some e ∧
        e.Admits h (.record block refs) := fun hlen hone =>
    ⟨_, Registry.get?_add_new Registry.initial ringNode,
      .of_sized rfl ⟨hlen, hone⟩ (by decide)⟩
  refine .of_objects ?_ ?_ ?_
  · intro o ho
    match o, ho with
    | 0, _ => exact admits rfl rfl
    | 1, _ =>
      exact Registry.Entry.Admits.exists_container (Registry.sound_initial.add ringNode)
        (.list [.ref 0, .ref 0])
    | 2, _ => exact admits hlen hone
  · intro x hx
    simp only [List.mem_cons, List.not_mem_nil, or_false] at hx
    rcases hx with rfl | rfl | rfl <;> rfl
  · intro x hx v hv
    simp only [List.mem_cons, List.not_mem_nil, or_false] at hx
    rcases hx with rfl | rfl | rfl
    · rw [List.mem_singleton.mp hv]
      rfl
    · have hall : ∀ v ∈ [Value.ref 0, Value.ref 0], v.object?.all (· < 3) = true := by decide
      exact hall v hv
    · exact hrefs v hv

theorem canFill_pair : ringSetting.CanFill pairRun 0 2 := by
  have hr : ringSetting.registry.Built := built_add (by decide) rfl rfl
  have hu : ringSetting.Unaided pairRun (.ref 0) := by
    refine unaided_of_standard hr (Or.inr rfl) rfl (by decide +kernel) rfl
      (orderly_pair rfl rfl (by decide)) ?_
    intro o ho
    cases ho
    decide
  have hreach : ∀ o, pairRun.heap.Reaches (.ref 0) o → o = 0 ∨ o = 1 := by
    intro o ho
    induction ho with
    | here hv => exact Or.inl (Value.ref.inj hv).symm
    | next _ hv ih =>
      rcases ih with rfl | rfl
      · exact Or.inr (Value.ref.inj (List.mem_singleton.mp hv))
      · have hall : ∀ v ∈ [Value.ref 0, Value.ref 0], v = .ref 0 := by decide
        exact Or.inl (Value.ref.inj (hall _ hv))
  refine ⟨hu, fitsOverrides_standard hr.sound rfl, by decide, by decide, rfl, rfl,
    rfl, fun ho => ?_, fun o ho entries hb => ?_⟩
  · rcases hreach 2 ho with h | h <;> cases h
  · match o, hu.lt_size ho with
    | 0, _ => cases hb
    | 1, _ => cases hb
    | 2, _ => cases hb

theorem pair_differsAt : ringSetting.DiffersAt pairRun 2 pairMemory.heap where
  size := rfl
  spared := ⟨by decide, by decide, by decide, by decide⟩
  orderly := orderly_pair rfl rfl (by decide)

/-- The other instance becomes a copy of the first, and gets a list that holds it twice. -/
theorem the_other_instance_gets_a_list_of_itself :
    ∃ a b, ringSetting.clone (.ref 0) pairRun = .ok (.ref 3) a ∧
      ringSetting.copyInto 0 2 { pairRun with memory := pairMemory } = .ok () b ∧
      Heap.SameGraph ringSetting.registry (standIn 3 2) a.heap (.ref 3) b.heap (.ref 2) := by
  obtain ⟨a, b, hclone, hcopy, hsame, -⟩ :=
    copying_into_an_instance_is_cloning_with_a_given_root canFill_pair pair_differsAt
  exact ⟨a, b, hclone, hcopy, hsame⟩

/-! ## A target that can be reached -/

theorem Heap.setBody_setBody (h : Heap) (o : ObjectId) (b b' : Body) :
    (h.setBody o b).setBody o b' = h.setBody o b' := by
  unfold Heap.setBody
  refine congrArg Heap.mk (Array.ext (by simp) fun i hi hi' => ?_)
  simp only [Array.getElem_modify]
  split <;> rfl

theorem get_bind {ε σ α : Type} (f : σ → EStateM ε σ α) (st : σ) : (get >>= f) st = f st st := rfl

theorem plan_eq {cls : ClassId} {e : Registry.Entry} (he : s.registry.get? cls = some e)
    (plans : Plans) : ∃ p plans', ∀ run : Run, run.plans = plans →
      s.plan cls run = .ok p { run with plans := plans' } := by
  obtain ⟨p, hp⟩ := exists_planOf he { plans }
  unfold planOf at hp
  cases hg : plans.get s.registry s.classifier cls with
  | error err =>
    simp only [hg] at hp
    cases hp
  | ok found =>
    refine ⟨found.1, found.2, ?_⟩
    rintro run rfl
    unfold plan
    rw [get_bind, hg]
    rfl

/-- The fast backend gives the target the block of the source, and then goes on. -/
theorem copyFields_eq {nested : Value → CloneM Value} {p : Plan} {block old : List UInt8}
    {srefs refs : List Value} (hfast : s.backend = .fast) (hne : source ≠ target)
    (hsource : run.heap.body source = .record block srefs)
    (htarget : run.heap.body target = .record old refs) (hlen : old.length = block.length) :
    s.copyFields nested source target p run =
      s.copyFieldsFrom nested source target true p.fields
        { run with memory.heap := run.heap.setBody target (.record block refs) } := by
  have hblock : onMemory (s.backend.copyBlock source target) run =
      .ok true { run with memory.heap := run.heap.setBody target (.record block refs) } := by
    have hwrite : Direct.copyBlock? run.memory.heap source target =
        some ⟨target, .record block refs⟩ := by
      unfold Direct.copyBlock?
      rw [show run.memory.heap.body source = _ from hsource,
        show run.memory.heap.body target = _ from htarget]
      exact if_pos hlen
    have hcopy : s.backend.copyBlock source target run.memory =
        .ok true { run.memory with heap := run.heap.setBody target (.record block refs) } := by
      simp only [hfast, Backend.copyBlock, if_neg hne, get_bind, hwrite]
      rfl
    simp only [onMemory, hcopy]
  exact bind_of_ok hblock

/-- A copy into an instance by the fast backend starts with the block. -/
theorem copyInto_of_fast {depth : Nat} {p : Plan} {plans : Plans} {block old : List UInt8}
    {srefs refs : List Value} (hfast : s.backend = .fast) (hdepth : depthAllowance run.heap = depth)
    (hne : source ≠ target) (hcls : run.heap.cls target = run.heap.cls source)
    (hs : run.heap.shape source = .record) (ht : run.heap.shape target = .record)
    (hplan : ∀ run' : Run, run'.plans = run.plans →
      s.plan (run.heap.cls source) run' = .ok p { run' with plans })
    (hsource : run.heap.body source = .record block srefs)
    (htarget : run.heap.body target = .record old refs) (hlen : old.length = block.length) :
    s.copyInto source target run =
      s.copyFieldsFrom (cloneValue s depth) source target true p.fields
        { run with
          plans
          copies := Copies.put {} source (.ref target)
          memory.heap := run.heap.setBody target (.record block refs) } := by
  rw [copyInto_eq hdepth hne hcls hs ht]
  have hfound := hplan { run with copies := {} } rfl
  have hfilled : s.copyFields (cloneValue s depth) source target p
      { run with plans, copies := Copies.put {} source (.ref target) } = _ :=
    copyFields_eq hfast hne hsource htarget hlen
  exact (bind_of_ok hfound).trans hfilled

/-- The fast backend carries the block of the source over before anything is cloned. So the
primitives that the target held are lost, even where the target can be reached from the source and
is cloned itself: whatever they were, the copy comes out the same. -/
theorem primitives_of_the_target_are_lost_before_anything_is_cloned (hfast : s.backend = .fast)
    (ho : run.heap.Orderly s.registry) (hs : source < run.heap.size)
    (ht : target < run.heap.size) (hne : source ≠ target)
    (hcls : run.heap.cls target = run.heap.cls source) (hshape : run.heap.shape source = .record)
    {block other : List UInt8} {refs : List Value}
    (hbody : run.heap.body target = .record block refs) (hlen : other.length = block.length) :
    s.copyInto source target
        { run with memory.heap := run.heap.setBody target (.record other refs) } =
      s.copyInto source target run := by
  obtain ⟨e, he, ha⟩ := ho.admits source hs
  obtain ⟨-, hsized, -⟩ := ha.record ((ho.header source hs).symm.trans hshape)
  obtain ⟨e', he', ha'⟩ := ho.admits target ht
  rw [hcls] at he'
  cases he.symm.trans he'
  rw [hbody] at ha'
  obtain ⟨-, hsized', -⟩ := ha'.record rfl
  obtain ⟨sblock, srefs, hsource, hsblock, -⟩ := hsized.exists_record
  have hshape' : run.heap.shape target = .record := by
    rw [ho.header target ht, hbody]
    rfl
  obtain ⟨p, plans, hplan⟩ := plan_eq he run.plans
  have hfits : block.length = sblock.length := hsized'.1.trans hsblock.symm
  obtain ⟨depth, hdepth⟩ : ∃ depth, depthAllowance run.heap = depth := ⟨_, rfl⟩
  have hleft := copyInto_of_fast hfast hdepth hne hcls hshape hshape' hplan hsource hbody hfits
  -- the other heap has the same classes, shapes and size
  have hdepth' : depthAllowance (run.heap.setBody target (.record other refs)) = depth := by
    rw [← hdepth]
    unfold depthAllowance
    rw [Heap.size_setBody]
  have hsource' : (run.heap.setBody target (.record other refs)).body source =
      .record sblock srefs := by
    rw [Heap.body, Heap.get_setBody_of_ne _ hne]
    exact hsource
  have hbody' : (run.heap.setBody target (.record other refs)).body target = .record other refs :=
    Heap.body_setBody ht _
  have hcls' : ∀ o, (run.heap.setBody target (.record other refs)).cls o = run.heap.cls o :=
    fun o => Heap.cls_setBody _ _ o _
  have hkept : ∀ o, (run.heap.setBody target (.record other refs)).shape o = run.heap.shape o :=
    fun o => Heap.shape_setBody _ _ o _
  have hright : s.copyInto source target
      { run with memory.heap := run.heap.setBody target (.record other refs) } = _ :=
    copyInto_of_fast hfast hdepth' hne ((hcls' target).trans (hcls.trans (hcls' source).symm))
      ((hkept source).trans hshape) ((hkept target).trans hshape') ((hcls' source).symm ▸ hplan)
      hsource' hbody' (hlen.trans hfits)
  rw [hleft, hright]
  have htwice := Heap.setBody_setBody run.heap target (.record other refs) (.record sblock refs)
  exact congrArg (fun h => s.copyFieldsFrom (cloneValue s depth) source target true p.fields
    { run with plans, copies := Copies.put {} source (.ref target), memory.heap := h }) htwice

/-- An instance that refers to another. -/
def chainRun : Run where
  memory := { heap := ⟨#[Object.new 12 (.record [7, 0, 0, 0] [.ref 1]),
    Object.new 12 (.record [9, 0, 0, 0] [.null])]⟩ }

/-- The first instance is copied into the second, which it refers to. The clone of the second has
the number of the first, by either backend, and not the number that the second had. In a clone of
the first, the clone of the second has its own number. -/
theorem a_reached_target_is_cloned_with_the_number_of_the_source :
    ({ ringSetting with backend := .fast }.copyInto 0 1
        { chainRun with memory.heap := chainRun.heap.setBody 1 (.record [5, 0, 0, 0] [.null]) } =
      { ringSetting with backend := .fast }.copyInto 0 1 chainRun) ∧
    (∀ b ∈ [Backend.fast, .portable ringSetting.registry],
      (after ({ ringSetting with backend := b }.copyInto 0 1) chainRun).heap.body 1 =
        .record [7, 0, 0, 0] [.ref 2] ∧
      (after ({ ringSetting with backend := b }.copyInto 0 1) chainRun).heap.body 2 =
        .record [7, 0, 0, 0] [.null]) ∧
    (after (ringSetting.clone (.ref 0)) chainRun).heap.body 2 = .record [7, 0, 0, 0] [.ref 3] ∧
    (after (ringSetting.clone (.ref 0)) chainRun).heap.body 3 = .record [9, 0, 0, 0] [.null] := by
  have horderly : chainRun.heap.Orderly ringSetting.registry := by
    refine .of_objects ?_ (by decide) (by decide)
    intro o ho
    match o, ho with
    | 0, _ | 1, _ =>
      exact ⟨_, Registry.get?_add_new Registry.initial ringNode,
        .of_sized rfl ⟨rfl, rfl⟩ (by decide)⟩
  have hboth : 0 < chainRun.heap.size ∧ 1 < chainRun.heap.size := by decide
  refine ⟨?_, ?_, by decide +kernel, by decide +kernel⟩
  · exact primitives_of_the_target_are_lost_before_anything_is_cloned
      (s := { ringSetting with backend := .fast }) rfl horderly hboth.1 hboth.2 Nat.zero_ne_one rfl
      rfl rfl rfl
  · intro b hb
    simp only [List.mem_cons, List.not_mem_nil, or_false] at hb
    rcases hb with rfl | rfl
    · exact ⟨by decide +kernel, by decide +kernel⟩
    · exact ⟨by decide +kernel, by decide +kernel⟩

end Setting

end DeepCopy
