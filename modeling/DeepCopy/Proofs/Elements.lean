-- Elements of arrays. An array is read and written by index as a list is, whether
-- its elements are bytes or references: what fits can be put at any index below
-- the length, it is read back from there, and no other element moves. A new array
-- holds the items it was made of.
import DeepCopy.Proofs.FieldAccess
import DeepCopy.Proofs.Runs

namespace DeepCopy

/-! ## Whole elements -/

namespace Packed

variable {kind : Primitive.Kind} {bytes : List UInt8} {index j : Nat}

/-- What the bytes of an array stand for at an index. -/
def elementAt (kind : Primitive.Kind) (bytes : List UInt8) (index : Nat) : Primitive :=
  Primitive.decode kind ((bytes.drop (index * kind.width)).take kind.width)

/-- Below the length there is a whole element, and nothing but whole elements. -/
theorem lt_length_iff (h : kind.width ∣ bytes.length) :
    index < length kind bytes ↔ index * kind.width + kind.width ≤ bytes.length := by
  obtain ⟨n, hn⟩ := h
  have hlen : length kind bytes = n := by
    rw [length, hn, Nat.mul_div_cancel_left _ kind.width_pos]
  rw [hlen, hn, ← Nat.succ_mul, Nat.mul_comm kind.width]
  exact (Nat.mul_le_mul_right_iff kind.width_pos).symm

theorem get_eq (h : kind.width ∣ bytes.length) (index : Nat) :
    get kind bytes index =
      if index < length kind bytes then .ok (elementAt kind bytes index)
      else .error (.outOfBounds index (length kind bytes)) := by
  simp only [get, Bytes.window?, lt_length_iff h]
  split
  · rename_i h'
    split at h' <;> cases h'
    rename_i hle
    rw [if_pos hle]
    rfl
  · rename_i h'
    split at h'
    · cases h'
    · rename_i hlt
      rw [if_neg hlt]

/-- A primitive that is written over an element is found in its place, and every other element as
it was. -/
theorem elementAt_overwrite {p : Primitive} (hk : p.kind = kind)
    (hi : index * kind.width + kind.width ≤ bytes.length)
    (hj : j * kind.width + kind.width ≤ bytes.length) :
    elementAt kind (Bytes.overwrite (index * kind.width) p.encode bytes) j =
      if j = index then p else elementAt kind bytes j := by
  have hlen : p.encode.length = kind.width := by rw [Primitive.length_encode, hk]
  have hfits : index * kind.width + p.encode.length ≤ bytes.length := hlen ▸ hi
  have window : ∀ block : List UInt8, j * kind.width + kind.width ≤ block.length →
      Bytes.window? (j * kind.width) kind.width block =
        some ((block.drop (j * kind.width)).take kind.width) := fun block h => if_pos h
  have hnew := window (Bytes.overwrite (index * kind.width) p.encode bytes)
    (by rw [Bytes.length_overwrite hfits]; exact hj)
  unfold elementAt
  split
  · rename_i heq
    subst heq
    have hsame := Bytes.window?_overwrite_same hfits
    rw [hlen, hnew, Option.some.injEq] at hsame
    rw [hsame, ← hk, Primitive.decode_encode]
  · rename_i hne
    have apart : j * kind.width + kind.width ≤ index * kind.width ∨
        index * kind.width + p.encode.length ≤ j * kind.width := by
      rw [hlen, ← Nat.succ_mul, ← Nat.succ_mul]
      exact (Nat.lt_or_gt_of_ne hne).imp (Nat.mul_le_mul_right _) (Nat.mul_le_mul_right _)
    have hother := Bytes.window?_overwrite_outside hfits apart
    rw [hnew, window bytes hj, Option.some.injEq] at hother
    rw [hother]

/-- Bytes are taken for an array if they are whole elements. -/
theorem ofBytes_eq (kind : Primitive.Kind) (bytes : List UInt8) :
    ofBytes kind bytes = if kind.width ∣ bytes.length then .ok (.packed kind bytes)
      else .error (.outOfBounds bytes.length (bytes.length - bytes.length % kind.width)) := by
  simp only [ofBytes, Nat.dvd_iff_mod_eq_zero]

end Packed

/-! ## Arrays as lists -/

/-- What an array of a component holds where it was given a value, if it takes the value: a
primitive in the form of its kind, or any value at all. -/
def Component.kept? (v : Value) : Component → Option Value
  | primitive kind => (Primitive.unbox? kind v).map Primitive.box
  | reference _ => some v

namespace Body

/-- The body of an array of a component. A primitive array has whole elements. -/
def IsArray : Component → Body → Prop
  | .primitive kind, packed kind' bytes => kind' = kind ∧ kind.width ∣ bytes.length
  | .reference _, slots _ => True
  | _, _ => False

/-- The elements of an array. -/
def elements : Body → List Value
  | packed kind bytes =>
    (List.range (Packed.length kind bytes)).map fun i => (Packed.elementAt kind bytes i).box
  | slots items => items
  | _ => []

namespace IsArray

variable {b : Body} {c : Component} {index : Nat} {v held : Value}

theorem exists_packed {kind : Primitive.Kind} (h : b.IsArray (.primitive kind)) :
    ∃ bytes, b = .packed kind bytes ∧ kind.width ∣ bytes.length := by
  cases b with
  | packed kind' bytes =>
    obtain ⟨rfl, hd⟩ := h
    exact ⟨bytes, rfl, hd⟩
  | _ => exact h.elim

theorem exists_slots {cls : ClassId} (h : b.IsArray (.reference cls)) :
    ∃ items, b = .slots items := by
  cases b with
  | slots items => exact ⟨items, rfl⟩
  | _ => exact h.elim

theorem arrayLength?_eq (h : b.IsArray c) : b.arrayLength? = some b.elements.length := by
  cases c with
  | primitive kind =>
    obtain ⟨bytes, rfl, -⟩ := h.exists_packed
    simp [arrayLength?, elements]
  | reference cls =>
    obtain ⟨items, rfl⟩ := h.exists_slots
    rfl

/-- An array is read as the list of its elements is. -/
theorem element_eq (h : b.IsArray c) (cls : String) (index : Nat) :
    b.element cls index =
      match b.elements[index]? with
      | some v => .ok v
      | none => .error (.outOfBounds index b.elements.length) := by
  cases c with
  | primitive kind =>
    obtain ⟨bytes, rfl, hd⟩ := h.exists_packed
    simp only [element, Packed.get_eq hd, elements, List.getElem?_map, List.length_map,
      List.length_range]
    by_cases hi : index < Packed.length kind bytes
    · rw [if_pos hi, List.getElem?_range hi]
      rfl
    · rw [if_neg hi, List.getElem?_eq_none (by simpa using hi)]
      rfl
  | reference cls =>
    obtain ⟨items, rfl⟩ := h.exists_slots
    rfl

/-- What fits is put where a list would have it. -/
theorem exists_setElement (h : b.IsArray c) (hk : c.kept? v = some held)
    (hi : index < b.elements.length) (cls : String) :
    ∃ b', b.setElement cls index v = .ok b' ∧ b'.IsArray c ∧
      b'.elements = b.elements.set index held := by
  cases c with
  | primitive kind =>
    obtain ⟨bytes, rfl, hd⟩ := h.exists_packed
    obtain ⟨p, hp, rfl⟩ := Option.map_eq_some_iff.mp hk
    have hkind := Primitive.kind_of_unbox? hp
    rw [elements, List.length_map, List.length_range] at hi
    have hle := (Packed.lt_length_iff hd).mp hi
    have hover : (Bytes.overwrite (index * kind.width) p.encode bytes).length = bytes.length :=
      Bytes.length_overwrite (by rw [Primitive.length_encode, hkind]; exact hle)
    refine ⟨.packed kind (Bytes.overwrite (index * kind.width) p.encode bytes), ?_,
      ⟨rfl, hover ▸ hd⟩, ?_⟩
    · simp only [setElement, hp, Packed.set, hkind, ne_eq, not_true_eq_false, if_false, if_pos hle]
      rfl
    · refine List.ext_getElem (by simp [elements, Packed.length, hover]) fun j hj hj' => ?_
      simp only [elements, Packed.length, hover, List.length_map, List.length_range] at hj
      simp only [elements, List.getElem_map, List.getElem_range, List.getElem_set,
        Packed.elementAt_overwrite hkind hle ((Packed.lt_length_iff hd).mp hj)]
      by_cases hne : index = j
      · simp [hne]
      · simp [hne, Ne.symm hne]
  | reference c =>
    obtain ⟨items, rfl⟩ := h.exists_slots
    cases hk
    exact ⟨.slots (items.set index v), if_pos hi, trivial, rfl⟩

/-- What does not fit is refused at every index. -/
theorem setElement_of_unkept (h : b.IsArray c) (hk : c.kept? v = none) (cls : String)
    (index : Nat) : ∃ kind, c = .primitive kind ∧ b.setElement cls index v =
      .error (.typeMismatch cls (toString index) (.primitive kind) (.value v.kind)) := by
  cases c with
  | primitive kind =>
    obtain ⟨bytes, rfl, -⟩ := h.exists_packed
    have hp : Primitive.unbox? kind v = none := Option.map_eq_none_iff.mp hk
    exact ⟨kind, rfl, by simp only [setElement, hp]⟩
  | reference c => cases hk

/-- At and past the end even what fits is refused. -/
theorem setElement_of_le (h : b.IsArray c) (hk : c.kept? v = some held)
    (hi : b.elements.length ≤ index) (cls : String) :
    b.setElement cls index v = .error (.outOfBounds index b.elements.length) := by
  cases c with
  | primitive kind =>
    obtain ⟨bytes, rfl, hd⟩ := h.exists_packed
    obtain ⟨p, hp, rfl⟩ := Option.map_eq_some_iff.mp hk
    have hkind := Primitive.kind_of_unbox? hp
    simp only [elements, List.length_map, List.length_range] at hi ⊢
    have hlt : ¬ index * kind.width + kind.width ≤ bytes.length := fun hle =>
      Nat.not_lt.mpr hi ((Packed.lt_length_iff hd).mpr hle)
    simp only [setElement, hp, Packed.set, hkind, ne_eq, not_true_eq_false, if_false, if_neg hlt]
    rfl
  | reference c =>
    obtain ⟨items, rfl⟩ := h.exists_slots
    exact if_neg (Nat.not_lt.mpr hi)

end IsArray

end Body

namespace Heap

variable {h : Heap} {o : ObjectId} {c : Component} {index : Nat} {v held : Value}

/-- A write gives an array another element and changes nothing else. -/
structure Puts (h : Heap) (o : ObjectId) (c : Component) (index : Nat) (held : Value)
    (w : Write) : Prop where
  object : w.object = o
  /-- It is an array of the same kind and as whole as before. -/
  array : ((h.write w).body o).IsArray c
  length : (h.write w).arrayLength? o = h.arrayLength? o
  reads : (h.write w).element o index = .ok held
  others : ∀ j, j ≠ index → (h.write w).element o j = h.element o j
  cls : (h.write w).cls o = h.cls o
  shape : (h.write w).shape o = h.shape o
  elsewhere : ∀ q, q ≠ o → (h.write w).get q = h.get q

/-- There is no array where there is no object. -/
theorem lt_size_of_isArray (ha : (h.body o).IsArray c) : o < h.size := by
  by_contra ho
  have hnone : h.objects.size ≤ o := Nat.not_lt.mp ho
  rw [body, get, Array.getElem?_eq_none hnone] at ha
  cases c <;> exact ha.elim

theorem element_eq (ha : (h.body o).IsArray c) (index : Nat) :
    h.element o index =
      match (h.body o).elements[index]? with
      | some v => .ok v
      | none => .error (.outOfBounds index (h.body o).elements.length) := ha.element_eq _ index

/-- What fits an array can be put at an index below its length. -/
theorem exists_setElement (ha : (h.body o).IsArray c) (hk : c.kept? v = some held)
    (hi : index < (h.body o).elements.length) :
    ∃ w, h.setElement o index v = .ok w ∧ h.Puts o c index held w ∧
      ((h.write w).body o).elements = (h.body o).elements.set index held := by
  obtain ⟨b, hb, ha', hset⟩ := ha.exists_setElement hk hi (h.cls o).text
  have hbody : (h.write ⟨o, b⟩).body o = b := body_setBody (lt_size_of_isArray ha) b
  have hlen : b.elements.length = (h.body o).elements.length := by rw [hset, List.length_set]
  refine ⟨⟨o, b⟩, ?_, ⟨rfl, hbody.symm ▸ ha', ?_, ?_, ?_, cls_setBody h o o b,
    shape_setBody h o o b, fun q hq => get_write_of_ne hq⟩, hbody.symm ▸ hset⟩
  · rw [setElement, hb]
    rfl
  · rw [arrayLength?, hbody, ha'.arrayLength?_eq, hlen, arrayLength?, ha.arrayLength?_eq]
  · rw [element, hbody, ha'.element_eq, hset, List.getElem?_set_self hi]
  · intro j hj
    rw [element, hbody, ha'.element_eq, hset, List.length_set, List.getElem?_set_ne hj.symm,
      element_eq ha]

/-- What does not fit, or has no place, cannot be put. -/
theorem setElement_ok_iff (ha : (h.body o).IsArray c) :
    (∃ w, h.setElement o index v = .ok w) ↔
      index < (h.body o).elements.length ∧ (c.kept? v).isSome := by
  constructor
  · rintro ⟨w, hw⟩
    obtain ⟨b, hb, -⟩ := Backend.write_of_map hw
    cases hk : c.kept? v with
    | none =>
      obtain ⟨kind, -, herr⟩ := ha.setElement_of_unkept hk (h.cls o).text index
      cases herr.symm.trans hb
    | some held =>
      refine ⟨Nat.lt_of_not_le fun hle => ?_, rfl⟩
      cases (ha.setElement_of_le hk hle (h.cls o).text).symm.trans hb
  · rintro ⟨hi, hk⟩
    obtain ⟨held, hk⟩ := Option.isSome_iff_exists.mp hk
    obtain ⟨w, hw, -⟩ := exists_setElement ha hk hi
    exact ⟨w, hw⟩

/-- Access to the elements of an array by index: just those below its length can be read, just what
fits can be put there and nowhere else, and it is read back. -/
structure ObeysIndices (h : Heap) (o : ObjectId) (c : Component) (n : Nat) : Prop where
  length : h.arrayLength? o = some n
  gets : ∀ i, (∃ v, h.element o i = .ok v) ↔ i < n
  sets : ∀ i v, (∃ w, h.setElement o i v = .ok w) ↔ i < n ∧ (c.kept? v).isSome
  puts : ∀ i v w, h.setElement o i v = .ok w → ∃ held, c.kept? v = some held ∧ h.Puts o c i held w

theorem exists_obeysIndices (ha : (h.body o).IsArray c) : ∃ n, h.ObeysIndices o c n := by
  refine ⟨(h.body o).elements.length, ha.arrayLength?_eq, fun i => ?_,
    fun i v => setElement_ok_iff ha, fun i v w hw => ?_⟩
  · rw [element_eq ha]
    by_cases hi : i < (h.body o).elements.length
    · simp [hi]
    · simp [hi]
  · obtain ⟨hi, hk⟩ := (setElement_ok_iff ha).mp ⟨w, hw⟩
    obtain ⟨held, hk⟩ := Option.isSome_iff_exists.mp hk
    obtain ⟨w', hw', hputs, -⟩ := exists_setElement ha hk hi
    cases hw.symm.trans hw'
    exact ⟨held, hk, hputs⟩

end Heap

/-! ## New arrays -/

/-- An array of a component that holds certain items, each as it is kept. -/
structure Heap.HoldsItems (h : Heap) (o : ObjectId) (c : Component) (items : List Value) :
    Prop where
  array : (h.body o).IsArray c
  length : h.arrayLength? o = some items.length
  reads : ∀ i v, items[i]? = some v → ∃ held, c.kept? v = some held ∧ h.element o i = .ok held

namespace Allocator

variable {m : Memory} {o : ObjectId} {c : Component} {items : List Value}

/-- Elements that fit are put one after the other, and one that does not fit is refused. -/
theorem ends_setElements (ha : (m.heap.body o).IsArray c) (index : Nat)
    (hlen : index + items.length ≤ (m.heap.body o).elements.length) :
    Ends (setElements o index items) m
      (fun _ m' => ∃ kept, items.map c.kept? = kept.map some ∧ (m'.heap.body o).IsArray c ∧
        (m'.heap.body o).elements = (m.heap.body o).elements.take index ++ kept ++
          (m.heap.body o).elements.drop (index + items.length) ∧
        m'.heap.cls o = m.heap.cls o ∧ ∀ q, q ≠ o → m'.heap.get q = m.heap.get q)
      (fun _ _ => ∃ v ∈ items, c.kept? v = none) := by
  induction items generalizing m index with
  | nil => exact ⟨[], rfl, ha, by simp, rfl, fun _ _ => rfl⟩
  | cons v items ih =>
    rw [List.length_cons] at hlen
    have hi : index < (m.heap.body o).elements.length := by omega
    simp only [setElements, ends_bind, ends_memory_update]
    cases hk : c.kept? v with
    | none =>
      have herr : ¬ ∃ w, m.heap.setElement o index v = .ok w := fun h => by
        simpa [hk] using (Heap.setElement_ok_iff ha).mp h
      cases hw : m.heap.setElement o index v with
      | ok w => exact (herr ⟨w, hw⟩).elim
      | error e => exact ⟨v, List.mem_cons_self, hk⟩
    | some held =>
      obtain ⟨w, hw, hputs, hset⟩ := Heap.exists_setElement ha hk hi
      simp only [hw]
      refine ends_mono (ih (m := { m with heap := m.heap.write w }) hputs.array (index + 1) ?_)
        ?_ ?_
      · simp only [hset, List.length_set]
        omega
      · rintro _ m' ⟨kept, hkept, ha', helems, hcls, hothers⟩
        refine ⟨held :: kept, by rw [List.map_cons, hk, hkept, List.map_cons], ha', ?_,
          hcls.trans hputs.cls, fun q hq => (hothers q hq).trans (hputs.elsewhere q hq)⟩
        have hfront : ((m.heap.body o).elements.set index held).take (index + 1) =
            (m.heap.body o).elements.take index ++ [held] := by
          have hmin : ((m.heap.body o).elements.take index).length = index :=
            List.length_take_of_le hi.le
          rw [List.take_set, List.take_succ_eq_append_getElem hi,
            List.set_append_right _ _ hmin.le, hmin, Nat.sub_self, List.set_cons_zero]
        rw [helems, hset, hfront, List.drop_set_of_lt (by omega), List.append_assoc _ [held],
          List.singleton_append, List.length_cons, Nat.add_right_comm, Nat.add_assoc index]
      · rintro _ _ ⟨u, hu, hn⟩
        exact ⟨u, List.mem_cons_of_mem _ hu, hn⟩

/-- A new array has as many elements as it was asked for. -/
theorem succeeds_allocateArray {r : Registry} {cls : ClassId} {e : Registry.Entry}
    (he : r.get? cls = some e) (hk : e.decl.kind = .array c) (n : Nat) :
    Succeeds (allocateArray r cls n) m fun o m' => o = m.heap.size ∧
      (m'.heap.body o).IsArray c ∧ (m'.heap.body o).elements.length = n ∧
      m'.heap.cls o = cls ∧ ∀ q, q ≠ o → m'.heap.get q = m.heap.get q := by
  have others : ∀ {body : Body} {q : ObjectId}, q ≠ m.heap.size →
      (m.heap.add (Object.new cls body)).get q = m.heap.get q := fun {body q} hq => by
    have hne : q ≠ m.heap.objects.size := hq
    simp [Heap.get, Heap.add, Array.getElem?_push, hne]
  cases c with
  | primitive kind =>
    refine ends_mono (Backend.adds_packed he hk n) ?_ fun _ _ h => h
    rintro _ m' ⟨rfl, hm⟩
    rw [hm]
    simp only [Heap.body, Heap.cls, Heap.get_add_new, Object.new]
    refine ⟨trivial, ⟨rfl, ?_⟩, ?_, trivial, fun q => others⟩
    · rw [Bytes.zeros, List.length_replicate]
      exact Nat.dvd_mul_left _ _
    · simp [Body.elements, Packed.length, Bytes.zeros, Nat.mul_div_cancel _ kind.width_pos]
  | reference target =>
    refine ends_mono (Backend.adds_slots he hk n) ?_ fun _ _ h => h
    rintro _ m' ⟨rfl, hm⟩
    rw [hm]
    simp only [Heap.body, Heap.cls, Heap.get_add_new, Object.new]
    exact ⟨trivial, trivial, List.length_replicate, trivial, fun q => others⟩

/-- A new array holds the items it is filled with, unless one of them does not fit. -/
theorem ends_fillArray {r : Registry} {cls : ClassId} {e : Registry.Entry}
    (he : r.get? cls = some e) (hk : e.decl.kind = .array c) (items : List Value) :
    Ends (fillArray r cls items) m
      (fun o m' => (∀ v ∈ items, (c.kept? v).isSome) ∧ o = m.heap.size ∧ m'.heap.cls o = cls ∧
        m'.heap.HoldsItems o c items ∧ ∀ q, q ≠ o → m'.heap.get q = m.heap.get q)
      (fun _ _ => ∃ v ∈ items, c.kept? v = none) := by
  unfold fillArray
  rw [ends_bind]
  refine ends_mono (succeeds_allocateArray he hk items.length) ?_ fun _ _ h => h.elim
  rintro o m₁ ⟨ho, ha, hlen, hcls, hothers⟩
  rw [ends_bind]
  refine ends_mono (ends_setElements ha 0 (by rw [Nat.zero_add, hlen])) ?_ fun _ _ h => h
  rintro _ m₂ ⟨kept, hkept, ha', helems, hcls', hothers'⟩
  rw [List.take_zero, List.nil_append, Nat.zero_add, ← hlen, List.drop_length,
    List.append_nil] at helems
  have hcount : items.length = kept.length := by
    simpa using congrArg List.length hkept
  have hat : ∀ (i : Nat) (v : Value), items[i]? = some v →
      ∃ held, c.kept? v = some held ∧ kept[i]? = some held := by
    intro i v hv
    have h := congrArg (·[i]?) hkept
    simp only [List.getElem?_map, hv, Option.map_some] at h
    obtain ⟨held, hheld, heq⟩ := Option.map_eq_some_iff.mp h.symm
    exact ⟨held, heq.symm, hheld⟩
  refine ⟨fun v hv => ?_, ho, hcls'.trans hcls, ⟨ha', ?_, fun i v hv => ?_⟩,
    fun q hq => (hothers' q hq).trans (hothers q hq)⟩
  · obtain ⟨i, hi⟩ := List.mem_iff_getElem?.mp hv
    obtain ⟨held, hheld, -⟩ := hat i v hi
    exact Option.isSome_iff_exists.mpr ⟨held, hheld⟩
  · rw [Heap.arrayLength?, ha'.arrayLength?_eq, helems, hcount]
  · obtain ⟨held, hheld, hi⟩ := hat i v hv
    exact ⟨held, hheld, by rw [Heap.element_eq ha', helems, hi]⟩

end Allocator

namespace Workbench

/-- A new array of a component, of which the registry gave an array class. -/
theorem ends_newArray {w : Workbench} {reg : String} {component c : Component} {cls : ClassId}
    {r : Registry} {e : Registry.Entry} (ha : (w.registryOf reg).arrayOf component = .ok (cls, r))
    (he : r.get? cls = some e) (hk : e.decl.kind = .array c) (items : List Value) :
    Ends (newArray reg component items) w
      (fun o w' => (∀ v ∈ items, (c.kept? v).isSome) ∧ o = w.heap.size ∧ w'.heap.cls o = cls ∧
        w'.heap.HoldsItems o c items ∧ ∀ q, q ≠ o → w'.heap.get q = w.heap.get q)
      (fun _ _ => ∃ v ∈ items, c.kept? v = none) := by
  simp only [newArray, arrayOf, setRegistry, ends_bind, ends_registry, ends_ofHeap, ha,
    ends_modify, ends_pure, registryOf_put]
  have hfill := Allocator.ends_fillArray
    (m := { heap := w.heap, tally := (Assoc.find? reg w.allocators).getD {} }) he hk items
  unfold Ends at hfill
  simp only [allocating, tally, ends_bind, ends_get, ends_pure]
  cases hr : Allocator.fillArray r cls items
      { heap := w.heap, tally := (Assoc.find? reg w.allocators).getD {} } with
  | ok o m =>
    rw [hr] at hfill
    exact hfill
  | error e m =>
    rw [hr] at hfill
    exact hfill

/-- Arrays are lists to those who read and write them by index, and they keep their form. An
element is read just at the indices below the length. A value is put just at those indices and
just if it fits, it is read back as it is kept, nothing else changes, and a refused one changes
nothing at all. A new array is made just of items that fit and holds them in their order, and bytes
are an array just if they are whole elements. -/
theorem arrays_are_read_and_written_by_index :
    (∀ (h : Heap) (o : ObjectId) (c : Component), (h.body o).IsArray c →
      ∃ n, h.ObeysIndices o c n) ∧
    (∀ (m : Memory) (o : ObjectId) (index : Nat) (v : Value),
      Ends (Memory.update fun h => h.setElement o index v) m
        (fun _ m' => ∃ w, m.heap.setElement o index v = .ok w ∧ m'.heap = m.heap.write w)
        (fun _ m' => m' = m)) ∧
    (∀ (w : Workbench) (reg : String) (component c : Component) (cls : ClassId) (r : Registry)
      (e : Registry.Entry) (items : List Value),
      (w.registryOf reg).arrayOf component = .ok (cls, r) → r.get? cls = some e →
      e.decl.kind = .array c →
      ((∃ o w', newArray reg component items w = .ok o w') ↔ ∀ v ∈ items, (c.kept? v).isSome) ∧
      ∀ o w', newArray reg component items w = .ok o w' → o = w.heap.size ∧ w'.heap.cls o = cls ∧
        w'.heap.HoldsItems o c items ∧ ∀ q, q ≠ o → w'.heap.get q = w.heap.get q) ∧
    (∀ (kind : Primitive.Kind) (bytes : List UInt8),
      ((∃ b, Packed.ofBytes kind bytes = .ok b) ↔ kind.width ∣ bytes.length) ∧
      ∀ b, Packed.ofBytes kind bytes = .ok b → b = .packed kind bytes) := by
  refine ⟨fun h o c => Heap.exists_obeysIndices, fun m o index v => ?_,
    fun w reg component c cls r e items ha he hk => ?_, fun kind bytes => ?_⟩
  · rw [ends_memory_update]
    cases hw : m.heap.setElement o index v with
    | ok w => exact ⟨w, rfl, rfl⟩
    | error e => rfl
  · have hnew := ends_newArray ha he hk items
    refine ⟨⟨?_, fun hfits => ?_⟩, fun o w' hok => ((ends_of_ok hok).mp hnew).2⟩
    · rintro ⟨o, w', hok⟩
      exact ((ends_of_ok hok).mp hnew).1
    · cases hx : newArray reg component items w with
      | ok o w' => exact ⟨o, w', rfl⟩
      | error e w' =>
        obtain ⟨v, hv, hnone⟩ := (ends_of_error hx).mp hnew
        simpa [hnone] using hfits v hv
  · rw [Packed.ofBytes_eq]
    by_cases hd : kind.width ∣ bytes.length
    · simp [hd]
    · simp [hd]

/-- An array of three short integers. -/
def threeShorts : Heap := Heap.add {} (Object.new 0 (.packed .i16 (Bytes.zeros 6)))

/-- Short integers are put and read back, what is too large for them or past the end is not, and a
new array of the narrow floating-point numbers holds an integer as the nearest of them. -/
theorem elements_of_threeShorts :
    (∃ n, threeShorts.ObeysIndices 0 (.primitive .i16) n) ∧
    threeShorts.setElement 0 1 (.int 300) = .ok ⟨0, .packed .i16 [0, 0, 44, 1, 0, 0]⟩ ∧
    (threeShorts.write ⟨0, .packed .i16 [0, 0, 44, 1, 0, 0]⟩).element 0 1 = .ok (.int 300) ∧
    (threeShorts.setElement 0 3 (.int 300)).toOption = none ∧
    (threeShorts.setElement 0 1 (.int 70000)).toOption = none ∧
    (∃ o w, newArray "main" (.primitive .f32) [.int 16777217] {} = .ok o w ∧
      w.heap.HoldsItems o (.primitive .f32) [.int 16777217] ∧
      (Component.primitive .f32).kept? (.int 16777217) = some (.float 0x4170000000000000)) ∧
    (Packed.ofBytes .i16 [1, 2, 3]).toOption = none := by
  have h := arrays_are_read_and_written_by_index
  have hnew := h.2.2.1 {} "main" (.primitive .f32) (.primitive .f32) 12 _ _ [.int 16777217] rfl rfl
    rfl
  obtain ⟨o, w, hok⟩ := hnew.1.mpr (by decide)
  have hheld := (hnew.2 o w hok).2.2.1
  exact ⟨h.1 threeShorts 0 (.primitive .i16) ⟨rfl, by decide⟩, by decide,
    by decide, by decide, by decide,
    ⟨o, w, hok, hheld, by decide⟩, by decide⟩

end Workbench

end DeepCopy
