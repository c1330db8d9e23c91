-- The order of keys and the maps that are kept in it. A key is compared by its
-- type first and then by its content, which makes a total order in which only
-- equal keys are level. So a tree map has its keys strictly one behind the other,
-- and nothing of the way it was filled matters but the last value for each key.
import Mathlib.Data.List.Induction
import Mathlib.Data.List.Nodup
import Mathlib.Logic.Equiv.Basic
import DeepCopy.Allocator
import DeepCopy.Proofs.Renaming

namespace DeepCopy

namespace Key

/-! ## What keys are compared by -/

/-- The content of a key that is an integer. -/
def whole : Key → Int
  | int n => n.toInt
  | _ => 0

/-- The content of a key as a count: a truth value, the bits of a floating point number, a code
point, a class or an object. -/
def count : Key → Nat
  | bool b => b.toNat
  | bits b => b.toNat
  | char c => c.toNat
  | constant c => c.cls
  | ref o => o
  | _ => 0

/-- The place of a constant among those of its class. -/
def ordinal : Key → Nat
  | constant c => c.ordinal
  | _ => 0

/-- The content of a key that is a text, or the name of a constant. -/
def wording : Key → String
  | text s => s
  | constant c => c.name
  | _ => ""

/-- Keys compared by one thing after the other. What does not go with a type is the same for all
keys of it. -/
def compareInTurn : Key → Key → Ordering :=
  compareLex (compareOn rank) <| compareLex (compareOn whole) <| compareLex (compareOn count) <|
  compareLex (compareOn ordinal) (compareOn wording)

theorem compare_eq_compareInTurn : compare = compareInTurn := by
  funext a b
  -- keys of different types are told apart by the rank, all others by what is left of it
  cases a <;> cases b <;>
    simp [compare, compareInTurn, compareLex, compareOn, rank, whole, count, ordinal, wording,
      compareConstants] <;>
    rfl

/-- A key is what it is compared by. -/
theorem eq_of_components {a b : Key} (hr : rank a = rank b) (hw : whole a = whole b)
    (hc : count a = count b) (ho : ordinal a = ordinal b) (ht : wording a = wording b) : a = b := by
  cases a <;> cases b <;> try cases hr
  case null.null => rfl
  case bool.bool b c =>
    cases b <;> cases c <;> first | rfl | cases hc
  case int.int => exact congrArg int (Int64.toInt_inj.mp hw)
  case bits.bits => exact congrArg bits (UInt64.toNat_inj.mp hc)
  case char.char => exact congrArg char (Char.toNat_inj.mp hc)
  case text.text => exact congrArg text ht
  case constant.constant c d =>
    obtain ⟨cls, place, name⟩ := c
    obtain ⟨cls', place', name'⟩ := d
    cases hc
    cases ho
    cases ht
    rfl
  case ref.ref => exact congrArg ref hc

/-! ## A total order -/

instance transCmp_compare : Std.TransCmp compare := by
  rw [compare_eq_compareInTurn]
  unfold compareInTurn
  infer_instance

@[simp] theorem compare_self (a : Key) : compare a a = .eq := Std.ReflCmp.compare_self

instance lawfulEqCmp_compare : Std.LawfulEqCmp compare where
  eq_of_compare := by
    intro a b h
    rw [compare_eq_compareInTurn] at h
    simp only [compareInTurn, compareLex, compareOn, Ordering.then_eq_eq,
      Std.LawfulEqOrd.compare_eq_iff_eq] at h
    obtain ⟨hr, hw, hc, ho, ht⟩ := h
    exact eq_of_components hr hw hc ho ht

/-- The order of keys where each object lies at some address. -/
def compareAt (address : ObjectId → Nat) (a b : Key) : Ordering :=
  compare (a.rename address) (b.rename address)

/-- Objects that lie in the order in which they came to be are their own addresses. -/
theorem compareAt_self : compareAt (fun o => o) = compare := by
  funext a b
  simp only [compareAt, rename, Value.rename_id, ofValue_value]

variable {address : ObjectId → Nat}

theorem rename_injective (h : Function.Injective address) :
    Function.Injective (Key.rename address) := by
  intro a b heq
  apply value_injective
  exact Value.rename_inj (fun o o' _ _ hoo => h hoo) (ofValue_injective heq)

instance transCmp_compareAt : Std.TransCmp (compareAt address) where
  eq_swap {a b} :=
    Std.OrientedCmp.eq_swap (a := a.rename address) (b := b.rename address)
  isLE_trans {a b c} hab hbc := by
    unfold compareAt at hab hbc ⊢
    exact Std.TransCmp.isLE_trans hab hbc

theorem lawfulEqCmp_compareAt (h : Function.Injective address) :
    Std.LawfulEqCmp (compareAt address) where
  eq_of_compare hab := rename_injective h (Std.LawfulEqCmp.eq_of_compare hab)

/-! ## Equal as keys and equal as values -/

theorem ofValue_eq_iff_agrees {a b : Value} (h : a.kind ≠ .float ∨ b.kind ≠ .float) :
    ofValue a = ofValue b ↔ a.agrees b = true := by
  have hagrees : a.agrees b = (a == b) := by
    unfold Value.agrees
    split
    · rcases h with h | h <;> exact absurd rfl h
    · rfl
  rw [hagrees, beq_iff_eq]
  exact ofValue_injective.eq_iff

/-- The two zeros, by their bits. -/
def zeros : List UInt64 := [0, 0x8000000000000000]

theorem mem_zeros {bits : UInt64} :
    bits ∈ zeros ↔ bits.toNat % Binary.double.signWeight = 0 := by
  have hw : Binary.double.signWeight = 0x8000000000000000 := by decide
  have hlt := bits.toNat_lt
  simp only [zeros, List.mem_cons, List.not_mem_nil, or_false, ← UInt64.toNat_inj, hw]
  have hz : (0 : UInt64).toNat = 0 := rfl
  have hs : (0x8000000000000000 : UInt64).toNat = 0x8000000000000000 := rfl
  rw [hz, hs]
  omega

theorem not_isNaN_of_mem_zeros {bits : UInt64} (h : bits ∈ zeros) :
    Binary.isNaN Binary.double bits.toNat = false := by
  rw [Binary.isNaN, mem_zeros.mp h]
  decide

theorem ofValue_float_inj {a b : UInt64} : ofValue (.float a) = ofValue (.float b) ↔ a = b := by
  simp [ofValue]

/-- Floating point keys that are equal although the values are not: the same bits, which stand for
no number. -/
theorem eq_and_disagree_iff (a b : UInt64) :
    (ofValue (.float a) = ofValue (.float b) ∧ (Value.float a).agrees (.float b) = false) ↔
      a = b ∧ Binary.isNaN Binary.double a.toNat = true := by
  rw [ofValue_float_inj]
  apply and_congr_right
  rintro rfl
  simp [Value.agrees, Binary.agree]

/-- Floating point values that are equal although the keys are not: the two zeros. -/
theorem ne_and_agree_iff (a b : UInt64) :
    (ofValue (.float a) ≠ ofValue (.float b) ∧ (Value.float a).agrees (.float b) = true) ↔
      a ≠ b ∧ a ∈ zeros ∧ b ∈ zeros := by
  rw [ne_eq, ofValue_float_inj]
  apply and_congr_right
  intro hne
  have hne : a.toNat ≠ b.toNat := fun h => hne (UInt64.toNat_inj.mp h)
  constructor
  · intro h
    simp only [Value.agrees, Binary.agree, Bool.and_eq_true, Bool.or_eq_true, beq_iff_eq] at h
    obtain ⟨-, heq | ⟨ha, hb⟩⟩ := h
    · exact absurd heq hne
    · exact ⟨mem_zeros.mpr ha, mem_zeros.mpr hb⟩
  · rintro ⟨ha, hb⟩
    simp [Value.agrees, Binary.agree, not_isNaN_of_mem_zeros, ha, hb, mem_zeros.mp]

/-! ## Maps in key order -/

variable {order : Key → Key → Ordering} {ν : Type} {m m' : Assoc Key ν} {k : Key} {v : ν}

/-- The keys of a map come strictly one behind the other. -/
def Increasing (order : Key → Key → Ordering) (m : Assoc Key ν) : Prop :=
  (Assoc.keys m).Pairwise fun a b => order a b = .lt

theorem sorted_concat (pairs : List (Key × ν)) (e : Key × ν) :
    sorted order (pairs ++ [e]) = putSorted order e.1 e.2 (sorted order pairs) := by
  simp only [sorted, List.foldl_append, List.foldl_cons, List.foldl_nil]

theorem mem_iff_find? (h : (Assoc.keys m).Nodup) :
    (k, v) ∈ m ↔ Assoc.find? k m = some v := by
  refine ⟨fun hm => ?_, Assoc.mem_of_find?⟩
  induction m with
  | nil => cases hm
  | cons e m ih =>
    obtain ⟨k₀, v₀⟩ := e
    obtain ⟨hnew, hrest⟩ := List.nodup_cons.mp h
    rcases List.mem_cons.mp hm with heq | hm
    · cases heq
      simp [Assoc.find?]
    · have hne : k₀ ≠ k := by
        rintro rfl
        exact hnew (List.mem_map.mpr ⟨_, hm, rfl⟩)
      rw [Assoc.find?, if_neg hne]
      exact ih hrest hm

/-- The last value that entries give for a key. -/
def lastFor (k : Key) (entries : List (Value × Value)) : Option Value :=
  (entries.reverse.find? fun e => ofValue e.1 = k).map (·.2)

theorem lastFor_concat (k : Key) (entries : List (Value × Value)) (e : Value × Value) :
    lastFor k (entries ++ [e]) = if ofValue e.1 = k then some e.2 else lastFor k entries := by
  rw [lastFor, List.reverse_concat, List.find?_cons]
  by_cases h : ofValue e.1 = k
  · simp [h]
  · simp [h, lastFor]

/-- The last value for a key is the last one among the entries that have the key. -/
theorem lastFor_filter (k : Key) (entries : List (Value × Value)) :
    lastFor k (entries.filter fun e => ofValue e.1 = k) = lastFor k entries := by
  rw [lastFor, ← List.filter_reverse, List.find?_filter]
  simp [lastFor]

section Level

variable [Std.LawfulEqCmp order]

theorem find?_putSorted (k' k : Key) (v : ν) (m : Assoc Key ν) :
    Assoc.find? k' (putSorted order k v m) = if k = k' then some v else Assoc.find? k' m := by
  induction m with
  | nil => rfl
  | cons e m ih =>
    obtain ⟨k₀, v₀⟩ := e
    unfold putSorted
    split
    · rfl
    · rename_i heq
      cases Std.LawfulEqCmp.eq_of_compare heq
      by_cases h : k = k' <;> simp [Assoc.find?, h]
    · rename_i hgt
      simp only [Assoc.find?, ih]
      by_cases h₀ : k₀ = k'
      · have hne : k ≠ k' := by
          rintro rfl
          cases h₀
          exact absurd hgt (by simp [Std.ReflCmp.compare_self])
        rw [if_pos h₀, if_neg hne, if_pos h₀]
      · rw [if_neg h₀, if_neg h₀]

theorem mem_keys_putSorted {k' : Key} :
    k' ∈ Assoc.keys (putSorted order k v m) ↔ k' = k ∨ k' ∈ Assoc.keys m := by
  rw [← Assoc.find?_isSome_iff, ← Assoc.find?_isSome_iff, find?_putSorted]
  by_cases h : k = k'
  · simp [h]
  · simp [h, Ne.symm h]

variable (order) in
theorem find?_sorted (k : Key) (entries : List (Value × Value)) :
    Assoc.find? k (sorted order (entries.map fun e => (ofValue e.1, e.2))) = lastFor k entries := by
  induction entries using List.reverseRecOn with
  | nil => rfl
  | append_singleton entries e ih =>
    rw [List.map_append, List.map_singleton, sorted_concat, find?_putSorted, lastFor_concat, ih]

end Level

section Ordered

variable [Std.TransCmp order]

theorem Increasing.nodup (h : Increasing order m) : (Assoc.keys m).Nodup := by
  refine List.Pairwise.imp ?_ h
  rintro a b hab rfl
  exact absurd hab (by simp [Std.ReflCmp.compare_self])

/-- A map in key order is known by what is found in it. -/
theorem Increasing.eq_of_find? (h : Increasing order m) (h' : Increasing order m')
    (heq : ∀ k, Assoc.find? k m = Assoc.find? k m') : m = m' := by
  have hperm : m.Perm m' := by
    apply (List.perm_ext_iff_of_nodup (List.Nodup.of_map _ h.nodup)
      (List.Nodup.of_map _ h'.nodup)).mpr
    rintro ⟨k, v⟩
    rw [mem_iff_find? h.nodup, mem_iff_find? h'.nodup, heq k]
  refine hperm.eq_of_pairwise ?_ (List.pairwise_map.mp h) (List.pairwise_map.mp h')
  intro a b _ _ hab hba
  exact absurd hba (Std.OrientedCmp.not_lt_of_lt hab)

variable [Std.LawfulEqCmp order]

theorem Increasing.putSorted (h : Increasing order m) (k : Key) (v : ν) :
    Increasing order (putSorted order k v m) := by
  induction m with
  | nil => exact List.pairwise_singleton _ _
  | cons e m ih =>
    obtain ⟨k₀, v₀⟩ := e
    obtain ⟨hbehind, hrest⟩ := List.pairwise_cons.mp h
    unfold Key.putSorted
    split
    · rename_i hlt
      refine List.pairwise_cons.mpr ⟨?_, h⟩
      intro k' hk'
      rcases List.mem_cons.mp hk' with rfl | hk'
      · exact hlt
      · exact Std.TransCmp.lt_trans hlt (hbehind k' hk')
    · exact List.pairwise_cons.mpr ⟨hbehind, hrest⟩
    · rename_i hgt
      refine List.pairwise_cons.mpr ⟨?_, ih hrest⟩
      intro k' hk'
      rcases mem_keys_putSorted.mp hk' with rfl | hk'
      · exact Std.OrientedCmp.lt_of_gt hgt
      · exact hbehind k' hk'

variable (order) in
theorem increasing_sorted (pairs : List (Key × ν)) : Increasing order (sorted order pairs) := by
  induction pairs using List.reverseRecOn with
  | nil => exact List.Pairwise.nil
  | append_singleton pairs e ih =>
    rw [sorted_concat]
    exact ih.putSorted e.1 e.2

end Ordered

end Key

/-! ## Tree maps -/

namespace Container

variable {address : ObjectId → Nat}

/-- The tree map of some entries, the last value for each key, where each object lies at some
address. -/
def sortedMapAt (address : ObjectId → Nat) (entries : List (Value × Value)) : Container :=
  treeMap (Key.sorted (Key.compareAt address) (entries.map fun e => (Key.ofValue e.1, e.2)))

theorem sortedMapAt_self : sortedMapAt (fun o => o) = sortedMapOf := by
  funext entries
  rw [sortedMapAt, Key.compareAt_self, sortedMapOf]

theorem sortedMapAt_eq_iff (h : Function.Injective address)
    (entries entries' : List (Value × Value)) :
    sortedMapAt address entries = sortedMapAt address entries' ↔
      ∀ k, Key.lastFor k entries = Key.lastFor k entries' := by
  have := Key.lawfulEqCmp_compareAt h
  constructor
  · intro heq k
    rw [← Key.find?_sorted (Key.compareAt address), treeMap.inj heq, Key.find?_sorted]
  · intro hlast
    apply congrArg treeMap
    apply (Key.increasing_sorted (Key.compareAt address) _).eq_of_find?
      (Key.increasing_sorted (Key.compareAt address) _)
    intro k
    rw [Key.find?_sorted, Key.find?_sorted, hlast k]

end Container

/-- The laws of keys, where objects lie at some addresses, and of the maps that are kept in their
order. -/
structure KeyLaws (address : ObjectId → Nat) : Prop where
  value_ofValue : ∀ v, (Key.ofValue v).value = v
  ofValue_value : ∀ k, Key.ofValue k.value = k
  /-- The order is total. -/
  order : Std.TransCmp (Key.compareAt address)
  /-- Keys are level only if they are equal. -/
  level : Std.LawfulEqCmp (Key.compareAt address)
  agrees : ∀ a b : Value, a.kind ≠ .float ∨ b.kind ≠ .float →
    (Key.ofValue a = Key.ofValue b ↔ a.agrees b = true)
  bits : ∀ a b, Key.ofValue (.float a) = Key.ofValue (.float b) ↔ a = b
  /-- What is no number equals itself as a key but not as a value. -/
  noNumber : ∀ a b, (Key.ofValue (.float a) = Key.ofValue (.float b) ∧
      (Value.float a).agrees (.float b) = false) ↔
    a = b ∧ Binary.isNaN Binary.double a.toNat = true
  /-- The two zeros, and no others, are different keys and equal values. -/
  zeros : ∀ a b, (Key.ofValue (.float a) ≠ Key.ofValue (.float b) ∧
      (Value.float a).agrees (.float b) = true) ↔
    a ≠ b ∧ a ∈ Key.zeros ∧ b ∈ Key.zeros
  /-- A new tree map has its keys in order, each with the last value that was given for it. -/
  treeMap : ∀ (entries : List (Value × Value)) (m : Memory), ∃ es m',
    (Allocator.newContainer (Container.sortedMapAt address entries) :
      MemoryM HeapError ObjectId) m = .ok m.heap.size m' ∧
    m'.heap.body m.heap.size = .container (.treeMap es) ∧
    Key.Increasing (Key.compareAt address) es ∧ ∀ k, Assoc.find? k es = Key.lastFor k entries
  /-- Entries may trade places unless they have the same key. -/
  reordered : ∀ entries entries' : List (Value × Value),
    (∀ k, entries.filter (fun e => Key.ofValue e.1 = k) =
      entries'.filter fun e => Key.ofValue e.1 = k) →
    Container.sortedMapAt address entries = Container.sortedMapAt address entries'
  /-- The order in which objects came to be is that of some addresses. -/
  self : address = (fun o => o) →
    Key.compareAt address = Key.compare ∧ Container.sortedMapAt address = Container.sortedMapOf

/-- Values and keys go over into each other without loss. Wherever objects lie, as long as no two of
them lie at one address, keys are in a total order in which only equal keys are level, and they are
equal where the values are, but for floating point numbers, which are told apart by their bits. So
a tree map that is filled with any entries is strictly increasing, has the last value for each key,
and does not show in which order different keys were given. -/
theorem keys_are_lawful_and_tree_maps_keep_their_order {address : ObjectId → Nat}
    (haddress : Function.Injective address) : KeyLaws address where
  value_ofValue := Key.value_ofValue
  ofValue_value := Key.ofValue_value
  order := inferInstance
  level := Key.lawfulEqCmp_compareAt haddress
  agrees := fun _ _ => Key.ofValue_eq_iff_agrees
  bits := fun _ _ => Key.ofValue_float_inj
  noNumber := Key.eq_and_disagree_iff
  zeros := Key.ne_and_agree_iff
  treeMap := by
    have := Key.lawfulEqCmp_compareAt haddress
    intro entries m
    refine ⟨_, _, rfl, ?_, Key.increasing_sorted _ _,
      fun k => Key.find?_sorted _ k entries⟩
    exact congrArg Object.body (Heap.get_add_new m.heap _)
  reordered := by
    intro entries entries' h
    rw [Container.sortedMapAt_eq_iff haddress]
    intro k
    rw [← Key.lastFor_filter k entries, h k, Key.lastFor_filter]
  self := by
    rintro rfl
    exact ⟨Key.compareAt_self, Container.sortedMapAt_self⟩

/-- Where the first two objects lie the other way round they come the other way round as keys. A
tree map with both has them in that order, and the later value for the one that is given twice. -/
theorem keys_are_lawful_where_two_objects_are_swapped :
    Function.Injective (Equiv.swap 0 1 : ObjectId → Nat) ∧
    KeyLaws (Equiv.swap 0 1 : ObjectId → Nat) ∧
    Container.sortedMapAt (Equiv.swap 0 1 : ObjectId → Nat)
      [(.ref 0, .int 1), (.text "b", .null), (.ref 1, .int 2), (.ref 0, .int 3)] =
      .treeMap [(.text "b", .null), (.ref 1, .int 2), (.ref 0, .int 3)] ∧
    Container.sortedMapOf
      [(.ref 0, .int 1), (.text "b", .null), (.ref 1, .int 2), (.ref 0, .int 3)] =
      .treeMap [(.text "b", .null), (.ref 0, .int 3), (.ref 1, .int 2)] :=
  ⟨(Equiv.swap 0 1).injective,
    keys_are_lawful_and_tree_maps_keep_their_order (Equiv.swap 0 1).injective, by decide, by decide⟩

end DeepCopy
