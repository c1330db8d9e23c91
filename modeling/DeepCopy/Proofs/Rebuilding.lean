-- Containers that are built anew: each entry gives way to what stands for it,
-- and these are put into an empty container in the same order. Where the keys
-- stay apart and in order, the entries are found in their old places.
import Mathlib.Data.List.Forall2
import DeepCopy.Proofs.Contents

namespace DeepCopy

/-! ## Putting keys in one after the other -/

namespace Key

theorem foldl_insert {keys s : List Key} (h : (s ++ keys).Nodup) :
    keys.foldl (fun s k => insert k s) s = s ++ keys := by
  induction keys generalizing s with
  | nil => simp
  | cons k keys ih =>
    have hk : k ∉ s := by
      intro hm
      have := (List.nodup_append.mp h).2.2 k hm k List.mem_cons_self
      exact this rfl
    rw [List.foldl_cons, insert, if_neg hk, ih (by simpa using h)]
    simp

theorem distinct_of_nodup {keys : List Key} (h : keys.Nodup) : distinct keys = keys := by
  have := foldl_insert (s := []) (by simpa using h)
  simpa [distinct] using this

variable {ν : Type} {order : Key → Key → Ordering}

theorem putSorted_last {k : Key} {v : ν} {m : List (Key × ν)}
    (h : ∀ e ∈ m, order k e.1 = .gt) : putSorted order k v m = m ++ [(k, v)] := by
  induction m with
  | nil => rfl
  | cons e m ih =>
    obtain ⟨k', v'⟩ := e
    have hk : order k k' = .gt := h (k', v') List.mem_cons_self
    simp only [putSorted, hk, List.cons_append, List.cons.injEq, true_and]
    exact ih fun e he => h e (List.mem_cons_of_mem _ he)

theorem foldl_putSorted {pairs m : List (Key × ν)}
    (h : (m ++ pairs).Pairwise fun a b => order b.1 a.1 = .gt) :
    pairs.foldl (fun m e => putSorted order e.1 e.2 m) m = m ++ pairs := by
  induction pairs generalizing m with
  | nil => simp
  | cons e pairs ih =>
    have hlast : putSorted order e.1 e.2 m = m ++ [e] :=
      putSorted_last fun e' he' => (List.pairwise_append.mp h).2.2 e' he' e List.mem_cons_self
    rw [List.foldl_cons, hlast, ih (by simpa using h)]
    simp

/-- Pairs that come in order stay as they are. -/
theorem sorted_of_pairwise {pairs : List (Key × ν)}
    (h : pairs.Pairwise fun a b => order b.1 a.1 = .gt) : sorted order pairs = pairs := by
  have := foldl_putSorted (m := []) (by simpa using h)
  simpa [sorted] using this

end Key

namespace Assoc

variable {κ ν : Type} [DecidableEq κ]

theorem put_new {k : κ} {v : ν} {m : Assoc κ ν} (h : k ∉ keys m) : put k v m = m ++ [(k, v)] := by
  induction m with
  | nil => rfl
  | cons e m ih =>
    obtain ⟨k', v'⟩ := e
    simp only [keys, List.map_cons, List.mem_cons, not_or] at h
    simp only [put, Ne.symm h.1, if_false, List.cons_append, List.cons.injEq, true_and]
    exact ih h.2

theorem foldl_put {pairs m : Assoc κ ν} (h : (keys (m ++ pairs)).Nodup) :
    pairs.foldl (fun m e => put e.1 e.2 m) m = m ++ pairs := by
  induction pairs generalizing m with
  | nil => simp
  | cons e pairs ih =>
    have hk : e.1 ∉ keys m := by
      simp only [keys, List.map_append, List.map_cons] at h
      intro hm
      exact (List.nodup_append.mp h).2.2 e.1 hm e.1 List.mem_cons_self rfl
    rw [List.foldl_cons, put_new hk, ih (by simpa using h)]
    simp

/-- Pairs with each key once stay as they are. -/
theorem ofPairs_of_nodup {pairs : List (κ × ν)} (h : (keys pairs).Nodup) :
    ofPairs pairs = pairs := by
  have := foldl_put (m := []) (by simpa using h)
  simpa [ofPairs] using this

end Assoc

/-! ## Containers -/

namespace Container

/-- A container built anew: `R` says what stands for each value. -/
def Rebuilt (R : Value → Value → Prop) : Container → Container → Prop
  | list items, c => ∃ items', List.Forall₂ R items items' ∧ c = list items'
  | linked items, c => ∃ items', List.Forall₂ R items items' ∧ c = linked items'
  | hashSet keys, c => ∃ items', List.Forall₂ R (keys.map (·.value)) items' ∧ c = setOf items'
  | hashMap entries, c => ∃ entries',
    List.Forall₂ (fun e e' => R e.1.value e'.1 ∧ R e.2 e'.2) entries entries' ∧ c = mapOf entries'
  | treeMap entries, c => ∃ entries',
    List.Forall₂ (fun e e' => R e.1.value e'.1 ∧ R e.2 e'.2) entries entries' ∧
      c = sortedMapOf entries'
  | calendar moment, c => c = calendar moment

/-- The container with each value changed in its place. -/
def mapValues (g : Value → Value) : Container → Container
  | list items => list (items.map g)
  | linked items => linked (items.map g)
  | hashSet keys => hashSet (keys.map fun k => .ofValue (g k.value))
  | hashMap entries => hashMap (entries.map fun e => (.ofValue (g e.1.value), g e.2))
  | treeMap entries => treeMap (entries.map fun e => (.ofValue (g e.1.value), g e.2))
  | calendar moment => calendar moment

/-- The keys of a set or a map. -/
def keys : Container → List Key
  | hashSet keys => keys
  | hashMap entries | treeMap entries => Assoc.keys entries
  | list _ | linked _ | calendar _ => []

/-- No more than one key is an object. -/
def Lone (keys : List Value) : Prop :=
  keys.Pairwise fun v w => v.object? = none ∨ w.object? = none

/-- Each key is there once, and those of a tree map are in order, with at most one object. -/
def Proper (c : Container) : Prop :=
  c.keys.Nodup ∧
    match c with
    | treeMap entries => entries.Pairwise fun a b =>
      Key.compare b.1 a.1 = .gt ∧ (a.1.value.object? = none ∨ b.1.value.object? = none)
    | _ => True

theorem value_mem_values (c : Container) {k : Key} (hk : k ∈ c.keys) : k.value ∈ c.values := by
  have entry : ∀ {entries : Assoc Key Value}, k ∈ Assoc.keys entries →
      k.value ∈ entries.flatMap fun e => [e.1.value, e.2] := by
    intro entries h
    obtain ⟨e, he, rfl⟩ := List.mem_map.mp h
    exact List.mem_flatMap.mpr ⟨e, he, List.mem_cons_self⟩
  cases c with
  | hashSet keys => exact List.mem_map_of_mem hk
  | hashMap entries => exact entry hk
  | treeMap entries => exact entry hk
  | list items => cases hk
  | linked items => cases hk
  | calendar moment => cases hk

theorem forall₂_eq_map {α β : Type} {g : α → β} {xs : List α} {ys : List β}
    (h : List.Forall₂ (fun x y => y = g x) xs ys) : ys = xs.map g := by
  induction h with
  | nil => rfl
  | cons h _ ih => rw [h, ih, List.map_cons]

theorem nodup_map_of_injOn {α β : Type} {g : α → β} {xs : List α} (h : xs.Nodup)
    (hg : ∀ x ∈ xs, ∀ y ∈ xs, g x = g y → x = y) : (xs.map g).Nodup := by
  rw [List.Nodup, List.pairwise_map]
  refine List.Pairwise.imp_of_mem ?_ h
  intro x y hx hy hne he
  exact hne (hg x hx y hy he)

section InPlace

variable {g : Value → Value}

theorem forall₂_entries {entries : Assoc Key Value} {entries' : List (Value × Value)}
    (h : List.Forall₂ (fun e e' => e'.1 = g e.1.value ∧ e'.2 = g e.2) entries entries') :
    entries'.map (fun e => (Key.ofValue e.1, e.2)) =
      entries.map fun e => (Key.ofValue (g e.1.value), g e.2) := by
  induction h with
  | nil => rfl
  | cons h _ ih =>
    simp only [List.map_cons, ih, h.1, h.2]

theorem nodup_keys_map {entries : Assoc Key Value} (h : (Assoc.keys entries).Nodup)
    (hg : ∀ k ∈ Assoc.keys entries, ∀ k' ∈ Assoc.keys entries, g k.value = g k'.value → k = k') :
    (Assoc.keys (entries.map fun e => (Key.ofValue (g e.1.value), g e.2))).Nodup := by
  have : Assoc.keys (entries.map fun e => (Key.ofValue (g e.1.value), g e.2)) =
      (Assoc.keys entries).map fun k => Key.ofValue (g k.value) := by
    simp [Assoc.keys, Function.comp_def]
  rw [this]
  apply nodup_map_of_injOn h
  intro k hk k' hk' he
  exact hg k hk k' hk' (Key.ofValue_injective he)

/-- Keys stay in order if only objects change, and there is at most one. -/
theorem compare_map {a b : Value} (hab : Key.compare (.ofValue b) (.ofValue a) = .gt)
    (hone : a.object? = none ∨ b.object? = none)
    (ha : a.object? = none → g a = a) (hb : b.object? = none → g b = b)
    (hb' : ∀ o, b = .ref o → ∃ t, g b = .ref t) :
    Key.compare (.ofValue (g b)) (.ofValue (g a)) = .gt := by
  cases b with
  | ref o =>
    obtain ⟨t, ht⟩ := hb' o rfl
    have hna : a.object? = none := by
      rcases hone with h | h
      · exact h
      · cases h
    rw [ht, ha hna]
    cases a with
    | ref o' => cases hna
    | _ => rfl
  | _ =>
    rw [hb rfl]
    cases a with
    | ref o' => cases hab
    | _ =>
      rw [ha rfl]
      exact hab

/-- A container that is built anew has its entries in their old places, if what stands for its keys
tells them apart and leaves all but objects as they are. -/
theorem eq_mapValues_of_rebuilt {c c' : Container} (hc : c.Proper)
    (hinj : ∀ k ∈ c.keys, ∀ k' ∈ c.keys, g k.value = g k'.value → k = k')
    (hval : ∀ k ∈ c.keys, k.value.object? = none → g k.value = k.value)
    (href : ∀ k ∈ c.keys, ∀ o, k.value = .ref o → ∃ t, g k.value = .ref t)
    (h : c.Rebuilt (fun v w => w = g v) c') : c' = c.mapValues g := by
  cases c with
  | list items =>
    obtain ⟨items', hi, rfl⟩ := h
    rw [forall₂_eq_map hi, mapValues]
  | linked items =>
    obtain ⟨items', hi, rfl⟩ := h
    rw [forall₂_eq_map hi, mapValues]
  | hashSet keys =>
    obtain ⟨items', hi, rfl⟩ := h
    have hmap : items'.map Key.ofValue = keys.map fun k => .ofValue (g k.value) := by
      rw [forall₂_eq_map hi]
      simp [Function.comp_def]
    rw [setOf, hmap, Key.distinct_of_nodup, mapValues]
    apply nodup_map_of_injOn hc.1
    intro k hk k' hk' he
    exact hinj k hk k' hk' (Key.ofValue_injective he)
  | hashMap entries =>
    obtain ⟨entries', hi, rfl⟩ := h
    rw [mapOf, forall₂_entries hi, Assoc.ofPairs_of_nodup (nodup_keys_map hc.1 hinj), mapValues]
  | treeMap entries =>
    obtain ⟨entries', hi, rfl⟩ := h
    rw [sortedMapOf, forall₂_entries hi, Key.sorted_of_pairwise, mapValues]
    rw [List.pairwise_map]
    refine List.Pairwise.imp_of_mem ?_ hc.2
    intro a b ha hb hab
    have hka : a.1 ∈ keys (treeMap entries) := List.mem_map_of_mem ha
    have hkb : b.1 ∈ keys (treeMap entries) := List.mem_map_of_mem hb
    have hgt : Key.compare (.ofValue b.1.value) (.ofValue a.1.value) = .gt := by
      simpa using hab.1
    exact compare_map hgt hab.2 (hval _ hka) (hval _ hkb) (href _ hkb)
  | calendar moment => exact h

end InPlace

theorem Rebuilt.mono {R R' : Value → Value → Prop} (hR : ∀ v w, R v w → R' v w) {c c' : Container}
    (h : c.Rebuilt R c') : c.Rebuilt R' c' := by
  cases c with
  | list items =>
    obtain ⟨items', hi, hc⟩ := h
    exact ⟨items', hi.imp hR, hc⟩
  | linked items =>
    obtain ⟨items', hi, hc⟩ := h
    exact ⟨items', hi.imp hR, hc⟩
  | hashSet keys =>
    obtain ⟨items', hi, hc⟩ := h
    exact ⟨items', hi.imp hR, hc⟩
  | hashMap entries =>
    obtain ⟨entries', hi, hc⟩ := h
    exact ⟨entries', hi.imp fun _ _ he => ⟨hR _ _ he.1, hR _ _ he.2⟩, hc⟩
  | treeMap entries =>
    obtain ⟨entries', hi, hc⟩ := h
    exact ⟨entries', hi.imp fun _ _ he => ⟨hR _ _ he.1, hR _ _ he.2⟩, hc⟩
  | calendar moment => exact h

theorem forall_of_forall₂ {α β : Type} {R : α → β → Prop} {P : β → Prop} {xs : List α}
    {ys : List β} (h : List.Forall₂ R xs ys) (hP : ∀ x y, R x y → P y) : ∀ y ∈ ys, P y := by
  induction h with
  | nil => simp
  | cons h _ ih =>
    rw [List.forall_mem_cons]
    exact ⟨hP _ _ h, ih⟩

section Values

variable {R : Value → Value → Prop} {c c' : Container} (h : c.Rebuilt R c')
include h

theorem Rebuilt.kind_eq : c'.kind = c.kind := by
  cases c with
  | calendar moment => exact h ▸ rfl
  | _ =>
    obtain ⟨_, -, rfl⟩ := h
    rfl

/-- What is true of all that stands for a value is true of what the new container holds. -/
theorem Rebuilt.values {P : Value → Prop} (hP : ∀ v w, R v w → P w) : ∀ w ∈ c'.values, P w := by
  cases c with
  | list vs =>
    obtain ⟨ws, hi, rfl⟩ := h
    exact forall_of_forall₂ hi hP
  | linked vs =>
    obtain ⟨ws, hi, rfl⟩ := h
    exact forall_of_forall₂ hi hP
  | hashSet keys =>
    obtain ⟨ws, hi, rfl⟩ := h
    exact values_setOf (forall_of_forall₂ hi hP)
  | hashMap entries =>
    obtain ⟨pairs, hi, rfl⟩ := h
    exact values_mapOf (forall_of_forall₂ hi fun e _ he => ⟨hP e.1.value _ he.1, hP e.2 _ he.2⟩)
  | treeMap entries =>
    obtain ⟨pairs, hi, rfl⟩ := h
    exact values_sortedMapOf
      (forall_of_forall₂ hi fun e _ he => ⟨hP e.1.value _ he.1, hP e.2 _ he.2⟩)
  | calendar moment =>
    cases h
    intro w hw
    cases hw

end Values

end Container

end DeepCopy
