-- What containers hold. However sets and maps arrange their entries, they hold
-- only what was put in, so what is true of every item is true of every value.
import DeepCopy.Container

namespace DeepCopy

namespace Key

theorem mem_insert {k k' : Key} {keys : List Key} (h : k' ∈ insert k keys) :
    k' = k ∨ k' ∈ keys := by
  unfold insert at h
  split at h
  · exact Or.inr h
  · rcases List.mem_append.mp h with h | h
    · exact Or.inr h
    · exact Or.inl (List.mem_singleton.mp h)

theorem mem_foldl_insert {keys : List Key} {s : List Key} {k : Key}
    (h : k ∈ keys.foldl (fun s k => insert k s) s) : k ∈ keys ∨ k ∈ s := by
  induction keys generalizing s with
  | nil => exact Or.inr h
  | cons k' keys ih =>
    rcases ih h with h | h
    · exact Or.inl (List.mem_cons_of_mem _ h)
    · rcases mem_insert h with rfl | h
      · exact Or.inl List.mem_cons_self
      · exact Or.inr h

end Key

/-! ## Entries -/

/-- Every key and every value of some entries is as it should be. -/
def Entries.All (P : Value → Prop) (entries : List (Key × Value)) : Prop :=
  ∀ e ∈ entries, P e.1.value ∧ P e.2

namespace Entries

variable {P : Value → Prop} {k : Key} {v : Value} {m : List (Key × Value)}

theorem all_put (hm : All P m) (hk : P k.value) (hv : P v) : All P (Assoc.put k v m) := by
  induction m with
  | nil =>
    intro e he
    rw [List.mem_singleton.mp he]
    exact ⟨hk, hv⟩
  | cons e m ih =>
    obtain ⟨k', v'⟩ := e
    have hhead := hm (k', v') List.mem_cons_self
    have htail : All P m := fun e he => hm e (List.mem_cons_of_mem _ he)
    unfold Assoc.put
    split
    · intro e he
      rcases List.mem_cons.mp he with rfl | he
      · exact ⟨hhead.1, hv⟩
      · exact htail e he
    · intro e he
      rcases List.mem_cons.mp he with rfl | he
      · exact hhead
      · exact ih htail e he

theorem all_putSorted {order : Key → Key → Ordering} (hm : All P m) (hk : P k.value) (hv : P v) :
    All P (Key.putSorted order k v m) := by
  induction m with
  | nil =>
    intro e he
    rw [List.mem_singleton.mp he]
    exact ⟨hk, hv⟩
  | cons e m ih =>
    obtain ⟨k', v'⟩ := e
    have hhead := hm (k', v') List.mem_cons_self
    have htail : All P m := fun e he => hm e (List.mem_cons_of_mem _ he)
    unfold Key.putSorted
    split
    · intro e he
      rcases List.mem_cons.mp he with rfl | he
      · exact ⟨hk, hv⟩
      · exact hm e he
    · intro e he
      rcases List.mem_cons.mp he with rfl | he
      · exact ⟨hhead.1, hv⟩
      · exact htail e he
    · intro e he
      rcases List.mem_cons.mp he with rfl | he
      · exact hhead
      · exact ih htail e he

/-- Entries that are put one after the other into a map keep what each of them has. -/
theorem all_foldl {put : Key → Value → List (Key × Value) → List (Key × Value)}
    (hput : ∀ k v m, All P m → P k.value → P v → All P (put k v m))
    {entries : List (Key × Value)} (he : All P entries) (hm : All P m) :
    All P (entries.foldl (fun m e => put e.1 e.2 m) m) := by
  induction entries generalizing m with
  | nil => exact hm
  | cons e entries ih =>
    have hhead := he e List.mem_cons_self
    exact ih (fun e' h => he e' (List.mem_cons_of_mem _ h)) (hput _ _ _ hm hhead.1 hhead.2)

theorem all_nil : All P [] := fun _ h => by cases h

theorem all_values (hm : All P m) : ∀ v ∈ m.flatMap (fun e => [e.1.value, e.2]), P v := by
  intro v hv
  obtain ⟨e, he, hv⟩ := List.mem_flatMap.mp hv
  have h := hm e he
  rcases List.mem_cons.mp hv with rfl | hv
  · exact h.1
  · exact List.mem_singleton.mp hv ▸ h.2

theorem all_of_values (h : ∀ v ∈ m.flatMap (fun e => [e.1.value, e.2]), P v) : All P m := by
  intro e he
  refine ⟨h _ (List.mem_flatMap.mpr ⟨e, he, ?_⟩), h _ (List.mem_flatMap.mpr ⟨e, he, ?_⟩)⟩
  · exact List.mem_cons_self
  · exact List.mem_cons_of_mem _ List.mem_cons_self

end Entries

/-! ## Containers -/

namespace Container

variable {P : Value → Prop} {items : List Value} {pairs : List (Value × Value)}

theorem values_setOf (h : ∀ v ∈ items, P v) : ∀ v ∈ (setOf items).values, P v := by
  intro v hv
  obtain ⟨k, hk, rfl⟩ := List.mem_map.mp hv
  rcases Key.mem_foldl_insert hk with hk | hk
  · obtain ⟨w, hw, rfl⟩ := List.mem_map.mp hk
    rw [Key.value_ofValue]
    exact h w hw
  · cases hk

theorem all_pairs (h : ∀ e ∈ pairs, P e.1 ∧ P e.2) :
    Entries.All P (pairs.map fun e => (Key.ofValue e.1, e.2)) := by
  intro e he
  obtain ⟨e', he', rfl⟩ := List.mem_map.mp he
  rw [Key.value_ofValue]
  exact h e' he'

theorem values_mapOf (h : ∀ e ∈ pairs, P e.1 ∧ P e.2) : ∀ v ∈ (mapOf pairs).values, P v :=
  Entries.all_values
    (Entries.all_foldl (fun _ _ _ => Entries.all_put) (all_pairs h) Entries.all_nil)

theorem values_sortedMapOf (h : ∀ e ∈ pairs, P e.1 ∧ P e.2) :
    ∀ v ∈ (sortedMapOf pairs).values, P v :=
  Entries.all_values
    (Entries.all_foldl (fun _ _ _ => Entries.all_putSorted) (all_pairs h) Entries.all_nil)

/-- A container that is added to holds what it held and what was added. -/
theorem values_push {c d : Container} (hp : c.push? items = some d) (hc : ∀ v ∈ c.values, P v)
    (hi : ∀ v ∈ items, P v) : ∀ v ∈ d.values, P v := by
  cases c <;> simp only [push?] at hp
  case list old =>
    cases hp
    intro v hv
    rcases List.mem_append.mp hv with hv | hv
    · exact hc v hv
    · exact hi v hv
  case linked old =>
    cases hp
    intro v hv
    rcases List.mem_append.mp hv with hv | hv
    · exact hc v hv
    · exact hi v hv
  case hashSet keys =>
    cases hp
    intro v hv
    obtain ⟨k, hk, rfl⟩ := List.mem_map.mp hv
    have hfold : items.foldl (fun s v => Key.insert (.ofValue v) s) keys =
        (items.map Key.ofValue).foldl (fun s k => Key.insert k s) keys := by
      rw [List.foldl_map]
    rw [hfold] at hk
    rcases Key.mem_foldl_insert hk with hk | hk
    · obtain ⟨w, hw, rfl⟩ := List.mem_map.mp hk
      rw [Key.value_ofValue]
      exact hi w hw
    · exact hc _ (List.mem_map.mpr ⟨k, hk, rfl⟩)
  case hashMap entries =>
    split at hp
    · rename_i k v rest
      cases hp
      have hk : P (Key.ofValue k).value := (Key.value_ofValue k).symm ▸ hi k (by simp)
      exact Entries.all_values (Entries.all_put (Entries.all_of_values hc) hk (hi v (by simp)))
    · cases hp
  case treeMap entries =>
    split at hp
    · rename_i k v rest
      cases hp
      have hk : P (Key.ofValue k).value := (Key.value_ofValue k).symm ▸ hi k (by simp)
      exact Entries.all_values
        (Entries.all_putSorted (Entries.all_of_values hc) hk (hi v (by simp)))
    · cases hp
  case calendar moment => cases hp

end Container

end DeepCopy
