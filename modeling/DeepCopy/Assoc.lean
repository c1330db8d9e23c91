-- Maps that keep the order in which their keys came: a list of pairs with each
-- key once. Putting a key that is there keeps its place and changes its value.

namespace DeepCopy

/-- Keys with values, oldest first. -/
abbrev Assoc (κ ν : Type) := List (κ × ν)

namespace Assoc

variable {κ ν : Type} [DecidableEq κ]

/-- The value of a key. -/
def find? (k : κ) : Assoc κ ν → Option ν
  | [] => none
  | (k', v) :: m => if k' = k then some v else find? k m

/-- Whether a key is there. -/
def has (k : κ) (m : Assoc κ ν) : Bool := (find? k m).isSome

/-- The map with a value for a key. -/
def put (k : κ) (v : ν) : Assoc κ ν → Assoc κ ν
  | [] => [(k, v)]
  | (k', v') :: m => if k' = k then (k', v) :: m else (k', v') :: put k v m

/-- The map without a key. -/
def without (k : κ) (m : Assoc κ ν) : Assoc κ ν := m.filter fun e => e.1 ≠ k

/-- The keys, oldest first. -/
def keys (m : Assoc κ ν) : List κ := m.map (·.1)

/-- The map built by putting pairs one after the other. -/
def ofPairs (pairs : List (κ × ν)) : Assoc κ ν := pairs.foldl (fun m e => put e.1 e.2 m) []

/-! ## Laws -/

theorem find?_put_self (k : κ) (v : ν) (m : Assoc κ ν) : find? k (put k v m) = some v := by
  induction m with
  | nil => simp [put, find?]
  | cons e m ih =>
    obtain ⟨k', v'⟩ := e
    by_cases h : k' = k <;> simp [put, find?, h, ih]

theorem find?_put_of_ne {k k' : κ} (h : k' ≠ k) (v : ν) (m : Assoc κ ν) :
    find? k (put k' v m) = find? k m := by
  induction m with
  | nil => simp [put, find?, h]
  | cons e m ih =>
    obtain ⟨k₀, v₀⟩ := e
    by_cases h₀ : k₀ = k'
    · subst h₀; simp [put, find?, h]
    · simp only [put, h₀, if_false, find?, ih]

theorem find?_put (k k' : κ) (v : ν) (m : Assoc κ ν) :
    find? k' (put k v m) = if k = k' then some v else find? k' m := by
  split
  · rename_i h
    subst h
    exact find?_put_self k v m
  · rename_i h
    exact find?_put_of_ne h v m

theorem mem_of_find? {k : κ} {v : ν} {m : Assoc κ ν} (h : find? k m = some v) : (k, v) ∈ m := by
  induction m with
  | nil => cases h
  | cons e m ih =>
    obtain ⟨k', v'⟩ := e
    unfold find? at h
    split at h
    · rename_i hk
      cases h
      exact hk ▸ List.mem_cons_self
    · exact List.mem_cons_of_mem _ (ih h)

theorem keys_put (k : κ) (v : ν) (m : Assoc κ ν) :
    keys (put k v m) = if k ∈ keys m then keys m else keys m ++ [k] := by
  induction m with
  | nil => simp [put, keys]
  | cons e m ih =>
    obtain ⟨k', v'⟩ := e
    simp only [keys] at ih
    by_cases h : k' = k
    · simp [put, keys, h]
    · have h' : ¬k = k' := fun e => h e.symm
      by_cases hk : k ∈ List.map (·.1) m
      · simp_all [put, keys]
      · simp_all [put, keys]

theorem nodup_keys_put {k : κ} {v : ν} {m : Assoc κ ν} (h : (keys m).Nodup) :
    (keys (put k v m)).Nodup := by
  rw [keys_put]
  split
  · exact h
  · rename_i hk
    rw [List.nodup_append]
    exact ⟨h, by simp, fun a ha b hb => by
      rw [List.mem_singleton] at hb
      rintro rfl
      exact hk (hb ▸ ha)⟩

theorem find?_isSome_iff (k : κ) (m : Assoc κ ν) : (find? k m).isSome ↔ k ∈ keys m := by
  induction m with
  | nil => simp [find?, keys]
  | cons e m ih =>
    obtain ⟨k', v'⟩ := e
    by_cases h : k' = k
    · simp [find?, keys, h]
    · have h' : ¬k = k' := fun e => h e.symm
      simp only [find?, h, if_false, ih, keys, List.map_cons, List.mem_cons, h', false_or]

end Assoc

end DeepCopy
