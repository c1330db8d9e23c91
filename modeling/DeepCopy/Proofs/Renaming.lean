-- Other names for objects. What is built from renamed values is the renamed
-- building, as long as the names of keys are told apart and keep their order.
-- Instances are compared byte by byte and slot by slot, so that it can be said
-- which of these may still differ.
import DeepCopy.Proofs.Contents
import DeepCopy.Proofs.InstanceWrites
import DeepCopy.Proofs.Rebuilding

namespace DeepCopy

/-! ## Renaming -/

/-- The value with another name for the object it refers to. -/
def Value.rename (ρ : ObjectId → ObjectId) : Value → Value
  | .ref o => .ref (ρ o)
  | v => v

/-- The body with other names for all objects it refers to. -/
def Body.rename (ρ : ObjectId → ObjectId) : Body → Body
  | .record block refs => .record block (refs.map (Value.rename ρ))
  | .packed kind bytes => .packed kind bytes
  | .slots items => .slots (items.map (Value.rename ρ))
  | .container c => .container (c.mapValues (Value.rename ρ))

namespace Value

variable {ρ : ObjectId → ObjectId} {v w : Value}

theorem rename_eq_self (h : ∀ o, v = .ref o → ρ o = o) : v.rename ρ = v := by
  cases v with
  | ref o => exact congrArg Value.ref (h o rfl)
  | _ => rfl

@[simp] theorem rename_id (v : Value) : v.rename (fun o => o) = v := rename_eq_self fun _ _ => rfl

theorem exists_of_rename_eq_ref {t : ObjectId} (h : v.rename ρ = .ref t) :
    ∃ o, v = .ref o ∧ ρ o = t := by
  cases v with
  | ref o => exact ⟨o, rfl, Value.ref.inj h⟩
  | _ => cases h

/-- Values are told apart by their new names, if the objects they refer to are. -/
theorem rename_inj (hρ : ∀ o o', v = .ref o → w = .ref o' → ρ o = ρ o' → o = o')
    (h : v.rename ρ = w.rename ρ) : v = w := by
  cases v with
  | ref o =>
    obtain ⟨o', rfl, ho⟩ := exists_of_rename_eq_ref (v := w) (ρ := ρ) h.symm
    rw [hρ o o' rfl rfl ho.symm]
  | _ =>
    cases w with
    | ref o' => cases h
    | _ => exact h

end Value

theorem Container.values_mapValues (g : Value → Value) (c : Container) :
    (c.mapValues g).values = c.values.map g := by
  cases c <;> simp [mapValues, values, List.flatMap_map, List.map_flatMap, Function.comp_def]

theorem Container.mapValues_eq_self {g : Value → Value} {c : Container}
    (h : ∀ v ∈ c.values, g v = v) : c.mapValues g = c := by
  have entries : ∀ m : Assoc Key Value, (∀ e ∈ m, g e.1.value = e.1.value ∧ g e.2 = e.2) →
      (m.map fun e => (Key.ofValue (g e.1.value), g e.2)) = m := by
    intro m hm
    refine (List.map_congr_left fun e he => ?_).trans (List.map_id m)
    rw [(hm e he).1, (hm e he).2, Key.ofValue_value]
    rfl
  have paired : ∀ m : Assoc Key Value,
      (∀ v ∈ m.flatMap fun e => [e.1.value, e.2], g v = v) →
      ∀ e ∈ m, g e.1.value = e.1.value ∧ g e.2 = e.2 := by
    intro m hm e he
    exact ⟨hm _ (List.mem_flatMap.mpr ⟨e, he, by simp⟩),
      hm _ (List.mem_flatMap.mpr ⟨e, he, by simp⟩)⟩
  have items : ∀ vs : List Value, (∀ v ∈ vs, g v = v) → vs.map g = vs :=
    fun vs hvs => (List.map_congr_left hvs).trans (List.map_id vs)
  cases c with
  | list vs => exact congrArg list (items vs h)
  | linked vs => exact congrArg linked (items vs h)
  | hashSet keys =>
    refine congrArg hashSet ((List.map_congr_left fun k hk => ?_).trans (List.map_id keys))
    rw [h _ (List.mem_map_of_mem hk), Key.ofValue_value]
    rfl
  | hashMap m => exact congrArg hashMap (entries m (paired m h))
  | treeMap m => exact congrArg treeMap (entries m (paired m h))
  | calendar moment => rfl

namespace Body

variable {ρ : ObjectId → ObjectId}

theorem values_rename (b : Body) : (b.rename ρ).values = b.values.map (Value.rename ρ) := by
  cases b with
  | container c => exact Container.values_mapValues _ c
  | _ => rfl

/-- A body stays as it is if all objects that it refers to keep their names. -/
theorem rename_eq_self {b : Body} (h : ∀ o, Value.ref o ∈ b.values → ρ o = o) :
    b.rename ρ = b := by
  have hv : ∀ v ∈ b.values, v.rename ρ = v :=
    fun v hv => Value.rename_eq_self fun o ho => h o (ho ▸ hv)
  have items : ∀ vs : List Value, (∀ v ∈ vs, v.rename ρ = v) → vs.map (Value.rename ρ) = vs :=
    fun vs hvs => (List.map_congr_left hvs).trans (List.map_id vs)
  cases b with
  | record block refs => exact congrArg (record block) (items refs hv)
  | packed kind bytes => rfl
  | slots vs => exact congrArg slots (items vs hv)
  | container c => exact congrArg container (Container.mapValues_eq_self hv)

end Body

/-! ## What is built from renamed values -/

namespace Key

/-- The key with another name for its object. -/
def rename (ρ : ObjectId → ObjectId) (k : Key) : Key := ofValue (k.value.rename ρ)

variable {ρ : ObjectId → ObjectId} {P : Key → Prop} {k : Key} {keys : List Key}

theorem insert_rename (hρ : ∀ k k', P k → P k' → k.rename ρ = k'.rename ρ → k = k') (hk : P k)
    (hs : ∀ k' ∈ keys, P k') :
    insert (k.rename ρ) (keys.map (rename ρ)) = (insert k keys).map (rename ρ) := by
  have hmem : k.rename ρ ∈ keys.map (rename ρ) ↔ k ∈ keys := by
    constructor
    · intro h
      obtain ⟨k', hk', he⟩ := List.mem_map.mp h
      rw [hρ k k' hk (hs k' hk') he.symm]
      exact hk'
    · exact List.mem_map_of_mem
  unfold insert
  by_cases h : k ∈ keys
  · rw [if_pos h, if_pos (hmem.mpr h)]
  · rw [if_neg h, if_neg (mt hmem.mp h), List.map_append]
    rfl

/-- The set of renamed keys is the set of the keys, renamed. -/
theorem distinct_rename (hρ : ∀ k k', P k → P k' → k.rename ρ = k'.rename ρ → k = k')
    (hP : ∀ k ∈ keys, P k) : distinct (keys.map (rename ρ)) = (distinct keys).map (rename ρ) := by
  suffices ∀ s : List Key, (∀ k ∈ s, P k) →
      (keys.map (rename ρ)).foldl (fun s k => insert k s) (s.map (rename ρ)) =
        (keys.foldl (fun s k => insert k s) s).map (rename ρ) from
    this [] fun _ h => by cases h
  induction keys with
  | nil => exact fun s _ => rfl
  | cons k keys ih =>
    intro s hs
    have hk := hP k List.mem_cons_self
    rw [List.map_cons, List.foldl_cons, List.foldl_cons, insert_rename hρ hk hs]
    refine ih (fun k' hk' => hP k' (List.mem_cons_of_mem _ hk')) _ fun k' hk' => ?_
    rcases mem_insert hk' with rfl | h
    · exact hk
    · exact hs k' h

/-- Keys keep their order, unless both are objects. -/
theorem compare_rename {k k' : Key}
    (h : k = k' ∨ k.value.object? = none ∨ k'.value.object? = none) :
    compare (k.rename ρ) (k'.rename ρ) = compare k k' := by
  rcases h with h | h | h
  · cases h
    cases k with
    | ref o => simp [rename, value, ofValue, Value.rename, compare, compareOfLessAndEq]
    | _ => rfl
  · cases k with
    | ref o => cases h
    | _ => cases k' <;> rfl
  · cases k' with
    | ref o => cases h
    | _ => cases k <;> rfl

end Key

namespace Entries

/-- The entry with other names for all objects. -/
def rename (ρ : ObjectId → ObjectId) (e : Key × Value) : Key × Value :=
  (e.1.rename ρ, e.2.rename ρ)

variable {ρ : ObjectId → ObjectId} {P : Key → Prop} {k : Key} {v : Value} {m : List (Key × Value)}

/-- A map that is built from renamed entries is the map of the entries, renamed, if each step of the
building is. -/
theorem foldl_rename {put : Key → Value → List (Key × Value) → List (Key × Value)}
    (hput : ∀ k v m, P k → (∀ e ∈ m, P e.1) →
      put (k.rename ρ) (v.rename ρ) (m.map (rename ρ)) = (put k v m).map (rename ρ))
    (hkeys : ∀ k v m, P k → (∀ e ∈ m, P e.1) → ∀ e ∈ put k v m, P e.1)
    {entries : List (Key × Value)} (he : ∀ e ∈ entries, P e.1) (hm : ∀ e ∈ m, P e.1) :
    (entries.map (rename ρ)).foldl (fun m e => put e.1 e.2 m) (m.map (rename ρ)) =
      (entries.foldl (fun m e => put e.1 e.2 m) m).map (rename ρ) := by
  induction entries generalizing m with
  | nil => rfl
  | cons e entries ih =>
    have hk := he e List.mem_cons_self
    have hstep := hput e.1 e.2 m hk hm
    simp only [List.map_cons, List.foldl_cons, rename] at hstep ⊢
    rw [hstep]
    exact ih (fun e' he' => he e' (List.mem_cons_of_mem _ he')) (hkeys e.1 e.2 m hk hm)

theorem put_rename (hρ : ∀ k k', P k → P k' → k.rename ρ = k'.rename ρ → k = k') (hk : P k)
    (hm : ∀ e ∈ m, P e.1) :
    Assoc.put (k.rename ρ) (v.rename ρ) (m.map (rename ρ)) = (Assoc.put k v m).map (rename ρ) := by
  induction m with
  | nil => rfl
  | cons e m ih =>
    obtain ⟨k', v'⟩ := e
    have hi := ih fun e' he' => hm e' (List.mem_cons_of_mem _ he')
    have hiff : k'.rename ρ = k.rename ρ ↔ k' = k :=
      ⟨hρ k' k (hm _ List.mem_cons_self) hk, congrArg _⟩
    simp only [List.map_cons, rename, Assoc.put, hiff]
    split
    · rfl
    · rw [hi]
      rfl

theorem keys_put (hk : P k) (hm : ∀ e ∈ m, P e.1) : ∀ e ∈ Assoc.put k v m, P e.1 := by
  intro e he
  have hmem : e.1 ∈ Assoc.keys (Assoc.put k v m) := List.mem_map_of_mem he
  have old : ∀ k' ∈ Assoc.keys m, P k' := by
    intro k' hk'
    obtain ⟨e', he', rfl⟩ := List.mem_map.mp hk'
    exact hm e' he'
  rw [Assoc.keys_put] at hmem
  split at hmem
  · exact old _ hmem
  · rcases List.mem_append.mp hmem with h | h
    · exact old _ h
    · exact List.mem_singleton.mp h ▸ hk

theorem putSorted_rename
    (hρ : ∀ k k', P k → P k' → (k.rename ρ).compare (k'.rename ρ) = k.compare k') (hk : P k)
    (hm : ∀ e ∈ m, P e.1) :
    Key.putSorted Key.compare (k.rename ρ) (v.rename ρ) (m.map (rename ρ)) =
      (Key.putSorted Key.compare k v m).map (rename ρ) := by
  induction m with
  | nil => rfl
  | cons e m ih =>
    obtain ⟨k', v'⟩ := e
    have hi := ih fun e' he' => hm e' (List.mem_cons_of_mem _ he')
    have hc := hρ k k' hk (hm _ List.mem_cons_self)
    simp only [List.map_cons, rename, Key.putSorted, hc]
    cases k.compare k' with
    | lt => rfl
    | eq => rfl
    | gt => exact congrArg _ hi

theorem keys_putSorted {order : Key → Key → Ordering} (hk : P k) (hm : ∀ e ∈ m, P e.1) :
    ∀ e ∈ Key.putSorted order k v m, P e.1 := by
  induction m with
  | nil =>
    intro e he
    rw [List.mem_singleton.mp he]
    exact hk
  | cons e m ih =>
    obtain ⟨k', v'⟩ := e
    have hhead := hm (k', v') List.mem_cons_self
    have htail := fun e he => hm e (List.mem_cons_of_mem _ he)
    intro e he
    unfold Key.putSorted at he
    split at he
    · rcases List.mem_cons.mp he with rfl | he
      · exact hk
      · exact hm e he
    · rcases List.mem_cons.mp he with rfl | he
      · exact hhead
      · exact htail e he
    · rcases List.mem_cons.mp he with rfl | he
      · exact hhead
      · exact ih htail e he

end Entries

namespace Container

variable {ρ : ObjectId → ObjectId} {P : Value → Prop}

/-- The set of renamed items is the set of the items, renamed. -/
theorem setOf_rename (hρ : ∀ v w, P v → P w → v.rename ρ = w.rename ρ → v = w) {items : List Value}
    (hi : ∀ v ∈ items, P v) :
    setOf (items.map (Value.rename ρ)) = (setOf items).mapValues (Value.rename ρ) := by
  have hkeys : (items.map (Value.rename ρ)).map Key.ofValue =
      (items.map Key.ofValue).map (Key.rename ρ) := by
    simp [Key.rename, Function.comp_def]
  have hP : ∀ k ∈ items.map Key.ofValue, P k.value := by
    intro k hk
    obtain ⟨v, hv, rfl⟩ := List.mem_map.mp hk
    rw [Key.value_ofValue]
    exact hi v hv
  refine congrArg hashSet ?_
  rw [hkeys]
  exact Key.distinct_rename (P := fun k => P k.value)
    (fun k k' hk hk' he => Key.value_injective (hρ _ _ hk hk' (Key.ofValue_injective he))) hP

/-- Entries with other names for all objects. -/
def renamePair (ρ : ObjectId → ObjectId) (e : Value × Value) : Value × Value :=
  (e.1.rename ρ, e.2.rename ρ)

theorem map_renamePair (entries : List (Value × Value)) :
    (entries.map (renamePair ρ)).map (fun e => (Key.ofValue e.1, e.2)) =
      (entries.map fun e => (Key.ofValue e.1, e.2)).map (Entries.rename ρ) := by
  simp [Entries.rename, renamePair, Key.rename, Function.comp_def]

theorem mapOf_rename (hρ : ∀ v w, P v → P w → v.rename ρ = w.rename ρ → v = w)
    {entries : List (Value × Value)} (he : ∀ e ∈ entries, P e.1) :
    mapOf (entries.map (renamePair ρ)) = (mapOf entries).mapValues (Value.rename ρ) := by
  have hinj : ∀ k k' : Key, P k.value → P k'.value → k.rename ρ = k'.rename ρ → k = k' :=
    fun k k' hk hk' heq => Key.value_injective (hρ _ _ hk hk' (Key.ofValue_injective heq))
  have hP : ∀ e ∈ entries.map fun e => (Key.ofValue e.1, e.2), P e.1.value := by
    intro e hm
    obtain ⟨e', he', rfl⟩ := List.mem_map.mp hm
    rw [Key.value_ofValue]
    exact he e' he'
  refine congrArg hashMap ?_
  rw [map_renamePair]
  exact Entries.foldl_rename (P := fun k => P k.value) (m := [])
    (fun _ _ _ hk hm => Entries.put_rename hinj hk hm)
    (fun _ _ _ hk hm => Entries.keys_put (P := fun k => P k.value) hk hm) hP fun _ h => by cases h

/-- What comes for keys that are no objects is no object, so no more than one object comes. -/
theorem Lone.of_forall₂ {keys keys' : List Value} (h : Lone keys)
    (hall : List.Forall₂ (fun v w => v.object? = none → w.object? = none) keys keys') :
    Lone keys' := by
  have behind : ∀ {v w : Value} {vs ws : List Value}, (v.object? = none → w.object? = none) →
      List.Forall₂ (fun v w => v.object? = none → w.object? = none) vs ws →
      (∀ v' ∈ vs, v.object? = none ∨ v'.object? = none) →
      ∀ w' ∈ ws, w.object? = none ∨ w'.object? = none := by
    intro v w vs ws hvw hall
    induction hall with
    | nil => exact fun _ _ hw => by cases hw
    | cons hhead _ ih =>
      intro hv w' hw'
      rcases List.mem_cons.mp hw' with rfl | hw'
      · exact (hv _ List.mem_cons_self).imp hvw hhead
      · exact ih (fun v' hv' => hv v' (List.mem_cons_of_mem _ hv')) w' hw'
  induction hall with
  | nil => exact List.Pairwise.nil
  | cons hhead htail ih =>
    obtain ⟨hfirst, hrest⟩ := List.pairwise_cons.mp h
    exact List.pairwise_cons.mpr ⟨behind hhead htail hfirst, ih hrest⟩

/-- The tree map of renamed entries is the tree map of the entries, renamed: no objects but one
have to keep their order. -/
theorem sortedMapOf_rename {entries : List (Value × Value)} (he : Lone (entries.map (·.1))) :
    sortedMapOf (entries.map (renamePair ρ)) =
      (sortedMapOf entries).mapValues (Value.rename ρ) := by
  have hone : ∀ k k' : Key, k.value ∈ entries.map (·.1) → k'.value ∈ entries.map (·.1) →
      k = k' ∨ k.value.object? = none ∨ k'.value.object? = none := by
    intro k k' hk hk'
    have := List.Pairwise.forall_of_forall_of_flip
      (R := fun v w : Value => v = w ∨ v.object? = none ∨ w.object? = none)
      (fun _ _ => Or.inl rfl) (he.imp Or.inr) (he.imp fun h => Or.inr h.symm) hk hk'
    exact this.imp (fun heq => Key.value_injective heq) id
  have hP : ∀ e ∈ entries.map fun e => (Key.ofValue e.1, e.2),
      e.1.value ∈ entries.map (·.1) := by
    intro e hm
    obtain ⟨e', he', rfl⟩ := List.mem_map.mp hm
    rw [Key.value_ofValue]
    exact List.mem_map_of_mem he'
  refine congrArg treeMap ?_
  rw [map_renamePair]
  exact Entries.foldl_rename (P := fun k => k.value ∈ entries.map (·.1)) (m := [])
    (fun _ _ _ hk hm => Entries.putSorted_rename
      (fun k k' hk hk' => Key.compare_rename (hone k k' hk hk')) hk hm)
    (fun _ _ _ hk hm => Entries.keys_putSorted (P := fun k => k.value ∈ entries.map (·.1)) hk hm)
    hP fun _ h => by cases h

end Container

end DeepCopy
