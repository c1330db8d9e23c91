-- What the policy leaves out does not show in a copy. Two heaps that differ only
-- in fields that are reset, and in objects that are not duplicated, are cloned to
-- the same.
import DeepCopy.Proofs.Sharing
import DeepCopy.Proofs.Termination
import DeepCopy.Proofs.Twinning

namespace DeepCopy

namespace Setting

variable {s : Setting} {run : Run} {memory : Memory} {v : Value}

/-! ## Heaps that differ in what is left out -/

/-- Another heap over the same objects, with the same headers. What a clone of `v` duplicates is the
same in both but for the fields that the policy resets; all else may hold anything. -/
structure DiffersWhereLeftOut (s : Setting) (run : Run) (v : Value) (h : Heap) : Prop where
  size : h.size = run.heap.size
  cls : ∀ o < run.heap.size, h.cls o = run.heap.cls o
  shape : ∀ o < run.heap.size, h.shape o = run.heap.shape o
  body : ∀ o, s.Duplicates run.heap (s.fate run) v o →
    s.SameButReset (s.registry.fieldsOf (run.heap.cls o)) (run.heap.body o) (h.body o)

/-- Two clones have added the same objects, and have changed nothing that was there. -/
structure AddsTheSame (run : Run) (h : Heap) (a b : Run) : Prop where
  size : b.heap.size = a.heap.size
  made : ∀ t, run.heap.size ≤ t → t < a.heap.size → b.heap.get t = a.heap.get t
  left : ∀ o < run.heap.size, a.heap.get o = run.heap.get o
  right : ∀ o < run.heap.size, b.heap.get o = h.get o

/-! ## Both clones -/

/-- When nothing is left to be filled, the same objects have been added. -/
theorem addsTheSame_of_twins {a b : Run} (hd : s.DiffersWhereLeftOut run v memory.heap)
    (h : Twins s (between (begun run) (begun { run with memory }) v) (fun _ => False) a b) :
    AddsTheSame run memory.heap a b := by
  have hsize : b.heap.size = a.heap.size := (h.pace 0).symm
  refine ⟨hsize, fun t hle hlt => ?_, fun o ho => ?_, fun o ho => ?_⟩
  · have hbody : b.heap.body t = (a.heap.body t).rename fun o => o := h.same t hle hlt fun h => h
    rw [Body.rename_eq_self fun _ _ => rfl] at hbody
    have hcls : b.heap.cls t = a.heap.cls t := h.cls t hlt
    have hshape : b.heap.shape t = a.heap.shape t := h.shape t hlt
    exact Object.mk.injEq .. ▸ ⟨hcls, hshape, hbody⟩
  · exact h.left.kept.heap.get_eq ho (Nat.not_le.mpr ho)
  · have hlt : o < memory.heap.size := Nat.lt_of_lt_of_eq ho hd.size.symm
    refine h.right.heap.get_eq hlt fun hown => ?_
    rcases hown with hgiven | hle
    · exact hgiven
    · exact Nat.not_le.mpr ho hle

/-- What the policy leaves out cannot show in the copy: from two heaps that differ only there, the
same value comes out and the same objects are added. If a policy asks for containers where there are
none, both clones fail, and report the same. -/
theorem what_is_left_out_does_not_show_in_the_copy (hu : s.Unaided run v)
    (ho : memory.heap.Orderly s.registry) (hd : s.DiffersWhereLeftOut run v memory.heap) :
    (∃ r a b, s.clone v run = .ok r a ∧ s.clone v { run with memory } = .ok r b ∧
      AddsTheSame run memory.heap a b) ∨
    (¬ s.FitsOverrides ∧ ∃ e a b, s.clone v run = .error e a ∧
      s.clone v { run with memory } = .error e b) := by
  have hp : s.Paired (between (begun run) (begun { run with memory }) v) :=
    paired_between hu.afresh ho rfl rfl hd.size hd.cls hd.shape hd.body
  have hle : depthAllowance run.heap ≤ depthAllowance memory.heap := by
    unfold depthAllowance
    rw [hd.size]
  have halike := alike_between hp rfl rfl (size_le_depthAllowance run.heap) hle
  rw [clone_eq, clone_eq]
  rcases tandem_iff.mp halike with
    ⟨r, a, _, b, hx, hy, hreply⟩ | ⟨_, a, _, b, hx, hy, hfit, rfl, -⟩
  · obtain rfl := hreply.renamed.trans (Value.rename_id r)
    exact Or.inl ⟨_, a, b, hx, hy, addsTheSame_of_twins hd hreply.twins⟩
  · exact Or.inr ⟨hfit, _, a, b, hx, hy⟩

/-- A class whose instances hold a key, and two synthetic fields, which are not copied. -/
def memoClass : ClassDecl where
  name := "Memo"
  superclass := some Registry.rootClass
  fields := [{ name := "key", type := .primitive .i32 },
    { name := "hits", type := .primitive .i32, marks := { isSynthetic := true } },
    { name := "cached", type := .object Registry.rootClass, marks := { isSynthetic := true } }]

/-- A fast cloner with the standard policy. -/
def memoSetting : Setting where
  registry := Registry.initial.add memoClass
  backend := .fast
  policy := .standard

/-- An instance, and a list that it refers to by a field that is not copied. -/
def memoRun : Run where
  memory := { heap := ⟨#[Object.new 12 (.record [7, 0, 0, 0, 1, 0, 0, 0] [.ref 1]),
    Object.new 6 (.container (.list [.ref 0]))]⟩ }

/-- The same instance with another count and no list. The list is empty. -/
def memoBlank : Memory where
  heap := ⟨#[Object.new 12 (.record [7, 0, 0, 0, 9, 9, 9, 9] [.null]),
    Object.new 6 (.container (.list []))]⟩

theorem memo_layout : memoSetting.registry.fieldsOf 12 =
    [⟨12, "Memo", "key", .primitive .i32, .bytes 0 .i32, {}⟩,
      ⟨12, "Memo", "hits", .primitive .i32, .bytes 4 .i32, { isSynthetic := true }⟩,
      ⟨12, "Memo", "cached", .object 0, .slot 0, { isSynthetic := true }⟩] := by
  decide

theorem orderly_memo {block : List UInt8} {refs items : List Value} (hlen : block.length = 8)
    (hone : refs.length = 1) (hrefs : ∀ v ∈ refs ++ items, v.object?.all (· < 2) = true) :
    (Heap.mk #[Object.new 12 (.record block refs),
      Object.new 6 (.container (.list items))]).Orderly memoSetting.registry := by
  refine .of_objects ?_ ?_ ?_
  · intro o ho
    match o, ho with
    | 0, _ =>
      exact ⟨_, Registry.get?_add_new Registry.initial memoClass,
        .of_sized rfl ⟨hlen, hone⟩ (by decide)⟩
    | 1, _ =>
      exact Registry.Entry.Admits.exists_container (Registry.sound_initial.add memoClass)
        (.list items)
  · intro x hx
    simp only [List.mem_cons, List.not_mem_nil, or_false] at hx
    rcases hx with rfl | rfl <;> rfl
  · intro x hx v hv
    simp only [List.mem_cons, List.not_mem_nil, or_false] at hx
    rcases hx with rfl | rfl
    · exact hrefs v (List.mem_append_left _ hv)
    · exact hrefs v (List.mem_append_right _ hv)

/-- Nothing is followed from the instance, so only the instance is duplicated. -/
theorem eq_zero_of_duplicates_memo {o : ObjectId}
    (hd : memoSetting.Duplicates memoRun.heap (memoSetting.fate memoRun) (.ref 0) o) : o = 0 := by
  induction hd with
  | root hr _ => exact (Value.ref.inj hr).symm
  | follow _ hv _ ih =>
    subst ih
    cases hv with
    | element hb _ => cases hb
    | entry hb _ => cases hb
    | field he hf hr hv =>
      have hfields := Registry.fieldsOf_of_get? he
      rw [show memoRun.heap.cls 0 = 12 from rfl, memo_layout] at hfields
      rw [← hfields] at hf
      simp only [List.mem_cons, List.not_mem_nil, or_false] at hf
      rcases hf with rfl | rfl | rfl
      · cases hv
      · cases hr
      · cases hr

theorem memo_differs_where_left_out :
    memoSetting.DiffersWhereLeftOut memoRun (.ref 0) memoBlank.heap := by
  have hcls : ∀ o < memoRun.heap.size, memoBlank.heap.cls o = memoRun.heap.cls o := by
    decide
  have hshape : ∀ o < memoRun.heap.size, memoBlank.heap.shape o = memoRun.heap.shape o := by
    decide
  refine ⟨rfl, hcls, hshape, fun o ho => ?_⟩
  obtain rfl := eq_zero_of_duplicates_memo ho
  rw [show memoRun.heap.cls 0 = 12 from rfl, memo_layout]
  refine ⟨rfl, fun x hx => ?_⟩
  cases x with
  | byte i =>
    match i with
    | 0 | 1 | 2 | 3 => rfl
    | 4 | 5 | 6 | 7 =>
      exact (hx ⟨_, List.mem_cons_of_mem _ List.mem_cons_self, rfl, by decide, by decide⟩).elim
    | _ + 8 => rfl
  | slot i =>
    match i with
    | 0 =>
      exact (hx ⟨_, List.mem_cons_of_mem _ (List.mem_cons_of_mem _ List.mem_cons_self), rfl,
        rfl⟩).elim
    | _ + 1 => rfl

/-- Neither the count nor the list shows in the copy. -/
theorem neither_count_nor_list_shows_in_the_copy :
    ∃ r a b, memoSetting.clone (.ref 0) memoRun = .ok r a ∧
      memoSetting.clone (.ref 0) { memoRun with memory := memoBlank } = .ok r b ∧
      AddsTheSame memoRun memoBlank.heap a b := by
  have hr : memoSetting.registry.Built := built_add (by decide) rfl rfl
  have hu : memoSetting.Unaided memoRun (.ref 0) := by
    refine unaided_of_standard hr (Or.inl rfl) rfl (by decide +kernel) rfl
      (orderly_memo rfl rfl (by decide)) ?_
    intro o ho
    cases ho
    decide
  rcases what_is_left_out_does_not_show_in_the_copy hu (orderly_memo rfl rfl (by decide))
    memo_differs_where_left_out with hsame | ⟨hfit, -⟩
  · exact hsame
  · exact absurd (fitsOverrides_standard hr.sound rfl) hfit

end Setting

end DeepCopy
