-- The line of a class: the class, its superclass, and so on up to a class that
-- has none. Every registered class has one and it never changes, so what is worked
-- out along it comes to the same whenever it is asked for. The layouts that are
-- kept with the classes are those worked out from the definitions.
import DeepCopy.Proofs.Registries

namespace DeepCopy

namespace Registry

variable {r r' : Registry} {id : ClassId} {e : Entry} {chain : List ClassId}

/-! ## Lines -/

/-- A class and its superclasses, up to one that has none. -/
inductive Line (r : Registry) : ClassId → List ClassId → Prop where
  | root {id : ClassId} {e : Entry} (he : r.get? id = some e) (hs : e.decl.superclass = none) :
    Line r id [id]
  | child {id parent : ClassId} {e : Entry} {above : List ClassId} (he : r.get? id = some e)
    (hs : e.decl.superclass = some parent) (h : Line r parent above) : Line r id (id :: above)

theorem Line.extend (h : r.Line id chain) (hext : r.Extends r') : r'.Line id chain := by
  induction h with
  | root he hs => exact .root (hext _ _ he) hs
  | child he hs _ ih => exact .child (hext _ _ he) hs ih

theorem Line.registered (h : r.Line id chain) : ∃ e, r.get? id = some e := by
  cases h with
  | root he _ => exact ⟨_, he⟩
  | child he _ _ => exact ⟨_, he⟩

/-- Each class of a line has the rest of it as its own line. -/
theorem Line.of_mem (h : r.Line id chain) {a : ClassId} (ha : a ∈ chain) :
    ∃ above, r.Line a above ∧ above <:+ chain := by
  induction h with
  | root he hs =>
    rw [List.mem_singleton.mp ha]
    exact ⟨_, .root he hs, List.suffix_refl _⟩
  | child he hs hp ih =>
    rcases List.mem_cons.mp ha with rfl | ha
    · exact ⟨_, .child he hs hp, List.suffix_refl _⟩
    · obtain ⟨above, hline, hsuffix⟩ := ih ha
      exact ⟨above, hline, hsuffix.trans (List.suffix_cons _ _)⟩

theorem Consistent.superclass_lt (h : r.Consistent) (he : r.get? id = some e) {parent : ClassId}
    (hs : e.decl.superclass = some parent) : parent < id :=
  h.older id e he parent (ClassDecl.mem_mentions.mpr (Or.inl hs))

theorem Consistent.exists_superclass (h : r.Consistent) (he : r.get? id = some e)
    {parent : ClassId} (hs : e.decl.superclass = some parent) :
    ∃ p, r.get? parent = some p ∧ p.decl.kind.isBuiltIn = false := by
  obtain ⟨p, hp, hk⟩ := (h.suits id e he).superclass parent hs
  refine ⟨p, hp, ?_⟩
  rcases hk with hk | hk <;> rw [hk] <;> rfl

/-- Superclasses are older, so that going up ends. -/
theorem Consistent.exists_line (h : r.Consistent) (he : r.get? id = some e) :
    ∃ chain, r.Line id chain := by
  induction id using Nat.strongRecOn generalizing e with
  | ind id ih =>
    cases hs : e.decl.superclass with
    | none => exact ⟨[id], .root he hs⟩
    | some parent =>
      obtain ⟨p, hp, -⟩ := h.exists_superclass he hs
      obtain ⟨above, hline⟩ := ih parent (h.superclass_lt he hs) hp
      exact ⟨id :: above, .child he hs hline⟩

theorem Line.climb_eq (hc : r.Consistent) (h : r.Line id chain) {links : Nat} (hlt : id < links) :
    r.climb links id = .ok chain := by
  induction h generalizing links with
  | root he hs =>
    cases links with
    | zero => cases hlt
    | succ links =>
      simp only [climb, decl_of_get? he, bind, Except.bind, hs]
  | child he hs hp ih =>
    cases links with
    | zero => cases hlt
    | succ links =>
      have hlt := Nat.lt_of_lt_of_le (hc.superclass_lt he hs) (Nat.le_of_lt_succ hlt)
      simp only [climb, decl_of_get? he, bind, Except.bind, hs, ih hlt]

theorem Line.ancestors_eq (hc : r.Consistent) (h : r.Line id chain) :
    r.ancestors id = .ok chain := h.climb_eq hc (Nat.lt_succ_self _)

theorem decl_of_new (h : r.get? id = none) : r.decl id = .error (.unknownClass id.text) := by
  simp only [decl, entry, h]
  rfl

theorem ancestors_of_new (h : r.get? id = none) :
    r.ancestors id = .error (.unknownClass id.text) := by
  simp only [ancestors, climb, decl_of_new h, bind, Except.bind]

/-- A class lies below the classes of its line, and below no others. -/
theorem Line.isSubclass_iff (hc : r.Consistent) (h : r.Line id chain) (ancestor : ClassId) :
    r.isSubclass id ancestor = true ↔ ancestor ∈ chain := by
  simp only [isSubclass, h.ancestors_eq hc, List.contains_iff_mem]

theorem isSubclass_of_new (h : r.get? id = none) (ancestor : ClassId) :
    r.isSubclass id ancestor = false := by
  simp only [isSubclass, ancestors_of_new h]

end Registry

/-! ## Layouts from the definitions -/

namespace Layout

theorem addField_retitled (declaring cls : ClassId) (name : String) (l : Layout) (d : FieldDecl) :
    addField declaring name { l with cls } d = { addField declaring name l d with cls } := by
  unfold addField
  cases d.type <;> rfl

/-- For which class a layout is does not matter to the fields that are added. -/
theorem addFields_retitled (declaring cls : ClassId) (d : ClassDecl) (l : Layout) :
    addFields declaring d { l with cls } = { addFields declaring d l with cls } := by
  unfold addFields
  induction d.fields.filter (fun f => !f.marks.isStatic) generalizing l with
  | nil => rfl
  | cons f fs ih =>
    rw [List.foldl_cons, List.foldl_cons, addField_retitled, ih]

theorem cls_addFields (declaring : ClassId) (d : ClassDecl) (l : Layout) :
    (addFields declaring d l).cls = l.cls := by
  have h := congrArg Layout.cls (addFields_retitled declaring l.cls d l)
  exact h

end Layout

namespace Registry

variable {r : Registry} {id : ClassId} {e : Entry} {chain : List ClassId}

/-- Each class has the layout that comes from its definition and the layout of its superclass. -/
def LaidOut (r : Registry) : Prop := ∀ id e, r.get? id = some e → e.layout = r.layoutOf id e.decl

theorem layoutOf_add {d : ClassDecl} {superclass : Option ClassId} (id : ClassId)
    (hs : ∀ parent, superclass = some parent → parent < r.size) (added : ClassDecl)
    (hd : d.superclass = superclass) : (r.add added).layoutOf id d = r.layoutOf id d := by
  unfold layoutOf
  rw [hd]
  cases superclass with
  | none => rfl
  | some parent =>
    simp only [Option.bind_some]
    rw [get?_add_of_lt added (hs parent rfl)]

theorem LaidOut.add (h : r.LaidOut) (hc : r.Consistent) {d : ClassDecl} (hd : r.Takes d) :
    (r.add d).LaidOut := by
  intro id e he
  rcases get?_add he with ⟨-, he⟩ | ⟨rfl, rfl⟩
  · refine (h id e he).trans (layoutOf_add id ?_ d rfl).symm
    intro parent hs
    exact Nat.lt_trans (hc.superclass_lt he hs) (lt_size_of_get? he)
  · refine (layoutOf_add r.size ?_ d rfl).symm
    intro parent hs
    exact hd.mentions parent (ClassDecl.mem_mentions.mpr (Or.inl hs))

theorem laidOut_initial : initial.LaidOut := by
  have hall : ∀ id : Fin 12, (initial.get? id).map (·.layout) =
      (initial.get? id).map fun e => initial.layoutOf id e.decl := by decide
  intro id e he
  have hid : id < 12 := lt_size_of_get? he
  have h := hall ⟨id, hid⟩
  rw [he] at h
  exact Option.some.inj h

theorem Built.laidOut (h : r.Built) : r.LaidOut := by
  induction h with
  | initial => exact laidOut_initial
  | define hb hd ih =>
    obtain ⟨-, superclass, hs, hf, rfl⟩ := eq_add_of_define hd
    exact ih.add hb.consistent (takes_of_define hs hf)
  | arrayOf hb hc ih =>
    obtain ⟨name, hn, ⟨-, rfl⟩ | ⟨-, -, rfl⟩⟩ := arrayOf_ok hc
    · exact ih
    · exact ih.add hb.consistent (hb.rooted.takes_array (knows_of_arrayName hn) name)

theorem LaidOut.root (h : r.LaidOut) (he : r.get? id = some e) (hk : e.decl.kind.isBuiltIn = false)
    (hs : e.decl.superclass = none) : e.layout = Layout.addFields id e.decl { cls := id } := by
  rw [h id e he]
  simp only [layoutOf, hs, Layout.ofDecl, hk]
  rfl

theorem LaidOut.child (h : r.LaidOut) (he : r.get? id = some e) (hk : e.decl.kind.isBuiltIn = false)
    {parent : ClassId} {p : Entry} (hs : e.decl.superclass = some parent)
    (hp : r.get? parent = some p) :
    e.layout = Layout.addFields id e.decl { p.layout with cls := id } := by
  rw [h id e he]
  simp only [layoutOf, hs, hp, Layout.ofDecl, hk, Option.bind_some, Option.map_some,
    Option.getD_some]
  rfl

theorem LaidOut.cls_eq (h : r.LaidOut) (he : r.get? id = some e) : e.layout.cls = id := by
  rw [h id e he, layoutOf, Layout.ofDecl]
  split
  · rfl
  · rw [Layout.cls_addFields]

theorem foldlM_stackFields_one (he : r.get? id = some e) (l : Layout) :
    [id].foldlM r.stackFields l = .ok (l.addFields id e.decl) := by
  simp only [List.foldlM_cons, List.foldlM_nil, stackFields, decl_of_get? he]
  rfl

/-- Adding the fields of a line from the root down gives the layout of the class, but for whom it is
made: on the way up the layout of a superclass is made for the class below it. -/
theorem Line.foldlM_stackFields (h : r.Line id chain) (hl : r.LaidOut) (hc : r.Consistent)
    (he : r.get? id = some e) (hk : e.decl.kind.isBuiltIn = false) (cls : ClassId) :
    chain.reverse.foldlM r.stackFields { cls } = .ok { e.layout with cls } := by
  induction h generalizing e with
  | @root id e' he' hs =>
    cases he.symm.trans he'
    rw [hl.root he hk hs, ← Layout.addFields_retitled]
    exact foldlM_stackFields_one he _
  | @child id parent e' above he' hs hp ih =>
    cases he.symm.trans he'
    obtain ⟨p, hp', hpk⟩ := hc.exists_superclass he hs
    rw [List.reverse_cons, List.foldlM_append, ih hp' hpk, hl.child he hk hs hp',
      ← Layout.addFields_retitled]
    exact foldlM_stackFields_one he _

theorem build_of_new (h : r.get? id = none) : r.build id = .error (.unknownClass id.text) := by
  simp only [build, decl_of_new h, bind, Except.bind]

theorem layout_of_new (h : r.get? id = none) : r.layout id = .error (.unknownClass id.text) := by
  simp only [layout, entry, h]
  rfl

theorem Built.build_of_get? (h : r.Built) (he : r.get? id = some e) :
    r.build id = .ok e.layout := by
  have hc := h.consistent
  simp only [build, decl_of_get? he, bind, Except.bind]
  cases hk : e.decl.kind.isBuiltIn with
  | true =>
    rw [h.laidOut id e he]
    simp only [layoutOf, Layout.ofDecl, hk, if_true]
  | false =>
    obtain ⟨chain, hline⟩ := hc.exists_line he
    simp only [Bool.false_eq_true, if_false, hline.ancestors_eq hc]
    rw [hline.foldlM_stackFields h.laidOut hc he hk id, ← h.laidOut.cls_eq he]

/-- The layout that is kept with a class is the one worked out from the definitions. -/
theorem Built.layout_eq_build (h : r.Built) (id : ClassId) : r.layout id = r.build id := by
  cases he : r.get? id with
  | none => rw [layout_of_new he, build_of_new he]
  | some e => rw [layout_of_get? he, h.build_of_get? he]

end Registry

end DeepCopy
