-- Array classes are known by name. An array class is asked for by its component,
-- but found by the name that is made from it. The answer never changes, and it is
-- the class of such arrays unless a class of another kind bears the name.
import DeepCopy.Proofs.Registries

namespace DeepCopy

/-! ## Names -/

/-- What the name of an array class has behind the name of its component. -/
def Registry.arraySuffix : String := "[]"

theorem Primitive.Kind.name_inj {kind kind' : Kind} (h : kind.name = kind'.name) :
    kind = kind' := by
  cases kind <;> cases kind' <;> first | rfl | exact absurd h (by decide)

/-- No kind of primitives has the name of an array class. -/
theorem Primitive.Kind.name_ne_append (kind : Kind) (stem : String) :
    kind.name ≠ stem ++ Registry.arraySuffix := by
  intro h
  have hlast := congrArg (fun name : String => name.toList.getLast?) h
  simp only [String.toList_append, Registry.arraySuffix] at hlast
  cases kind <;> simp [name] at hlast

namespace Registry

variable {r r' : Registry} {c c' : Component} {name name' : String} {id : ClassId}

/-- The name of a component. -/
def componentName (r : Registry) : Component → String
  | .primitive kind => kind.name
  | .reference cls => r.className cls

theorem arrayName_of_knows (h : r.Knows c) :
    r.arrayName c = .ok (r.componentName c ++ arraySuffix) := by
  cases c with
  | primitive kind => rfl
  | reference cls =>
    have he : r.get? cls = some r.entries[cls] := Array.getElem?_eq_getElem h
    simp only [arrayName, decl_of_get? he, componentName, className, he]
    rfl

theorem Knows.extend (h : r.Knows c) (hext : r.Extends r') : r'.Knows c := by
  cases c with
  | primitive kind => trivial
  | reference cls => exact lt_size_of_get? (hext cls _ (Array.getElem?_eq_getElem h))

theorem componentName_extend (h : r.Knows c) (hext : r.Extends r') :
    r'.componentName c = r.componentName c := by
  cases c with
  | primitive kind => rfl
  | reference cls =>
    have he : r.get? cls = some r.entries[cls] := Array.getElem?_eq_getElem h
    simp only [componentName, className, he, hext cls _ he]

/-- A class that a name leads to is found under it ever after. -/
theorem lookup_extend (h : r.Consistent) (h' : r'.Consistent) (hext : r.Extends r')
    (hl : r.lookup name = some id) : r'.lookup name = some id := by
  obtain ⟨e, he, hname⟩ := (h.index name id).mp hl
  exact (h'.index name id).mpr ⟨e, hext id e he, hname⟩

/-! ## The answer -/

theorem arrayOf_of_lookup (hn : r.arrayName c = .ok name) (hl : r.lookup name = some id) :
    r.arrayOf c = .ok (id, r) := by
  simp only [arrayOf, hn, bind, Except.bind, hl]

theorem arrayOf_of_new (hn : r.arrayName c = .ok name) (hl : r.lookup name = none) :
    r.arrayOf c =
      .ok (r.size, r.add { name, kind := .array c, superclass := some rootClass }) := by
  simp only [arrayOf, hn, bind, Except.bind, hl]

/-- There always is an answer: the class that bears the name from then on. -/
theorem exists_arrayOf (h : r.Knows c) :
    ∃ id r', r.arrayOf c = .ok (id, r') ∧ r.Extends r' ∧
      r'.lookup (r.componentName c ++ arraySuffix) = some id := by
  have hn := arrayName_of_knows h
  cases hl : r.lookup (r.componentName c ++ arraySuffix) with
  | some id => exact ⟨id, r, arrayOf_of_lookup hn hl, Extends.refl r, hl⟩
  | none =>
    refine ⟨r.size, _, arrayOf_of_new hn hl, extends_add r _, ?_⟩
    rw [lookup_add, if_pos rfl]

/-! ## Array classes and their components -/

/-- Every array class bears the name made from its component. -/
def ArraysNamed (r : Registry) : Prop :=
  ∀ id e component, r.get? id = some e → e.decl.kind = .array component →
    r.Knows component ∧ e.decl.name = r.componentName component ++ arraySuffix

theorem ArraysNamed.add (h : r.ArraysNamed) {d : ClassDecl}
    (hd : ∀ component, d.kind = .array component →
      r.Knows component ∧ d.name = r.componentName component ++ arraySuffix) :
    (r.add d).ArraysNamed := by
  have hext := extends_add r d
  have stays : ∀ {component : Component} {name : String},
      r.Knows component ∧ name = r.componentName component ++ arraySuffix →
      (r.add d).Knows component ∧ name = (r.add d).componentName component ++ arraySuffix :=
    fun ⟨hk, hn⟩ => ⟨hk.extend hext, hn.trans (by rw [componentName_extend hk hext])⟩
  intro id e component he hk
  rcases get?_add he with ⟨-, he⟩ | ⟨-, rfl⟩
  · exact stays (h id e component he hk)
  · exact stays (hd component hk)

theorem Built.arraysNamed (h : r.Built) : r.ArraysNamed := by
  induction h with
  | initial =>
    intro id e component he hk
    have hno := initial_kind he
    rw [hk] at hno
    cases hno
  | define _ hd ih =>
    obtain ⟨-, superclass, hs, -, rfl⟩ := eq_add_of_define hd
    refine ih.add fun component hk => ?_
    have hk : _ = ClassDecl.Kind.array component := hk
    have := (resolveSuperclass_ok hs).1
    rw [hk] at this
    cases this
  | arrayOf _ hc ih =>
    obtain ⟨name, hn, ⟨-, rfl⟩ | ⟨-, -, rfl⟩⟩ := arrayOf_ok hc
    · exact ih
    · have hknows := knows_of_arrayName hn
      rw [arrayName_of_knows hknows] at hn
      cases hn
      refine ih.add ?_
      rintro _ ⟨⟩
      exact ⟨hknows, rfl⟩

/-- No class but array classes has the name of an array class or of a kind of primitives. -/
def NamesApart (r : Registry) : Prop :=
  ∀ id e, r.get? id = some e → e.decl.kind.isArray = false →
    (∀ stem, e.decl.name ≠ stem ++ arraySuffix) ∧ ∀ kind : Primitive.Kind, e.decl.name ≠ kind.name

theorem exists_of_isArray {k : ClassDecl.Kind} (h : k.isArray = true) :
    ∃ component, k = .array component := by
  cases k with
  | array component => exact ⟨component, rfl⟩
  | _ => cases h

section NamesApart

variable (hr : r.Built) (ha : r.NamesApart)
include hr ha

/-- No class has the name of a kind of primitives. -/
theorem className_ne_name {cls : ClassId} (hc : cls < r.size) (kind : Primitive.Kind) :
    r.className cls ≠ kind.name := by
  have he : r.get? cls = some r.entries[cls] := Array.getElem?_eq_getElem hc
  rw [className, he]
  intro heq
  cases hk : r.entries[cls].decl.kind.isArray with
  | false => exact (ha cls _ he hk).2 kind heq
  | true =>
    obtain ⟨component, hk⟩ := exists_of_isArray hk
    have hname := (hr.arraysNamed cls _ component he hk).2
    exact kind.name_ne_append _ (heq.symm.trans hname)

/-- Different components have different names. -/
theorem eq_of_componentName_eq (hc : r.Knows c) (hc' : r.Knows c')
    (h : r.componentName c = r.componentName c') : c = c' := by
  cases c with
  | primitive kind =>
    cases c' with
    | primitive kind' => exact congrArg _ (Primitive.Kind.name_inj h)
    | reference cls => exact absurd h.symm (className_ne_name hr ha hc' kind)
  | reference cls =>
    cases c' with
    | primitive kind => exact absurd h (className_ne_name hr ha hc kind)
    | reference cls' => exact congrArg _ (hr.consistent.bijOn_className.injOn hc hc' h)

/-- A class with the name of an array class is the class of those arrays. -/
theorem kind_of_arrayName (hc : r.Knows c) {e : Entry} (he : r.get? id = some e)
    (hn : e.decl.name = r.componentName c ++ arraySuffix) : e.decl.kind = .array c := by
  cases hk : e.decl.kind.isArray with
  | false => exact absurd hn ((ha id e he hk).1 _)
  | true =>
    obtain ⟨component, hk⟩ := exists_of_isArray hk
    obtain ⟨hknows, hname⟩ := hr.arraysNamed id e component he hk
    have heq := (String.append_left_inj _).mp (hname.symm.trans hn)
    rw [hk, eq_of_componentName_eq hr ha hknows hc heq]

end NamesApart

/-- Components that are known have the same array class if they have the same name, and only
then. -/
theorem arrayOf_eq_iff (hr : r.Built) (hl : r.lookup name = some id) (hc : r.Knows c) :
    r.arrayOf c = .ok (id, r) ↔ r.componentName c ++ arraySuffix = name := by
  have hn := arrayName_of_knows hc
  constructor
  · intro h
    obtain ⟨_, hname, ⟨hfound, -⟩ | ⟨-, rfl, hgrown⟩⟩ := arrayOf_ok h
    · rw [hn] at hname
      cases hname
      have hcons := hr.consistent
      obtain ⟨e, he, hen⟩ := (hcons.index _ _).mp hfound
      obtain ⟨e', he', hen'⟩ := (hcons.index _ _).mp hl
      cases he.symm.trans he'
      exact hen.symm.trans hen'
    · have := congrArg size hgrown
      rw [size_add] at this
      omega
  · rintro rfl
    exact arrayOf_of_lookup hn hl

/-- An array class is found by its name. For every component there is an answer; it is a class that
bears the name made from the component, and it stays the answer whatever is added. It is the class
of arrays of the component just if no class of another kind bore the name before, and it is the
answer for just those components that have the same name. Both are as they should be as long as no
other class has the name of an array class or of a kind of primitives. -/
theorem array_classes_are_known_by_name (hr : r.Built) (hc : r.Knows c) :
    ∃ id r' e, r.arrayOf c = .ok (id, r') ∧ r'.get? id = some e ∧
      (e.decl.kind = .array c ↔ ∀ id' e', r.get? id' = some e' →
        e'.decl.name = r.componentName c ++ arraySuffix → e'.decl.kind = .array c) ∧
      (∀ later, r'.Extends later → later.Built →
        later.arrayOf c = .ok (id, later) ∧
        (∀ c', later.Knows c' → (later.arrayOf c' = .ok (id, later) ↔
          later.componentName c' = later.componentName c)) ∧
        (later.NamesApart → e.decl.kind = .array c ∧
          ∀ c', later.Knows c' → later.arrayOf c' = .ok (id, later) → c' = c)) := by
  obtain ⟨id, r', harray, hext, hl⟩ := exists_arrayOf hc
  have hr' : r'.Built := hr.arrayOf harray
  obtain ⟨e, he, hname⟩ := (hr'.consistent.index _ _).mp hl
  refine ⟨id, r', e, harray, he, ?_, ?_⟩
  · constructor
    · intro hk id' e' he' hname'
      -- Only one class bears the name, and that is the answer.
      have he' := hext id' e' he'
      have hl' := (hr'.consistent.index _ _).mpr ⟨e', he', hname'⟩
      cases hl.symm.trans hl'
      cases he.symm.trans he'
      exact hk
    · intro h
      obtain ⟨_, -, ⟨-, rfl⟩ | ⟨-, rfl, rfl⟩⟩ := arrayOf_ok harray
      · exact h id e he hname
      · cases he.symm.trans (get?_add_new r _)
        rfl
  · intro later hlater hb
    have hknows := hc.extend (hext.trans hlater)
    have hcomponent := componentName_extend hc (hext.trans hlater)
    have hll := lookup_extend hr'.consistent hb.consistent hlater hl
    have hiff : ∀ c', later.Knows c' → (later.arrayOf c' = .ok (id, later) ↔
        later.componentName c' = later.componentName c) := by
      intro c' hc'
      rw [arrayOf_eq_iff hb hll hc', hcomponent]
      exact String.append_left_inj _
    refine ⟨(hiff c hknows).mpr rfl, hiff, fun ha => ⟨?_, fun c' hc' h => ?_⟩⟩
    · exact kind_of_arrayName hb ha hknows (hlater id e he) (hname.trans (by rw [hcomponent]))
    · exact eq_of_componentName_eq hb ha hc' hknows ((hiff c' hc').mp h)

/-- The registry with a class of a given name and no fields. -/
def impostor (name : String) : Registry :=
  initial.add { name, superclass := some rootClass }

theorem built_impostor {name : String} (hl : initial.lookup name = none) :
    (impostor name).Built := by
  have hd : initial.define { name } = .ok (initial.size, impostor name) := define_eq hl rfl rfl
  exact .define .initial hd

/-- A class with the name of an array class is taken for it, though it is none. -/
theorem impostor_is_known_by_name :
    (impostor "i32[]").Built ∧ (impostor "i32[]").Knows (.primitive .i32) ∧
    ∃ id r' e, (impostor "i32[]").arrayOf (.primitive .i32) = .ok (id, r') ∧
      r'.get? id = some e ∧ e.decl.kind ≠ .array (.primitive .i32) := by
  have hb := built_impostor (show initial.lookup "i32[]" = none by decide)
  refine ⟨hb, trivial, ?_⟩
  obtain ⟨id, r', e, harray, he, hkind, -⟩ :=
    array_classes_are_known_by_name (c := .primitive .i32) hb trivial
  refine ⟨id, r', e, harray, he, fun hk => ?_⟩
  have hconcrete := hkind.mp hk 12 _ (get?_add_new initial _) rfl
  cases hconcrete

/-- The answer need not be a class of arrays of the component, and it can be the answer for two
components: a class with the name of an array class is taken for it, and the arrays of a class with
the name of a kind of primitives are taken for those of the kind. -/
theorem array_classes_can_be_mistaken :
    ((impostor "i32[]").Built ∧ ∃ e,
      (impostor "i32[]").arrayOf (.primitive .i32) = .ok (12, impostor "i32[]") ∧
      (impostor "i32[]").get? 12 = some e ∧ e.decl.kind = .concrete) ∧
    ((impostor "i32").Built ∧ ∃ later,
      (impostor "i32").arrayOf (.reference 12) = .ok (13, later) ∧
      later.arrayOf (.primitive .i32) = .ok (13, later)) := by
  refine ⟨⟨built_impostor (by decide), _, ?_, get?_add_new initial _, rfl⟩,
    built_impostor (by decide), _, arrayOf_of_new rfl (by decide), ?_⟩
  · exact arrayOf_of_lookup rfl (by decide)
  · exact arrayOf_of_lookup rfl (by decide)

end Registry

end DeepCopy
