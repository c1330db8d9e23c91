-- Registries stay consistent. Whatever classes are defined and whatever array
-- classes are asked for, the classes and the index of their names stay in step,
-- a class mentions only classes that are older, and a call that fails leaves no
-- trace.
import Mathlib.Data.Set.Function
import DeepCopy.Proofs.Runs

namespace DeepCopy

/-! ## What a definition mentions -/

/-- The class that a type mentions. -/
def FieldType.mention? : FieldType → Option ClassId
  | primitive _ => none
  | object cls | array cls => some cls

/-- The class that a kind of class mentions: that of the elements of arrays. -/
def ClassDecl.Kind.mention? : ClassDecl.Kind → Option ClassId
  | array (.reference cls) => some cls
  | _ => none

/-- The classes that a definition mentions: the superclass, those of fields and that of elements. -/
def ClassDecl.mentions (d : ClassDecl) : List ClassId :=
  d.superclass.toList ++ d.fields.filterMap (·.type.mention?) ++ d.kind.mention?.toList

theorem ClassDecl.mem_mentions {d : ClassDecl} {c : ClassId} :
    c ∈ d.mentions ↔ d.superclass = some c ∨ (∃ f ∈ d.fields, f.type.mention? = some c) ∨
      d.kind.mention? = some c := by
  simp [mentions]

namespace Registry

variable {r : Registry} {d : ClassDecl} {id : ClassId}

/-! ## The invariant -/

/-- A definition goes with the classes of a registry. -/
structure Suits (r : Registry) (d : ClassDecl) : Prop where
  /-- The superclass is concrete or abstract. -/
  superclass : ∀ parent, d.superclass = some parent →
    ∃ p, r.get? parent = some p ∧ (p.decl.kind = .concrete ∨ p.decl.kind = .abstract)
  /-- An interface has no superclass. -/
  interface : d.kind = .interface → d.superclass = none
  /-- An array field names an array class. -/
  arrays : ∀ f ∈ d.fields, ∀ c, f.type = .array c →
    ∃ a component, r.get? c = some a ∧ a.decl.kind = .array component
  /-- No two declared fields have one name. -/
  fields : (d.fields.map (·.name)).Nodup

/-- The classes and the index of their names are in step, and every definition goes with the
others. -/
structure Consistent (r : Registry) : Prop where
  /-- A name leads to the class that bears it, and to no other. -/
  index : ∀ name id, r.lookup name = some id ↔ ∃ e, r.get? id = some e ∧ e.decl.name = name
  /-- A class mentions only classes that are older. -/
  older : ∀ id e, r.get? id = some e → ∀ c ∈ e.decl.mentions, c < id
  suits : ∀ id e, r.get? id = some e → r.Suits e.decl

/-- A definition goes with the classes that are there and mentions no others. -/
structure Takes (r : Registry) (d : ClassDecl) : Prop extends r.Suits d where
  mentions : ∀ c ∈ d.mentions, c < r.size

theorem Suits.extend {r' : Registry} (h : r.Suits d) (hext : r.Extends r') : r'.Suits d := by
  refine ⟨?_, h.interface, ?_, h.fields⟩
  · intro parent hparent
    obtain ⟨p, hp, hk⟩ := h.superclass parent hparent
    exact ⟨p, hext _ _ hp, hk⟩
  · intro f hf c hc
    obtain ⟨a, component, ha, hk⟩ := h.arrays f hf c hc
    exact ⟨a, component, hext _ _ ha, hk⟩

theorem lookup_add (r : Registry) (d : ClassDecl) (name : String) :
    (r.add d).lookup name = if d.name = name then some r.size else r.lookup name :=
  Assoc.find?_put d.name name r.size r.index

theorem consistent_empty : Consistent ⟨#[], []⟩ := by
  refine ⟨?_, fun id e he => (by cases he), fun id e he => (by cases he)⟩
  intro name id
  exact ⟨fun h => (by cases h), fun ⟨e, he, _⟩ => (by cases he)⟩

/-- The index stays in step when a class with a new name is added. -/
theorem Consistent.index_add (h : r.Consistent) (hnew : r.lookup d.name = none) (name : String)
    (id : ClassId) : (r.add d).lookup name = some id ↔
      ∃ e, (r.add d).get? id = some e ∧ e.decl.name = name := by
  rw [lookup_add]
  constructor
  · intro hl
    split at hl
    · rename_i hname
      cases hl
      exact ⟨_, get?_add_new r d, hname⟩
    · obtain ⟨e, he, hname⟩ := (h.index name id).mp hl
      exact ⟨e, extends_add r d id e he, hname⟩
  · rintro ⟨e, he, rfl⟩
    rcases get?_add he with ⟨-, he⟩ | ⟨rfl, rfl⟩
    · have hl := (h.index e.decl.name id).mpr ⟨e, he, rfl⟩
      have hne : d.name ≠ e.decl.name := by
        intro heq
        rw [heq, hl] at hnew
        cases hnew
      rw [if_neg hne, hl]
    · rw [if_pos rfl]

/-- Each name that is found is the name of exactly one class. -/
theorem Consistent.bijOn_className (h : r.Consistent) :
    Set.BijOn r.className {id | id < r.size} {name | (r.lookup name).isSome} := by
  have named : ∀ {id}, id < r.size → r.lookup (r.className id) = some id := by
    intro id hid
    refine (h.index _ id).mpr ⟨r.entries[id], Array.getElem?_eq_getElem hid, ?_⟩
    simp only [className, get?, Array.getElem?_eq_getElem hid]
  refine ⟨fun id hid => Option.isSome_iff_exists.mpr ⟨id, named hid⟩, ?_, ?_⟩
  · intro id hid id' hid' heq
    have heq : r.className id = r.className id' := heq
    exact Option.some.inj ((named hid).symm.trans (heq ▸ named hid'))
  · intro name hname
    obtain ⟨id, hid⟩ := Option.isSome_iff_exists.mp hname
    obtain ⟨e, he, hn⟩ := (h.index name id).mp hid
    refine ⟨id, lt_size_of_get? he, ?_⟩
    rw [className, he]
    exact hn

theorem Consistent.add (h : r.Consistent) (hd : r.Takes d) (hnew : r.lookup d.name = none) :
    (r.add d).Consistent := by
  refine ⟨h.index_add hnew, ?_, ?_⟩
  · intro id e he c hc
    rcases get?_add he with ⟨-, he⟩ | ⟨rfl, rfl⟩
    · exact h.older id e he c hc
    · exact hd.mentions c hc
  · intro id e he
    rcases get?_add he with ⟨-, he⟩ | ⟨-, rfl⟩
    · exact (h.suits id e he).extend (extends_add r d)
    · exact hd.toSuits.extend (extends_add r d)

/-! ## What is checked of a definition -/

/-- A definition that is not refused is of no built-in kind, and its superclass can be extended. -/
theorem resolveSuperclass_ok {parent? : Option ClassId} (h : r.resolveSuperclass d = .ok parent?) :
    d.kind.isBuiltIn = false ∧ (d.kind = .interface → parent? = none) ∧
      ∀ parent, parent? = some parent →
        ∃ p, r.get? parent = some p ∧ (p.decl.kind = .concrete ∨ p.decl.kind = .abstract) := by
  have extended : ∀ {parent : ClassId},
      (do let p ← r.decl parent
          if p.kind.isExtensible then .ok (some parent)
          else .error (.invalidDefinition d.name (.cannotExtend p.name))) = .ok parent? →
      ∀ c, parent? = some c →
        ∃ p, r.get? c = some p ∧ (p.decl.kind = .concrete ∨ p.decl.kind = .abstract) := by
    intro parent hx
    cases hp : r.decl parent with
    | error e =>
      rw [hp] at hx
      cases hx
    | ok p =>
      obtain ⟨e, he, rfl⟩ := get?_of_decl hp
      simp only [hp, bind, Except.bind] at hx
      split at hx
      · rename_i hk
        cases hx
        rintro c ⟨⟩
        refine ⟨e, he, ?_⟩
        cases hkind : e.decl.kind <;> simp_all [ClassDecl.Kind.isExtensible]
      · cases hx
  unfold resolveSuperclass at h
  cases hk : d.kind with
  | array component =>
    rw [hk] at h
    cases h
  | container kind =>
    rw [hk] at h
    cases h
  | interface =>
    simp only [hk] at h
    split at h
    · cases h
    · cases h
      exact ⟨rfl, fun _ => rfl, fun parent hp => (by cases hp)⟩
  | _ =>
    simp only [hk] at h
    exact ⟨rfl, fun h => (by cases h), extended h⟩

/-- A first field that passes the check has a new name, and the class it is typed by is there; that
of an array field is an array class. -/
theorem checkFields_cons {cls : String} {earlier : List String} {f : FieldDecl}
    {fs : List FieldDecl} (h : r.checkFields cls earlier (f :: fs) = .ok ()) :
    f.name ∉ earlier ∧ (∀ c, f.type.mention? = some c → c < r.size) ∧
      (∀ c, f.type = .array c →
        ∃ a component, r.get? c = some a ∧ a.decl.kind = .array component) ∧
      r.checkFields cls (f.name :: earlier) fs = .ok () := by
  by_cases hnew : f.name ∈ earlier
  · simp only [checkFields, if_pos hnew] at h
    cases h
  refine ⟨hnew, ?_⟩
  simp only [checkFields, if_neg hnew] at h
  cases ht : f.type with
  | primitive kind =>
    simp only [ht] at h
    exact ⟨fun c hc => (by cases hc), fun c hc => (by cases hc), h⟩
  | object target =>
    simp only [ht] at h
    split at h
    · rename_i hlt
      refine ⟨?_, fun c hc => (by cases hc), h⟩
      rintro c ⟨⟩
      exact hlt
    · cases h
  | array target =>
    simp only [ht] at h
    cases he : r.get? target with
    | none =>
      rw [he] at h
      cases h
    | some e =>
      simp only [he] at h
      split at h
      · rename_i hk
        refine ⟨?_, ?_, h⟩
        · rintro c ⟨⟩
          exact lt_size_of_get? he
        · rintro c ⟨⟩
          cases hkind : e.decl.kind with
          | array component => exact ⟨e, component, he, hkind⟩
          | _ => simp [hkind, ClassDecl.Kind.isArray] at hk
      · cases h

theorem checkFields_ok {cls : String} {earlier : List String} {fs : List FieldDecl}
    (h : r.checkFields cls earlier fs = .ok ()) :
    (fs.map (·.name)).Nodup ∧ (∀ f ∈ fs, f.name ∉ earlier) ∧
      (∀ f ∈ fs, ∀ c, f.type.mention? = some c → c < r.size) ∧
      ∀ f ∈ fs, ∀ c, f.type = .array c →
        ∃ a component, r.get? c = some a ∧ a.decl.kind = .array component := by
  induction fs generalizing earlier with
  | nil => simp
  | cons f fs ih =>
    obtain ⟨hnew, hthere, harray, hrest⟩ := checkFields_cons h
    obtain ⟨hnodup, hfresh, hall, harrays⟩ := ih hrest
    refine ⟨?_, ?_, List.forall_mem_cons.mpr ⟨hthere, hall⟩,
      List.forall_mem_cons.mpr ⟨harray, harrays⟩⟩
    · rw [List.map_cons, List.nodup_cons]
      refine ⟨?_, hnodup⟩
      intro hm
      obtain ⟨g, hg, hname⟩ := List.mem_map.mp hm
      exact hfresh g hg (hname ▸ List.mem_cons_self)
    · refine List.forall_mem_cons.mpr ⟨hnew, ?_⟩
      exact fun g hg hm => hfresh g hg (List.mem_cons_of_mem _ hm)

theorem lookup_of_define {r' : Registry} (h : r.define d = .ok (id, r')) :
    r.lookup d.name = none := by
  unfold define at h
  split at h
  · cases h
  · rename_i hl
    exact Option.not_isSome_iff_eq_none.mp hl

/-- What is defined can be added. -/
theorem takes_of_define {superclass : Option ClassId}
    (hs : r.resolveSuperclass d = .ok superclass) (hf : r.checkFields d.name [] d.fields = .ok ()) :
    r.Takes { d with superclass } := by
  obtain ⟨hkind, hinterface, hparent⟩ := resolveSuperclass_ok hs
  obtain ⟨hnodup, -, hthere, harrays⟩ := checkFields_ok hf
  refine ⟨⟨hparent, hinterface, harrays, hnodup⟩, ?_⟩
  intro c hc
  rcases ClassDecl.mem_mentions.mp hc with hc | ⟨f, hf, hc⟩ | hc
  · obtain ⟨p, hp, -⟩ := hparent c hc
    exact lt_size_of_get? hp
  · exact hthere f hf c hc
  · have hc : d.kind.mention? = some c := hc
    cases hk : d.kind with
    | array component =>
      rw [hk] at hkind
      cases hkind
    | _ =>
      rw [hk] at hc
      cases hc

/-! ## Array classes -/

/-- The class of a component, if it has one, is registered. -/
def Knows (r : Registry) : Component → Prop
  | .primitive _ => True
  | .reference cls => cls < r.size

theorem knows_of_arrayName {c : Component} {name : String} (h : r.arrayName c = .ok name) :
    r.Knows c := by
  cases c with
  | primitive kind => trivial
  | reference cls =>
    simp only [arrayName] at h
    cases hd : r.decl cls with
    | error e =>
      rw [hd] at h
      cases h
    | ok p =>
      obtain ⟨e, he, -⟩ := get?_of_decl hd
      exact lt_size_of_get? he

/-- The class of arrays of a component is the one of its name, or it is added behind the others. -/
theorem arrayOf_ok {c : Component} {r' : Registry} (h : r.arrayOf c = .ok (id, r')) :
    ∃ name, r.arrayName c = .ok name ∧
      ((r.lookup name = some id ∧ r' = r) ∨
        (r.lookup name = none ∧ id = r.size ∧
          r' = r.add { name, kind := .array c, superclass := some rootClass })) := by
  unfold arrayOf at h
  cases hn : r.arrayName c with
  | error e =>
    rw [hn] at h
    cases h
  | ok name =>
    refine ⟨name, rfl, ?_⟩
    simp only [hn, bind, Except.bind] at h
    cases hl : r.lookup name with
    | some found =>
      simp only [hl] at h
      cases h
      exact Or.inl ⟨rfl, rfl⟩
    | none =>
      simp only [hl] at h
      cases h
      exact Or.inr ⟨rfl, rfl, rfl⟩

/-- The root class is there and can be extended. -/
def Rooted (r : Registry) : Prop := ∃ e, r.get? rootClass = some e ∧ e.decl.kind = .concrete

theorem Rooted.extend {r' : Registry} (h : r.Rooted) (hext : r.Extends r') : r'.Rooted := by
  obtain ⟨e, he, hk⟩ := h
  exact ⟨e, hext _ e he, hk⟩

theorem Rooted.takes_array (h : r.Rooted) {c : Component} (hc : r.Knows c) (name : String) :
    r.Takes { name, kind := .array c, superclass := some rootClass } := by
  obtain ⟨e, he, hk⟩ := h
  refine ⟨⟨?_, fun hk => (by cases hk), fun f hf => (by cases hf), List.nodup_nil⟩, ?_⟩
  · rintro parent ⟨⟩
    exact ⟨e, he, Or.inl hk⟩
  · intro cls hcls
    rcases ClassDecl.mem_mentions.mp hcls with hs | ⟨f, hf, -⟩ | hm
    · cases hs
      exact lt_size_of_get? he
    · cases hf
    · cases c with
      | primitive kind => cases hm
      | reference target =>
        cases hm
        exact hc

/-! ## The registry to start with -/

/-- A definition that extends the root class and mentions no other. -/
structure Plain (d : ClassDecl) : Prop where
  superclass : d.superclass = some rootClass
  mentions : ∀ c ∈ d.mentions, c = rootClass
  kind : d.kind ≠ .interface
  arrays : ∀ f ∈ d.fields, f.type.category ≠ .array
  fields : (d.fields.map (·.name)).Nodup

theorem Rooted.takes_plain (h : r.Rooted) (hd : Plain d) : r.Takes d := by
  obtain ⟨e, he, hk⟩ := h
  refine ⟨⟨?_, fun hi => absurd hi hd.kind, ?_, hd.fields⟩, ?_⟩
  · intro parent hp
    rw [hd.superclass] at hp
    cases hp
    exact ⟨e, he, Or.inl hk⟩
  · intro f hf c hc
    have := hd.arrays f hf
    rw [hc] at this
    exact absurd rfl this
  · intro c hc
    rw [hd.mentions c hc]
    exact lt_size_of_get? he

theorem Consistent.foldl {ds : List ClassDecl} (h : r.Consistent) (hr : r.Rooted)
    (hplain : ∀ d ∈ ds, Plain d) (hnodup : (ds.map (·.name)).Nodup)
    (hnew : ∀ d ∈ ds, r.lookup d.name = none) : (ds.foldl Registry.add r).Consistent := by
  induction ds generalizing r with
  | nil => exact h
  | cons d ds ih =>
    obtain ⟨hd, hplain⟩ := List.forall_mem_cons.mp hplain
    obtain ⟨hdnew, hnew⟩ := List.forall_mem_cons.mp hnew
    obtain ⟨hother, hnodup⟩ := List.nodup_cons.mp hnodup
    refine ih (h.add (hr.takes_plain hd) hdnew) (hr.extend (extends_add r d)) hplain hnodup ?_
    intro d' hd'
    have hne : d.name ≠ d'.name := fun heq => hother (List.mem_map.mpr ⟨d', hd', heq.symm⟩)
    rw [lookup_add, if_neg hne]
    exact hnew d' hd'

theorem consistent_initial : initial.Consistent := by
  have hroot : Takes ⟨#[], []⟩ { name := "Object" } :=
    ⟨⟨fun p hp => (by cases hp), fun hk => (by cases hk), fun f hf => (by cases hf),
      List.nodup_nil⟩, fun c hc => (by cases hc)⟩
  have hplain : ∀ d ∈ valueClasses ++ containerClasses, Plain d := by
    have hall : ∀ d ∈ valueClasses ++ containerClasses, d.superclass = some rootClass ∧
        (∀ c ∈ d.mentions, c = rootClass) ∧ d.kind ≠ .interface ∧
        (∀ f ∈ d.fields, f.type.category ≠ .array) ∧ (d.fields.map (·.name)).Nodup := by decide
    intro d hd
    obtain ⟨hs, hm, hk, ha, hf⟩ := hall d hd
    exact ⟨hs, hm, hk, ha, hf⟩
  exact (consistent_empty.add hroot rfl).foldl ⟨_, rfl, rfl⟩ hplain (by decide) (by decide)

/-! ## Registries that come about -/

theorem Built.rooted (h : r.Built) : r.Rooted := by
  induction h with
  | initial => exact ⟨_, rfl, rfl⟩
  | define _ hd ih =>
    obtain ⟨-, superclass, -, -, rfl⟩ := eq_add_of_define hd
    exact ih.extend (extends_add _ _)
  | arrayOf _ hc ih =>
    obtain ⟨name, -, ⟨-, rfl⟩ | ⟨-, -, rfl⟩⟩ := arrayOf_ok hc
    · exact ih
    · exact ih.extend (extends_add _ _)

theorem Built.consistent (h : r.Built) : r.Consistent := by
  induction h with
  | initial => exact consistent_initial
  | define _ hd ih =>
    have hnew := lookup_of_define hd
    obtain ⟨-, superclass, hs, hf, rfl⟩ := eq_add_of_define hd
    exact ih.add (takes_of_define hs hf) hnew
  | arrayOf hr hc ih =>
    obtain ⟨name, hn, ⟨-, rfl⟩ | ⟨hnew, -, rfl⟩⟩ := arrayOf_ok hc
    · exact ih
    · exact ih.add (hr.rooted.takes_array (knows_of_arrayName hn) name) hnew

end Registry

/-! ## Calls -/

namespace Workbench

variable {reg : String} {w : Workbench}

/-- A call by which a registry can get a class. -/
inductive ClassCall where
  | define (d : ClassDecl)
  | arrayOf (component : Component)

/-- Makes a call. -/
def ClassCall.make (reg : String) : ClassCall → WorkM ClassId
  | define d => Workbench.define reg d
  | arrayOf component => Workbench.arrayOf reg component

/-- The workbench after calls, whatever they have come to. -/
def afterCalls (reg : String) (calls : List ClassCall) (w : Workbench) : Workbench :=
  calls.foldl (fun w call => after (call.make reg) w) w

/-- A call keeps all classes, and if it fails it keeps everything. -/
theorem ends_make (call : ClassCall) :
    Ends (call.make reg) w
      (fun _ w' => ((w.registryOf reg).Built → (w'.registryOf reg).Built) ∧
        (w.registryOf reg).Extends (w'.registryOf reg))
      (fun _ w' => w' = w) := by
  cases call with
  | define d =>
    simp only [ClassCall.make, Workbench.define, setRegistry, ends_bind, ends_registry, ends_ofHeap,
      ends_modify, ends_pure]
    cases hd : (w.registryOf reg).define d with
    | error e => trivial
    | ok result =>
      simp only [registryOf_put]
      refine ⟨fun hb => hb.define hd, ?_⟩
      obtain ⟨-, superclass, -, -, heq⟩ := Registry.eq_add_of_define hd
      exact heq ▸ Registry.extends_add _ _
  | arrayOf component =>
    simp only [ClassCall.make, Workbench.arrayOf, setRegistry, ends_bind, ends_registry,
      ends_ofHeap, ends_modify, ends_pure]
    cases hd : (w.registryOf reg).arrayOf component with
    | error e => trivial
    | ok result =>
      simp only [registryOf_put]
      refine ⟨fun hb => hb.arrayOf hd, ?_⟩
      rcases Registry.eq_add_of_arrayOf hd with heq | ⟨name, heq⟩
      · exact heq ▸ Registry.Extends.refl _
      · exact heq ▸ Registry.extends_add _ _

theorem after_make (call : ClassCall) :
    ((w.registryOf reg).Built → ((after (call.make reg) w).registryOf reg).Built) ∧
      (w.registryOf reg).Extends ((after (call.make reg) w).registryOf reg) := by
  refine ends_after (ends_mono (ends_make call) (fun _ _ h => h) ?_)
  rintro _ _ rfl
  exact ⟨id, Registry.Extends.refl _⟩

theorem built_afterCalls (hw : (w.registryOf reg).Built) (calls : List ClassCall) :
    ((w.afterCalls reg calls).registryOf reg).Built := by
  induction calls generalizing w with
  | nil => exact hw
  | cons call calls ih => exact ih ((after_make call).1 hw)

theorem extends_afterCalls (w : Workbench) (calls : List ClassCall) :
    (w.registryOf reg).Extends ((w.afterCalls reg calls).registryOf reg) := by
  induction calls generalizing w with
  | nil => exact Registry.Extends.refl _
  | cons call calls ih => exact Registry.Extends.trans (after_make call).2 (ih _)

/-- A registry of a workbench that is consistent and stays so. -/
structure KeepsClasses (w : Workbench) (reg : String) : Prop where
  consistent : (w.registryOf reg).Consistent
  /-- Each name that is found is the name of exactly one class. -/
  names : Set.BijOn (w.registryOf reg).className {id | id < (w.registryOf reg).size}
    {name | ((w.registryOf reg).lookup name).isSome}
  /-- No calls change a definition that is there. -/
  definitions : ∀ calls, (w.registryOf reg).Extends ((w.afterCalls reg calls).registryOf reg)
  /-- A call that fails changes nothing. -/
  failures : ∀ call fault w', ClassCall.make reg call w = .error fault w' → w' = w

/-- From a new registry, whatever classes are defined and whatever array classes are asked for, with
whatever outcome: the classes and the index of their names are in step, every definition goes with
the others, none changes any more, and a call that fails leaves no trace. -/
theorem registries_stay_consistent (reg : String) (w : Workbench)
    (hw : w.registryOf reg = .initial) (calls : List ClassCall) :
    (w.afterCalls reg calls).KeepsClasses reg := by
  have hstart : (w.registryOf reg).Built := by
    rw [hw]
    exact .initial
  have hbuilt := built_afterCalls hstart calls
  refine ⟨hbuilt.consistent, hbuilt.consistent.bijOn_className, extends_afterCalls _, ?_⟩
  intro call fault w' hcall
  exact (ends_of_error hcall).mp (ends_make call)

/-- Calls of which two fail: the second class has a name that is taken, and the last one would have
two fields of one name. -/
def shapeCalls : List ClassCall :=
  [ .define { name := "Shape", kind := .interface, superclass := some 3 },
    .define { name := "Shape" },
    .arrayOf (.reference 12),
    .define
      { name := "Group"
        fields := [{ name := "size", type := .primitive .i32 },
          { name := "shapes", type := .array 13 }, { name := "owner", type := .object 12 }] },
    .define
      { name := "Pair", superclass := some 14
        fields := [{ name := "one", type := .object 14 }, { name := "one", type := .object 0 }] } ]

theorem registry_of_shapes_is_consistent :
    (({} : Workbench).registryOf "main" = .initial) ∧
    ((({} : Workbench).afterCalls "main" shapeCalls).registryOf "main").size = 15 ∧
    (({} : Workbench).afterCalls "main" shapeCalls).KeepsClasses "main" :=
  ⟨rfl, by decide, registries_stay_consistent "main" {} rfl shapeCalls⟩

end Workbench

end DeepCopy
