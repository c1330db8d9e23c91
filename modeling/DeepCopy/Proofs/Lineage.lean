-- Where the lines of classes end, and how they order the classes. Only interfaces
-- and the root class have no superclass, so every other line goes down in age to
-- the root class. Lines are never joined again once they have parted, and to be on
-- the line of a class is a partial order.
import DeepCopy.Proofs.Inheritance

namespace DeepCopy

namespace Registry

variable {r : Registry} {id : ClassId} {e : Entry} {chain : List ClassId}

/-! ## Classes without a superclass -/

/-- Only the root class and interfaces have no superclass. -/
def Founded (r : Registry) : Prop :=
  ∀ id e, r.get? id = some e → e.decl.superclass = none →
    id = rootClass ∨ e.decl.kind = .interface

theorem founded_initial : initial.Founded := by
  have hall : ∀ id : Fin 12, ∀ e ∈ initial.get? id, e.decl.superclass = none →
      id.val = rootClass := by decide
  intro id e he hs
  have hid : id < 12 := lt_size_of_get? he
  exact Or.inl (hall ⟨id, hid⟩ e he hs)

theorem Founded.add (h : r.Founded) {d : ClassDecl}
    (hd : d.superclass = none → d.kind = .interface) : (r.add d).Founded := by
  intro id e he hs
  rcases get?_add he with ⟨-, he⟩ | ⟨-, rfl⟩
  · exact h id e he hs
  · exact Or.inr (hd hs)

/-- A definition that says no superclass still gets one, unless it is of an interface. -/
theorem interface_of_resolveSuperclass {d : ClassDecl} (h : r.resolveSuperclass d = .ok none) :
    d.kind = .interface := by
  unfold resolveSuperclass at h
  cases hk : d.kind with
  | interface => rfl
  | array component =>
    rw [hk] at h
    cases h
  | container kind =>
    rw [hk] at h
    cases h
  | _ =>
    simp only [hk] at h
    cases hp : r.decl (d.superclass.getD rootClass) with
    | error fault =>
      rw [hp] at h
      cases h
    | ok p =>
      simp only [hp, bind, Except.bind] at h
      split at h <;> cases h

theorem Built.founded (h : r.Built) : r.Founded := by
  induction h with
  | initial => exact founded_initial
  | define _ hd ih =>
    obtain ⟨-, superclass, hs, -, rfl⟩ := eq_add_of_define hd
    apply ih.add
    rintro rfl
    have hk := interface_of_resolveSuperclass hs
    exact hk
  | arrayOf _ hc ih =>
    obtain ⟨name, -, ⟨-, rfl⟩ | ⟨-, -, rfl⟩⟩ := arrayOf_ok hc
    · exact ih
    · exact ih.add fun hs => by cases hs

/-! ## Along a line -/

theorem superclass?_of_get? (he : r.get? id = some e) : r.superclass? id = e.decl.superclass := by
  simp only [superclass?, he, Option.bind_some]

theorem Line.head? (h : r.Line id chain) : chain.head? = some id := by
  cases h <;> rfl

theorem Line.self_mem (h : r.Line id chain) : id ∈ chain := List.mem_of_mem_head? h.head?

theorem Line.unique (hc : r.Consistent) (h : r.Line id chain) {chain' : List ClassId}
    (h' : r.Line id chain') : chain = chain' :=
  Except.ok.inj ((h.ancestors_eq hc).symm.trans (h'.ancestors_eq hc))

/-- Behind each class of a line comes its superclass, and the line ends where there is none. -/
theorem Line.getElem?_succ (h : r.Line id chain) (i : Nat) :
    chain[i + 1]? = chain[i]?.bind r.superclass? := by
  induction h generalizing i with
  | root he hs =>
    cases i with
    | zero =>
      rw [List.getElem?_cons_zero, Option.bind_some, superclass?_of_get? he, hs]
      rfl
    | succ i => rfl
  | child he hs hp ih =>
    cases i with
    | zero =>
      rw [List.getElem?_cons_succ, List.getElem?_cons_zero, Option.bind_some,
        superclass?_of_get? he, hs, ← List.head?_eq_getElem?, hp.head?]
    | succ i =>
      rw [List.getElem?_cons_succ, List.getElem?_cons_succ]
      exact ih i

theorem Line.le_of_mem (hc : r.Consistent) (h : r.Line id chain) {a : ClassId} (ha : a ∈ chain) :
    a ≤ id := by
  induction h with
  | root he hs =>
    rw [List.mem_singleton.mp ha]
  | child he hs hp ih =>
    rcases List.mem_cons.mp ha with rfl | ha
    · exact Nat.le_refl _
    · exact Nat.le_of_lt (Nat.lt_of_le_of_lt (ih ha) (hc.superclass_lt he hs))

theorem Line.pairwise_gt (hc : r.Consistent) (h : r.Line id chain) :
    chain.Pairwise (· > ·) := by
  induction h with
  | root he hs => exact List.pairwise_singleton _ _
  | child he hs hp ih =>
    refine List.pairwise_cons.mpr ⟨?_, ih⟩
    intro a ha
    exact Nat.lt_of_le_of_lt (hp.le_of_mem hc ha) (hc.superclass_lt he hs)

theorem Line.eq_singleton_of_interface (hc : r.Consistent) (h : r.Line id chain)
    (he : r.get? id = some e) (hk : e.decl.kind = .interface) : chain = [id] := by
  cases h with
  | root => rfl
  | child he' hs hp =>
    cases he.symm.trans he'
    rw [(hc.suits id e he).interface hk] at hs
    cases hs

/-- The superclasses of a class are no interfaces, so that its line ends in the root class. -/
theorem Line.getLast?_eq (hc : r.Consistent) (hf : r.Founded) (h : r.Line id chain)
    (he : r.get? id = some e) (hk : e.decl.kind ≠ .interface) :
    chain.getLast? = some rootClass := by
  induction h generalizing e with
  | root he' hs =>
    cases he.symm.trans he'
    rcases hf _ _ he hs with rfl | hi
    · rfl
    · exact absurd hi hk
  | @child id parent e' above he' hs hp ih =>
    obtain ⟨p, hp', hpk⟩ := (hc.suits id e' he').superclass parent hs
    have hlast : above.getLast? = some rootClass := by
      apply ih hp'
      intro hi
      rcases hpk with hpk | hpk <;> cases hi.symm.trans hpk
    rw [List.getLast?_cons, hlast]
    rfl

/-- Of the lines of two classes that are both on one line, one is the end of the other. -/
theorem Line.suffix_or_suffix (hc : r.Consistent) (h : r.Line id chain) {a b : ClassId}
    {above above' : List ClassId} (ha : a ∈ chain) (hb : b ∈ chain) (hla : r.Line a above)
    (hlb : r.Line b above') : above <:+ above' ∨ above' <:+ above := by
  obtain ⟨l, hl, hsuffix⟩ := h.of_mem ha
  obtain ⟨l', hl', hsuffix'⟩ := h.of_mem hb
  rw [hla.unique hc hl, hlb.unique hc hl']
  exact List.suffix_or_suffix_of_suffix hsuffix hsuffix'

/-! ## The order of the classes -/

/-- What the chain of a class and its superclasses is like. -/
structure Ascends (r : Registry) (id : ClassId) (chain : List ClassId) : Prop where
  head : chain.head? = some id
  /-- Behind each class comes its superclass, and nothing if it has none. -/
  links : ∀ i, chain[i + 1]? = chain[i]?.bind r.superclass?
  older : chain.Pairwise (· > ·)
  /-- An interface stands alone. -/
  interface : ∀ d, r.decl id = .ok d → d.kind = .interface → chain = [id]
  /-- All else ends in the root class. -/
  root : ∀ d, r.decl id = .ok d → d.kind ≠ .interface → chain.getLast? = some rootClass

theorem Line.ascends (h : r.Line id chain) (hc : r.Consistent) (hf : r.Founded) :
    r.Ascends id chain := by
  refine ⟨h.head?, h.getElem?_succ, h.pairwise_gt hc, ?_, ?_⟩
  · intro d hd hk
    obtain ⟨e, he, rfl⟩ := get?_of_decl hd
    exact h.eq_singleton_of_interface hc he hk
  · intro d hd hk
    obtain ⟨e, he, rfl⟩ := get?_of_decl hd
    exact h.getLast?_eq hc hf he hk

/-- A registry whose classes have chains of superclasses that end and that order the classes. -/
structure Ordered (r : Registry) : Prop where
  /-- No chain is cut off: with more links it is the same. -/
  ends : ∀ id links, id < links → r.climb links id = r.ancestors id
  registered : ∀ id, id < r.size → ∃ chain, r.ancestors id = .ok chain ∧ r.Ascends id chain
  unregistered : ∀ id : ClassId, r.size ≤ id → r.ancestors id = .error (.unknownClass id.text)
  subclass_iff : ∀ a b, r.isSubclass a b = true ↔ ∃ chain, r.ancestors a = .ok chain ∧ b ∈ chain
  refl : ∀ a, a < r.size → r.isSubclass a a = true
  trans : ∀ a b c, r.isSubclass a b = true → r.isSubclass b c = true → r.isSubclass a c = true
  antisymm : ∀ a b, r.isSubclass a b = true → r.isSubclass b a = true → a = b
  comparable : ∀ a b c, r.isSubclass a b = true → r.isSubclass a c = true →
    r.isSubclass b c = true ∨ r.isSubclass c b = true

theorem isSubclass_iff_ancestors (a b : ClassId) :
    r.isSubclass a b = true ↔ ∃ chain, r.ancestors a = .ok chain ∧ b ∈ chain := by
  unfold isSubclass
  cases r.ancestors a with
  | error fault => simp
  | ok chain => simp

theorem Consistent.isSubclass_iff_line (hc : r.Consistent) {a b : ClassId} :
    r.isSubclass a b = true ↔ ∃ chain, r.Line a chain ∧ b ∈ chain := by
  cases he : r.get? a with
  | none =>
    rw [isSubclass_of_new he]
    refine ⟨fun h => (by cases h), ?_⟩
    rintro ⟨chain, hline, -⟩
    obtain ⟨e, he'⟩ := hline.registered
    cases he.symm.trans he'
  | some e =>
    obtain ⟨chain, hline⟩ := hc.exists_line he
    constructor
    · intro h
      exact ⟨chain, hline, (hline.isSubclass_iff hc b).mp h⟩
    · rintro ⟨chain', hline', hb⟩
      exact (hline'.isSubclass_iff hc b).mpr hb

theorem Consistent.isSubclass_trans (hc : r.Consistent) {a b c : ClassId}
    (hab : r.isSubclass a b = true) (hbc : r.isSubclass b c = true) :
    r.isSubclass a c = true := by
  obtain ⟨chain, hline, hb⟩ := hc.isSubclass_iff_line.mp hab
  obtain ⟨above, habove, hsuffix⟩ := hline.of_mem hb
  apply hc.isSubclass_iff_line.mpr
  exact ⟨chain, hline, hsuffix.subset ((habove.isSubclass_iff hc c).mp hbc)⟩

theorem Consistent.isSubclass_antisymm (hc : r.Consistent) {a b : ClassId}
    (hab : r.isSubclass a b = true) (hba : r.isSubclass b a = true) : a = b := by
  obtain ⟨chain, hline, hb⟩ := hc.isSubclass_iff_line.mp hab
  obtain ⟨chain', hline', ha⟩ := hc.isSubclass_iff_line.mp hba
  exact Nat.le_antisymm (hline'.le_of_mem hc ha) (hline.le_of_mem hc hb)

theorem Consistent.isSubclass_comparable (hc : r.Consistent) {a b c : ClassId}
    (hab : r.isSubclass a b = true) (hac : r.isSubclass a c = true) :
    r.isSubclass b c = true ∨ r.isSubclass c b = true := by
  obtain ⟨chain, hline, hb⟩ := hc.isSubclass_iff_line.mp hab
  have hmem := (hline.isSubclass_iff hc c).mp hac
  obtain ⟨above, habove, -⟩ := hline.of_mem hb
  obtain ⟨above', habove', -⟩ := hline.of_mem hmem
  rcases hline.suffix_or_suffix hc hb hmem habove habove' with hs | hs
  · exact Or.inr ((habove'.isSubclass_iff hc b).mpr (hs.subset habove.self_mem))
  · exact Or.inl ((habove.isSubclass_iff hc c).mpr (hs.subset habove'.self_mem))

theorem climb_of_new (h : r.get? id = none) {links : Nat} (hlt : 0 < links) :
    r.climb links id = .error (.unknownClass id.text) := by
  cases links with
  | zero => cases hlt
  | succ links => simp only [climb, decl_of_new h, bind, Except.bind]

/-- However a registry has come about, going up from a class ends, in an error exactly where there
is no such class. The chain that is found begins with the class and goes on from superclass to
superclass, each older than the one before, up to the root class; that of an interface is the
interface alone. And to be on the chain of a class is a partial order, in which the classes above
any one class stand in line. -/
theorem ancestry_ends_and_is_a_partial_order (hb : r.Built) : r.Ordered := by
  have hc := hb.consistent
  have line : ∀ id, id < r.size → ∃ chain, r.Line id chain :=
    fun id hid => hc.exists_line (Array.getElem?_eq_getElem hid)
  refine
    { ends := ?_
      registered := ?_
      unregistered := ?_
      subclass_iff := isSubclass_iff_ancestors
      refl := ?_
      trans := fun _ _ _ => hc.isSubclass_trans
      antisymm := fun _ _ => hc.isSubclass_antisymm
      comparable := fun _ _ _ => hc.isSubclass_comparable }
  · intro id links hlt
    cases he : r.get? id with
    | none => rw [ancestors_of_new he, climb_of_new he (Nat.zero_lt_of_lt hlt)]
    | some e =>
      obtain ⟨chain, hline⟩ := hc.exists_line he
      rw [hline.ancestors_eq hc, hline.climb_eq hc hlt]
  · intro id hid
    obtain ⟨chain, hline⟩ := line id hid
    exact ⟨chain, hline.ancestors_eq hc, hline.ascends hc hb.founded⟩
  · intro id hid
    exact ancestors_of_new (Array.getElem?_eq_none hid)
  · intro a ha
    obtain ⟨chain, hline⟩ := line a ha
    exact hc.isSubclass_iff_line.mpr ⟨chain, hline, hline.self_mem⟩

/-- An interface whose definition names a superclass, as one that is copied from another registry
may do. -/
def winder : ClassDecl := { name := "Winder", kind := .interface, superclass := some 13 }

theorem built_winder :
    (((initial.add gauge).add dial).add { winder with superclass := none }).Built := by
  have hdefine : ((initial.add gauge).add dial).define winder =
      .ok (14, ((initial.add gauge).add dial).add { winder with superclass := none }) :=
    define_eq (by decide) rfl rfl
  exact .define built_dial hdefine

/-- The interface stands alone, whatever superclass it was to have, and beside it the classes are
ordered as they extend each other. -/
theorem winder_stands_alone :
    let r := ((initial.add gauge).add dial).add { winder with superclass := none }
    r.Built ∧ r.Ordered ∧ r.ancestors 14 = .ok [14] ∧ r.ancestors 13 = .ok [13, 12, 0] ∧
      r.isSubclass 13 12 = true ∧ r.isSubclass 12 13 = false :=
  ⟨built_winder, ancestry_ends_and_is_a_partial_order built_winder, rfl, rfl, rfl, rfl⟩

end Registry

end DeepCopy
