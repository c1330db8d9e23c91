-- Two clones of one value side by side, in two heaps that differ only in what the
-- copy does not depend on. They make the same objects in the same order; the
-- objects of the second clone may have other names than those of the first, and
-- one of them may have been there before.
import DeepCopy.Proofs.ArrayStandIns
import DeepCopy.Proofs.InstanceComparison
import DeepCopy.Proofs.PairedRuns

namespace DeepCopy

/-! ## What may differ -/

/-- A spot of a field that the policy resets. -/
def Setting.LeavesOut (s : Setting) (fields : List Field) (x : Spot) : Prop :=
  ∃ f ∈ fields, s.policy.resets f.marks = true ∧ f.place.Holds x

/-- Two bodies hold the same but for the fields that the policy resets. -/
def Setting.SameButReset (s : Setting) (fields : List Field) (b b' : Body) : Prop :=
  match b with
  | .record _ _ => b'.shape = .record ∧
    ∀ x : Spot, ¬ s.LeavesOut fields x → x.Alike (fun o => o) b b'
  | b => b' = b

theorem Setting.SameButReset.refl (s : Setting) (fields : List Field) (b : Body) :
    s.SameButReset fields b b := by
  cases b with
  | record block refs => exact ⟨rfl, fun x _ => Spot.Alike.refl _ x⟩
  | _ => rfl

/-- Where one is a container, so is the other. -/
theorem Setting.SameButReset.contents?_eq {s : Setting} {fields : List Field} {b b' : Body}
    (h : s.SameButReset fields b b') : b'.contents? = b.contents? := by
  unfold SameButReset at h
  split at h
  · cases b' with
    | record block refs => rfl
    | _ => cases h.1
  · rw [h]

/-- Two runs in which a value is to be cloned. What the first clone makes goes by another name on
the other side, where it is new, or is one of some objects that are given. -/
structure Pairing where
  left : Run
  right : Run
  root : Value
  name : ObjectId → ObjectId
  given : ObjectId → Prop

/-- What a clone has come to: it is there, and is new or can be reached from the root. -/
def Pairing.Familiar (c : Pairing) (a : Run) (w : Value) : Prop :=
  ∀ t, w = .ref t → t < a.heap.size ∧ (c.left.heap.size ≤ t ∨ c.left.heap.Reaches c.root t)

/-- Clones go alike in two runs. All that is duplicated is the same on both sides but for what the
policy resets. No clone copies from what is given, and different objects have different names. -/
structure Setting.Paired (s : Setting) (c : Pairing) : Prop where
  unaided : s.Unaided c.left c.root
  orderly : c.right.heap.Orderly s.registry
  plans : Plans.Fit s.registry c.right.plans
  planOf : ∀ cls, s.planOf c.right cls = s.planOf c.left cls
  classShared : ∀ cls, s.classShared c.right cls = s.classShared c.left cls
  size : c.right.heap.size = c.left.heap.size
  cls : ∀ o < c.left.heap.size, c.right.heap.cls o = c.left.heap.cls o
  shape : ∀ o < c.left.heap.size, c.right.heap.shape o = c.left.heap.shape o
  body : ∀ o, s.Duplicates c.left.heap (s.fate c.left) c.root o →
    s.SameButReset (s.registry.fieldsOf (c.left.heap.cls o)) (c.left.heap.body o)
      (c.right.heap.body o)
  spared : ∀ o, s.Duplicates c.left.heap (s.fate c.left) c.root o → ¬ c.given o
  old : ∀ o < c.left.heap.size, c.name o = o
  own : ∀ t, c.left.heap.size ≤ t → c.given (c.name t) ∨ c.left.heap.size ≤ c.name t
  inj : ∀ t t', (c.left.heap.size ≤ t ∨ c.left.heap.Reaches c.root t) →
    (c.left.heap.size ≤ t' ∨ c.left.heap.Reaches c.root t') → c.name t = c.name t' → t = t'
  /-- All names stay the same, or tree maps have no order among objects. -/
  trees : (∀ o, c.name o = o) ∨
    ∀ o, s.Duplicates c.left.heap (s.fate c.left) c.root o → ∀ entries,
      c.left.heap.body o = .container (.treeMap entries) →
        Container.Lone (entries.map (·.1.value))

/-! ## Two clones side by side -/

/-- Two clones in two runs, as far as they have come. The objects of `busy` are yet to be filled. -/
structure Twins (s : Setting) (c : Pairing) (busy : ObjectId → Prop) (a b : Run) : Prop where
  left : Thriving s c.left a
  right : Kept s (fun o => c.given o ∨ c.left.heap.size ≤ o) c.right b
  copies : ∀ o, b.copies.find? o = (a.copies.find? o).map (Value.rename c.name)
  made : ∀ o w, a.copies.find? o = some w → c.Familiar a w
  pace : ∀ k, c.name (a.heap.size + k) = b.heap.size + k
  there : ∀ t < a.heap.size, c.name t < b.heap.size
  cls : ∀ t < a.heap.size, b.heap.cls (c.name t) = a.heap.cls t
  shape : ∀ t < a.heap.size, b.heap.shape (c.name t) = a.heap.shape t
  same : ∀ t, c.left.heap.size ≤ t → t < a.heap.size → ¬ busy t →
    b.heap.body (c.name t) = (a.heap.body t).rename c.name
  closed : ∀ t, c.left.heap.size ≤ t → t < a.heap.size → ∀ v ∈ (a.heap.body t).values,
    c.Familiar a v

/-- Two clones go on, and leave alone what is not their own. -/
structure Strides (s : Setting) (own own' : ObjectId → Prop) (a b a' b' : Run) : Prop where
  left : Kept s own a a'
  right : Kept s own' b b'

namespace Strides

variable {s : Setting} {own own' p p' : ObjectId → Prop} {a b a' b' a'' b'' : Run}

theorem refl (s : Setting) (own own' : ObjectId → Prop) (a b : Run) : Strides s own own' a b a b :=
  ⟨Kept.refl a, Kept.refl b⟩

theorem trans (h₁ : Strides s own own' a b a' b') (h₂ : Strides s p p' a' b' a'' b'')
    (hl : ∀ o < a'.heap.size, p o → own o) (hr : ∀ o < b'.heap.size, p' o → own' o) :
    Strides s own own' a b a'' b'' :=
  ⟨h₁.left.trans (h₂.left.mono hl), h₁.right.trans (h₂.right.mono hr)⟩

theorem mono (h : Strides s own own' a b a' b') (hl : ∀ o < a.heap.size, own o → p o)
    (hr : ∀ o < b.heap.size, own' o → p' o) : Strides s p p' a b a' b' :=
  ⟨h.left.mono hl, h.right.mono hr⟩

theorem missing_le (h : Strides s own own' a b a' b') {n depth : Nat}
    (hd : a.copies.missing n ≤ depth) : a'.copies.missing n ≤ depth :=
  Nat.le_trans (Copies.missing_mono h.left.copies) hd

end Strides

/-- Two clones go on, and change nothing that was there. -/
abbrev OnlyNew (s : Setting) (a b a' b' : Run) : Prop :=
  Strides s (a.heap.size ≤ ·) (b.heap.size ≤ ·) a b a' b'

/-- Two clones go on, and change nothing that was there but one object each. -/
abbrev OnlyAt (s : Setting) (t u : ObjectId) (a b a' b' : Run) : Prop :=
  Strides s (fun o => o = t ∨ a.heap.size ≤ o) (fun o => o = u ∨ b.heap.size ≤ o) a b a' b'

section Only

variable {s : Setting} {t u : ObjectId} {a b a' b' a'' b'' : Run}

theorem OnlyNew.trans (h₁ : OnlyNew s a b a' b') (h₂ : OnlyNew s a' b' a'' b'') :
    OnlyNew s a b a'' b'' :=
  Strides.trans h₁ h₂ (fun _ _ => Nat.le_trans h₁.left.heap.size_le)
    fun _ _ => Nat.le_trans h₁.right.heap.size_le

theorem OnlyAt.trans (h₁ : OnlyAt s t u a b a' b') (h₂ : OnlyAt s t u a' b' a'' b'') :
    OnlyAt s t u a b a'' b'' :=
  Strides.trans h₁ h₂ (fun _ _ ho => ho.imp id (Nat.le_trans h₁.left.heap.size_le))
    fun _ _ ho => ho.imp id (Nat.le_trans h₁.right.heap.size_le)

theorem OnlyNew.onlyAt (h : OnlyNew s a b a' b') : OnlyAt s t u a b a' b' :=
  Strides.mono h (fun _ _ => Or.inr) fun _ _ => Or.inr

/-- Objects that have been made are changed. -/
theorem OnlyNew.trans_at (h₁ : OnlyNew s a b a' b') (ht : a.heap.size ≤ t) (hu : b.heap.size ≤ u)
    (h₂ : OnlyAt s t u a' b' a'' b'') : OnlyNew s a b a'' b'' :=
  Strides.trans h₁ h₂
    (fun _ _ ho => ho.elim (fun h => h ▸ ht) (Nat.le_trans h₁.left.heap.size_le))
    fun _ _ ho => ho.elim (fun h => h ▸ hu) (Nat.le_trans h₁.right.heap.size_le)

end Only

namespace Pairing.Familiar

variable {c : Pairing} {a a' : Run} {v : Value}

theorem of_object? (h : v.object? = none) : c.Familiar a v := by
  rintro t rfl
  cases h

theorem grow (h : c.Familiar a v) (hs : a.heap.size ≤ a'.heap.size) :
    c.Familiar a' v :=
  fun t ht => ⟨Nat.lt_of_lt_of_le (h t ht).1 hs, (h t ht).2⟩

/-- All copies that are kept are familiar when one more is. -/
theorem put {copies : Copies} {source : ObjectId} (hv : c.Familiar a v)
    (h : ∀ o w, copies.find? o = some w → c.Familiar a w) :
    ∀ o w, (copies.put source v).find? o = some w → c.Familiar a w := by
  intro o w hw
  by_cases ho : o = source
  · subst ho
    rw [Copies.find?_put] at hw
    cases hw
    exact hv
  · rw [Copies.find?_put_ne _ _ ho] at hw
    exact h o w hw

end Pairing.Familiar

/-- Two records of copies that are alike but for names stay so when each keeps one more. -/
theorem Copies.find?_put_rename {copies copies' : Copies} {ρ : ObjectId → ObjectId}
    (h : ∀ o, copies'.find? o = (copies.find? o).map (Value.rename ρ)) {source t u : ObjectId}
    (hname : ρ t = u) (o : ObjectId) :
    (copies'.put source (.ref u)).find? o =
      ((copies.put source (.ref t)).find? o).map (Value.rename ρ) := by
  by_cases ho : o = source
  · subst ho
    rw [Copies.find?_put, Copies.find?_put, ← hname]
    rfl
  · rw [Copies.find?_put_ne _ _ ho, Copies.find?_put_ne _ _ ho]
    exact h o

namespace Twins

variable {s : Setting} {c : Pairing} {a b a' b' : Run} {busy : ObjectId → Prop} {o t : ObjectId}

/-! ### What clones copy from -/

theorem cls_right (hp : s.Paired c)
    (h : Twins s c busy a b) (ho : o < c.left.heap.size) :
    b.heap.cls o = c.left.heap.cls o :=
  (h.right.heap.cls_eq o (hp.size ▸ ho)).trans (hp.cls o ho)

theorem shape_right (hp : s.Paired c)
    (h : Twins s c busy a b) (ho : o < c.left.heap.size) :
    b.heap.shape o = c.left.heap.shape o :=
  (h.right.heap.shape_eq o (hp.size ▸ ho)).trans (hp.shape o ho)

theorem body_right (hp : s.Paired c)
    (h : Twins s c busy a b)
    (hd : s.Duplicates c.left.heap (s.fate c.left) c.root o) :
    b.heap.body o = c.right.heap.body o := by
  have hlt := hp.unaided.lt_size hd
  refine h.right.heap.body_eq o (hp.size ▸ hlt) fun hown => ?_
  rcases hown with hg | hle
  · exact hp.spared o hd hg
  · exact Nat.not_le.mpr hlt hle

theorem takesArray_right (h : Twins s c busy a b) {w : Value}
    (hw : c.Familiar a w) (ha : Field.takesArray a.heap w = true) :
    Field.takesArray b.heap (w.rename c.name) = true := by
  cases w with
  | ref t =>
    simp only [Field.takesArray, Value.rename, Heap.isArrayRef] at ha ⊢
    rw [h.shape t (hw t rfl).1]
    exact ha
  | null => rfl
  | _ => cases ha

/-! ### Steps -/

/-- A step on both sides by which something is found out. -/
theorem learned (h : Twins s c busy a b)
    (hl : Kept s (fun _ => False) a a') (hr : Kept s (fun _ => False) b b')
    (ha : a'.heap = a.heap) (hb : b'.heap = b.heap) (hc : a'.copies = a.copies)
    (hc' : b'.copies = b.copies) : Twins s c busy a' b' where
  left := h.left.step (hl.mono fun _ _ h => h.elim) hc
  right := h.right.trans (hr.mono fun _ _ h => h.elim)
  copies := by
    rw [hc, hc']
    exact h.copies
  made := by
    rw [hc]
    exact fun o w hw => (h.made o w hw).grow (Nat.le_of_eq (congrArg Heap.size ha.symm))
  pace := by
    rw [ha, hb]
    exact h.pace
  there := by
    rw [ha, hb]
    exact h.there
  cls := by
    rw [ha, hb]
    exact h.cls
  shape := by
    rw [ha, hb]
    exact h.shape
  same := by
    rw [ha, hb]
    exact h.same
  closed := by
    rw [ha]
    exact fun t hle hlt v hv => (h.closed t hle hlt v hv).grow
      (Nat.le_of_eq (congrArg Heap.size ha.symm))

/-- An object that is being filled gets another body on both sides. -/
theorem drawn (hp : s.Paired c)
    (h : Twins s c busy a b) (hb : busy t) (hnew : c.left.heap.size ≤ t)
    (hlt : t < a.heap.size) {m m' : Memory} {body body' : Body}
    (hl : m.heap = a.heap.setBody t body) (hr : m'.heap = b.heap.setBody (c.name t) body')
    (hv : ∀ v ∈ body.values, c.Familiar a v) :
    Twins s c busy { a with memory := m } { b with memory := m' } := by
  have hsize : m.heap.size = a.heap.size := by rw [hl, Heap.size_setBody]
  have hsize' : m'.heap.size = b.heap.size := by rw [hr, Heap.size_setBody]
  have hgrow : a.heap.size ≤ m.heap.size := Nat.le_of_eq hsize.symm
  refine
    { left := h.left.step (Kept.of_memory (Spared.of_touched (Or.inr ⟨body, hl⟩) hnew)) rfl
      right := h.right.trans
        (Kept.of_memory (Spared.of_touched (Or.inr ⟨body', hr⟩) (hp.own t hnew)))
      copies := h.copies
      made := fun o w hw => (h.made o w hw).grow hgrow
      pace := ?pace, there := ?there, cls := ?cls, shape := ?shape, same := ?same,
      closed := ?closed }
  case pace =>
    intro k
    show c.name (m.heap.size + k) = m'.heap.size + k
    rw [hsize, hsize']
    exact h.pace k
  case there =>
    intro t' ht'
    show c.name t' < m'.heap.size
    rw [hsize']
    exact h.there t' (hsize ▸ ht')
  case cls =>
    intro t' ht'
    show m'.heap.cls (c.name t') = m.heap.cls t'
    rw [hl, hr, Heap.cls_setBody, Heap.cls_setBody]
    exact h.cls t' (hsize ▸ ht')
  case shape =>
    intro t' ht'
    show m'.heap.shape (c.name t') = m.heap.shape t'
    rw [hl, hr, Heap.shape_setBody, Heap.shape_setBody]
    exact h.shape t' (hsize ▸ ht')
  case same =>
    intro t' hle ht' hn
    have hne : t' ≠ t := by
      rintro rfl
      exact hn hb
    have hne' : c.name t' ≠ c.name t := fun he => hne (hp.inj t' t (Or.inl hle) (Or.inl hnew) he)
    show (m'.heap.get (c.name t')).body = (m.heap.get t').body.rename c.name
    rw [hl, hr, Heap.get_setBody_of_ne body hne, Heap.get_setBody_of_ne body' hne']
    exact h.same t' hle (hsize ▸ ht') hn
  case closed =>
    intro t' hle ht' v hv'
    have hv' : v ∈ (m.heap.body t').values := hv'
    rw [hl] at hv'
    by_cases hne : t' = t
    · subst hne
      rw [Heap.body_setBody hlt] at hv'
      exact (hv v hv').grow hgrow
    · rw [Heap.body, Heap.get_setBody_of_ne body hne] at hv'
      exact (h.closed t' hle (hsize ▸ ht') v hv').grow hgrow

/-- Two objects of one name are both those that were added, or were both there. -/
theorem get_added (h : Twins s c busy a b) {m m' : Memory} {x y : Object}
    (hl : m.heap = a.heap.add x) (hr : m'.heap = b.heap.add y) (ht : t < m.heap.size) :
    (t = a.heap.size ∧ m.heap.get t = x ∧ m'.heap.get (c.name t) = y) ∨
      (t < a.heap.size ∧ m.heap.get t = a.heap.get t ∧
        m'.heap.get (c.name t) = b.heap.get (c.name t)) := by
  rw [hl, Heap.size_add] at ht
  rcases Nat.lt_succ_iff_lt_or_eq.mp ht with hlt | rfl
  · refine Or.inr ⟨hlt, ?_, ?_⟩
    · rw [hl, Heap.get_add_of_lt _ hlt]
    · rw [hr, Heap.get_add_of_lt _ (h.there t hlt)]
  · refine Or.inl ⟨rfl, ?_, ?_⟩
    · rw [hl, Heap.get_add_new]
    · rw [hr, show c.name a.heap.size = b.heap.size from h.pace 0, Heap.get_add_new]

/-- A copy is made on both sides for a source that has none, to be filled later. -/
theorem added (h : Twins s c busy a b) {source : ObjectId}
    (new : a.copies.find? source = none) {m m' : Memory} {body body' : Body}
    (hl : m.heap = a.heap.add (Object.new (c.left.heap.cls source) body))
    (hr : m'.heap = b.heap.add (Object.new (c.left.heap.cls source) body'))
    (hshape : body.shape = c.left.heap.shape source) (hshape' : body'.shape = body.shape)
    (hv : ∀ v ∈ body.values, v.object? = none) :
    Twins s c (fun t => busy t ∨ t = a.heap.size)
      { a with memory := m, copies := a.copies.put source (.ref a.heap.size) }
      { b with memory := m', copies := b.copies.put source (.ref b.heap.size) } := by
  have hbase : c.left.heap.size ≤ a.heap.size := h.left.kept.heap.size_le
  have hname : c.name a.heap.size = b.heap.size := h.pace 0
  have hsize : m.heap.size = a.heap.size + 1 := by rw [hl, Heap.size_add]
  have hsize' : m'.heap.size = b.heap.size + 1 := by rw [hr, Heap.size_add]
  have hgrow : a.heap.size ≤ m.heap.size := by omega
  have new' : b.copies.find? source = none := by rw [h.copies, new]; rfl
  have hmade : c.Familiar { a with memory := m } (.ref a.heap.size) := by
    rintro t ht
    cases ht
    exact ⟨Nat.lt_of_lt_of_eq (Nat.lt_succ_self _) hsize.symm, Or.inl hbase⟩
  refine
    { left := h.left.made new hl hshape
      right := (h.right.trans (Kept.of_memory (hr ▸ Spared.of_add _))).trans
        (Kept.of_register _ new')
      copies := Copies.find?_put_rename h.copies hname
      made := hmade.put fun o w hw => (h.made o w hw).grow hgrow
      pace := ?pace, there := ?there, cls := ?cls, shape := ?shape, same := ?same,
      closed := ?closed }
  case pace =>
    intro k
    show c.name (m.heap.size + k) = m'.heap.size + k
    rw [hsize, hsize', Nat.add_assoc, Nat.add_assoc]
    exact h.pace (1 + k)
  case there =>
    intro t ht
    show c.name t < m'.heap.size
    rw [hsize']
    rcases h.get_added hl hr ht with ⟨rfl, -, -⟩ | ⟨hlt, -, -⟩
    · exact Nat.lt_succ_of_le (Nat.le_of_eq hname)
    · exact Nat.lt_succ_of_lt (h.there t hlt)
  case cls =>
    intro t ht
    show (m'.heap.get (c.name t)).cls = (m.heap.get t).cls
    rcases h.get_added hl hr ht with ⟨-, hx, hy⟩ | ⟨hlt, hx, hy⟩
    · rw [hx, hy]
      rfl
    · rw [hx, hy]
      exact h.cls t hlt
  case shape =>
    intro t ht
    show (m'.heap.get (c.name t)).shape = (m.heap.get t).shape
    rcases h.get_added hl hr ht with ⟨-, hx, hy⟩ | ⟨hlt, hx, hy⟩
    · rw [hx, hy]
      exact hshape'
    · rw [hx, hy]
      exact h.shape t hlt
  case same =>
    intro t hle ht hn
    show (m'.heap.get (c.name t)).body = (m.heap.get t).body.rename c.name
    rcases h.get_added hl hr ht with ⟨rfl, -, -⟩ | ⟨hlt, hx, hy⟩
    · exact absurd (Or.inr rfl) hn
    · rw [hx, hy]
      exact h.same t hle hlt fun hb => hn (Or.inl hb)
  case closed =>
    intro t hle ht v hv'
    have hv' : v ∈ (m.heap.get t).body.values := hv'
    rcases h.get_added hl hr ht with ⟨-, hx, -⟩ | ⟨hlt, hx, -⟩
    · rw [hx] at hv'
      exact Pairing.Familiar.of_object? (hv v hv')
    · rw [hx] at hv'
      exact (h.closed t hle hlt v hv').grow hgrow

/-- What is made on both sides is new. -/
theorem onlyNew_added {source : ObjectId} (new : a.copies.find? source = none)
    (new' : b.copies.find? source = none) {m m' : Memory} {x y : Object} {v w : Value}
    (hl : m.heap = a.heap.add x) (hr : m'.heap = b.heap.add y) :
    OnlyNew s a b { a with memory := m, copies := a.copies.put source v }
      { b with memory := m', copies := b.copies.put source w } :=
  ⟨(Kept.of_memory (hl ▸ Spared.of_add x)).trans (Kept.of_register v new),
    (Kept.of_memory (hr ▸ Spared.of_add y)).trans (Kept.of_register w new')⟩

/-- An object was filled, with the same on both sides but for names. -/
theorem finish (h : Twins s c (fun o => busy o ∨ o = t) a b)
    (ht : b.heap.body (c.name t) = (a.heap.body t).rename c.name) :
    Twins s c busy a b := by
  refine { h with same := ?_ }
  intro t' hle hlt hn
  by_cases heq : t' = t
  · exact heq ▸ ht
  · exact h.same t' hle hlt fun hb => hb.elim hn heq

end Twins

end DeepCopy
