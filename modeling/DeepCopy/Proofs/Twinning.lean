-- Two clones of one value go the same way. What is met on one side is met on the
-- other, every write is made on both sides, and what comes out on the second side
-- is what comes out on the first by its name there.
import DeepCopy.Proofs.Twins

namespace DeepCopy

namespace Setting

open CloneM

/-! ## Steps on both sides -/

/-- The one way in which clones of orderly heaps fail: a container is to be rebuilt where there is
none, since a policy asks for it. Both sides then report the same. -/
def FailsAlike (s : Setting) (e e' : Stop) : Prop :=
  ¬ s.FitsOverrides ∧ e' = e ∧
    ∃ (p : Plan) (o : ObjectId), e = .failed (contentsFault p o (.wrongBody p.name .container))

/-- Both clones end well in `Q`, or both fail alike. -/
abbrev GoAlike {α β : Type} (s : Setting) (x : CloneM α) (y : CloneM β) (a b : Run)
    (Q : α → β → Run → Run → Prop) : Prop :=
  Tandem x y a b Q fun e e' _ _ => s.FailsAlike e e'

/-- What comes out for a value on both sides. -/
structure Reply (s : Setting) (c : Pairing) (busy : ObjectId → Prop) (v : Value) (a b : Run)
    (w w' : Value) (a' b' : Run) : Prop where
  renamed : w' = w.rename c.name
  twins : Twins s c busy a' b'
  strides : OnlyNew s a b a' b'
  familiar : c.Familiar a' w
  plain : v.object? = none → w = v
  array : Field.takesArray c.left.heap v = true → Field.takesArray a'.heap w = true

/-- A value that the first clone may come to. -/
def ComesTo (s : Setting) (c : Pairing) (v : Value) : Prop :=
  s.Sought c.left c.root v ∧ c.left.heap.Meets c.root v

/-- What the clones of a nested value do on both sides, as long as no more objects than `depth` are
without a copy. -/
def RepliesAlike (s : Setting) (c : Pairing) (depth : Nat) (nested nested' : Value → CloneM Value) :
    Prop :=
  ∀ busy a b v, Twins s c busy a b → s.ComesTo c v → a.copies.missing c.left.heap.size ≤ depth →
    s.GoAlike (nested v) (nested' v) a b (s.Reply c busy v a b)

variable {s : Setting} {c : Pairing} {busy : ObjectId → Prop} {a b a' b' a'' b'' : Run}
  {depth : Nat} {nested nested' : Value → CloneM Value} {source t : ObjectId} {l : Layout}
  {gaps gaps' : Spot → Prop} {done done' : Field → Prop}

theorem Paired.comesTo (hp : s.Paired c)
    (hd : s.Duplicates c.left.heap (s.fate c.left) c.root source) {v : Value}
    (hv : s.Follows c.left.heap source v) : s.ComesTo c v := by
  refine ⟨hp.unaided.sought hd hv, ?_⟩
  rintro o rfl
  exact .next hd.reaches hv.mem_values

/-! ## Writes -/

/-- An object that is being filled has got a body on both sides. -/
structure Drawn (s : Setting) (c : Pairing) (busy : ObjectId → Prop) (t : ObjectId)
    (body body' : Body) (a b a' b' : Run) : Prop where
  twins : Twins s c busy a' b'
  strides : OnlyAt s t (c.name t) a b a' b'
  left : a'.heap.body t = body
  right : b'.heap.body (c.name t) = body'

theorem Drawn.of_heaps (hp : s.Paired c) (h : Twins s c busy a b) (hb : busy t)
    (hnew : c.left.heap.size ≤ t) (hlt : t < a.heap.size) {m m' : Memory} {body body' : Body}
    (hm : m.heap = a.heap.setBody t body) (hm' : m'.heap = b.heap.setBody (c.name t) body')
    (hv : ∀ v ∈ body.values, c.Familiar a v) :
    s.Drawn c busy t body body' a b { a with memory := m } { b with memory := m' } where
  twins := h.drawn hp hb hnew hlt hm hm' hv
  strides := ⟨Kept.of_memory (Spared.of_touched (Or.inr ⟨body, hm⟩) (Or.inl rfl)),
    Kept.of_memory (Spared.of_touched (Or.inr ⟨body', hm'⟩) (Or.inl rfl))⟩
  left := by
    show m.heap.body t = body
    rw [hm, Heap.body_setBody hlt]
  right := by
    show m'.heap.body (c.name t) = body'
    rw [hm', Heap.body_setBody (h.there t hlt)]

/-- A write goes well on both sides. -/
theorem alike_draws (hp : s.Paired c) (h : Twins s c busy a b) (hb : busy t)
    (hnew : c.left.heap.size ≤ t) (hlt : t < a.heap.size) {x x' : CopyM Unit} {body body' : Body}
    (hx : Backend.Draws x a.memory t body) (hx' : Backend.Draws x' b.memory (c.name t) body')
    (hv : ∀ v ∈ body.values, c.Familiar a v) :
    s.GoAlike (onMemory x) (onMemory x') a b fun _ _ => s.Drawn c busy t body body' a b :=
  tandem_onMemory hx hx' fun _ _ _ _ hm hm' => Drawn.of_heaps hp h hb hnew hlt hm hm' hv

/-! ## Filling copies -/

/-- An instance that is being filled on both sides. It is alike everywhere but in the gaps, and the
fields that are done are at their default if the policy resets them. -/
structure Tracing (s : Setting) (c : Pairing) (busy : ObjectId → Prop) (t : ObjectId) (l : Layout)
    (gaps : Spot → Prop) (done : Field → Prop) (a b : Run) : Prop where
  twins : Twins s c busy a b
  busy : busy t
  new : c.left.heap.size ≤ t
  lt : t < a.heap.size
  left : (a.heap.body t).Sized l.blockSize l.slotCount
  right : (b.heap.body (c.name t)).Sized l.blockSize l.slotCount
  alike : ∀ x, ¬ gaps x → x.Alike c.name (a.heap.body t) (b.heap.body (c.name t))
  reset : ∀ g ∈ l.fields, done g → s.policy.resets g.marks = true →
    g.readFrom (a.heap.body t) = .ok g.default

/-- The instance is being filled, and nothing else has changed. -/
structure Traced (s : Setting) (c : Pairing) (busy : ObjectId → Prop) (t : ObjectId) (l : Layout)
    (gaps : Spot → Prop) (done : Field → Prop) (a b a' b' : Run) : Prop where
  tracing : s.Tracing c busy t l gaps done a' b'
  strides : OnlyAt s t (c.name t) a b a' b'

theorem Traced.trans (h₁ : s.Traced c busy t l gaps done a b a' b')
    (h₂ : s.Traced c busy t l gaps' done' a' b' a'' b'') :
    s.Traced c busy t l gaps' done' a b a'' b'' :=
  ⟨h₂.tracing, h₁.strides.trans h₂.strides⟩

namespace Tracing

theorem refl (h : s.Tracing c busy t l gaps done a b) : s.Traced c busy t l gaps done a b a b :=
  ⟨h, Strides.refl s _ _ a b⟩

theorem mono (h : s.Tracing c busy t l gaps done a b) (hg : ∀ x, gaps x → gaps' x)
    (hd : ∀ g ∈ l.fields, done' g → s.policy.resets g.marks = true → done g) :
    s.Tracing c busy t l gaps' done' a b :=
  { h with
    alike := fun x hx => h.alike x fun hgap => hx (hg x hgap)
    reset := fun g hg hdone hr => h.reset g hg (hd g hg hdone hr) hr }

/-- A step on both sides that leaves the heaps as they are. -/
theorem learned (h : s.Tracing c busy t l gaps done a b) (hl : Kept s (fun _ => False) a a')
    (hr : Kept s (fun _ => False) b b') (ha : a'.heap = a.heap) (hb : b'.heap = b.heap)
    (hc : a'.copies = a.copies) (hc' : b'.copies = b.copies) :
    s.Traced c busy t l gaps done a b a' b' := by
  refine ⟨⟨h.twins.learned hl hr ha hb hc hc', h.busy, h.new, ?_, ?_, ?_, ?_, ?_⟩,
    ⟨hl.mono fun _ _ h => h.elim, hr.mono fun _ _ h => h.elim⟩⟩
  · rw [ha]
    exact h.lt
  · rw [ha]
    exact h.left
  · rw [hb]
    exact h.right
  · rw [ha, hb]
    exact h.alike
  · rw [ha]
    exact h.reset

/-- The instance has got another body on both sides. -/
theorem of_drawn (h : s.Tracing c busy t l gaps done a b) {body body' : Body}
    (hd : s.Drawn c busy t body body' a b a' b') (hs : body.Sized l.blockSize l.slotCount)
    (hs' : body'.Sized l.blockSize l.slotCount)
    (halike : ∀ x, ¬ gaps' x → x.Alike c.name body body')
    (hreset : ∀ g ∈ l.fields, done' g → s.policy.resets g.marks = true →
      g.readFrom body = .ok g.default) : s.Traced c busy t l gaps' done' a b a' b' := by
  obtain ⟨htwins, hstrides, rfl, rfl⟩ := hd
  exact ⟨⟨htwins, h.busy, h.new, Nat.lt_of_lt_of_le h.lt hstrides.left.heap.size_le, hs, hs',
    halike, hreset⟩, hstrides⟩

/-- The instance refers to nothing new but what the clone has come to. -/
theorem familiar (h : s.Tracing c busy t l gaps done a b) {body : Body}
    (hv : ∀ v ∈ body.values, v ∈ (a.heap.body t).values ∨ c.Familiar a v) :
    ∀ v ∈ body.values, c.Familiar a v := fun v hmem =>
  (hv v hmem).elim (h.twins.closed t h.new h.lt v) id

/-- A write to the instance goes well on both sides. -/
theorem drawn (hp : s.Paired c) (h : s.Tracing c busy t l gaps done a b) {x x' : CopyM Unit}
    {body body' : Body} (hx : Backend.Draws x a.memory t body)
    (hx' : Backend.Draws x' b.memory (c.name t) body') (hs : body.Sized l.blockSize l.slotCount)
    (hs' : body'.Sized l.blockSize l.slotCount)
    (hv : ∀ v ∈ body.values, v ∈ (a.heap.body t).values ∨ c.Familiar a v)
    (halike : ∀ x, ¬ gaps' x → x.Alike c.name body body')
    (hreset : ∀ g ∈ l.fields, done' g → s.policy.resets g.marks = true →
      g.readFrom body = .ok g.default) :
    s.GoAlike (onMemory x) (onMemory x') a b fun _ _ => s.Traced c busy t l gaps' done' a b :=
  Tandem.mono (alike_draws hp h.twins h.busy h.new h.lt hx hx' (h.familiar hv))
    (fun _ _ _ _ hd => h.of_drawn hd hs hs' halike hreset) fun _ _ _ _ h => h

/-- The clones of a nested value do not touch the instance. -/
theorem answered (h : s.Tracing c busy t l gaps done a b) {v w w' : Value}
    (hr : s.Reply c busy v a b w w' a' b') : s.Traced c busy t l gaps done a b a' b' := by
  have hbody : a'.heap.body t = a.heap.body t :=
    hr.strides.left.heap.body_eq t h.lt (Nat.not_le.mpr h.lt)
  have hlt := h.twins.there t h.lt
  have hbody' : b'.heap.body (c.name t) = b.heap.body (c.name t) :=
    hr.strides.right.heap.body_eq _ hlt (Nat.not_le.mpr hlt)
  refine ⟨⟨hr.twins, h.busy, h.new, Nat.lt_of_lt_of_le h.lt hr.strides.left.heap.size_le,
    hbody ▸ h.left, hbody' ▸ h.right, ?_, ?_⟩, hr.strides.onlyAt⟩
  · rw [hbody, hbody']
    exact h.alike
  · rw [hbody]
    exact h.reset

/-- Of the fields that are done, none is changed by a write to one field, unless it is that field,
and then it is reset. -/
theorem reset_of_alters (h : s.Tracing c busy t l gaps done a b) (hl : l.Sound) {f : Field}
    (hf : f ∈ l.fields) {body : Body} (ha : Body.Alters f.place (a.heap.body t) body)
    (hr : s.policy.resets f.marks = true → f.readFrom body = .ok f.default) :
    ∀ g ∈ l.fields, (done g ∨ g = f) → s.policy.resets g.marks = true →
      g.readFrom body = .ok g.default := by
  intro g hg hdone hreset
  rcases hl.eq_or_apart hf hg with rfl | hap
  · exact hr hreset
  · rcases hdone with hdone | rfl
    · rw [Field.readFrom_of_same (ha.same _ hap)]
      exact h.reset g hg hdone hreset
    · exact hr hreset

end Tracing

/-- A field that is not written by itself: its bytes were carried over with the whole block. -/
def Skips (s : Setting) (bulk : Bool) (f : Field) : Prop :=
  bulk = true ∧ f.type.category = .primitive ∧ s.policy.resets f.marks = false

/-- What is left of the gaps when a field has been copied. -/
def gapsAfter (s : Setting) (bulk : Bool) (f : Field) (gaps : Spot → Prop) (x : Spot) : Prop :=
  gaps x ∧ (f.place.Holds x → s.Skips bulk f)

/-- Where a field is written, nothing is left of the gaps. -/
theorem alike_of_gapsAfter {bulk : Bool} {f : Field} {b₁ b₂ : Body} {x : Spot}
    (h : ∀ x, ¬ gaps x → x.Alike c.name b₁ b₂) (hx : ¬ s.gapsAfter bulk f gaps x)
    (hh : ¬ f.place.Holds x) : x.Alike c.name b₁ b₂ :=
  h x fun hgap => hx ⟨hgap, fun hholds => absurd hholds hh⟩

/-- A field that is not reset has no spot in common with those that are. -/
theorem not_leavesOut (hl : l.Sound) {f : Field} (hf : f ∈ l.fields)
    (hr : ¬ s.policy.resets f.marks = true) {x : Spot} (hx : f.place.Holds x) :
    ¬ s.LeavesOut l.fields x := by
  rintro ⟨g, hg, hreset, hholds⟩
  rcases hl.eq_or_apart hf hg with rfl | hap
  · exact hr hreset
  · exact hap.not_holds hx hholds

/-- Two instances that clones copy from on the two sides: as large as their class says, the same but
for what is reset, and with arrays or nothing where the class declares arrays. -/
structure Sources (s : Setting) (c : Pairing) (e : Registry.Entry) (source : ObjectId) : Prop where
  duplicated : s.Duplicates c.left.heap (s.fate c.left) c.root source
  entry : s.registry.get? (c.left.heap.cls source) = some e
  concrete : e.decl.kind = .concrete
  left : (c.left.heap.body source).Sized e.layout.blockSize e.layout.slotCount
  right : (c.right.heap.body source).Sized e.layout.blockSize e.layout.slotCount
  alike : ∀ x : Spot, ¬ s.LeavesOut e.layout.fields x →
    x.Alike (fun o => o) (c.left.heap.body source) (c.right.heap.body source)
  arrays : ∀ f ∈ e.layout.fields, ∀ index v, f.place = .slot index → f.type.category = .array →
    (c.left.heap.body source).readSlot index = .ok v → Field.takesArray c.left.heap v = true

theorem Paired.sources (hp : s.Paired c) {e : Registry.Entry}
    (hd : s.Duplicates c.left.heap (s.fate c.left) c.root source)
    (he : s.registry.get? (c.left.heap.cls source) = some e)
    (hshape : c.left.heap.shape source = .record) : s.Sources c e source := by
  have hlt := hp.unaided.lt_size hd
  have hbody : (c.left.heap.body source).shape = .record :=
    (hp.unaided.heap.header source hlt).symm.trans hshape
  obtain ⟨e₁, he₁, ha⟩ := hp.unaided.heap.admits source hlt
  cases he.symm.trans he₁
  obtain ⟨e₂, he₂, ha'⟩ := hp.orderly.admits source (hp.size ▸ hlt)
  rw [hp.cls source hlt] at he₂
  cases he.symm.trans he₂
  obtain ⟨hk, hsized, harrays⟩ := ha.record hbody
  have hsame := hp.body source hd
  rw [Registry.fieldsOf_of_get? he] at hsame
  obtain ⟨block, refs, hb, -⟩ := hsized.exists_record
  unfold SameButReset at hsame
  rw [hb] at hsame
  exact ⟨hd, he, hk, hsized, (ha'.record hsame.1).2.1, hb ▸ hsame.2, harrays⟩

/-- A field that is not reset holds the same in both instances. -/
theorem Sources.same_at {e : Registry.Entry} (hs : s.Sources c e source) (hl : e.layout.Sound)
    {f : Field} (hf : f ∈ e.layout.fields) (hr : ¬ s.policy.resets f.marks = true) :
    f.place.Same (c.left.heap.body source) (c.right.heap.body source) := by
  have hsame := Place.same_of_alike hs.left hs.right (hl.within f hf)
    fun x hx => hs.alike x (not_leavesOut hl hf hr hx)
  rwa [Body.rename_eq_self fun _ _ => rfl] at hsame

section Filling

variable {e : Registry.Entry} (hp : s.Paired c) (hn : s.RepliesAlike c depth nested nested')
  (hs : s.Sources c e source)
include hp hs

/-- A field is set to its default on both sides. -/
theorem alike_resetField {f : PlannedField} (hf : f.toField ∈ e.layout.fields) (bulk : Bool)
    (h : s.Tracing c busy t e.layout gaps done a b) :
    s.GoAlike (onMemory (s.backend.resetField f t))
      (onMemory (s.backend.resetField f (c.name t))) a b
      fun _ _ => s.Traced c busy t e.layout (s.gapsAfter bulk f.toField gaps)
        (fun g => done g ∨ g = f.toField) a b := by
  have hl := hp.unaided.registry.sound.layouts _ _ hs.entry
  have hw := hl.within _ hf
  refine h.drawn hp (s.backend.draws_resetField h.left hw) (s.backend.draws_resetField h.right hw)
    (Place.sized_cleared h.left hw) (Place.sized_cleared h.right hw) ?_ ?_
    (h.reset_of_alters hl hf (h.left.alters_cleared hw) fun _ => h.left.readFrom_cleared hw)
  · intro v hv
    rcases Body.mem_values_cleared hv with hv | rfl
    · exact Or.inl hv
    · exact Or.inr (Pairing.Familiar.of_object? rfl)
  · exact fun x hx => Spot.Alike.cleared h.left h.right hw (alike_of_gapsAfter h.alike hx)

/-- A primitive is carried over on both sides. -/
theorem alike_copyPrimitive {f : PlannedField} (hf : f.toField ∈ e.layout.fields)
    (hr : ¬ s.policy.resets f.marks = true) (hprim : f.type.category = .primitive) (bulk : Bool)
    (h : s.Tracing c busy t e.layout gaps done a b) :
    s.GoAlike (onMemory (s.backend.copyPrimitive f source t))
      (onMemory (s.backend.copyPrimitive f source (c.name t))) a b
      fun _ _ => s.Traced c busy t e.layout (s.gapsAfter bulk f.toField gaps)
        (fun g => done g ∨ g = f.toField) a b := by
  have hl := hp.unaided.registry.sound.layouts _ _ hs.entry
  have hw := hl.within _ hf
  have hsame := hs.same_at hl hf hr
  have hsource := h.twins.left.body_eq (hp.unaided.lt_size hs.duplicated)
  have hsource' := h.twins.body_right hp hs.duplicated
  cases hplace : f.place with
  | slot index => exact absurd hprim (hl.category_of_slot hf hplace)
  | bytes offset kind =>
    rw [hplace] at hw hsame
    obtain ⟨bytes, hread⟩ := hs.left.exists_readBytes hw
    have hread' : (c.right.heap.body source).readBytes offset kind.width = .ok bytes :=
      Eq.trans hsame hread
    have hlen := s.backend.length_carried (Body.length_of_readBytes hread)
    have hfit : offset + (s.backend.carried kind bytes).length ≤ e.layout.blockSize :=
      hlen.symm ▸ hw
    refine h.drawn hp (s.backend.draws_copyPrimitive hplace (hsource ▸ hread) h.left hw)
      (s.backend.draws_copyPrimitive hplace (hsource' ▸ hread') h.right hw)
      (h.left.withBytes hfit) (h.right.withBytes hfit) ?_ ?_
      (h.reset_of_alters hl hf ?_ fun hreset => absurd hreset hr)
    · intro v hv
      rw [Body.values_withBytes] at hv
      exact Or.inl hv
    · intro x hx
      refine Spot.Alike.withBytes h.left h.right hlen hw fun hh => ?_
      exact alike_of_gapsAfter h.alike hx (hplace ▸ hh)
    · rw [hplace]
      exact h.left.alters_withBytes hlen hw

/-- The same reference is read from a field on both sides. -/
theorem alike_readField {f : PlannedField} (hf : f.toField ∈ e.layout.fields)
    (hr : ¬ s.policy.resets f.marks = true) {index : Nat} (hplace : f.place = .slot index)
    (h : Twins s c busy a b) :
    s.GoAlike (onMemory (s.backend.readField f source))
      (onMemory (s.backend.readField f source)) a b
      fun v v' a' b' => v' = v ∧ a' = a ∧ b' = b ∧
        (c.left.heap.body source).readSlot index = .ok v := by
  have hl := hp.unaided.registry.sound.layouts _ _ hs.entry
  have hw := hl.within _ hf
  have hsame := hs.same_at hl hf hr
  have hsource := h.left.body_eq (hp.unaided.lt_size hs.duplicated)
  have hsource' := h.body_right hp hs.duplicated
  rw [hplace] at hw hsame
  refine tandem_onMemory (s.backend.succeeds_readField hplace (hsource ▸ hs.left) hw)
    (s.backend.succeeds_readField hplace (hsource' ▸ hs.right) hw) ?_
  rintro v v' m m' ⟨hv, rfl⟩ ⟨hv', rfl⟩
  have hv : (c.left.heap.body source).readSlot index = .ok v := hsource ▸ hv
  have hv' : (c.right.heap.body source).readSlot index = .ok v' := hsource' ▸ hv'
  have heq : (.ok v' : Except Miss Value) = .ok v := hv'.symm.trans (Eq.trans hsame hv)
  exact ⟨Except.ok.inj heq, rfl, rfl, hv⟩

include hn

/-- A reference is cloned and put in its place on both sides. -/
theorem alike_cloneField {f : PlannedField} (hf : f.toField ∈ e.layout.fields)
    (hr : ¬ s.policy.resets f.marks = true) (hprim : f.type.category ≠ .primitive) (bulk : Bool)
    (h : s.Tracing c busy t e.layout gaps done a b)
    (hm : a.copies.missing c.left.heap.size ≤ depth) :
    s.GoAlike
      (do
        let v ← onMemory (s.backend.readField f source)
        let copy ← nested v
        onMemory (s.backend.copyField f source t (some copy)))
      (do
        let v ← onMemory (s.backend.readField f source)
        let copy ← nested' v
        onMemory (s.backend.copyField f source (c.name t) (some copy))) a b
      fun _ _ => s.Traced c busy t e.layout (s.gapsAfter bulk f.toField gaps)
        (fun g => done g ∨ g = f.toField) a b := by
  have hl := hp.unaided.registry.sound.layouts _ _ hs.entry
  have hw := hl.within _ hf
  cases hplace : f.place with
  | bytes offset kind => exact absurd (hl.category_of_bytes hf hplace) hprim
  | slot index =>
    rw [hplace] at hw
    refine Tandem.bind (alike_readField hp hs hf hr hplace h.twins) ?_
    rintro _ v _ _ ⟨rfl, rfl, rfl, hv⟩
    have hfollows : s.Follows c.left.heap source v := .field hs.entry hf (by simpa using hr)
      ((Field.readFrom_of_slot hplace _).trans hv)
    refine Tandem.bind (hn busy _ _ v h.twins (hp.comesTo hs.duplicated hfollows) hm) ?_
    intro w w' a₁ b₁ hreply
    obtain rfl := hreply.renamed
    have h₁ := h.answered hreply
    have harr : f.type.category = .array → Field.takesArray a₁.heap w = true :=
      fun hc => hreply.array (hs.arrays _ hf index v hplace hc hv)
    rw [Backend.copyField_some _ hprim, Backend.copyField_some _ hprim]
    refine Tandem.mono (h₁.tracing.drawn hp
      (s.backend.draws_writeReference hplace h₁.tracing.left hw harr)
      (s.backend.draws_writeReference hplace h₁.tracing.right hw fun hc =>
        hreply.twins.takesArray_right hreply.familiar (harr hc))
      (h₁.tracing.left.withSlot index w) (h₁.tracing.right.withSlot index _) ?_ ?_
      (h₁.tracing.reset_of_alters hl hf ?_ fun hreset => absurd hreset hr))
      (fun _ _ _ _ h₂ => h₁.trans h₂) fun _ _ _ _ h => h
    · intro u hu
      rcases Body.mem_values_withSlot hu with hu | rfl
      · exact Or.inl hu
      · exact Or.inr hreply.familiar
    · intro x hx
      refine Spot.Alike.withSlot h₁.tracing.left h₁.tracing.right hw fun hh => ?_
      exact alike_of_gapsAfter h₁.tracing.alike hx (hplace ▸ hh)
    · rw [hplace]
      exact h₁.tracing.left.alters_withSlot hw

theorem alike_copyField {f : PlannedField} (hf : f.toField ∈ e.layout.fields) (bulk : Bool)
    (h : s.Tracing c busy t e.layout gaps done a b)
    (hm : a.copies.missing c.left.heap.size ≤ depth) :
    s.GoAlike (s.copyField nested source t bulk f) (s.copyField nested' source (c.name t) bulk f)
      a b fun _ _ => s.Traced c busy t e.layout (s.gapsAfter bulk f.toField gaps)
        (fun g => done g ∨ g = f.toField) a b := by
  unfold copyField
  by_cases hr : s.policy.resets f.marks = true
  · rw [if_pos hr, if_pos hr]
    exact alike_resetField hp hs hf bulk h
  · rw [if_neg hr, if_neg hr]
    by_cases hprim : f.type.category = .primitive
    · rw [if_pos hprim, if_pos hprim]
      cases bulk with
      | false => exact alike_copyPrimitive hp hs hf hr hprim false h
      | true =>
        -- its bytes were carried over before
        refine Tracing.refl (h.mono (fun x hx => ⟨hx, fun _ => ⟨rfl, hprim, by simpa using hr⟩⟩) ?_)
        rintro g - (hdone | rfl) hreset
        · exact hdone
        · exact absurd hreset hr
    · rw [if_neg hprim, if_neg hprim]
      exact alike_cloneField hp hn hs hf hr hprim bulk h hm

theorem alike_copyFieldsFrom {fs : List PlannedField}
    (hf : ∀ f ∈ fs, f.toField ∈ e.layout.fields) (bulk : Bool)
    (h : s.Tracing c busy t e.layout gaps done a b)
    (hm : a.copies.missing c.left.heap.size ≤ depth) :
    s.GoAlike (s.copyFieldsFrom nested source t bulk fs)
      (s.copyFieldsFrom nested' source (c.name t) bulk fs) a b
      fun _ _ => s.Traced c busy t e.layout
        (fun x => gaps x ∧ ∀ f ∈ fs, f.place.Holds x → s.Skips bulk f.toField)
        (fun g => done g ∨ ∃ f ∈ fs, g = f.toField) a b := by
  induction fs generalizing a b gaps done with
  | nil =>
    refine Tracing.refl (h.mono (fun x hx => ⟨hx, fun f hf => by cases hf⟩) ?_)
    rintro g - (hdone | ⟨f, hf, -⟩) -
    · exact hdone
    · cases hf
  | cons f fs ih =>
    refine Tandem.bind (alike_copyField hp hn hs (hf f List.mem_cons_self) bulk h hm) ?_
    intro _ _ a₁ b₁ h₁
    refine Tandem.mono (ih (fun g hg => hf g (List.mem_cons_of_mem _ hg)) h₁.tracing
      (h₁.strides.missing_le hm)) ?_ fun _ _ _ _ h => h
    intro _ _ a₂ b₂ h₂
    refine h₁.trans ⟨h₂.tracing.mono ?_ ?_, h₂.strides⟩
    · rintro x ⟨⟨hgap, hhead⟩, htail⟩
      refine ⟨hgap, fun g hg hh => ?_⟩
      rcases List.mem_cons.mp hg with rfl | hg
      · exact hhead hh
      · exact htail g hg hh
    · rintro g - (hdone | ⟨f', hf', rfl⟩) -
      · exact Or.inl (Or.inl hdone)
      · rcases List.mem_cons.mp hf' with rfl | hf'
        · exact Or.inl (Or.inr rfl)
        · exact Or.inr ⟨f', hf', rfl⟩

omit hn in
/-- The blocks are carried over as a whole on both sides, or on neither. Then the bytes differ where
the policy resets fields, and nowhere else. -/
theorem alike_copyBlock (h : s.Tracing c busy t e.layout gaps done a b)
    (hdone : ∀ g ∈ e.layout.fields, ¬ done g) :
    s.GoAlike (onMemory (s.backend.copyBlock source t))
      (onMemory (s.backend.copyBlock source (c.name t))) a b fun bulk bulk' a' b' => bulk' = bulk ∧
        s.Traced c busy t e.layout (fun x =>
          match bulk, x with
          | true, .byte _ => s.LeavesOut e.layout.fields x
          | _, _ => gaps x) done a b a' b' := by
  have hlt := hp.unaided.lt_size hs.duplicated
  have hne : source ≠ t := Nat.ne_of_lt (Nat.lt_of_lt_of_le hlt h.new)
  have hne' : source ≠ c.name t := by
    intro heq
    rcases hp.own t h.new with hg | hle
    · exact hp.spared source hs.duplicated (heq ▸ hg)
    · exact absurd (heq ▸ hle) (Nat.not_le.mpr hlt)
  obtain ⟨block, refs, hb, hlen, -⟩ := hs.left.exists_record
  obtain ⟨block', refs', hb', hlen', -⟩ := hs.right.exists_record
  have hsource : a.memory.heap.body source = .record block refs :=
    (h.twins.left.body_eq hlt).trans hb
  have hsource' : b.memory.heap.body source = .record block' refs' :=
    (h.twins.body_right hp hs.duplicated).trans hb'
  refine tandem_onMemory (s.backend.succeeds_copyBlock hne hsource (hlen ▸ h.left))
    (s.backend.succeeds_copyBlock hne' hsource' (hlen' ▸ h.right)) ?_
  rintro bulk bulk' m m' ⟨hbulk, hm⟩ ⟨hbulk', hm'⟩
  obtain rfl : bulk' = bulk := hbulk'.trans hbulk.symm
  refine ⟨rfl, ?_⟩
  cases bulk' with
  | false =>
    exact h.learned (Kept.of_memory (hm.symm ▸ Spared.refl _))
      (Kept.of_memory (hm'.symm ▸ Spared.refl _)) hm hm' rfl rfl
  | true =>
    have hfam : ∀ v ∈ ((a.heap.body t).withBlock block).values, c.Familiar a v :=
      h.familiar fun v hv => Or.inl (Body.values_withBlock ▸ hv)
    refine h.of_drawn (Drawn.of_heaps hp h.twins h.busy h.new h.lt hm hm' hfam)
      (h.left.withBlock hlen) (h.right.withBlock hlen') ?_ fun g hg hd => absurd hd (hdone g hg)
    · intro x hx
      refine Spot.Alike.withBlock h.left h.right ?_
      cases x with
      | slot i => exact h.alike _ hx
      | byte i =>
        have halike := hs.alike (.byte i) hx
        rw [hb, hb'] at halike
        exact halike

/-- When all fields have been copied, both instances are alike wherever a field is, and wherever
they were alike before. -/
theorem alike_copyFields {p : Plan} (hplan : p.Describes (c.left.heap.cls source) e)
    (h : s.Tracing c busy t e.layout gaps done a b) (hdone : ∀ g ∈ e.layout.fields, ¬ done g)
    (hm : a.copies.missing c.left.heap.size ≤ depth) :
    s.GoAlike (s.copyFields nested source t p) (s.copyFields nested' source (c.name t) p) a b
      fun _ _ => s.Traced c busy t e.layout
        (fun x => gaps x ∧ ∀ f ∈ e.layout.fields, ¬ f.place.Holds x)
        (fun _ => True) a b := by
  have hl := hp.unaided.registry.sound.layouts _ _ hs.entry
  have hfields : ∀ f ∈ p.fields, f.toField ∈ e.layout.fields := fun _ hg => hplan.mem_layout hg
  have hall : ∀ f ∈ e.layout.fields, ∃ g ∈ p.fields, f = g.toField := by
    intro f hf
    rw [hplan.fields_eq]
    exact ⟨_, List.mem_map_of_mem hf, rfl⟩
  unfold copyFields
  refine Tandem.bind (alike_copyBlock hp hs h hdone) ?_
  rintro _ bulk a₁ b₁ ⟨rfl, h₁⟩
  refine Tandem.mono (alike_copyFieldsFrom hp hn hs hfields _ h₁.tracing
    (h₁.strides.missing_le hm)) ?_ fun _ _ _ _ h => h
  intro _ _ a₂ b₂ h₂
  refine h₁.trans ⟨h₂.tracing.mono ?_ ?_, h₂.strides⟩
  · rintro x ⟨hgap, hskips⟩
    -- what is still unlike is in no field
    have hfree : ∀ f ∈ e.layout.fields, f.place.Holds x → s.Skips bulk f := by
      intro f hf hh
      obtain ⟨g, hg, rfl⟩ := hall f hf
      exact hskips g hg hh
    cases bulk with
    | false => exact ⟨hgap, fun f hf hh => Bool.noConfusion (hfree f hf hh).1⟩
    | true =>
      cases x with
      | byte i =>
        obtain ⟨f, hf, hreset, hh⟩ := hgap
        rw [(hfree f hf hh).2.2] at hreset
        cases hreset
      | slot i =>
        exact ⟨hgap, fun f hf hh => hl.category_of_slot hf hh (hfree f hf hh).2.1⟩
  · intro g hg _ _
    obtain ⟨f, hf, rfl⟩ := hall g hg
    exact Or.inr ⟨f, hf, rfl⟩

end Filling

/-! ## Contents -/

/-- What has come out for some values on both sides. -/
structure Gathered (s : Setting) (c : Pairing) (busy : ObjectId → Prop) (came : Value → Prop)
    (a b a' b' : Run) : Prop where
  twins : Twins s c busy a' b'
  strides : OnlyNew s a b a' b'
  familiar : ∀ w, came w → c.Familiar a' w

variable {came came' : Value → Prop}

theorem Gathered.none (h : Twins s c busy a b) (hc : ∀ w, ¬ came w) :
    s.Gathered c busy came a b a b :=
  ⟨h, Strides.refl s _ _ a b, fun w hw => absurd hw (hc w)⟩

/-- More comes out. -/
theorem Gathered.trans (h₁ : s.Gathered c busy came a b a' b')
    (h₂ : s.Gathered c busy came' a' b' a'' b'') {all : Value → Prop}
    (hall : ∀ w, all w → came w ∨ came' w) : s.Gathered c busy all a b a'' b'' := by
  refine ⟨h₂.twins, h₁.strides.trans h₂.strides, ?_⟩
  intro w hw
  rcases hall w hw with hw | hw
  · exact (h₁.familiar w hw).grow h₂.strides.left.heap.size_le
  · exact h₂.familiar w hw

theorem Reply.gathered {v w w' : Value} (h : s.Reply c busy v a b w w' a' b') :
    s.Gathered c busy (· = w) a b a' b' :=
  ⟨h.twins, h.strides, fun _ hw => hw ▸ h.familiar⟩

section Contents

variable (hn : s.RepliesAlike c depth nested nested')
include hn

theorem alike_cloneAll {vs : List Value} (h : Twins s c busy a b)
    (hv : ∀ v ∈ vs, s.ComesTo c v) (hm : a.copies.missing c.left.heap.size ≤ depth) :
    s.GoAlike (cloneAll nested vs) (cloneAll nested' vs) a b fun ws ws' a' b' =>
      ws' = ws.map (Value.rename c.name) ∧ s.Gathered c busy (· ∈ ws) a b a' b' := by
  induction vs generalizing a b with
  | nil => exact ⟨rfl, .none h fun _ hw => by cases hw⟩
  | cons v vs ih =>
    refine Tandem.bind (hn busy a b v h (hv v List.mem_cons_self) hm) ?_
    intro w w' a₁ b₁ h₁
    refine Tandem.bind (ih h₁.twins (fun v hv' => hv v (List.mem_cons_of_mem _ hv'))
      (h₁.strides.missing_le hm)) ?_
    rintro ws ws' a₂ b₂ ⟨hws, h₂⟩
    refine ⟨?_, h₁.gathered.trans h₂ fun _ hw => List.mem_cons.mp hw⟩
    rw [h₁.renamed, hws]
    rfl

theorem alike_cloneEntries {entries : Assoc Key Value} (h : Twins s c busy a b)
    (hv : Entries.All (s.ComesTo c) entries) (hm : a.copies.missing c.left.heap.size ≤ depth) :
    s.GoAlike (cloneEntries nested entries) (cloneEntries nested' entries) a b
      fun es es' a' b' => es' = es.map (Container.renamePair c.name) ∧
        s.Gathered c busy (fun w => ∃ e ∈ es, w = e.1 ∨ w = e.2) a b a' b' ∧
        List.Forall₂ (fun e e' => e.1.value.object? = none → e'.1 = e.1.value) entries es := by
  induction entries generalizing a b with
  | nil => exact ⟨rfl, .none h (by rintro _ ⟨_, he, _⟩; cases he), .nil⟩
  | cons e entries ih =>
    obtain ⟨hk, hval⟩ := hv e List.mem_cons_self
    refine Tandem.bind (hn busy a b e.1.value h hk hm) ?_
    intro k k' a₁ b₁ h₁
    refine Tandem.bind (hn busy a₁ b₁ e.2 h₁.twins hval (h₁.strides.missing_le hm)) ?_
    intro w w' a₂ b₂ h₂
    have hpair : s.Gathered c busy (fun u => u = k ∨ u = w) a b a₂ b₂ :=
      h₁.gathered.trans h₂.gathered fun _ h => h
    refine Tandem.bind (ih h₂.twins (fun e he => hv e (List.mem_cons_of_mem _ he))
      (hpair.strides.missing_le hm)) ?_
    rintro es es' a₃ b₃ ⟨hes, h₃, hplain⟩
    refine ⟨?_, hpair.trans h₃ ?_, .cons h₁.plain hplain⟩
    · rw [h₁.renamed, h₂.renamed, hes]
      rfl
    · rintro u ⟨e', he', hu⟩
      rcases List.mem_cons.mp he' with rfl | he'
      · exact Or.inl hu
      · exact Or.inr ⟨e', he', hu⟩

/-- Containers are rebuilt alike. -/
theorem alike_cloneContents (hp : s.Paired c) {con : Container} (h : Twins s c busy a b)
    (hv : ∀ v ∈ con.values, s.ComesTo c v)
    (htrees : (∀ o, c.name o = o) ∨ ∀ entries, con = .treeMap entries →
      Container.Lone (entries.map (·.1.value)))
    (hm : a.copies.missing c.left.heap.size ≤ depth) :
    s.GoAlike (cloneContents nested con) (cloneContents nested' con) a b fun new new' a' b' =>
      new' = new.mapValues (Value.rename c.name) ∧
        s.Gathered c busy (· ∈ new.values) a b a' b' := by
  have hinj : ∀ {a' : Run} (v w : Value), c.Familiar a' v → c.Familiar a' w →
      v.rename c.name = w.rename c.name → v = w := fun v w hv hw =>
    Value.rename_inj fun o o' ho ho' => hp.inj o o' (hv o ho).2 (hw o' ho').2
  have hkeys : ∀ {es : List (Value × Value)} {a' b' : Run},
      s.Gathered c busy (fun w => ∃ e ∈ es, w = e.1 ∨ w = e.2) a b a' b' →
      ∀ e ∈ es, c.Familiar a' e.1 ∧ c.Familiar a' e.2 := fun hg e he =>
    ⟨hg.familiar _ ⟨e, he, Or.inl rfl⟩, hg.familiar _ ⟨e, he, Or.inr rfl⟩⟩
  cases con with
  | list items =>
    refine Tandem.map (alike_cloneAll hn h hv hm) ?_
    rintro ws _ a' b' ⟨rfl, hg⟩
    exact ⟨rfl, hg⟩
  | linked items =>
    refine Tandem.map (alike_cloneAll hn h hv hm) ?_
    rintro ws _ a' b' ⟨rfl, hg⟩
    exact ⟨rfl, hg⟩
  | hashSet keys =>
    refine Tandem.map (alike_cloneAll hn h hv hm) ?_
    rintro ws _ a' b' ⟨rfl, hg⟩
    exact ⟨Container.setOf_rename hinj hg.familiar, hg.twins, hg.strides,
      Container.values_setOf hg.familiar⟩
  | hashMap entries =>
    refine Tandem.map (alike_cloneEntries hn h (Entries.all_of_values hv) hm) ?_
    rintro es _ a' b' ⟨rfl, hg, -⟩
    exact ⟨Container.mapOf_rename hinj fun e he => (hkeys hg e he).1, hg.twins, hg.strides,
      Container.values_mapOf (hkeys hg)⟩
  | treeMap entries =>
    refine Tandem.map (alike_cloneEntries hn h (Entries.all_of_values hv) hm) ?_
    rintro es _ a' b' ⟨rfl, hg, hplain⟩
    refine ⟨?_, hg.twins, hg.strides, Container.values_sortedMapOf (hkeys hg)⟩
    rcases htrees with hid | hlone
    · have hself : ∀ v : Value, v.rename c.name = v :=
        fun v => Value.rename_eq_self fun o _ => hid o
      have hes : es.map (Container.renamePair c.name) = es :=
        (List.map_congr_left fun e _ => Prod.ext (hself e.1) (hself e.2)).trans (List.map_id es)
      rw [hes, Container.mapValues_eq_self fun v _ => hself v]
    · refine Container.sortedMapOf_rename ((hlone entries rfl).of_forall₂ ?_)
      rw [List.forall₂_map_left_iff, List.forall₂_map_right_iff]
      exact hplain.imp fun e e' hplain hnone => (hplain hnone).symm ▸ hnone
  | calendar moment => exact ⟨rfl, .none h fun _ hw => by cases hw⟩

/-- Elements are cloned into an array that is long enough, one by one. -/
theorem alike_cloneElements (hp : s.Paired c) {vs items : List Value} {index : Nat}
    (h : Twins s c busy a b) (hb : busy t) (hnew : c.left.heap.size ≤ t) (hlt : t < a.heap.size)
    (hbody : a.heap.body t = .slots items)
    (hbody' : b.heap.body (c.name t) = .slots (items.map (Value.rename c.name)))
    (hi : index + vs.length ≤ items.length) (hv : ∀ v ∈ vs, s.ComesTo c v)
    (hm : a.copies.missing c.left.heap.size ≤ depth) :
    s.GoAlike (s.cloneElements nested t index vs) (s.cloneElements nested' (c.name t) index vs) a b
      fun _ _ a' b' => Twins s c busy a' b' ∧
        OnlyAt s t (c.name t) a b a' b' ∧
        b'.heap.body (c.name t) = (a'.heap.body t).rename c.name := by
  induction vs generalizing a b items index with
  | nil => exact ⟨h, Strides.refl s _ _ a b, by rw [hbody, hbody']; rfl⟩
  | cons v vs ih =>
    rw [List.length_cons] at hi
    have hlt' := h.there t hlt
    refine Tandem.bind (hn busy a b v h (hv v List.mem_cons_self) hm) ?_
    intro w _ a₁ b₁ h₁
    obtain rfl := h₁.renamed
    have hx : a₁.memory.heap.body t = .slots items :=
      (h₁.strides.left.heap.body_eq t hlt (Nat.not_le.mpr hlt)).trans hbody
    have hy : b₁.memory.heap.body (c.name t) = .slots (items.map (Value.rename c.name)) :=
      (h₁.strides.right.heap.body_eq _ hlt' (Nat.not_le.mpr hlt')).trans hbody'
    have hlt₁ := Nat.lt_of_lt_of_le hlt h₁.strides.left.heap.size_le
    have hfam : ∀ u ∈ (items.set index w), c.Familiar a₁ u := by
      intro u hu
      rcases List.mem_or_eq_of_mem_set hu with hu | rfl
      · refine h₁.twins.closed t hnew hlt₁ u ?_
        show u ∈ (a₁.memory.heap.body t).values
        rw [hx]
        exact hu
      · exact h₁.familiar
    refine Tandem.bind (alike_draws hp h₁.twins hb hnew hlt₁
      (s.backend.draws_writeElement hx (by omega) w)
      (s.backend.draws_writeElement hy (by rw [List.length_map]; omega) _) hfam) ?_
    intro _ _ a₂ b₂ h₂
    have hstrides : OnlyAt s t (c.name t) a b a₂ b₂ := h₁.strides.onlyAt.trans h₂.strides
    refine Tandem.mono (ih h₂.twins (Nat.lt_of_lt_of_le hlt hstrides.left.heap.size_le) h₂.left
      (h₂.right.trans (by rw [List.map_set])) (by rw [List.length_set]; omega)
      (fun v hv' => hv v (List.mem_cons_of_mem _ hv')) (hstrides.missing_le hm)) ?_
      fun _ _ _ _ h => h
    rintro _ _ a₃ b₃ ⟨h₃, hstrides', hsame⟩
    exact ⟨h₃, hstrides.trans hstrides', hsame⟩

end Contents

/-! ## Duplicates -/

/-- The plan of a registered class is found on both sides, and is the same. -/
theorem alike_plan {cls : ClassId} {e : Registry.Entry} (hp : s.Paired c) (h : Twins s c busy a b)
    (he : s.registry.get? cls = some e) :
    s.GoAlike (s.plan cls) (s.plan cls) a b fun p p' a' b' => p' = p ∧
      (p.Describes cls e ∧ s.planOf c.left cls = .ok p) ∧
      Twins s c busy a' b' ∧ OnlyNew s a b a' b' ∧ a'.copies = a.copies := by
  refine tandem_of_succeeds (succeeds_plan hp.unaided.plans h.left.kept he)
    (succeeds_plan hp.plans h.right he) ?_
  rintro p p' _ _ ⟨hdesc, hplan, hk, plans, rfl⟩ ⟨-, hplan', hk', plans', rfl⟩
  rw [hp.planOf, hplan] at hplan'
  cases hplan'
  exact ⟨rfl, ⟨hdesc, hplan⟩, h.learned hk hk' rfl rfl rfl rfl,
    ⟨hk.mono fun _ _ h => h.elim, hk'.mono fun _ _ h => h.elim⟩, rfl⟩

/-- A copy was made for a source on both sides. -/
structure MadeAlike (s : Setting) (c : Pairing) (busy : ObjectId → Prop) (source : ObjectId)
    (a b : Run) (w w' : Value) (a' b' : Run) : Prop where
  renamed : w' = w.rename c.name
  twins : Twins s c busy a' b'
  strides : OnlyNew s a b a' b'
  copy : a'.copies.find? source = some w

theorem MadeAlike.reply {w w' : Value} (h : s.MadeAlike c busy source a b w w' a' b') :
    s.Reply c busy (.ref source) a b w w' a' b' where
  renamed := h.renamed
  twins := h.twins
  strides := h.strides
  familiar := h.twins.made source w h.copy
  plain := fun hv => by cases hv
  array := h.twins.left.arrays source w h.copy

/-- A copy that is made after something was found out. -/
theorem MadeAlike.after {w w' : Value} (hs : OnlyNew s a b a' b')
    (h : s.MadeAlike c busy source a' b' w w' a'' b'') :
    s.MadeAlike c busy source a b w w' a'' b'' :=
  { h with strides := hs.trans h.strides }

/-- A copy with the same body has been begun for a source on both sides, and is to be filled. -/
structure BegunAlike (s : Setting) (c : Pairing) (busy : ObjectId → Prop) (source : ObjectId)
    (body : Body) (a b a' b' : Run) : Prop where
  twins : Twins s c (fun o => busy o ∨ o = a.heap.size) a' b'
  strides : OnlyNew s a b a' b'
  name : c.name a.heap.size = b.heap.size
  new : c.left.heap.size ≤ a.heap.size
  lt : a.heap.size < a'.heap.size
  left : a'.heap.body a.heap.size = body
  right : b'.heap.body (c.name a.heap.size) = body
  copy : a'.copies.find? source = some (.ref a.heap.size)
  missing : a'.copies.missing c.left.heap.size < a.copies.missing c.left.heap.size

/-- The copies have been filled alike. -/
theorem BegunAlike.filled {body : Body} (h : s.BegunAlike c busy source body a b a' b')
    (ht : Twins s c (fun o => busy o ∨ o = a.heap.size) a'' b'')
    (hs : OnlyAt s a.heap.size (c.name a.heap.size) a' b' a'' b'')
    (hbody : b''.heap.body (c.name a.heap.size) = (a''.heap.body a.heap.size).rename c.name) :
    s.MadeAlike c busy source a b (.ref a.heap.size) (.ref (c.name a.heap.size)) a'' b'' where
  renamed := rfl
  twins := ht.finish hbody
  strides := h.strides.trans_at (Nat.le_refl _) (Nat.le_of_eq h.name.symm) hs
  copy := hs.left.copies _ _ h.copy

section Duplicating

variable {e : Registry.Entry} (hp : s.Paired c)
  (hd : s.Duplicates c.left.heap (s.fate c.left) c.root source)
  (he : s.registry.get? (c.left.heap.cls source) = some e)
  (h : Twins s c busy a b) (new : a.copies.find? source = none)
include hp hd h new

/-- A new object with the same body is made on both sides and stands for the source. -/
theorem alike_made {body : Body} {x y : CopyM ObjectId} {f g : ObjectId → CloneM Value}
    {Q : Value → Value → Run → Run → Prop}
    (hx : Succeeds x a.memory (Backend.Adds (c.left.heap.cls source) body a.memory))
    (hy : Succeeds y b.memory (Backend.Adds (c.left.heap.cls source) body b.memory))
    (hshape : body.shape = c.left.heap.shape source) (hv : ∀ v ∈ body.values, v.object? = none)
    (hf : ∀ a' b', s.BegunAlike c busy source body a b a' b' →
      s.GoAlike (f a.heap.size) (g (c.name a.heap.size)) a' b' Q) :
    s.GoAlike (onMemory x >>= fun o => register source (.ref o) >>= fun _ => f o)
      (onMemory y >>= fun o => register source (.ref o) >>= fun _ => g o) a b Q := by
  have hlt := hp.unaided.lt_size hd
  have hname : c.name a.heap.size = b.heap.size := h.pace 0
  have new' : b.copies.find? source = none := by rw [h.copies, new]; rfl
  have hmade : s.GoAlike (onMemory x) (onMemory y) a b fun o o' a' b' =>
      o = a.heap.size ∧ o' = c.name a.heap.size ∧
        ∃ m m', a' = { a with memory := m } ∧ b' = { b with memory := m' } ∧
          m.heap = a.heap.add (Object.new (c.left.heap.cls source) body) ∧
          m'.heap = b.heap.add (Object.new (c.left.heap.cls source) body) := by
    refine tandem_onMemory hx hy ?_
    rintro o o' m m' ⟨rfl, hm⟩ ⟨rfl, hm'⟩
    exact ⟨rfl, hname.symm, m, m', rfl, rfl, hm, hm'⟩
  refine Tandem.bind hmade ?_
  rintro _ _ _ _ ⟨rfl, rfl, m, m', rfl, rfl, hm, hm'⟩
  have hbegun := h.added new hm hm' hshape rfl hv
  refine hf _ _ ⟨hname ▸ hbegun, Twins.onlyNew_added new new' hm hm', hname,
    h.left.kept.heap.size_le, ?_, ?_, ?_, Copies.find?_put _ _ _,
    Copies.missing_put_lt _ hlt new⟩
  · show a.heap.size < m.heap.size
    rw [hm, Heap.size_add]
    exact Nat.lt_succ_self _
  · show (m.heap.get a.heap.size).body = body
    rw [hm, Heap.get_add_new]
    rfl
  · show (m'.heap.get (c.name a.heap.size)).body = body
    rw [hm', hname, Heap.get_add_new]
    rfl

omit h new in
/-- Arrays and containers are the same on both sides. -/
theorem Paired.body_eq (hne : c.left.heap.shape source ≠ .record) :
    c.right.heap.body source = c.left.heap.body source := by
  have hsame := hp.body source hd
  rw [hp.unaided.heap.header source (hp.unaided.lt_size hd)] at hne
  unfold SameButReset at hsame
  split at hsame
  · rename_i hb
    exact absurd (congrArg Body.shape hb) hne
  · exact hsame

include he

omit new in
/-- An array or a container fits its class and is found the same on both sides. -/
theorem alike_source {shape : Shape} (hshape : c.left.heap.shape source = shape)
    (hne : shape ≠ .record) :
    (c.left.heap.body source).shape = shape ∧ e.Admits c.left.heap (c.left.heap.body source) ∧
      a.memory.heap.body source = c.left.heap.body source ∧
      b.memory.heap.body source = c.left.heap.body source := by
  have hlt := hp.unaided.lt_size hd
  obtain ⟨e', he', ha⟩ := hp.unaided.heap.admits source hlt
  cases he.symm.trans he'
  exact ⟨(hp.unaided.heap.header source hlt).symm.trans hshape, ha, h.left.body_eq hlt,
    (h.body_right hp hd).trans (hp.body_eq hd (hshape ▸ hne))⟩

theorem alike_duplicatePacked (hshape : c.left.heap.shape source = .packed) :
    s.GoAlike (s.duplicatePacked source) (s.duplicatePacked source) a b
      (s.MadeAlike c busy source a b) := by
  have hlt := hp.unaided.lt_size hd
  obtain ⟨hhead, ha, hx, hy⟩ := alike_source hp hd he h hshape Shape.noConfusion
  obtain ⟨kind, bytes, hb⟩ := Body.exists_packed hhead
  rw [hb] at ha hx hy
  obtain ⟨hk, hdvd⟩ := ha.packed
  refine alike_made hp hd h new
    (Backend.adds_duplicatePacked hp.unaided.backend he (h.left.cls_eq hlt) hx hk hdvd)
    (Backend.adds_duplicatePacked hp.unaided.backend he (h.cls_right hp hlt) hy hk hdvd)
    hshape.symm (fun _ hv => by cases hv) fun a' b' hbegun => ?_
  refine hbegun.filled hbegun.twins (Strides.refl s _ _ a' b') ?_
  rw [hbegun.left, hbegun.right]
  rfl

variable (hn : s.RepliesAlike c depth nested nested')
  (hm : a.copies.missing c.left.heap.size ≤ depth + 1)
include hn hm

theorem alike_duplicateSlots (hshape : c.left.heap.shape source = .slots) :
    s.GoAlike (s.duplicateSlots nested source) (s.duplicateSlots nested' source) a b
      (s.MadeAlike c busy source a b) := by
  have hlt := hp.unaided.lt_size hd
  obtain ⟨hhead, ha, hx, hy⟩ := alike_source hp hd he h hshape Shape.noConfusion
  obtain ⟨items, hb⟩ := Body.exists_slots hhead
  rw [hb] at ha hx hy
  obtain ⟨cls, hk⟩ := ha.slots
  have hread : ∀ {run : Run}, run.memory.heap.body source = .slots items →
      Succeeds (s.slotItems source) run fun vs run' => vs = items ∧ run' = run := by
    intro run hrun
    simp only [Succeeds, slotItems, ends_bind, ends_heap, hrun, ends_pure, and_self]
  have hnull : (Body.slots (List.replicate items.length .null)).rename c.name =
      .slots (List.replicate items.length .null) := by
    simp [Body.rename, Value.rename]
  unfold duplicateSlots duplicateSlotsBy
  refine Tandem.bind (tandem_of_succeeds (hread hx) (hread hy)
    (fun vs vs' a' b' hvs hvs' => And.intro hvs hvs')) ?_
  rintro _ vs _ _ ⟨⟨rfl, rfl⟩, rfl, rfl⟩
  rw [tandem_heap]
  have hadds : ∀ m, Succeeds (s.backend.allocateSlots (c.left.heap.cls source) vs.length) m
      (Backend.Adds (c.left.heap.cls source) (.slots (List.replicate vs.length .null)) m) :=
    fun _ => Backend.adds_allocateSlots hp.unaided.backend he hk _
  rw [h.left.cls_eq hlt, h.cls_right hp hlt]
  refine alike_made hp hd h new (hadds _) (hadds _) hshape.symm ?_ fun a' b' hbegun => ?_
  · intro v hv
    rw [List.eq_of_mem_replicate hv]
    rfl
  · refine Tandem.bind (alike_cloneElements hn hp hbegun.twins (Or.inr rfl) hbegun.new hbegun.lt
      hbegun.left (hbegun.right.trans (hnull.symm)) (by simp)
      (fun v hv => hp.comesTo hd (.element hb hv))
      (Nat.le_of_lt_succ (Nat.lt_of_lt_of_le hbegun.missing hm))) ?_
    rintro _ _ a₂ b₂ ⟨h₂, hstrides, hbody⟩
    exact hbegun.filled h₂ hstrides hbody

/-- A container is duplicated on both sides. Where there is none, both fail. -/
theorem alike_duplicateContainer
    (hfit : s.FitsOverrides → ∃ con, c.left.heap.body source = .container con) :
    s.GoAlike (s.duplicateContainer nested source) (s.duplicateContainer nested' source) a b
      (s.MadeAlike c busy source a b) := by
  have hlt := hp.unaided.lt_size hd
  have hsame := (hp.body source hd).contents?_eq
  unfold duplicateContainer duplicateContainerBy GoAlike
  rw [tandem_heap, h.left.cls_eq hlt, h.cls_right hp hlt]
  refine Tandem.bind (alike_plan hp h he) ?_
  rintro _ p a₁ b₁ ⟨rfl, ⟨hdesc, -⟩, h₁, hs₁, hcopies⟩
  have hx : a₁.memory.heap.contents? source = (c.left.heap.body source).contents? :=
    congrArg Body.contents? (h₁.left.body_eq hlt)
  have hy : b₁.memory.heap.contents? source = (c.left.heap.body source).contents? :=
    (congrArg Body.contents? (h₁.body_right hp hd)).trans hsame
  rw [tandem_heap, hx, hy]
  cases hcon : (c.left.heap.body source).contents? with
  | none =>
    refine ⟨fun hall => ?_, rfl, p, source, rfl⟩
    obtain ⟨con, hb⟩ := hfit hall
    rw [hb] at hcon
    cases hcon
  | some con =>
    have hb : c.left.heap.body source = .container con := Heap.body_of_contents? hcon
    obtain ⟨e', he', ha⟩ := hp.unaided.heap.admits source hlt
    cases he.symm.trans he'
    rw [hb] at ha
    have hshape : c.left.heap.shape source = .container := by
      rw [hp.unaided.heap.header source hlt, hb]
      rfl
    have hadds := fun m => Backend.adds_container (m := m) hp.unaided.backend he hdesc ha.container
    refine Tandem.mono (alike_made hp hd h₁ (hcopies ▸ new) (hadds _) (hadds _) hshape.symm ?_
      fun a₂ b₂ hbegun => ?_) (fun _ _ _ _ hmade => MadeAlike.after hs₁ hmade) fun _ _ _ _ h => h
    · intro v hv
      rw [Body.values, values_empty] at hv
      cases hv
    · have hm₂ := Nat.le_of_lt_succ (Nat.lt_of_lt_of_le hbegun.missing (hcopies ▸ hm))
      refine Tandem.bind (alike_cloneContents hn hp hbegun.twins
        (fun v hv => hp.comesTo hd (.entry hb hv)) ?_ hm₂) ?_
      · exact hp.trees.imp id fun htrees entries hcon => htrees source hd entries (hcon ▸ hb)
      · rintro new' _ a₃ b₃ ⟨rfl, hg⟩
        have hlt₃ := Nat.lt_of_lt_of_le hbegun.lt hg.strides.left.heap.size_le
        have hx₃ : a₃.memory.heap.body a₁.heap.size = .container (.empty con.kind) :=
          (hg.strides.left.heap.body_eq _ hbegun.lt (Nat.not_le.mpr hbegun.lt)).trans hbegun.left
        have hlt₂' := hbegun.twins.there _ hbegun.lt
        have hy₃ : b₃.memory.heap.body (c.name a₁.heap.size) = .container (.empty con.kind) :=
          (hg.strides.right.heap.body_eq _ hlt₂' (Nat.not_le.mpr hlt₂')).trans hbegun.right
        refine Tandem.bind (alike_draws hp hg.twins (Or.inr rfl) hbegun.new hlt₃
          (Backend.draws_setContents hx₃ p _) (Backend.draws_setContents hy₃ p _) hg.familiar) ?_
        intro _ _ a₄ b₄ h₄
        refine hbegun.filled h₄.twins (hg.strides.onlyAt.trans h₄.strides) ?_
        rw [h₄.left, h₄.right]
        rfl

theorem alike_duplicateRecord {p : Plan} (hplan : p.Describes (c.left.heap.cls source) e)
    (hshape : c.left.heap.shape source = .record) :
    s.GoAlike (s.duplicateRecord nested source p) (s.duplicateRecord nested' source p) a b
      (s.MadeAlike c busy source a b) := by
  have hs := hp.sources hd he hshape
  have hadds := fun m => Backend.adds_bare (m := m) hp.unaided.backend he hplan hs.concrete
  have hnull : (Body.bareRecord e.layout.blockSize e.layout.slotCount).rename c.name =
      Body.bareRecord e.layout.blockSize e.layout.slotCount := by
    simp [Body.bareRecord, Body.rename, Value.rename]
  have hbare : (Body.bareRecord e.layout.blockSize e.layout.slotCount).Sized e.layout.blockSize
      e.layout.slotCount := ⟨by simp [Bytes.zeros], by simp⟩
  refine alike_made hp hd h new (hadds _) (hadds _) hshape.symm ?_ fun a₁ b₁ hbegun => ?_
  · intro v hv
    rw [List.eq_of_mem_replicate hv]
    rfl
  · have htracing : s.Tracing c (fun o => busy o ∨ o = a.heap.size) a.heap.size e.layout
        (fun _ => False) (fun _ => False) a₁ b₁ := by
      refine ⟨hbegun.twins, Or.inr rfl, hbegun.new, hbegun.lt, ?_, ?_, ?_, fun _ _ h => h.elim⟩
      · rw [hbegun.left]
        exact hbare
      · rw [hbegun.right]
        exact hbare
      · intro x _
        rw [hbegun.left, hbegun.right]
        have := Spot.Alike.of_rename c.name
          (Body.bareRecord e.layout.blockSize e.layout.slotCount) x
        rwa [hnull] at this
    refine Tandem.bind (alike_copyFields hp hn hs hplan htracing (fun _ _ h => h)
      (Nat.le_of_lt_succ (Nat.lt_of_lt_of_le hbegun.missing hm))) ?_
    intro _ _ a₂ b₂ h₂
    exact hbegun.filled h₂.tracing.twins h₂.strides
      (Body.eq_rename_of_alike h₂.tracing.left h₂.tracing.right
        fun x => h₂.tracing.alike x fun hgap => hgap.1)

theorem alike_duplicate {p : Plan} (hplan : p.Describes (c.left.heap.cls source) e) :
    s.GoAlike (s.duplicate nested source p) (s.duplicate nested' source p) a b
      (s.MadeAlike c busy source a b) := by
  have hlt := hp.unaided.lt_size hd
  unfold duplicate duplicateBy GoAlike
  rw [tandem_heap, h.left.shape_eq hlt, h.shape_right hp hlt]
  cases hshape : c.left.heap.shape source with
  | packed => exact alike_duplicatePacked hp hd he h new hshape
  | slots => exact alike_duplicateSlots hp hd he h new hn hm hshape
  | container =>
    exact alike_duplicateContainer hp hd he h new hn hm fun _ =>
      Body.exists_container ((hp.unaided.heap.header source hlt).symm.trans hshape)
  | record => exact alike_duplicateRecord hp hd he h new hn hm hplan hshape

/-- The implementor of containers is asked on both sides. -/
theorem alike_delegate (hfit : s.FitsOverrides → ∃ con, c.left.heap.body source = .container con) :
    s.GoAlike (s.delegate nested .containers source) (s.delegate nested' .containers source) a b
      (s.MadeAlike c busy source a b) := by
  rcases tandem_iff.mp (alike_duplicateContainer hp hd he h new hn hm hfit) with
    ⟨w, a', w', b', hx, hy, hmade⟩ | ⟨_, a', _, b', hx, hy, hfalse, rfl, p, o, rfl⟩
  · have hcopy' : b'.copies.find? source = some (w.rename c.name) := by
      rw [hmade.twins.copies, hmade.copy]
      rfl
    unfold GoAlike Tandem delegate delegateBy implementBy
    simp only [ends_bind, ends_outcome, ends_of_ok hx, ends_of_ok hy, ends_copyOf, hmade.copy,
      hcopy', ends_pure]
    exact hmade
  · unfold GoAlike Tandem delegate delegateBy implementBy
    simp only [ends_bind, ends_outcome, ends_of_error hx, ends_of_error hy, ends_heap, ends_fail]
    exact ⟨hfalse, rfl, p, o, rfl⟩

end Duplicating

/-! ## The rules -/

theorem reply_shared (hp : s.Paired c) (h : Twins s c busy a b) (hs : s.ComesTo c (.ref source)) :
    s.Reply c busy (.ref source) a b (.ref source) (.ref source) a b := by
  have hlt := (hs.1 source rfl).1
  refine ⟨?_, h, Strides.refl s _ _ a b, ?_, fun _ => rfl, takesArray_mono h.left.kept.heap⟩
  · rw [Value.rename, hp.old source hlt]
  · rintro t ⟨⟩
    exact ⟨Nat.lt_of_lt_of_le hlt h.left.kept.heap.size_le, Or.inr (hs.2 source rfl)⟩

/-- What comes out after something was found out. -/
theorem Reply.after {v w w' : Value} (hs : OnlyNew s a b a' b')
    (h : s.Reply c busy v a' b' w w' a'' b'') : s.Reply c busy v a b w w' a'' b'' :=
  { h with strides := hs.trans h.strides }

/-- Both sides ask whether the class is shared, and come to the same verdict. -/
theorem alike_verdict (hp : s.Paired c) (h : Twins s c busy a b) (cls : ClassId) :
    s.GoAlike (s.verdict cls source) (s.verdict cls source) a b fun r r' a' b' =>
      (r = s.judge c.left cls source ∧ r' = r) ∧
        Twins s c busy a' b' ∧ OnlyNew s a b a' b' ∧ a'.copies = a.copies := by
  have hjudge := judge_congr h.left.kept.classShared cls source
  have hjudge' : s.judge b cls source = s.judge c.left cls source :=
    (judge_congr h.right.classShared _ _).trans (judge_congr hp.classShared _ _)
  have hk : Kept s (fun _ => False) a (s.asked a cls) := Kept.of_asked _
  have hk' : Kept s (fun _ => False) b (s.asked b cls) := Kept.of_asked _
  unfold GoAlike Tandem
  rw [ends_verdict, ends_verdict, hjudge, hjudge']
  refine ⟨⟨rfl, rfl⟩, ?_, ⟨hk.mono fun _ _ h => h.elim, hk'.mono fun _ _ h => h.elim⟩,
    copies_asked _⟩
  exact h.learned hk hk' (congrArg Memory.heap (memory_asked _))
    (congrArg Memory.heap (memory_asked _)) (copies_asked _) (copies_asked _)

section Deciding

variable (hp : s.Paired c) (hn : s.RepliesAlike c depth nested nested')
  (hs : s.ComesTo c (.ref source)) (h : Twins s c busy a b)
  (new : a.copies.find? source = none) (hm : a.copies.missing c.left.heap.size ≤ depth + 1)
include hp hn hs h new hm

theorem alike_cloneByPlan {p : Plan} {e : Registry.Entry}
    (he : s.registry.get? (c.left.heap.cls source) = some e)
    (hplan : p.Describes (c.left.heap.cls source) e)
    (hj : s.judge c.left (c.left.heap.cls source) source = .open)
    (hof : s.planOf c.left (c.left.heap.cls source) = .ok p) :
    s.GoAlike (s.cloneByPlan nested source p) (s.cloneByPlan nested' source p) a b
      (s.Reply c busy (.ref source) a b) := by
  have hd := (hs.1 source rfl).2
  unfold cloneByPlan cloneByPlanBy
  rcases hp.unaided.planVerdict_of_open hd he hplan hj hof with ⟨hv, -⟩ | ⟨hv, hfate⟩
  · rw [hv]
    exact reply_shared hp h hs
  · rw [hv]
    exact Tandem.mono (alike_duplicate hp (hd hfate) he h new hn hm hplan)
      (fun _ _ _ _ hmade => hmade.reply) fun _ _ _ _ h => h

theorem alike_cloneNew :
    s.GoAlike (s.cloneNew nested source) (s.cloneNew nested' source) a b
      (s.Reply c busy (.ref source) a b) := by
  have hlt := (hs.1 source rfl).1
  have hd := (hs.1 source rfl).2
  obtain ⟨e, he, ha⟩ := hp.unaided.heap.admits source hlt
  unfold cloneNew cloneNewBy GoAlike
  rw [tandem_heap, h.left.cls_eq hlt, h.cls_right hp hlt]
  refine Tandem.bind (alike_verdict hp h _) ?_
  rintro _ _ a₁ b₁ ⟨⟨rfl, rfl⟩, h₁, hs₁, hcopies₁⟩
  have new₁ : a₁.copies.find? source = none := hcopies₁ ▸ new
  have hm₁ : a₁.copies.missing c.left.heap.size ≤ depth + 1 := hcopies₁ ▸ hm
  cases hj : s.judge c.left (c.left.heap.cls source) source with
  | nulled =>
    exact ⟨rfl, h₁, hs₁, Pairing.Familiar.of_object? rfl, (fun h => by cases h), fun _ => rfl⟩
  | shared => exact (reply_shared hp h₁ hs).after hs₁
  | overridden i =>
    obtain ⟨hflag, hi, rfl⟩ := hp.unaided.eq_containers_of_judge hj
    have hfate : s.fate c.left source = .copied := fateOf_of_overridden hj
    refine Tandem.mono (alike_delegate hp (hd hfate) he h₁ new₁ hn hm₁ fun hfit => ?_)
      (fun _ _ _ _ hmade => hmade.reply.after hs₁) fun _ _ _ _ h => h
    obtain ⟨e', kind, he', hkind⟩ := hfit hflag _ _ hi
    cases he.symm.trans he'
    exact ha.contents hkind
  | «open» =>
    refine Tandem.bind (alike_plan hp h₁ he) ?_
    rintro _ p a₂ b₂ ⟨rfl, ⟨hdesc, hof⟩, h₂, hs₂, hcopies⟩
    refine Tandem.mono (alike_cloneByPlan hp hn hs h₂ (hcopies ▸ new₁) (hcopies ▸ hm₁) he hdesc hj
      hof) (fun _ _ _ _ hr => (hr.after hs₂).after hs₁) fun _ _ _ _ h => h

end Deciding

/-- What is no reference comes out as it is. -/
theorem reply_plain (h : Twins s c busy a b) {v : Value} (hv : v.object? = none) :
    s.Reply c busy v a b v v a b := by
  refine ⟨?_, h, Strides.refl s _ _ a b, Pairing.Familiar.of_object? hv, fun _ => rfl, ?_⟩
  · exact (Value.rename_eq_self fun o ho => by rw [ho] at hv; cases hv).symm
  · cases v with
    | ref o => cases hv
    | _ => exact id

/-- What has a copy comes out as that copy. -/
theorem reply_copied (h : Twins s c busy a b) {copy : Value}
    (hc : a.copies.find? source = some copy) :
    s.Reply c busy (.ref source) a b copy (copy.rename c.name) a b :=
  ⟨rfl, h, Strides.refl s _ _ a b, h.made _ _ hc, (fun hv => by cases hv), h.left.arrays _ _ hc⟩

/-- The clones of a value go alike on both sides, as long as no more objects than either depth
allows are without a copy. -/
theorem repliesAlike_cloneValue (hp : s.Paired c) (depth depth' : Nat) (hle : depth ≤ depth') :
    s.RepliesAlike c depth (cloneValue s depth) (cloneValue s depth') := by
  have plain : ∀ depth depth' busy a b v, Twins s c busy a b → v.object? = none →
      s.GoAlike (cloneValue s depth v) (cloneValue s depth' v) a b (s.Reply c busy v a b) := by
    intro depth depth' busy a b v h hv
    cases v with
    | ref o => cases hv
    | _ =>
      unfold cloneValue
      exact reply_plain h rfl
  -- a copy that there is comes out on both sides
  have copied : ∀ depth depth' busy a b o copy, Twins s c busy a b →
      a.copies.find? o = some copy →
      s.GoAlike (cloneValue s depth (.ref o)) (cloneValue s depth' (.ref o)) a b
        (s.Reply c busy (.ref o) a b) := by
    intro depth depth' busy a b o copy h hc
    have hc' : b.copies.find? o = some (copy.rename c.name) := by rw [h.copies, hc]; rfl
    cases depth <;> cases depth' <;>
    · simp only [GoAlike, Tandem, cloneValue, ends_bind, ends_copyOf, hc, hc', ends_pure]
      exact reply_copied h hc
  induction depth generalizing depth' with
  | zero =>
    intro busy a b v h hv hm
    cases v with
    | ref o =>
      cases hc : a.copies.find? o with
      | some copy => exact copied _ _ busy a b o copy h hc
      | none =>
        have hput := Copies.missing_put_lt .null (hv.1 o rfl).1 hc
        exact absurd (Nat.lt_of_lt_of_le hput hm) (Nat.not_lt_zero _)
    | _ => exact plain _ _ busy a b _ h rfl
  | succ depth ih =>
    intro busy a b v h hv hm
    cases v with
    | ref o =>
      cases hc : a.copies.find? o with
      | some copy => exact copied _ _ busy a b o copy h hc
      | none =>
        have hc' : b.copies.find? o = none := by rw [h.copies, hc]; rfl
        cases depth' with
        | zero => cases hle
        | succ depth' =>
          have hnew := alike_cloneNew hp (ih depth' (Nat.le_of_succ_le_succ hle)) hv h hc hm
          simp only [GoAlike, Tandem, cloneValue, ends_bind, ends_copyOf, hc, hc'] at hnew ⊢
          exact hnew
    | _ => exact plain _ _ busy a b _ h rfl

/-! ## Whole clones -/

/-- Two runs in which a value is to be cloned, where every object goes by its own name. -/
def between (left right : Run) (root : Value) : Pairing where
  left := left
  right := right
  root := root
  name := fun o => o
  given := fun _ => False

/-- What is asked of the two runs: the second knows the same plans and answers, and its heap is in
order and the same but for what the policy resets, and for what is not duplicated. -/
theorem paired_between {left right : Run} {root : Value} (hu : s.Unaided left root)
    (ho : right.heap.Orderly s.registry) (hplans : right.plans = left.plans)
    (hanswers : right.answers = left.answers) (hsize : right.heap.size = left.heap.size)
    (hcls : ∀ o < left.heap.size, right.heap.cls o = left.heap.cls o)
    (hshape : ∀ o < left.heap.size, right.heap.shape o = left.heap.shape o)
    (hbody : ∀ o, s.Duplicates left.heap (s.fate left) root o →
      s.SameButReset (s.registry.fieldsOf (left.heap.cls o)) (left.heap.body o)
        (right.heap.body o)) :
    s.Paired (between left right root) where
  unaided := hu
  orderly := ho
  plans := hplans ▸ hu.plans
  planOf := by
    intro cls
    unfold planOf
    rw [show (between left right root).right.plans = _ from hplans]
    rfl
  classShared := by
    intro cls
    unfold classShared
    rw [show (between left right root).right.answers = _ from hanswers]
    rfl
  size := hsize
  cls := hcls
  shape := hshape
  body := hbody
  spared := fun _ _ h => h
  old := fun _ _ => rfl
  own := fun _ h => Or.inr h
  inj := fun _ _ _ _ h => h
  trees := Or.inl fun _ => rfl

theorem twins_between {left right : Run} {root : Value} (hp : s.Paired (between left right root))
    (hl : left.copies = {}) (hr : right.copies = {}) :
    Twins s (between left right root) (fun _ => False) left right := by
  have hnone : ∀ o, left.copies.find? o = none := fun o => hl ▸ Copies.find?_empty o
  have hnone' : ∀ o, right.copies.find? o = none := fun o => hr ▸ Copies.find?_empty o
  have hsize : right.heap.size = left.heap.size := hp.size
  refine ⟨Thriving.start hl, Kept.refl _, fun o => ?_, fun o w hw => ?_, fun k => ?_, ?_, hp.cls,
    hp.shape, fun t hle hlt => ?_, fun t hle hlt => ?_⟩
  · rw [hnone, hnone']
    rfl
  · rw [hnone] at hw
    cases hw
  · exact congrArg (· + k) hsize.symm
  · exact fun t ht => Nat.lt_of_lt_of_eq ht hsize.symm
  · exact absurd hlt (Nat.not_lt.mpr hle)
  · exact absurd hlt (Nat.not_lt.mpr hle)

/-- Two clones that have just begun go alike to their ends, if both may go as deep as there are
objects. -/
theorem alike_between {left right : Run} {root : Value} (hp : s.Paired (between left right root))
    (hl : left.copies = {}) (hr : right.copies = {}) {depth depth' : Nat}
    (hdepth : left.heap.size ≤ depth) (hle : depth ≤ depth') :
    s.GoAlike (cloneValue s depth root) (cloneValue s depth' root) left right
      (s.Reply (between left right root) (fun _ => False) root left right) :=
  repliesAlike_cloneValue hp depth depth' hle _ left right root (twins_between hp hl hr)
    ⟨hp.unaided.sought_root, fun _ ho => .here ho⟩
    (Nat.le_trans (Copies.missing_le left.heap.size _) hdepth)

end Setting

end DeepCopy
