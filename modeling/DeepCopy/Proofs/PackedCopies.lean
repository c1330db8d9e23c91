-- Duplicates of primitive arrays. The direct backend copies the body. The
-- other one makes an array of the object's class with as many elements and
-- then fills in the bytes, so its duplicate is of the kind that the class says
-- and not of the kind that the elements have. Where the two are not the same,
-- it breaks off, or answers with an array of other elements.
import DeepCopy.Proofs.Ancestry
import DeepCopy.Proofs.ArrayClasses
import DeepCopy.Proofs.Effects

namespace DeepCopy

namespace Backend

/-- The error that an object is no primitive array. -/
def notPacked (b : Backend) (h : Heap) (source : ObjectId) : CloneError :=
  match b with
  | fast => elementBodyFault h source 0 .packedArray
  | portable r =>
    let name := r.className (h.cls source)
    .access name "[]" source (.wrongBody name .packedArray)

/-- The body of the duplicate that a backend makes of an array of a class with given elements. -/
inductive Duplicate (cls : ClassId) (kind : Primitive.Kind) (bytes : List UInt8) :
    Backend → Body → Prop
  | direct : Duplicate cls kind bytes fast (.packed kind bytes)
  /-- The bytes are taken for elements of the kind that the class says, if they are as many. -/
  | primitive {r : Registry} {e : Registry.Entry} {kind' : Primitive.Kind}
      (entry : r.get? cls = some e) (array : e.decl.kind = .array (.primitive kind'))
      (fits : Packed.length kind bytes * kind'.width = bytes.length) :
      Duplicate cls kind bytes (portable r) (.packed kind' bytes)
  /-- An array of references gets none of the bytes. -/
  | reference {r : Registry} {e : Registry.Entry} {component : ClassId}
      (entry : r.get? cls = some e) (array : e.decl.kind = .array (.reference component)) :
      Duplicate cls kind bytes (portable r)
        (.slots (List.replicate (Packed.length kind bytes) .null))

/-- How a backend fails to duplicate an array of a class with given elements. It breaks off once the
new array turns out to have room for other bytes. -/
inductive NoDuplicate (cls : ClassId) (kind : Primitive.Kind) (bytes : List UInt8) :
    Backend → Stop → Prop
  | unknown {r : Registry} (entry : r.get? cls = none) :
      NoDuplicate cls kind bytes (portable r)
        (.failed (.allocation cls.text (.unknownClass cls.text)))
  | noArray {r : Registry} {e : Registry.Entry} (entry : r.get? cls = some e)
      (others : ∀ component, e.decl.kind ≠ .array component) :
      NoDuplicate cls kind bytes (portable r)
        (.failed (.allocation e.decl.name (.notInstantiable e.decl.name .notArrayClass)))
  | misfit {r : Registry} {e : Registry.Entry} {kind' : Primitive.Kind}
      (entry : r.get? cls = some e) (array : e.decl.kind = .array (.primitive kind'))
      (misfits : Packed.length kind bytes * kind'.width ≠ bytes.length) :
      NoDuplicate cls kind bytes (portable r) .aborted

/-- The backend makes no other arrays of the class than those of the given elements. -/
def Suits (b : Backend) (cls : ClassId) (kind : Primitive.Kind) (bytes : List UInt8) : Prop :=
  ∀ r e component, b = portable r → r.get? cls = some e → e.decl.kind = .array component →
    component = .primitive kind ∧ kind.width ∣ bytes.length

/-- The backend answers with a copy that has the class and the elements of the array, or with an
error. -/
def KeepsElements (b : Backend) (source : ObjectId) (m : Memory) : Prop :=
  Ends (b.duplicatePacked source) m
    (fun copy m' => ∃ kind bytes, m.heap.body source = .packed kind bytes ∧
      Adds (m.heap.cls source) (.packed kind bytes) m copy m')
    (fun e _ => e ≠ .aborted)

section Elements

variable {b : Backend} {cls : ClassId} {kind : Primitive.Kind} {bytes : List UInt8} {body : Body}
  {stop : Stop}

theorem Duplicate.eq_packed (h : Duplicate cls kind bytes b body) (hs : b.Suits cls kind bytes) :
    body = .packed kind bytes := by
  cases h with
  | direct => rfl
  | primitive he hk _ =>
    cases (hs _ _ _ rfl he hk).1
    rfl
  | reference he hk => cases (hs _ _ _ rfl he hk).1

theorem NoDuplicate.ne_aborted (h : NoDuplicate cls kind bytes b stop)
    (hs : b.Suits cls kind bytes) : stop ≠ .aborted := by
  cases h with
  | unknown he => simp
  | noArray he hkept => simp
  | misfit he hk hmisfits =>
    obtain ⟨heq, hd⟩ := hs _ _ _ rfl he hk
    cases heq
    exact absurd (Nat.div_mul_cancel hd) hmisfits

/-- Only by a class that suits it an array is duplicated as it is. -/
theorem Duplicate.suits (h : Duplicate cls kind bytes b (.packed kind bytes)) :
    b.Suits cls kind bytes := by
  rintro r e component rfl he hk
  cases h with
  | primitive he' hk' hfits =>
    cases he.symm.trans he'
    cases hk.symm.trans hk'
    exact ⟨rfl, _, hfits.symm.trans (Nat.mul_comm _ _)⟩

/-- Where a class does not suit an array, the backend breaks off instead of an error. -/
theorem NoDuplicate.suits (h : NoDuplicate cls kind bytes b stop) (hstop : stop ≠ .aborted) :
    b.Suits cls kind bytes := by
  rintro r e component rfl he hk
  cases h with
  | unknown he' => cases he.symm.trans he'
  | noArray he' hkept =>
    cases he.symm.trans he'
    exact absurd hk (hkept component)
  | misfit he' hk' _ => exact absurd rfl hstop

end Elements

section Duplicates

variable {m : Memory} {source : ObjectId} {kind : Primitive.Kind} {bytes : List UInt8}

/-- A new array takes the bytes if it has room for just as many. -/
theorem ends_fillPacked_new {h : Heap} {cls : ClassId} {old : List UInt8}
    (hm : m.heap = h.add (Object.new cls (.packed kind old))) :
    Ends (fillPacked h.size bytes) m
      (fun _ m' => old.length = bytes.length ∧
        m'.heap = h.add (Object.new cls (.packed kind bytes)))
      (fun e _ => old.length ≠ bytes.length ∧ e = .aborted) := by
  simp only [fillPacked, ends_bind, ends_get, hm, Heap.body, Heap.get_add_new, Object.new]
  split
  · rename_i hlen
    refine ⟨hlen, ?_⟩
    show m.heap.setBody h.size (.packed kind bytes) = _
    rw [hm, Heap.setBody_add_new]
    rfl
  · rename_i hlen
    exact ⟨hlen, rfl⟩

/-- No array is made of a class that is no class of arrays. -/
theorem ends_allocateArray_of_noArray {r : Registry} {cls : ClassId}
    (hno : ∀ e component, r.get? cls = some e → e.decl.kind ≠ .array component) (length : Nat) :
    Ends (CopyM.allocating (r.className cls) (Allocator.allocateArray r cls length)) m
      (fun _ _ => False) (fun e _ => NoDuplicate cls kind bytes (portable r) e) := by
  simp only [ends_allocating, Allocator.allocateArray, ends_bind, ends_memory_read]
  cases he : r.get? cls with
  | none =>
    simp only [Registry.decl_of_new he, Registry.className, he]
    exact .unknown he
  | some e =>
    simp only [decl_of_get? he, Registry.className, he]
    split
    · rename_i kind' hk
      exact hno e _ he hk
    · rename_i component hk
      exact hno e _ he hk
    · exact .noArray he fun component => hno e component he

/-- What an array is duplicated to. -/
theorem ends_duplicatePacked_of_packed (b : Backend)
    (hx : m.heap.body source = .packed kind bytes) :
    Ends (b.duplicatePacked source) m
      (fun copy m' => ∃ body, Duplicate (m.heap.cls source) kind bytes b body ∧
        Adds (m.heap.cls source) body m copy m')
      (fun e _ => NoDuplicate (m.heap.cls source) kind bytes b e) := by
  simp only [duplicatePacked, ends_bind, ends_get, hx]
  cases b with
  | fast => exact ⟨_, .direct, rfl, rfl⟩
  | portable r =>
    simp only [ends_bind]
    by_cases harray : ∃ e component, r.get? (m.heap.cls source) = some e ∧
        e.decl.kind = .array component
    · obtain ⟨e, component, he, hk⟩ := harray
      rw [ends_allocating]
      cases component with
      | primitive kind' =>
        have hlen : (Bytes.zeros (Packed.length kind bytes * kind'.width)).length =
            Packed.length kind bytes * kind'.width := by simp [Bytes.zeros]
        refine ends_mono (adds_packed he hk _) ?_ (fun _ _ h => h.elim)
        rintro _ m' ⟨rfl, hm⟩
        refine ends_mono (ends_fillPacked_new hm) ?_ ?_
        · rintro _ m'' ⟨hfits, hm'⟩
          exact ⟨_, .primitive he hk (hlen ▸ hfits), rfl, hm'⟩
        · rintro _ _ ⟨hmisfits, rfl⟩
          exact .misfit he hk (hlen ▸ hmisfits)
      | reference c =>
        refine ends_mono (adds_slots he hk _) ?_ (fun _ _ h => h.elim)
        rintro _ m' ⟨rfl, hm⟩
        simp only [fillPacked, ends_bind, ends_get, hm, Heap.body, Heap.get_add_new, Object.new]
        exact ⟨_, .reference he hk, rfl, hm⟩
    · refine ends_mono (ends_allocateArray_of_noArray ?_ _) (fun _ _ h => h.elim) fun _ _ h => h
      intro e component he hk
      exact harray ⟨e, component, he, hk⟩

/-- Only primitive arrays are duplicated. -/
theorem ends_duplicatePacked_of_other (b : Backend) (hx : (m.heap.body source).shape ≠ .packed) :
    Ends (b.duplicatePacked source) m (fun _ _ => False)
      (fun e m' => e = .failed (b.notPacked m.heap source) ∧ m' = m) := by
  simp only [duplicatePacked, ends_bind, ends_get]
  cases hb : m.heap.body source with
  | packed kind bytes => simp [hb, Body.shape] at hx
  | _ => cases b <;> exact ⟨rfl, rfl⟩

/-- A primitive array is duplicated byte by byte if its object is of no class of arrays or of the
class of just such arrays, or if the direct backend does it. The other backend makes the duplicate
by the class of the object. If that is the class of arrays of another kind of primitives, the same
bytes come back as elements of that kind, or it breaks off if they are not as many whole elements as
before. If it is a class of arrays of references, none of the bytes come back. A class that is
unknown or no class of arrays is refused, and so is all that is no primitive array. -/
theorem a_duplicate_is_made_by_the_class (b : Backend) (m : Memory) (source : ObjectId) :
    Ends (b.duplicatePacked source) m
      (fun copy m' => ∃ kind bytes body, m.heap.body source = .packed kind bytes ∧
        Duplicate (m.heap.cls source) kind bytes b body ∧
        Adds (m.heap.cls source) body m copy m')
      (fun e m' =>
        ((m.heap.body source).shape ≠ .packed ∧ e = .failed (b.notPacked m.heap source) ∧ m' = m) ∨
        ∃ kind bytes, m.heap.body source = .packed kind bytes ∧
          NoDuplicate (m.heap.cls source) kind bytes b e) ∧
    (b.KeepsElements source m ↔ ∀ kind bytes, m.heap.body source = .packed kind bytes →
      b.Suits (m.heap.cls source) kind bytes) := by
  by_cases hx : (m.heap.body source).shape = .packed
  · obtain ⟨kind, bytes, hx⟩ := Body.exists_packed hx
    have hends := ends_duplicatePacked_of_packed b hx
    refine ⟨?_, ?_, ?_⟩
    · refine ends_mono hends ?_ ?_
      · rintro copy m' ⟨body, hbody, hadds⟩
        exact ⟨kind, bytes, body, hx, hbody, hadds⟩
      · intro e _ he
        exact Or.inr ⟨kind, bytes, hx, he⟩
    · intro hkeeps kind' bytes' hx'
      cases hx.symm.trans hx'
      have hboth := ends_and hends hkeeps
      unfold Ends at hboth
      split at hboth
      · obtain ⟨⟨body, hbody, -, hm⟩, kind', bytes', hx', -, hm'⟩ := hboth
        cases hx.symm.trans hx'
        have heq : body = .packed kind bytes := by
          have := congrArg (fun h => h.body m.heap.size) (hm.symm.trans hm')
          simpa only [Heap.body, Heap.get_add_new, Object.new] using this
        exact (heq ▸ hbody).suits
      · exact hboth.1.suits hboth.2
    · intro hsuits
      have hs := hsuits kind bytes hx
      refine ends_mono hends ?_ fun e _ he => he.ne_aborted hs
      rintro copy m' ⟨body, hbody, hadds⟩
      cases hbody.eq_packed hs
      exact ⟨kind, bytes, hx, hadds⟩
  · have hends := ends_duplicatePacked_of_other b hx
    refine ⟨ends_mono hends (fun _ _ h => h.elim) fun _ _ h => Or.inl ⟨hx, h⟩, ?_, ?_⟩
    · intro _ kind bytes hx'
      exact absurd (by rw [hx']; rfl) hx
    · intro _
      refine ends_mono hends (fun _ _ h => h.elim) ?_
      rintro _ _ ⟨rfl, rfl⟩
      simp

end Duplicates

/-- The memory with one object, of class 12 and with given elements. -/
def loneArray (kind : Primitive.Kind) (bytes : List UInt8) : Memory :=
  { heap := Heap.add {} (Object.new 12 (.packed kind bytes)) }

/-- An eight-byte integer in an array for integers of four bytes makes the backend break off, a
floating point number comes back as an integer, and a byte in an array for objects as nothing. -/
theorem a_duplicate_can_break_off_or_lose_its_elements :
    (∃ r, Registry.initial.arrayOf (.primitive .i32) = .ok (12, r) ∧
      (∃ m', (portable r).duplicatePacked 0 (loneArray .i64 [1, 0, 0, 0, 0, 0, 0, 0]) =
        .error .aborted m') ∧
      ∃ m', (portable r).duplicatePacked 0 (loneArray .f32 [0, 0, 128, 63]) = .ok 1 m' ∧
        m'.heap.body 1 = .packed .i32 [0, 0, 128, 63]) ∧
    ∃ r, Registry.initial.arrayOf (.reference 0) = .ok (12, r) ∧
      ∃ m', (portable r).duplicatePacked 0 (loneArray .i8 [7]) = .ok 1 m' ∧
        m'.heap.body 1 = .slots [.null] := by
  refine ⟨⟨_, Registry.arrayOf_of_new rfl (by decide), ⟨_, rfl⟩, _, rfl, rfl⟩,
    _, Registry.arrayOf_of_new rfl (by decide), _, rfl, rfl⟩

end Backend

end DeepCopy
