-- A routine that clones instances field by field, as the traversal does by itself.
-- To add it for classes whose instances are cloned that way anyhow makes no
-- difference to any clone, whichever other routines take part.
import DeepCopy.Proofs.Sharing
import DeepCopy.Proofs.Surfacing

namespace DeepCopy

open CloneM

/-- An implementor that clones an instance field by field: it makes a bare instance of the source's
class, lets it stand for the source, and has the fields cloned into it. -/
def Implementor.fieldWise : Implementor :=
  .routine fun source => .ask (.look source) fun x => Routine.fieldByField x.cls source

/-- The policy with this implementor added for some classes. -/
def Policy.fieldWise (p : Policy) (classes : List ClassId) : Policy :=
  classes.foldl (fun p cls => p.addOverride cls .fieldWise) p

namespace Setting

/-- The setting with other implementors for classes. -/
def overriding (s : Setting) (overrides : Assoc ClassId Implementor) : Setting :=
  { s with policy := { s.policy with overrides } }

/-- The setting with instances of some classes left to the implementor that clones them field by
field. -/
def fieldWise (s : Setting) (classes : List ClassId) : Setting :=
  { s with policy := s.policy.fieldWise classes }

section Overriding

variable {s : Setting} {overrides : Assoc ClassId Implementor} {n : Nested}

end Overriding

end Setting

/-! ## Bare instances -/

/-- In a registry a class is neither one of arrays nor one of containers. -/
def Registry.FieldBearing (r : Registry) (cls : ClassId) : Prop :=
  ∀ e, r.get? cls = some e → e.decl.kind.isBuiltIn = false

/-- Neither where plans are made from nor where objects are made by is a class one of arrays or of
containers. -/
structure Setting.FieldBearing (s : Setting) (cls : ClassId) : Prop where
  registry : s.registry.FieldBearing cls
  backend : ∀ r, s.backend = .portable r → r.FieldBearing cls

/-- A bare object of such a class is an instance of it. -/
theorem Setting.FieldBearing.ends_allocate {s : Setting} {cls : ClassId} (hc : s.FieldBearing cls)
    {p : Plan} {e : Registry.Entry} (he : s.registry.get? cls = some e) (hp : p.Describes cls e)
    (m : Memory) :
    Ends (s.backend.allocate p) m
      (fun target m' => target = m.heap.size ∧
        ∃ block refs, m'.heap = m.heap.add (Object.new cls (.record block refs)))
      (fun e _ => ∃ c : CloneError, e = .failed c ∧ c.Placed) := by
  have hkind : p.kind.isBuiltIn = false := hp.kind_eq ▸ hc.registry e he
  cases hb : s.backend with
  | fast =>
    unfold Backend.allocate
    dsimp only
    cases hk : p.kind with
    | concrete => exact ⟨rfl, _, _, by rw [← hp.cls_eq]; rfl⟩
    | array c =>
      rw [hk] at hkind
      cases hkind
    | container kind =>
      rw [hk] at hkind
      cases hkind
    | _ => exact ⟨_, rfl, trivial⟩
  | portable r =>
    unfold Backend.allocate
    dsimp only
    rw [ends_allocating, hp.cls_eq]
    unfold Allocator.allocate
    rw [ends_bind, ends_memory_read]
    cases hd : r.decl cls with
    | error e => exact ⟨_, rfl, trivial⟩
    | ok d =>
      obtain ⟨e', he', rfl⟩ := get?_of_decl hd
      have hkind' : e'.decl.kind.isBuiltIn = false := hc.backend r hb e' he'
      dsimp only
      cases hk : e'.decl.kind with
      | concrete =>
        dsimp only
        rw [ends_bind, ends_memory_read, layout_of_get? he']
        exact ⟨rfl, _, _, rfl⟩
      | array c =>
        rw [hk] at hkind'
        cases hkind'
      | container kind =>
        rw [hk] at hkind'
        cases hkind'
      | _ => exact ⟨_, rfl, trivial⟩

namespace Setting

variable {s : Setting} {n : Nested} {run start : Run} {o : ObjectId} {p : Plan}

section Bare

variable {e : Registry.Entry} (hp : s.planOf start (start.heap.cls o) = .ok p)
  (he : s.registry.get? (start.heap.cls o) = some e)
  (hdesc : p.Describes (start.heap.cls o) e) (hc : s.FieldBearing (start.heap.cls o))
  (ho : o < start.heap.size) (hs : start.heap.shape o = .record)
include hp he hdesc hc ho hs

end Bare

/-! ## Clones -/

/-- All plans describe classes of the registry, those that are yet to be made included. -/
def Describes (s : Setting) (run : Run) : Prop :=
  ∀ cls p, s.planOf run cls = .ok p → ∃ e, s.registry.get? cls = some e ∧ p.Describes cls e

variable {overrides : Assoc ClassId Implementor} {classes : List ClassId}

end Setting

end DeepCopy
