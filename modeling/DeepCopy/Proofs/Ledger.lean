-- The book of a clone. Wherever a clone is broken off, its log says what the map of
-- copies holds: each registration is of an old object that had none, and of the
-- object made for it just before, so nothing in the map is ever replaced. What an
-- object refers to is cloned after the object is registered, and nothing new is
-- asked about or gone into.
import Mathlib.Data.Finset.Card
import Mathlib.Data.Finset.Range
import DeepCopy.Proofs.Deeds

namespace DeepCopy

open CloneM

/-! ## Ledgers -/

namespace Deed

/-- The object and its copy, if a deed lets one stand for the other. -/
def registration? : Deed → Option (ObjectId × Value)
  | registers o copy => some (o, copy)
  | _ => none

/-- The objects that have got copies, with these, in the order in which they did. -/
def registrations (deeds : List Deed) : List (ObjectId × Value) := deeds.filterMap registration?

theorem registrations_concat (deeds : List Deed) {d : Deed} (h : d.registration? = none) :
    registrations (deeds ++ [d]) = registrations deeds := by
  simp [registrations, List.filterMap_append, h]

theorem registrations_registers (deeds : List Deed) (o : ObjectId) (copy : Value) :
    registrations (deeds ++ [.registers o copy]) = registrations deeds ++ [(o, copy)] := by
  simp [registrations, List.filterMap_append, registration?]

end Deed

open Deed

/-- The deeds of a clone that was begun in a heap, up to where it is. -/
structure Ledger (h : Heap) (deeds : List Deed) (run : Run) : Prop where
  written : run.journal = deeds.flatMap notes
  /-- The map holds what was registered and nothing else. -/
  copies : ∀ o copy, run.copies.find? o = some copy ↔ (o, copy) ∈ registrations deeds
  /-- No object is registered twice. -/
  once : ((registrations deeds).map Prod.fst).Nodup
  /-- As many objects are registered as were made. -/
  size : run.heap.size = h.size + (registrations deeds).length
  /-- Each has for a copy the object that was made for it. -/
  made : (registrations deeds).map Prod.snd =
    (List.range' h.size (registrations deeds).length).map .ref
  cls : ∀ o t, (o, .ref t) ∈ registrations deeds → run.heap.cls t = h.cls o
  /-- All is done to objects that were there. -/
  old : ∀ d ∈ deeds, d.object < h.size
  /-- What is met in an object is cloned after the object is registered. -/
  before : ∀ past o v, past ++ [.clones o v] <+: deeds → ∃ copy, (o, copy) ∈ registrations past

namespace Ledger

variable {h : Heap} {deeds : List Deed} {run run' : Run} {o : ObjectId}

theorem begin (h : Heap) {run : Run} (hh : run.heap = h) (hc : run.copies = {})
    (hj : run.journal = []) : Ledger h [] run where
  written := hj
  copies := by simp [hc, registrations]
  once := List.nodup_nil
  size := congrArg Heap.size hh
  made := rfl
  cls := by simp [registrations]
  old := by simp
  before := by simp

/-- What is registered for an object is there and new. -/
theorem bounds_of_mem {copy : Value} (hl : Ledger h deeds run)
    (hm : (o, copy) ∈ registrations deeds) :
    ∃ t, copy = .ref t ∧ h.size ≤ t ∧ t < run.heap.size := by
  have hmem : copy ∈ (registrations deeds).map Prod.snd := List.mem_map_of_mem hm
  rw [hl.made] at hmem
  obtain ⟨t, ht, rfl⟩ := List.mem_map.mp hmem
  have := List.mem_range'_1.mp ht
  exact ⟨t, rfl, this.1, hl.size ▸ this.2⟩

/-- A step that neither makes objects nor touches the map. -/
theorem step (hl : Ledger h deeds run) (hj : run'.journal = run.journal)
    (hc : run'.copies = run.copies) (hs : run'.heap.size = run.heap.size)
    (hcls : ∀ t < run.heap.size, run'.heap.cls t = run.heap.cls t) : Ledger h deeds run' where
  written := hj.trans hl.written
  copies := hc ▸ hl.copies
  once := hl.once
  size := hs.trans hl.size
  made := hl.made
  cls := by
    intro o t hm
    obtain ⟨_, heq, -, hlt⟩ := hl.bounds_of_mem hm
    cases heq
    exact (hcls t hlt).trans (hl.cls o t hm)
  old := hl.old
  before := hl.before

/-- A deed that leaves the map as it is. -/
theorem note (hl : Ledger h deeds run) {d : Deed} (hd : d.registration? = none)
    (hold : d.object < h.size)
    (hmet : ∀ o v, d = .clones o v → ∃ copy, run.copies.find? o = some copy) :
    Ledger h (deeds ++ [d]) (d.notedIn run) where
  written := by simp [notedIn, hl.written]
  copies := by
    rw [registrations_concat deeds hd]
    exact hl.copies
  once := registrations_concat deeds hd ▸ hl.once
  size := registrations_concat deeds hd ▸ hl.size
  made := registrations_concat deeds hd ▸ hl.made
  cls := registrations_concat deeds hd ▸ hl.cls
  old := by
    intro d' hd'
    rcases List.mem_append.mp hd' with hd' | hd'
    · exact hl.old d' hd'
    · exact List.mem_singleton.mp hd' ▸ hold
  before := by
    intro past o v hpre
    rcases List.prefix_concat_iff.mp hpre with heq | hpre
    · obtain ⟨rfl, hlast⟩ := List.append_inj' heq rfl
      obtain ⟨copy, hcopy⟩ := hmet o v (List.singleton_inj.mp hlast).symm
      exact ⟨copy, (hl.copies o copy).mp hcopy⟩
    · exact hl.before past o v hpre

/-- An object is registered with the one that was just made for it. -/
theorem register (hl : Ledger h deeds run) (hold : o < h.size)
    (hnew : run.copies.find? o = none) {m : Memory} {x : Object}
    (hm : m.heap = run.heap.add x) (hx : x.cls = h.cls o) :
    Ledger h (deeds ++ [.registers o (.ref run.heap.size)])
      ((Deed.registers o (.ref run.heap.size)).notedIn
        { run with memory := m, copies := run.copies.put o (.ref run.heap.size) }) where
  written := by simp [notedIn, hl.written]
  copies := by
    intro o' copy
    rw [registrations_registers, List.mem_append, List.mem_singleton, Prod.mk.injEq, ← hl.copies]
    show (run.copies.put o (.ref run.heap.size)).find? o' = some copy ↔ _
    by_cases ho : o' = o
    · subst ho
      rw [Copies.find?_put, hnew]
      simp [eq_comm]
    · rw [Copies.find?_put_ne _ _ ho]
      simp [ho]
  once := by
    rw [registrations_registers, List.map_append, List.map_singleton]
    refine List.nodup_append.mpr ⟨hl.once, List.nodup_singleton _, ?_⟩
    rintro o' ho' _ hlast rfl
    cases List.mem_singleton.mp hlast
    obtain ⟨⟨_, copy⟩, hmem, rfl⟩ := List.mem_map.mp ho'
    rw [(hl.copies _ copy).mpr hmem] at hnew
    cases hnew
  size := by
    show m.heap.size = _
    rw [hm, registrations_registers, Heap.size_add, List.length_append, hl.size]
    rfl
  made := by
    rw [registrations_registers, List.map_append, hl.made, List.length_append, hl.size]
    simp [List.range'_concat]
  cls := by
    intro o' t hmem
    show m.heap.cls t = h.cls o'
    rw [hm]
    rw [registrations_registers, List.mem_append, List.mem_singleton, Prod.mk.injEq] at hmem
    rcases hmem with hmem | ⟨rfl, ht⟩
    · obtain ⟨_, heq, -, hlt⟩ := hl.bounds_of_mem hmem
      cases heq
      rw [Heap.cls, Heap.get_add_of_lt _ hlt]
      exact hl.cls o' t hmem
    · cases ht
      rw [Heap.cls, Heap.get_add_new]
      exact hx
  old := by
    intro d hd
    rcases List.mem_append.mp hd with hd | hd
    · exact hl.old d hd
    · exact List.mem_singleton.mp hd ▸ hold
  before := by
    intro past o' v hpre
    rcases List.prefix_concat_iff.mp hpre with heq | hpre
    · obtain ⟨-, hlast⟩ := List.append_inj' heq rfl
      cases List.singleton_inj.mp hlast
    · exact hl.before past o' v hpre

/-- Once as many objects were made as were there, all that were there have copies. -/
theorem exists_copy (hl : Ledger h deeds run) (hfull : h.size + h.size ≤ run.heap.size)
    (ho : o < h.size) : ∃ copy, run.copies.find? o = some copy := by
  by_contra hnone
  have hnew : o ∉ (registrations deeds).map Prod.fst := by
    intro hfst
    obtain ⟨⟨_, copy⟩, hmem, rfl⟩ := List.mem_map.mp hfst
    exact hnone ⟨copy, (hl.copies _ copy).mpr hmem⟩
  have hsub : (o :: (registrations deeds).map Prod.fst).toFinset ⊆ Finset.range h.size := by
    intro q hq
    rw [Finset.mem_range]
    rcases List.mem_cons.mp (List.mem_toFinset.mp hq) with rfl | hq
    · exact ho
    · obtain ⟨⟨_, copy⟩, hmem, rfl⟩ := List.mem_map.mp hq
      obtain ⟨d, hd, hreg⟩ := List.mem_filterMap.mp hmem
      cases d <;> simp only [registration?, reduceCtorEq, Option.some.injEq, Prod.mk.injEq] at hreg
      rw [← hreg.1]
      exact hl.old _ hd
  have hcard := Finset.card_le_card hsub
  rw [List.toFinset_card_of_nodup (List.nodup_cons.mpr ⟨hnew, hl.once⟩), List.length_cons,
    List.length_map, Finset.card_range] at hcard
  have := hl.size
  omega

/-- What stood for an object stands for it when more deeds were done. -/
theorem within {rest : List Deed} (hl : Ledger h deeds run) (hl' : Ledger h (deeds ++ rest) run')
    (o : ObjectId) (copy : Value) (hc : run.copies.find? o = some copy) :
    run'.copies.find? o = some copy := by
  rw [hl'.copies, registrations, List.filterMap_append]
  exact List.mem_append_left _ ((hl.copies o copy).mp hc)

end Ledger

end DeepCopy
