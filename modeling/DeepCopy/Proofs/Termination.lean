-- Cloning comes to an end on every heap, however its objects refer to each
-- other, and goes well on every heap in order. No object is gone into twice, so
-- there are no more steps down than objects to be reached.
import DeepCopy.Proofs.Agreement
import DeepCopy.Proofs.Sharing
import DeepCopy.Proofs.Tours
import DeepCopy.Proofs.Twinning
import DeepCopy.Proofs.Untouched

namespace DeepCopy

namespace Setting

open CloneM

variable {α : Type} {s : Setting} {run : Run} {v : Value}

/-- A log of objects gone into: each once, and each among those that can be reached and have no copy
to begin with. -/
def LogsOnce (run : Run) (v : Value) (journal : List Note) : Prop :=
  ∃ descents, run.Lists v journal descents ∧
    descents.length ≤ (run.heap.unseen v run.copies).card

/-- A clone of `v` that was to come to `result` comes to its own end. With a log and bounded by
`depth` steps down it does the same, and the log has each object once. -/
def VisitsOnce (s : Setting) (run : Run) (v : Value) (depth : Nat)
    (result : EStateM.Result Stop Run Value) : Prop :=
  Ends (cloneNoting s.silent depth v) { run with journal := [] }
    (fun r log => LogsOnce run v log.journal ∧ ∃ run', result = .ok r run' ∧ log.Same run')
    fun e log => e ≠ .tooDeep ∧ LogsOnce run v log.journal ∧
      ∃ run', result = .error e run' ∧ log.Same run'

theorem Tame.silent (ht : s.Tame run) : s.silent.Tame run where
  overrides := ht.overrides
  named := by
    intro cls p name maker hp hc hm
    rw [find?_silent] at hm
    obtain ⟨maker', hm', rfl⟩ := Option.map_eq_some_iff.mp hm
    exact ht.named cls p name maker' hp hc hm'
  resolved := ht.resolved
  methods := ht.methods

theorem followed_silent (ht : s.Tame run) (hc : run.heap.Closed) (hv : run.heap.Has v) :
    s.silent.Followed run v where
  tame := ht.silent
  silent := by
    intro name maker hm
    rw [find?_silent] at hm
    obtain ⟨maker', -, rfl⟩ := Option.map_eq_some_iff.mp hm
    rfl
  closed := hc
  root := hv

theorem logsOnce_of_lists {journal : List Note} {descents : List ObjectId}
    (hl : run.Lists v journal descents) : LogsOnce run v journal := by
  refine ⟨descents, hl, ?_⟩
  have hsub : descents.toFinset ⊆ run.heap.unseen v run.copies := by
    intro o ho
    exact hl.2.2 o (List.mem_toFinset.mp ho)
  calc descents.length = descents.toFinset.card := (List.toFinset_card_of_nodup hl.2.1).symm
    _ ≤ _ := Finset.card_le_card hsub

/-- As many steps down as there are objects to be reached that have no copy are enough. -/
theorem visitsOnce_cloneValue (ht : s.Tame run) (hc : run.heap.Closed) (hv : run.heap.Has v)
    {depth depth' : Nat} (hd : (run.heap.unseen v run.copies).card ≤ depth)
    (hle : depth ≤ depth') : VisitsOnce s run v depth (cloneValue s depth' v run) := by
  have hs : s.silent.Followed { run with journal := [] } v :=
    ⟨⟨⟨ht.silent.overrides, ht.silent.named, ht.silent.resolved⟩, ht.silent.methods⟩,
      (followed_silent ht hc hv).silent, hc, hv⟩
  have hstart : Touring.Idle s.silent { run with journal := [] } v depth
      { run with journal := [] } :=
    ⟨Kept.refl _, hd, [], ⟨rfl, List.nodup_nil, fun _ h => by cases h⟩, fun _ h => by cases h⟩
  have htour := clones_cloneNoting hs depth _ v (fun o ho => .here ho) hstart
  have hecho := echoes_cloneNoting (s := s) hle v { run with journal := [] } run ⟨run.journal, rfl⟩
  refine ends_mono (ends_and htour hecho) ?_ ?_
  · rintro r log ⟨⟨hl, -⟩, hsame⟩
    obtain ⟨descents, hlists, -⟩ := hl.noted
    exact ⟨logsOnce_of_lists hlists, hsame⟩
  · rintro e log ⟨⟨he, descents, hlists⟩, hsame⟩
    exact ⟨he, logsOnce_of_lists hlists, hsame he⟩

/-- A step that begins anew and goes on with the heap. -/
theorem begin_bind_heap (f : Heap → CloneM α) (run : Run) :
    (do begin; f (← heap)) run = f run.heap { run with copies := {} } := rfl

theorem clone_eq (s : Setting) (v : Value) (run : Run) :
    s.clone v run = cloneValue s (depthAllowance run.heap) v { run with copies := {} } := by
  unfold clone
  rw [begin_bind_heap]

theorem size_le_depthAllowance (h : Heap) : h.size ≤ depthAllowance h := by
  unfold depthAllowance
  exact Nat.le_add_right _ _

/-- An operation begins with no copies. -/
theorem Unaided.afresh (hu : s.Unaided run v) : s.Unaided { run with copies := {} } v :=
  ⟨hu.registry, hu.backend, hu.plans, hu.overrides, hu.native, hu.unnamed, hu.heap, hu.root⟩

/-- A clone in an orderly heap goes well: it goes alike beside itself, and could only fail for want
of a container. -/
theorem exists_clone (hu : s.Unaided run v) (hfit : s.FitsOverrides) :
    ∃ r run', s.clone v run = .ok r run' := by
  have hp : s.Paired (between { run with copies := {} } { run with copies := {} } v) :=
    paired_between hu.afresh hu.heap rfl rfl rfl (fun _ _ => rfl) (fun _ _ => rfl)
      fun _ _ => SameButReset.refl _ _ _
  have halike := alike_between hp rfl rfl (size_le_depthAllowance run.heap) (Nat.le_refl _)
  rw [clone_eq]
  rcases tandem_iff.mp halike with ⟨r, run', _, _, hx, -, -⟩ | ⟨_, _, _, _, -, -, hnot, -⟩
  · exact ⟨r, run', hx⟩
  · exact absurd hfit hnot

/-- Cloning comes to an end wherever objects refer only to what is there, and it goes into each
object to be reached once at most; what has a copy when it begins is not gone into. If no routine is
needed and all objects are in order, it goes well. -/
theorem cloning_ends_on_every_heap_and_goes_well_on_orderly_ones (s : Setting) (run : Run)
    (v : Value) (hc : run.heap.Closed) (hv : run.heap.Has v) :
    (s.Tame run →
      VisitsOnce s { run with copies := {} } v (run.heap.reachable v).card (s.clone v run) ∧
      ∀ copies depth depth', (run.heap.unseen v copies).card ≤ depth → depth ≤ depth' →
        VisitsOnce s { run with copies } v depth (cloneValue s depth' v { run with copies })) ∧
    (s.Unaided run v → s.FitsOverrides → ∃ r run', s.clone v run = .ok r run') := by
  constructor
  · intro ht
    have visits : ∀ copies depth depth', (run.heap.unseen v copies).card ≤ depth →
        depth ≤ depth' →
        VisitsOnce s { run with copies } v depth (cloneValue s depth' v { run with copies }) := by
      intro copies depth depth' hd hle
      have ht' : s.Tame { run with copies } := ⟨⟨ht.overrides, ht.named, ht.resolved⟩, ht.methods⟩
      exact visitsOnce_cloneValue ht' hc hv hd hle
    refine ⟨?_, visits⟩
    rw [clone_eq]
    refine visits {} _ _ (Heap.card_unseen_le_reachable _ _ _) ?_
    exact Nat.le_trans (Heap.card_reachable_le _ _) (size_le_depthAllowance run.heap)
  · exact fun hu hfit => exists_clone hu hfit

/-- With the standard policy, and classes of which none names a routine, what is left to ask is of
the heap. -/
theorem unaided_of_standard (hr : s.registry.Built) (hb : s.backend.Over s.registry)
    (hp : s.policy = .standard)
    (hnone : s.registry.entries.all (·.decl.cloneWith.isNone) = true) (hplans : run.plans = [])
    (hheap : run.heap.Orderly s.registry) (hv : run.heap.Has v) : s.Unaided run v where
  registry := hr
  backend := hb
  plans := by
    rw [hplans]
    exact Plans.fit_nil _
  overrides := fun _ cls i h => Policy.standard_override (hp ▸ h)
  native := by
    rw [hp]
    rfl
  unnamed := fun _ _ e he => Option.isNone_iff_eq_none.mp
    (Array.all_eq_true_iff_forall_mem.mp hnone e (Array.mem_of_getElem? he))
  heap := hheap
  root := hv

/-- The instance and its list are in order. -/
theorem unaided_ring : ringSetting.Unaided ringRun (.ref 0) := by
  refine unaided_of_standard (built_add (by decide) rfl rfl) (Or.inr rfl) rfl
    (by decide +kernel) rfl (.of_objects ?_ (by decide +kernel) (by decide +kernel)) ?_
  · intro o ho
    match o, ho with
    | 0, _ =>
      exact ⟨_, Registry.get?_add_new Registry.initial ringNode,
        .of_sized rfl ⟨rfl, rfl⟩ (by decide)⟩
    | 1, _ =>
      exact Registry.Entry.Admits.exists_container (Registry.sound_initial.add ringNode)
        (.list [.ref 0, .ref 0])
  · intro o ho
    cases ho
    decide

/-! ## With self-copy methods -/

theorem builtIn_own (method : SelfCopy) : (ownSetting method).BuiltIn ownRun := by
  refine ⟨?_, ?_, ?_⟩
  · intro _ cls i h
    exact Policy.standard_override h
  · intro _ _ _ maker _ _ hm
    exact Catalog.initial_maker hm
  · intro cls i h
    cases h

theorem closed_ownRun : ownRun.heap.Closed := (fitting_ownRun SelfCopies.shallow).closed

/-- The keeper and the instance that copies itself can be reached from each other, and so can an
instance and its list. Both are gone into once, and the clone of the latter goes well. -/
theorem rings_are_gone_into_once :
    VisitsOnce (ownSetting SelfCopies.shallow) { ownRun with copies := {} } (.ref 0)
      (ownRun.heap.reachable (.ref 0)).card
      ((ownSetting SelfCopies.shallow).clone (.ref 0) ownRun) ∧
    VisitsOnce ringSetting { ringRun with copies := {} } (.ref 0)
      (ringRun.heap.reachable (.ref 0)).card (ringSetting.clone (.ref 0) ringRun) ∧
    ∃ r run', ringSetting.clone (.ref 0) ringRun = .ok r run' := by
  have htame : (ownSetting SelfCopies.shallow).Tame ownRun := by
    refine ⟨builtIn_own _, fun _ cls p method hp hm => ?_⟩
    obtain ⟨e, he, hd⟩ := describes_of_planOf (Plans.fit_nil _) hp
    rw [hd.selfCopy_eq] at hm
    rw [eq_of_selfCopy he hm]
    exact SelfCopies.spares_of_named (show SelfCopies.named? "shallow" = some _ from rfl)
  obtain ⟨hends, hwell⟩ := cloning_ends_on_every_heap_and_goes_well_on_orderly_ones ringSetting
    ringRun (.ref 0) ready_ring.typed.closed unaided_ring.root
  have hfit : ringSetting.FitsOverrides :=
    fitsOverrides_standard (Registry.sound_initial.add ringNode) rfl
  exact ⟨((cloning_ends_on_every_heap_and_goes_well_on_orderly_ones (ownSetting SelfCopies.shallow)
      ownRun (.ref 0) closed_ownRun has_ownRun).1 htame).1,
    (hends ready_ring.tame).1, hwell unaided_ring hfit⟩

/-- Whether a clone with a log ends by itself with no more in its log than there are objects. -/
def endsInTime (s : Setting) (run : Run) (v : Value) (depth : Nat) : Bool :=
  match cloneNoting s.silent depth v { run with journal := [] } with
  | .error .tooDeep _ => false
  | .ok _ log | .error _ log => log.journal.length ≤ run.heap.size

theorem VisitsOnce.endsInTime {depth : Nat} {result : EStateM.Result Stop Run Value}
    (h : VisitsOnce s run v depth result) : endsInTime s run v depth = true := by
  have hlog : ∀ journal, LogsOnce run v journal → journal.length ≤ run.heap.size := by
    rintro _ ⟨descents, ⟨rfl, -⟩, hle⟩
    rw [List.length_map]
    exact hle.trans ((Heap.card_unseen_le_reachable _ _ _).trans (Heap.card_reachable_le _ _))
  unfold VisitsOnce Ends at h
  unfold Setting.endsInTime
  split at h
  · rename_i heq
    rw [heq]
    exact decide_eq_true (hlog _ h.1)
  · rename_i e _ heq
    rw [heq]
    cases e with
    | tooDeep => exact absurd rfl h.1
    | _ => exact decide_eq_true (hlog _ h.2.1)

theorem not_visitsOnce (h : ∀ depth ≤ run.heap.size, endsInTime s run v depth = false)
    (result : EStateM.Result Stop Run Value) :
    ¬ VisitsOnce s run v (run.heap.reachable v).card result := by
  intro hvisits
  have htime := hvisits.endsInTime
  rw [h _ (Heap.card_reachable_le _ _)] at htime
  cases htime

/-- A self-copy method that adds an array to the heap, where the keeper has its numbers, and returns
the instance. -/
def growing : SelfCopy := fun o h =>
  (.ok o, (h.add (Object.new 12 (.packed .i32 []))).setBody 0 (.record [] [.ref o, .ref h.size]))

/-- A class that names a routine. -/
def namingClass : ClassDecl := { ringNode with cloneWith := some "circling" }

/-- A routine that has its source cloned before it lets anything stand for it. -/
def circlingSetting : Setting where
  registry := Registry.initial.add namingClass
  backend := .fast
  policy := .standard
  catalog := [("circling",
    { implementor := .routine fun o => .ask (.clone (.ref o)) (Routine.finish ·) })]

/-- Self-copy methods that write to an object, routines that classes name, and a portable backend
over other classes are what the statement is false with: a method gives a clone more to go into than
could be reached, a routine has its source gone into again and again, and a backend knows nothing of
a class. -/
theorem clones_can_be_led_on_or_fail :
    ((ownSetting growing).BuiltIn ownRun ∧ ownRun.heap.Closed ∧ ownRun.heap.Has (.ref 0) ∧
      ¬ VisitsOnce (ownSetting growing) { ownRun with copies := {} } (.ref 0)
        (ownRun.heap.reachable (.ref 0)).card ((ownSetting growing).clone (.ref 0) ownRun)) ∧
    (circlingSetting.policy = .standard ∧ circlingSetting.policy.flags.useSelfCopy = false ∧
      ringRun.heap.Closed ∧ ringRun.heap.Has (.ref 0) ∧
      ¬ VisitsOnce circlingSetting { ringRun with copies := {} } (.ref 0)
        (ringRun.heap.reachable (.ref 0)).card (circlingSetting.clone (.ref 0) ringRun)) ∧
    (ringSetting.Unaided ringRun (.ref 0) ∧ ringSetting.FitsOverrides ∧
      ∃ e run', { ringSetting with backend := .portable .initial }.clone (.ref 0) ringRun =
        .error (.failed e) run') := by
  refine ⟨⟨builtIn_own growing, closed_ownRun, has_ownRun, not_visitsOnce (by decide +kernel) _⟩,
    ⟨rfl, rfl, ready_ring.typed.closed, unaided_ring.root, not_visitsOnce (by decide +kernel) _⟩,
    unaided_ring, fitsOverrides_standard (Registry.sound_initial.add ringNode) rfl, ?_⟩
  have herror : errorOf? ({ ringSetting with backend := .portable .initial }.clone (.ref 0))
      ringRun = some (.allocation "Node" (.unknownClass "ClassId(12)")) := by
    decide +kernel
  exact ⟨_, errorOf?_eq_some.mp herror⟩

end Setting

end DeepCopy
