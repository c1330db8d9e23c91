-- Implementors and what stands for the objects they clone. What an implementor
-- returns is let stand only when it is done, and only if nothing stands already, so
-- it depends on when it registers a value, and which, whether its source is gone
-- into again and what is found there later.
import DeepCopy.Proofs.Entries

namespace DeepCopy

namespace Setting

open CloneM

variable {s : Setting} {run : Run} {source : ObjectId} {nested : Value → CloneM Value}

/-! ## What stands stays, if implementors register for their sources only -/

/-- Routines that register for their source only. -/
def OwnOnly (source : ObjectId) (r : Routine) : Prop := r.RegistersFor (· = source)

/-- What stood at one point of a run still stands. -/
structure Keeping (s : Setting) (base run : Run) : Prop where
  copies : ∀ o w, base.copies.find? o = some w → run.copies.find? o = some w
  own : s.KeepsTo OwnOnly run

theorem lasting_keeping (s : Setting) (base : Run) : Lasting s (s.Keeping base) := by
  intro run run' ha h
  refine ⟨?_, h.own.advance ha⟩
  rw [ha.copies]
  exact h.copies

theorem Keeping.registered {base : Run} (h : s.Keeping base run)
    (hb : base.copies.find? source = none) (copy : Value) :
    s.Keeping base (run.registered source copy) := by
  refine ⟨?_, h.own.of_resolved rfl⟩
  intro o w ho
  have hne : o ≠ source := by
    rintro rfl
    rw [hb] at ho
    cases ho
  exact (Copies.find?_put_ne _ _ hne).trans (h.copies o w ho)

theorem preserves_keeping (s : Setting) (depth : Nat) (base : Run) (v : Value) :
    Preserves (s.Keeping base) (cloneValue s depth v) := by
  have hP := lasting_keeping s base
  refine preserves_cloneValue (fun depth o run ih h hc => ?_) depth v
  have hb : base.copies.find? o = none := by
    cases hb : base.copies.find? o with
    | none => rfl
    | some w => cases hc.symm.trans (h.copies o w hb)
  have hreg : ∀ run copy, s.Keeping base run → s.Keeping base (run.registered o copy) :=
    fun _ copy h => h.registered hb copy
  refine ends_cloneNew hP hP (fun _ h => h) hreg ih (fun _ h => h.own) ?_ h fun _ => h
  intro i hi
  refine leads_delegate hreg (fun _ h _ => h) ?_
  refine preserves_implement (A := fun source o => o = source) hP hreg ?_ ih hi
  rintro _ rfl
  exact hreg

/-! ## What an implementor returns stands for its source, if it is honest -/

/-- From what its source stands for a routine returns that very value, or nothing stands yet. -/
theorem ends_runRoutine_honest (hn : ∀ base v, Preserves (s.Keeping base) (nested v)) {r : Routine}
    {standing : Option Value} (hr : r.Honest source standing) (hown : s.KeepsTo OwnOnly run)
    (hs : run.copies.find? source = standing) :
    Yields (s.runRoutine nested r) run
      fun v run' => ∀ w, run'.copies.find? source = some w → w = v := by
  induction hr generalizing run with
  | fail e => trivial
  | finish v h =>
    intro w hw
    exact h w (hs.symm.trans hw)
  | register copy next _ ih =>
    have hstep : (run.registered source copy).copies.find? source = some copy :=
      Copies.find?_put _ _ _
    exact ih (hown.of_resolved rfl) hstep
  | clone request next hc _ ih =>
    unfold Yields runRoutine
    rw [ends_bind]
    refine ends_mono (preserves_answer_of_clones (lasting_keeping s run) (hn run) hc run
      ⟨fun _ _ h => h, hown⟩) ?_ (fun _ _ _ => trivial)
    intro reply run' hk
    exact ih reply hk.own (hk.copies _ _ hs)
  | @plain standing request next hp _ ih =>
    have hP : Lasting s fun run' =>
        s.KeepsTo OwnOnly run' ∧ run'.copies.find? source = standing := by
      rintro run₁ run₂ ha ⟨hown, hs⟩
      exact ⟨hown.advance ha, ha.copies ▸ hs⟩
    unfold Yields runRoutine
    rw [ends_bind]
    refine ends_mono (preserves_answer_of_plain hP hp run ⟨hown, hs⟩) ?_ (fun _ _ _ => trivial)
    intro reply run' hrun
    exact ih reply hrun.1 hrun.2

/-- The copy of a container stands for it to the end. -/
theorem ends_duplicateContainer_stands (hn : ∀ base v, Preserves (s.Keeping base) (nested v))
    (hown : s.KeepsTo OwnOnly run) :
    Yields (s.duplicateContainer nested source) run
      fun v run' => run'.copies.find? source = some v := by
  have hP : Lasting s (s.KeepsTo OwnOnly) := fun _ _ ha h => h.advance ha
  unfold duplicateContainer duplicateContainerBy Yields
  rw [ends_bind, ends_heap, ends_bind]
  refine ends_mono (preserves_plan hP _ run hown) ?_ (fun _ _ _ => trivial)
  intro p run₁ h₁
  rw [ends_bind, ends_heap]
  split
  · trivial
  · rename_i contents _
    rw [ends_bind]
    refine ends_mono (preserves_onMemory hP _ run₁ h₁) ?_ (fun _ _ _ => trivial)
    intro target run₂ h₂
    rw [ends_bind, ends_register]
    have h₃ : s.Keeping (run₂.registered source (.ref target))
        (run₂.registered source (.ref target)) := ⟨fun _ _ h => h, h₂.of_resolved rfl⟩
    have hlast := lasting_keeping s (run₂.registered source (.ref target))
    rw [ends_bind]
    refine ends_mono (preserves_cloneContents hlast (hn _) contents _ h₃) ?_ (fun _ _ _ => trivial)
    intro copies run₄ h₄
    rw [ends_bind]
    refine ends_mono (preserves_onMemory hlast _ run₄ h₄) ?_ (fun _ _ _ => trivial)
    intro _ run₅ h₅
    exact h₅.copies source _ (Copies.find?_put _ _ _)

/-- Routines that are honest, nothing being registered when they begin. -/
def Honestly (source : ObjectId) (r : Routine) : Prop := r.Honest source none

theorem KeepsTo.own_of_honest (h : s.KeepsTo Honestly run) : s.KeepsTo OwnOnly run :=
  h.mono fun _ _ hr => hr.registersFor

section Delegating

variable {i : Implementor} {depth : Nat} {v : Value} {run' : Run}

/-- When an implementor has returned, what stood for its source when it was done stands, or else
what it returned. -/
theorem exists_of_delegate (h : s.delegate nested i source run = .ok v run') :
    ∃ run₁, s.implement nested i source run = .ok v run₁ ∧
      run'.copies.find? source = some ((run₁.copies.find? source).getD v) := by
  cases himp : s.implement nested i source run with
  | error e run₁ =>
    cases e with
    | failed e => cases (delegate_of_failed himp).symm.trans h
    | aborted => cases (delegate_of_stop himp fun _ he => by cases he).symm.trans h
    | tooDeep => cases (delegate_of_stop himp fun _ he => by cases he).symm.trans h
  | ok copy run₁ =>
    cases (delegate_of_ok himp).symm.trans h
    refine ⟨run₁, rfl, ?_⟩
    cases hc : run₁.copies.find? source with
    | some w => simpa using hc
    | none => exact Copies.find?_put _ _ _

variable (hown : s.KeepsTo OwnOnly run) (new : run.copies.find? source = none)
include hown new

/-- What stands for the source of an honest implementor when it is done is what it returns. -/
theorem ends_implement_honest (hi : i.KeepsTo Honestly s.scope) :
    Yields (s.implement (cloneValue s depth) i source) run
      fun v run' => ∀ w, run'.copies.find? source = some w → w = v := by
  cases i with
  | containers =>
    refine (ends_duplicateContainer_stands (preserves_keeping s depth) hown).mono ?_
    intro v run' hv w hw
    exact Option.some.inj (hw.symm.trans hv)
  | script sc => exact ends_runRoutine_honest (preserves_keeping s depth) (hi source) hown new
  | routine f => exact ends_runRoutine_honest (preserves_keeping s depth) (hi source) hown new

theorem keeping_of_delegate (h : s.delegate (cloneValue s depth) i source run = .ok v run')
    (hi : i.KeepsTo OwnOnly s.scope) : s.Keeping run run' := by
  have hreg : ∀ now copy, s.Keeping run now → s.Keeping run (now.registered source copy) :=
    fun _ copy h => h.registered new copy
  have himp : Preserves (s.Keeping run) (s.implement (cloneValue s depth) i source) := by
    refine preserves_implement (A := fun source o => o = source) (lasting_keeping s run) hreg ?_
      (preserves_keeping s depth run) hi
    rintro _ rfl
    exact hreg
  exact (ends_of_ok h).mp (leads_delegate hreg (fun _ h _ => h) himp run ⟨fun _ _ h => h, hown⟩)

end Delegating

/-! ## What is found from then on -/

/-- A value stands for an object, it is what further clones find, and it stays. -/
structure Settled (s : Setting) (run : Run) (o : ObjectId) (w : Value) : Prop where
  stands : run.copies.find? o = some w
  resolves : ∀ depth, cloneValue s depth (.ref o) run = .ok w run
  stays : ∀ depth v, Ends (cloneValue s depth v) run
    (fun _ run' => run'.copies.find? o = some w) fun _ run' => run'.copies.find? o = some w

theorem Keeping.settled {base : Run} (h : s.Keeping base run) {o : ObjectId} {w : Value}
    (hw : run.copies.find? o = some w) : s.Settled run o w := by
  refine ⟨hw, cloneValue_of_stands hw, ?_⟩
  intro depth v
  exact ends_mono (preserves_keeping s depth run v run ⟨fun _ _ h => h, h.own⟩)
    (fun _ _ h => h.copies o w hw) (fun _ _ h => h.copies o w hw)

/-- An implementor can do about registering what it likes, and cloning goes by what stands. When an
implementor has returned, what stood for its source when it was done stands, or else what it
returned, and from then on the source is not gone into. If implementors register for their sources
only, that stays, and later occurrences of the source come out as that; if they are honest, it is
what the implementor has returned. If they register before they clone anything, no object is gone
into again, but where that has come to no good end. -/
theorem sharing_is_kept_by_implementors_that_register_first (s : Setting) (depth : Nat) :
    (∀ i source run v run', run.copies.find? source = none →
      s.delegate (cloneValue s depth) i source run = .ok v run' →
      ∃ done w, s.implement (cloneValue s depth) i source run = .ok v done ∧
        w = (done.copies.find? source).getD v ∧ run'.copies.find? source = some w ∧
        (∀ depth' u, s.Logs run' depth' u fun log =>
          (log.copies.find? source).isSome ∧ log.entries source = 0) ∧
        (s.KeepsTo OwnOnly run → i.KeepsTo OwnOnly s.scope → s.Settled run' source w) ∧
        (s.KeepsTo Honestly run → i.KeepsTo Honestly s.scope → w = v)) ∧
    ∀ run, s.KeepsTo Routine.RegistersFirst run → ∀ v, s.Logs run depth v fun log =>
      ∀ o, log.entries o ≤ log.failures o + 1 := by
  constructor
  · intro i source run v run' new h
    obtain ⟨done, himp, hstands⟩ := exists_of_delegate h
    refine ⟨done, _, himp, rfl, hstands, ?_, ?_, ?_⟩
    · intro depth' u
      have hstart : Stood source 0 { run' with journal := [.mark] } :=
        ⟨List.mem_singleton.mpr rfl, Option.isSome_of_eq_some hstands, rfl⟩
      refine ends_mono (logs_of_preserves (preserves_stood s.silent source 0 depth' u) hstart) ?_ ?_
      · exact fun _ _ ⟨h, hend⟩ => ⟨⟨h.stands, h.entries⟩, hend⟩
      · exact fun _ _ ⟨h, hend⟩ => ⟨⟨h.stands, h.entries⟩, hend⟩
    · exact fun hown hi => (keeping_of_delegate hown new h hi).settled hstands
    · intro hhonest hi
      have hdone := yields_of_ok (ends_implement_honest hhonest.own_of_honest new hi) himp
      cases hc : done.copies.find? source with
      | some w => exact hdone w hc
      | none => rfl
  · intro run hfirst v
    have hstart : s.silent.Idle { run with journal := [.mark] } :=
      ⟨List.mem_singleton.mpr rfl, fun _ => Nat.zero_le _, fun _ _ _ => Nat.zero_le _,
        hfirst.silent.of_resolved rfl⟩
    refine ends_mono (logs_of_preserves (preserves_idle s.silent depth v) hstart) ?_ ?_
    · exact fun _ _ ⟨h, hend⟩ => ⟨h.once, hend⟩
    · exact fun _ _ ⟨h, hend⟩ => ⟨h.once, hend⟩

/-! ## A list of itself -/

/-- A list that holds itself, and nothing has a copy. -/
def loopRun : Run :=
  { memory.heap := Heap.add {} (Object.new (Registry.containerClass .arrayList)
      (.container (.list [.ref 0]))) }

/-- A setting in which lists are left to an implementor. -/
def leavingLists (routine : ObjectId → Routine) : Setting :=
  { registry := .initial
    backend := .fast
    policy := { overrides := [(Registry.containerClass .arrayList, .routine routine)] } }

/-- Makes a list of the clone of the first item, and registers nothing. -/
def forgetful (source : ObjectId) : Routine :=
  .ask (.look source) fun list =>
    match list.body.values with
    | [] => .finish (.ok .null)
    | item :: _ =>
      .ask (.clone item) <| .onOk fun copy =>
        .ask (.create list.cls (.container (.list [copy]))) fun o => .finish (.ok (.ref o))

/-- Makes an empty list, and lets a number stand for the source. -/
def deceitful (source : ObjectId) : Routine :=
  .ask (.register source (.int 7)) fun _ =>
    .ask (.create (Registry.containerClass .arrayList) (.container (.list []))) fun o =>
      .finish (.ok (.ref o))

/-- Makes a list, lets it stand for the source, and then fills it with the clone of the source. -/
def prompt (source : ObjectId) : Routine :=
  .ask (.create (Registry.containerClass .arrayList) (.container (.list []))) fun o =>
    .ask (.register source (.ref o)) fun _ =>
      .ask (.clone (.ref source)) <| .onOk fun copy =>
        .ask (.overwrite o (.container (.list [copy]))) fun _ => .finish (.ok (.ref o))

theorem honest_prompt (source : ObjectId) : (prompt source).Honest source none := by
  refine .plain _ _ rfl fun o => .register _ _ (.clone _ _ rfl fun reply => ?_)
  cases reply with
  | error e => exact .fail e
  | ok copy => exact .plain _ _ rfl fun _ => .finish _ fun w hw => (Option.some.inj hw).symm

theorem keepsTo_leavingLists {rule : ObjectId → Routine → Prop} {routine : ObjectId → Routine}
    (h : ∀ source, rule source (routine source)) : (leavingLists routine).KeepsTo rule loopRun := by
  refine ⟨?_, ?_, fun cls i hi => (by cases hi)⟩
  · intro cls i hi
    have hm := Assoc.mem_of_find? hi
    obtain ⟨rfl, rfl⟩ := Prod.mk.inj (List.mem_singleton.mp hm)
    exact h
  · intro name maker hm
    rw [Catalog.initial_maker hm]
    trivial

/-- An empty list. -/
def emptyList : Object := Object.new (Registry.containerClass .arrayList) (.container (.list []))

/-- The run after an empty list was made, with a value that stands for the list that holds
itself. -/
def listedRun (copy : Value) : Run where
  memory := { heap := loopRun.heap.add emptyList }
  copies := loopRun.copies.put 0 copy

theorem listedRun_stands (copy : Value) : (listedRun copy).copies.find? 0 = some copy :=
  Copies.find?_put loopRun.copies 0 copy

/-- A list that holds itself is gone into once by an implementor that registers first. -/
theorem a_list_of_itself_is_entered_once :
    (leavingLists prompt).KeepsTo Routine.RegistersFirst loopRun ∧
    ((leavingLists prompt).Logs loopRun 2 (.ref 0) fun log =>
      ∀ o, log.entries o ≤ log.failures o + 1) ∧
    ∃ run', (leavingLists prompt).delegate (cloneValue (leavingLists prompt) 2) (.routine prompt) 0
        loopRun = .ok (.ref 1) run' ∧ (leavingLists prompt).Settled run' 0 (.ref 1) := by
  have hhonest : (leavingLists prompt).KeepsTo Honestly loopRun :=
    keepsTo_leavingLists honest_prompt
  have hfirst : (leavingLists prompt).KeepsTo Routine.RegistersFirst loopRun :=
    hhonest.mono fun _ _ hr => hr.registersFirst rfl
  obtain ⟨hdelegate, hlogs⟩ :=
    sharing_is_kept_by_implementors_that_register_first (leavingLists prompt) 2
  have hstands := listedRun_stands (.ref 1)
  have himp : (leavingLists prompt).implement (cloneValue (leavingLists prompt) 2)
      (.routine prompt) 0 loopRun = .ok (.ref 1) { listedRun (.ref 1) with
        memory.heap := (listedRun (.ref 1)).heap.setBody 1 (.container (.list [.ref 1])) } := by
    have hclone := cloneValue_of_stands (s := leavingLists prompt) hstands 2
    show (outcome (cloneValue (leavingLists prompt) 2 (.ref 0)) >>= _) (listedRun (.ref 1)) = _
    exact (bind_of_ok (outcome_of_ok hclone)).trans rfl
  have hcall := delegate_of_stands himp hstands
  obtain ⟨done, w, -, -, -, -, hsettled, hw⟩ :=
    hdelegate (.routine prompt) 0 loopRun (.ref 1) _ rfl hcall
  have hown : ∀ source, OwnOnly source (prompt source) := fun source =>
    (honest_prompt source).registersFor
  rw [hw hhonest honest_prompt] at hsettled
  exact ⟨hfirst, hlogs loopRun hfirst (.ref 0), _, hcall, hsettled hhonest.own_of_honest hown⟩

/-- An implementor that registers nothing is entered again and again where its source refers to
itself, however deep a clone may go; and where it has registered something else, that and not what
it returned is what later occurrences come out as. -/
theorem implementors_can_break_cycles_and_sharing :
    (∀ depth, cloneValue (leavingLists forgetful) depth (.ref 0) loopRun =
      .error .tooDeep loopRun) ∧
    ∃ run', (leavingLists deceitful).delegate (cloneValue (leavingLists deceitful) 1)
        (.routine deceitful) 0 loopRun = .ok (.ref 1) run' ∧
      cloneValue (leavingLists deceitful) 1 (.ref 0) run' = .ok (.int 7) run' := by
  constructor
  · intro depth
    induction depth with
    | zero => exact cloneValue_zero_of_new (Copies.find?_empty 0)
    | succ depth ih =>
      rw [cloneValue_succ_of_new (Copies.find?_empty 0)]
      have himp : (leavingLists forgetful).implement (cloneValue (leavingLists forgetful) depth)
          (.routine forgetful) 0 loopRun = .error .tooDeep loopRun := by
        show (outcome (cloneValue (leavingLists forgetful) depth (.ref 0)) >>= _) loopRun = _
        exact bind_of_error (outcome_of_stop ih fun _ h => by cases h)
      exact delegate_of_stop himp fun _ h => by cases h
  · have hstands := listedRun_stands (.int 7)
    exact ⟨listedRun (.int 7), delegate_of_stands rfl hstands, cloneValue_of_stands hstands 1⟩

end Setting

end DeepCopy
