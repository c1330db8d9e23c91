-- How often objects are gone into. A log of that is put in front of the journal,
-- where routines write nothing. Nothing is gone into for which a value stands, and
-- if routines register first, nothing is gone into twice.
import Mathlib.Data.List.TakeWhile
import DeepCopy.Proofs.RegistrationRules

namespace DeepCopy

open CloneM

/-! ## A log in front of the journal -/

/-- What the journal starts with when a log is put in front of it. -/
def Note.mark : Note := .visited 0

/-- The note that an object was gone into and that it came to no good end. -/
def Note.failure (o : ObjectId) : Note := .found (some (.ref o))

namespace Run

/-- There is a mark in the journal. -/
def Marked (run : Run) : Prop := Note.mark ∈ run.journal

/-- The journal as far as the mark. -/
def log (run : Run) : List Note := run.journal.takeWhile (· ≠ .mark)

/-- How often an object was gone into. -/
def entries (run : Run) (o : ObjectId) : Nat := run.log.count (.descent o)

/-- How often that came to no good end. -/
def failures (run : Run) (o : ObjectId) : Nat := run.log.count (.failure o)

variable {run run' : Run} {s : Setting}

theorem Marked.advance (h : run.Marked) (ha : Advances s run run') : run'.Marked := by
  obtain ⟨notes, hj⟩ := ha.journal
  unfold Marked
  rw [hj]
  exact List.mem_append_left notes h

/-- What is written behind the mark does not get into the log. -/
theorem log_advance (h : run.Marked) (ha : Advances s run run') : run'.log = run.log := by
  obtain ⟨notes, hj⟩ := ha.journal
  unfold log
  rw [hj, List.takeWhile_append, if_neg]
  intro hlen
  have hall := (List.takeWhile_prefix _).eq_of_length hlen
  simpa using List.takeWhile_eq_self_iff.mp hall _ h

theorem log_cons {n : Note} (hn : n ≠ .mark) :
    ({ run with journal := n :: run.journal } : Run).log = n :: run.log := by
  unfold log
  simp only [List.takeWhile_cons, hn, ne_eq, not_false_eq_true, decide_true, if_true]

end Run

/-- Puts notes in front of the journal. -/
def CloneM.prepend (notes : List Note) : CloneM Unit :=
  modify fun run => { run with journal := notes ++ run.journal }

/-- Puts a note in front of the journal if a step comes to no good end. -/
def CloneM.orNote {α : Type} (note : Note) (x : CloneM α) : CloneM α := fun run =>
  match x run with
  | .ok a run' => .ok a run'
  | .error e run' => .error e { run' with journal := note :: run'.journal }

/-- A clone of a value that logs each object it goes into to get a copy of it, and each time that
comes to no good end. -/
def cloneLogging (s : Setting) : (depth : Nat) → Value → CloneM Value
  | depth, .ref o => do
    match ← copyOf o with
    | some copy => pure copy
    | none =>
      match depth with
      | 0 => throw .tooDeep
      | depth + 1 => do
        prepend (if s.fate (← get) o = .copied then [.descent o] else [])
        orNote (.failure o) (s.cloneNew (cloneLogging s depth) o)
  | _, v => pure v

section Logging

variable {s : Setting} {run : Run} {P : Run → Prop}

@[simp] theorem ends_prepend {Q : Unit → Run → Prop} {E : Stop → Run → Prop} (notes : List Note) :
    Ends (prepend notes) run Q E ↔ Q () { run with journal := notes ++ run.journal } := Iff.rfl

theorem ends_orNote {α : Type} {x : CloneM α} {note : Note} {Q : α → Run → Prop}
    {E : Stop → Run → Prop} : Ends (orNote note x) run Q E ↔
      Ends x run Q fun e run' => E e { run' with journal := note :: run'.journal } := by
  simp only [orNote, Ends]
  cases x run <;> rfl

/-- A property outlasts a clone with a log if it outlasts going into an object that has no copy,
with what is logged of it. -/
theorem preserves_cloneLogging
    (hnew : ∀ depth o run, (∀ v, Preserves P (cloneLogging s depth v)) → P run →
      run.copies.find? o = none → Ends (s.cloneNew (cloneLogging s depth) o)
        { run with journal :=
            (if s.fate run o = .copied then [.descent o] else []) ++ run.journal }
        (fun _ => P) fun _ run' => P { run' with journal := .failure o :: run'.journal })
    (depth : Nat) (v : Value) : Preserves P (cloneLogging s depth v) := by
  induction depth generalizing v with
  | zero =>
    cases v with
    | ref o =>
      unfold cloneLogging
      intro run h
      rw [ends_bind, ends_copyOf]
      split <;> exact h
    | _ =>
      unfold cloneLogging
      exact preserves_pure _
  | succ depth ih =>
    cases v with
    | ref o =>
      unfold cloneLogging
      intro run h
      rw [ends_bind, ends_copyOf]
      split
      · exact h
      · rename_i hc
        rw [ends_bind, ends_get, ends_bind, ends_prepend, ends_orNote]
        exact hnew depth o run ih h hc
    | _ =>
      unfold cloneLogging
      exact preserves_pure _

theorem Echoes.orNote {α : Type} {x y : CloneM α} (h : Echoes x y) (note : Note) :
    Echoes (orNote note x) y := by
  intro a b hab
  rw [ends_orNote]
  refine ends_mono (h a b hab) (fun _ _ h => h) ?_
  intro e a' hy hne
  obtain ⟨b', hb, journal, rfl⟩ := hy hne
  exact ⟨_, hb, journal, rfl⟩

/-- Notes that are put in front make no difference. -/
theorem Echoes.of_prepending {α : Type} {x y : CloneM α} (h : Echoes x y)
    (notes : Run → List Note) :
    Echoes (get >>= fun run => prepend (notes run) >>= fun _ => x) y := by
  rintro a _ ⟨journal, rfl⟩
  exact h { a with journal := notes a ++ a.journal } _ ⟨journal, rfl⟩

end Logging

namespace Setting

variable {s : Setting} {run : Run}

theorem echoes_cloneLogging (s : Setting) (depth : Nat) (v : Value) :
    Echoes (cloneLogging s.silent depth v) (cloneValue s depth v) := by
  induction depth generalizing v with
  | zero =>
    cases v with
    | ref o =>
      unfold cloneLogging cloneValue
      refine (echoes_copyOf o).bind fun found => ?_
      cases found with
      | some copy => exact echoes_pure copy
      | none => exact echoes_throw _
    | _ =>
      unfold cloneLogging cloneValue
      exact echoes_pure _
  | succ depth ih =>
    cases v with
    | ref o =>
      unfold cloneLogging cloneValue
      refine (echoes_copyOf o).bind fun found => ?_
      cases found with
      | some copy => exact echoes_pure copy
      | none => exact Echoes.of_prepending ((echoes_cloneNew ih o).orNote _) _
    | _ =>
      unfold cloneLogging cloneValue
      exact echoes_pure _

/-- A clone that is logged comes to the end that the clone itself comes to, unless it has gone too
deep, and its log is as `Q` says. -/
def Logs (s : Setting) (run : Run) (depth : Nat) (v : Value) (Q : Run → Prop) : Prop :=
  Ends (cloneLogging s.silent depth v) { run with journal := [.mark] }
    (fun r log => Q log ∧ ∃ run', cloneValue s depth v run = .ok r run' ∧ log.Same run')
    fun e log => Q log ∧ (e ≠ .tooDeep →
      ∃ run', cloneValue s depth v run = .error e run' ∧ log.Same run')

theorem logs_of_preserves {P : Run → Prop} {depth : Nat} {v : Value}
    (h : Preserves P (cloneLogging s.silent depth v)) (hrun : P { run with journal := [.mark] }) :
    s.Logs run depth v P := by
  have hecho := echoes_cloneLogging s depth v { run with journal := [.mark] } run ⟨run.journal, rfl⟩
  exact ends_mono (ends_and (h _ hrun) hecho) (fun _ _ h => h) (fun _ _ h => h)

end Setting

/-! ## Nothing is gone into for which a value stands -/

/-- A value stands for an object, and the log has it a number of times. -/
structure Stood (o : ObjectId) (count : Nat) (run : Run) : Prop where
  marked : run.Marked
  stands : (run.copies.find? o).isSome
  entries : run.entries o = count

section Standing

variable {run : Run} {o : ObjectId} {count : Nat}

theorem lasting_stood (s : Setting) (o : ObjectId) (count : Nat) : Lasting s (Stood o count) := by
  intro run run' ha h
  refine ⟨h.marked.advance ha, ?_, ?_⟩
  · rw [ha.copies]
    exact h.stands
  · unfold Run.entries
    rw [Run.log_advance h.marked ha]
    exact h.entries

theorem Stood.registered {count : Nat} (h : Stood o count run) (o' : ObjectId) (copy : Value) :
    Stood o count (run.registered o' copy) :=
  ⟨h.marked, run.isSome_registered o o' copy h.stands, h.entries⟩

theorem Stood.note {count : Nat} (h : Stood o count run) {n : Note} (hm : n ≠ .mark)
    (hn : n ≠ .descent o) : Stood o count { run with journal := n :: run.journal } := by
  refine ⟨List.mem_cons_of_mem _ h.marked, h.stands, ?_⟩
  unfold Run.entries
  rw [Run.log_cons hm, List.count_cons_of_ne hn]
  exact h.entries

/-- While a value stands for an object, the object is not gone into, whatever implementors do. -/
theorem preserves_stood (s : Setting) (o : ObjectId) (count : Nat) (depth : Nat) (v : Value) :
    Preserves (Stood o count) (cloneLogging s depth v) := by
  have hP := lasting_stood s o count
  have hreg : ∀ o' run copy, Stood o count run → Stood o count (run.registered o' copy) :=
    fun o' _ copy h => h.registered o' copy
  refine preserves_cloneLogging (fun depth o' run ih h hc => ?_) depth v
  have hne : o' ≠ o := by
    rintro rfl
    have hs := h.stands
    rw [hc] at hs
    cases hs
  have h₁ : Stood o count { run with journal :=
      (if s.fate run o' = .copied then [Note.descent o'] else []) ++ run.journal } := by
    split
    · exact h.note (by simp [Note.descent, Note.mark]) (by simpa [Note.descent] using hne)
    · exact h
  refine ends_mono (Setting.preserves_cloneNew hP hreg ih o' _ h₁) (fun _ _ h => h) ?_
  intro _ _ h
  exact h.note (by simp [Note.failure, Note.mark]) (by simp [Note.failure, Note.descent])

end Standing

namespace Setting

variable {s : Setting} {run : Run} {source : ObjectId} {nested : Value → CloneM Value}

/-! ## Nothing is gone into twice, if implementors register first -/

/-- In the log no object is gone into more often than it came to no good end before, but once more
if a value stands for it or it was begun just now. -/
structure Tallied (s : Setting) (begun : ObjectId → Prop) (run : Run) : Prop where
  marked : run.Marked
  once : ∀ o, run.entries o ≤ run.failures o + 1
  idle : ∀ o, run.copies.find? o = none → ¬ begun o → run.entries o ≤ run.failures o
  first : s.KeepsTo Routine.RegistersFirst run

/-- No object was begun just now. -/
abbrev Idle (s : Setting) : Run → Prop := s.Tallied fun _ => False

section Tallied

variable {begun : ObjectId → Prop}

theorem lasting_tallied (s : Setting) (begun : ObjectId → Prop) :
    Lasting s (s.Tallied begun) := by
  intro run run' ha h
  have hlog := Run.log_advance h.marked ha
  refine ⟨h.marked.advance ha, ?_, ?_, h.first.advance ha⟩
  · unfold Run.entries Run.failures
    rw [hlog]
    exact h.once
  · unfold Run.entries Run.failures
    rw [hlog, ha.copies]
    exact h.idle

theorem Tallied.mono {begun' : ObjectId → Prop} (h : s.Tallied begun run)
    (hb : ∀ o, run.copies.find? o = none → begun o → begun' o) : s.Tallied begun' run :=
  ⟨h.marked, h.once, fun o hc hn => h.idle o hc fun ho => hn (hb o hc ho), h.first⟩

theorem Tallied.registered (h : s.Tallied begun run) (o : ObjectId) (copy : Value) :
    s.Tallied (fun o' => begun o' ∧ o' ≠ o) (run.registered o copy) := by
  refine ⟨h.marked, h.once, ?_, h.first.of_resolved rfl⟩
  intro o' hc hn
  have hne : o' ≠ o := by
    rintro rfl
    rw [Run.registered, Copies.find?_put] at hc
    cases hc
  rw [Run.registered, Copies.find?_put_ne _ _ hne] at hc
  exact h.idle o' hc fun hb => hn ⟨hb, hne⟩

/-- Something is registered for the only object that was begun. -/
theorem Tallied.settle (h : s.Tallied begun run) (hb : ∀ o, begun o → o = source) (copy : Value) :
    s.Idle (run.registered source copy) :=
  (h.registered source copy).mono fun o _ ho => ho.2 (hb o ho.1)

/-- An object is begun for which nothing stands. -/
theorem Tallied.begin (h : s.Idle run) {o : ObjectId} (new : run.copies.find? o = none) :
    s.Tallied (· = o) { run with journal := .descent o :: run.journal } := by
  have hlog : ({ run with journal := .descent o :: run.journal } : Run).log =
      .descent o :: run.log := Run.log_cons (by simp [Note.descent, Note.mark])
  have hfail : ∀ o', (Note.descent o :: run.log).count (.failure o') = run.failures o' :=
    fun o' => List.count_cons_of_ne (by simp [Note.failure, Note.descent])
  refine ⟨List.mem_cons_of_mem _ h.marked, ?_, ?_, h.first.of_resolved rfl⟩
  · intro o'
    unfold Run.entries
    rw [Run.failures, hlog, hfail, List.count_cons]
    split
    · rename_i heq
      have heq : Note.descent o = .descent o' := by simpa using heq
      cases heq
      exact Nat.succ_le_succ (h.idle o new fun hf => hf)
    · exact h.once o'
  · intro o' hc hn
    unfold Run.entries
    rw [Run.failures, hlog, hfail, List.count_cons_of_ne]
    · exact h.idle o' hc fun hf => hf
    · intro heq
      cases heq
      exact hn rfl

/-- The object that was begun came to no good end. -/
theorem Tallied.giveUp (h : s.Tallied begun run) (hb : ∀ o, begun o → o = source) :
    s.Idle { run with journal := .failure source :: run.journal } := by
  have hlog : ({ run with journal := .failure source :: run.journal } : Run).log =
      .failure source :: run.log := Run.log_cons (by simp [Note.failure, Note.mark])
  have hentries : ∀ o, (Note.failure source :: run.log).count (.descent o) = run.entries o :=
    fun o => List.count_cons_of_ne (by simp [Note.failure, Note.descent])
  have hfailures : ∀ o, run.failures o ≤ (Note.failure source :: run.log).count (.failure o) :=
    fun o => List.count_le_count_cons
  refine ⟨List.mem_cons_of_mem _ h.marked, ?_, ?_, h.first.of_resolved rfl⟩
  · intro o
    unfold Run.failures
    rw [Run.entries, hlog, hentries]
    exact Nat.le_trans (h.once o) (Nat.succ_le_succ (hfailures o))
  · intro o hc _
    unfold Run.failures
    rw [Run.entries, hlog, hentries]
    by_cases heq : o = source
    · subst heq
      rw [List.count_cons_self]
      exact h.once o
    · exact Nat.le_trans (h.idle o hc fun ho => heq (hb o ho)) (hfailures o)

section Routines

variable (hn : ∀ v, Preserves s.Idle (nested v)) (hb : ∀ o, begun o → o = source)
include hn hb

/-- A routine that registers first clones nothing while its source is only begun. -/
theorem preserves_runRoutine_first {r : Routine} (hr : r.RegistersFirst source) :
    Preserves (s.Tallied begun) (s.runRoutine nested r) := by
  have hP := lasting_tallied s begun
  have hQP : ∀ run, s.Idle run → s.Tallied begun run :=
    fun _ h => h.mono fun _ _ hf => hf.elim
  induction hr with
  | finish result => exact preserves_ofExcept result
  | register copy next =>
    have hrest : Preserves s.Idle (s.runRoutine nested (next ())) := by
      refine preserves_runRoutine (lasting_tallied s _) hn ?_ (Routine.registersFor_any _)
      exact fun o _ run copy h => (h.registered o copy).mono fun _ _ h => h.1
    have hleads : Leads (s.Tallied begun) s.Idle
        (s.runRoutine nested (.ask (.register source copy) next)) :=
      (leads_register (fun _ copy h => h.settle hb copy) copy).bind hQP fun _ => hrest
    exact fun run h => ends_mono (hleads run h) (fun _ _ h => hQP _ h) (fun _ _ h => h)
  | ask request next hc _ ih =>
    refine Preserves.bind ?_ ih
    cases hp : request.isPlain with
    | true => exact preserves_answer_of_plain hP hp
    | false =>
      cases request with
      | register o copy =>
        exact leads_register (fun _ copy h => (h.registered o copy).mono fun _ _ h => h.1) copy
      | clone v => cases hc
      | cloneFields source target => cases hc
      | _ => cases hp

theorem leads_delegate_first {i : Implementor} (hi : i.KeepsTo Routine.RegistersFirst s.scope) :
    Leads (s.Tallied begun) s.Idle (s.delegate nested i source) := by
  have hQP : ∀ run, s.Idle run → s.Tallied begun run :=
    fun _ h => h.mono fun _ _ hf => hf.elim
  refine leads_delegate (fun _ copy h => h.settle hb copy) ?_ ?_
  · intro run h hs
    refine h.mono fun o hc ho => ?_
    rw [← hb o ho, hc] at hs
    cases hs
  · cases i with
    | containers =>
      have hleads : Leads (s.Tallied begun) s.Idle (s.duplicateContainer nested source) :=
        leads_duplicateContainer (lasting_tallied s _) (lasting_tallied s _) hQP
          (fun _ copy h => h.settle hb copy) hn
      exact fun run h => ends_mono (hleads run h) (fun _ _ h => hQP _ h) (fun _ _ h => h)
    | script sc => exact preserves_runRoutine_first hn hb (hi source)
    | routine f => exact preserves_runRoutine_first hn hb (hi source)

end Routines

end Tallied

theorem preserves_idle (s : Setting) (depth : Nat) (v : Value) :
    Preserves s.Idle (cloneLogging s depth v) := by
  refine preserves_cloneLogging (fun depth o run ih h hc => ?_) depth v
  -- The object is begun if it is to get a copy, and only then.
  let begun : ObjectId → Prop := fun o' => o' = o ∧ s.fate run o = .copied
  have hb : ∀ o', begun o' → o' = o := fun _ h => h.1
  have h₁ : s.Tallied begun { run with journal :=
      (if s.fate run o = .copied then [Note.descent o] else []) ++ run.journal } := by
    split
    · rename_i hf
      exact (Tallied.begin h hc).mono fun _ _ ho => ⟨ho, hf⟩
    · exact h.mono fun _ _ hf => hf.elim
  refine ends_mono (ends_cloneNew (lasting_tallied s begun) (lasting_tallied s _)
    (fun _ h => h.mono fun _ _ hf => hf.elim) (fun _ copy h => h.settle hb copy) ih
    (fun _ h => h.first) (fun i hi => leads_delegate_first ih hb hi) h₁ ?_) (fun _ _ h => h) ?_
  · intro hf
    exact h₁.mono fun _ _ ho => hf ho.2
  · intro _ _ h
    exact h.giveUp hb

end Setting

end DeepCopy
