-- Clones that are broken off at a deed. Up to there they have done what is done if
-- nobody breaks the clone off, so their logs are how the whole log begins.
import DeepCopy.Proofs.Deeds
import DeepCopy.Proofs.Lasting

namespace DeepCopy

open CloneM

/-! ## Broken off on the way -/

/-- The second computation only adds to the journal, and the first does the same, or breaks off with
the beginning of what the second writes. -/
structure Cuts {α : Type} (x y : CloneM α) : Prop where
  grows : ∀ run : Run, run.journal <+: (after y run).journal
  cut : ∀ run, x run = y run ∨
    ∃ run', x run = .error .aborted run' ∧ run'.journal <+: (after y run).journal

theorem lasting_journal (s : Setting) (journal : List Note) :
    Lasting s fun run => journal <+: run.journal := by
  intro run run' ha h
  obtain ⟨notes, hn⟩ := ha.journal
  rw [hn]
  exact h.trans (List.prefix_append _ _)

section Steps

variable {α β : Type} {x y : CloneM α}

/-- A step that nobody can break off. -/
theorem Cuts.same (h : ∀ journal, Preserves (fun run => journal <+: run.journal) x) : Cuts x x :=
  ⟨fun run => ends_after (h run.journal run (List.prefix_refl _)), fun _ => Or.inl rfl⟩

theorem cuts_pure (a : α) : Cuts (pure a) (pure a) := .same fun _ => preserves_pure a

theorem cuts_fail (e : CloneError) : Cuts (fail e : CloneM α) (fail e) :=
  .same fun _ => leads_fail e

theorem cuts_onMemory (x : CopyM α) : Cuts (onMemory x) (onMemory x) := by
  refine .same fun journal run h => ?_
  rw [ends_onMemory]
  unfold Ends
  cases x run.memory <;> exact h

theorem cuts_register (o : ObjectId) (v : Value) : Cuts (register o v) (register o v) :=
  .same fun _ _ h => h

theorem cuts_copyOf (o : ObjectId) : Cuts (copyOf o) (copyOf o) := .same fun _ _ h => h

theorem cuts_heap : Cuts heap heap := .same fun _ _ h => h

theorem cuts_told {tell : Deed → CloneM Unit} (ht : Tells tell) (d : Deed) :
    Cuts (tell d) d.write where
  grows run := List.prefix_append _ _
  cut run := by
    rcases ht d run with h | h
    · exact Or.inl h
    · exact Or.inr ⟨_, h, List.prefix_refl _⟩

theorem after_bind (x : CloneM α) (f : α → CloneM β) (run : Run) :
    after (x >>= f) run =
      match x run with
      | .ok a run' => after (f a) run'
      | .error _ run' => run' := by
  simp only [after, bind, EStateM.bind]
  cases x run <;> rfl

theorem Cuts.bind {f g : α → CloneM β} (h : Cuts x y) (hf : ∀ a, Cuts (f a) (g a)) :
    Cuts (x >>= f) (y >>= g) := by
  have grows : ∀ run, (after y run).journal <+: (after (y >>= g) run).journal := by
    intro run
    rw [after_bind, after]
    cases y run with
    | ok a run' => exact (hf a).grows run'
    | error e run' => exact List.prefix_refl _
  refine ⟨fun run => (h.grows run).trans (grows run), fun run => ?_⟩
  rcases h.cut run with heq | ⟨run', heq, hpre⟩
  · cases hy : y run with
    | ok a run' =>
      rw [bind_of_ok hy, bind_of_ok (heq.trans hy), after_bind, hy]
      exact (hf a).cut run'
    | error e run' =>
      rw [bind_of_error hy, bind_of_error (heq.trans hy)]
      exact Or.inl rfl
  · exact Or.inr ⟨run', bind_of_error heq, hpre.trans (grows run)⟩

theorem cuts_outcome (h : Cuts x y) : Cuts (outcome x) (outcome y) := by
  have hafter : ∀ run, after (outcome y) run = after y run := by
    intro run
    simp only [after, outcome]
    cases y run with
    | ok a run' => rfl
    | error e run' => cases e <;> rfl
  refine ⟨fun run => hafter run ▸ h.grows run, fun run => ?_⟩
  rw [hafter]
  rcases h.cut run with heq | ⟨run', heq, hpre⟩
  · left
    simp only [outcome, heq]
  · exact Or.inr ⟨run', outcome_of_stop heq (by simp), hpre⟩

/-- However both end, the journal of the first is how that of the second begins. -/
theorem Cuts.journal (h : Cuts x y) (run : Run) :
    (after x run).journal <+: (after y run).journal := by
  rcases h.cut run with heq | ⟨part, heq, hpart⟩
  · have hafter : after x run = after y run := by
      unfold after
      rw [heq]
    exact hafter ▸ List.prefix_refl _
  · have hafter : after x run = part := by
      unfold after
      rw [heq]
    exact hafter ▸ hpart

end Steps

theorem cuts_askTelling {tell : Deed → CloneM Unit} (ht : Tells tell) (o : ObjectId) :
    Cuts (askTelling tell o) (askTelling Deed.write o) :=
  (cuts_told ht _).bind fun _ => cuts_copyOf o

theorem cuts_registerTelling {tell : Deed → CloneM Unit} (ht : Tells tell) (o : ObjectId)
    (copy : Value) : Cuts (registerTelling tell o copy) (registerTelling Deed.write o copy) :=
  (cuts_register o copy).bind fun _ => cuts_told ht _

theorem cuts_cloneMet {tell : Deed → CloneM Unit} (ht : Tells tell)
    {nested nested' : Value → CloneM Value} (hn : ∀ v, Cuts (nested v) (nested' v))
    (source : ObjectId) (v : Value) :
    Cuts (cloneMet tell nested source v) (cloneMet Deed.write nested' source v) :=
  (cuts_told ht _).bind fun _ => hn v

/-! ## The traversal -/

namespace Setting

variable {s : Setting}

theorem cuts_verdict (cls : ClassId) (o : ObjectId) : Cuts (s.verdict cls o) (s.verdict cls o) := by
  refine .same fun journal run h => ?_
  rw [ends_verdict]
  exact (lasting_journal s journal).asked h cls

theorem cuts_copyItself (method : SelfCopy) (source : ObjectId) (p : Plan) :
    Cuts (copyItself method source p) (copyItself method source p) := by
  refine .same fun journal run h => ?_
  unfold copyItself
  simp only [ends_bind, ends_heap, ends_modify]
  cases (method source run.heap).1 with
  | ok copy => exact h
  | error e => cases e <;> exact h

/-- With the same catalog on both sides, all that is done with an object is done by the first as far
as it comes. -/
theorem deciding_cuts (s : Setting) :
    Stepwise.Deciding (fun α (x : Bool → CloneM α) => Cuts (x true) (x false)) s
      (fun _ => s.catalog) where
  pure := cuts_pure
  bind hx hf := hx.bind hf
  memory _ := cuts_onMemory _
  heap := cuts_heap
  plan cls := .same fun journal => preserves_plan (lasting_journal s journal) cls
  access _ _ _ _ := cuts_fail _
  fail := cuts_fail
  outcome hx := cuts_outcome hx
  register := cuts_register
  plain {q} hq nested := by
    show Cuts (s.answer (nested true) q) (s.answer (nested false) q)
    rw [answer_of_plain hq (nested true) (nested false)]
    exact .same fun journal => preserves_answer_of_plain (lasting_journal s journal) hq
  verdict := cuts_verdict
  named p name := .same fun journal => preserves_namedImplementor (lasting_journal s journal) p name
  itself := cuts_copyItself

theorem cuts_cloneNewBy {nested nested' : Value → CloneM Value}
    {look look' : ObjectId → CloneM (Option Value)} {enter enter' : ObjectId → Value → CloneM Unit}
    (hn : ∀ v, Cuts (nested v) (nested' v)) (hl : ∀ o, Cuts (look o) (look' o))
    (he : ∀ o v, Cuts (enter o v) (enter' o v)) (source : ObjectId) :
    Cuts (s.cloneNewBy nested look enter source) (s.cloneNewBy nested' look' enter' source) :=
  (deciding_cuts s).cloneNew (fun i v => cond i (nested v) (nested' v)) hn
    (fun i o v => cond i (enter o v) (enter' o v)) he (fun i o => cond i (look o) (look' o)) hl
    source

/-- A clone that is broken off at a deed has done as much of what the clone does. -/
theorem cuts_cloneTelling {tell : Deed → CloneM Unit} (ht : Tells tell) (depth : Nat) (v : Value) :
    Cuts (cloneTelling s tell depth v) (cloneTelling s Deed.write depth v) := by
  induction depth generalizing v with
  | zero =>
    cases v with
    | ref o =>
      unfold cloneTelling
      refine (cuts_askTelling ht o).bind fun found => ?_
      cases found with
      | some copy => exact cuts_pure copy
      | none => exact .same fun _ _ h => h
    | _ =>
      unfold cloneTelling
      exact cuts_pure _
  | succ depth ih =>
    cases v with
    | ref o =>
      unfold cloneTelling
      refine (cuts_askTelling ht o).bind fun found => ?_
      cases found with
      | some copy => exact cuts_pure copy
      | none =>
        exact (cuts_told ht _).bind fun _ => cuts_cloneNewBy (cuts_cloneMet ht ih o)
          (cuts_askTelling ht) (cuts_registerTelling ht) o
    | _ =>
      unfold cloneTelling
      exact cuts_pure _

end Setting

end DeepCopy
