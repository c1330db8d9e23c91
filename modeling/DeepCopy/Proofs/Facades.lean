-- What two cloners have in common on plain data. One that follows all rules and
-- one that follows none make the same objects of it, and a quick cloner never
-- makes anything but an object of an object.
import DeepCopy.Proofs.PlainData
import DeepCopy.Proofs.Termination
import DeepCopy.Proofs.Untouched

namespace DeepCopy

namespace Setting

variable {s : Setting} {run run' : Run} {root : Value} {mode : Mode} {overriding : Bool}

/-- The setting in a mode, with the implementors of its policy asked or not. -/
def under (s : Setting) (mode : Mode) (overriding : Bool) : Setting :=
  { s with mode, policy.flags.useOverrides := overriding }

theorem Reaches.of_under {h : Heap} {o : ObjectId}
    (ho : (s.under mode overriding).Reaches h root o) : s.Reaches h root o := by
  induction ho with
  | root hr hf => exact .root hr hf
  | follow _ hv hf ih =>
    refine .follow ih ?_ hf
    cases hv with
    | element hb hv => exact .element hb hv
    | entry hb hv => exact .entry hb hv
    | field he hmem hr hv => exact .field he hmem hr hv

/-- Whether data are plain depends neither on the mode nor on whether implementors are asked. -/
theorem PlainData.under (hp : s.PlainData run root) (mode : Mode) (overriding : Bool) :
    (s.under mode overriding).PlainData run root := by
  refine ⟨hp.plans, hp.heap, ?_, hp.root⟩
  intro o ho
  have hord := hp.ordinary o ho.of_under
  exact ⟨hord.notNulled, hord.notShared, hord.notSharedItself, hord.override, hord.plan⟩

/-- Full mode and minimal mode, with implementors asked or not, come to the same on plain data. -/
theorem endAlike_under (hp : s.PlainData run root) (hp' : s.PlainData run' root)
    (hm : run'.memory = run.memory) (mode mode' : Mode) (overriding overriding' : Bool) :
    EndAlike Even ((s.under mode overriding).clone root) ((s.under mode' overriding').clone root)
      run run' := by
  have counterpart : ∀ mode overriding,
      (s.under mode overriding).Counterpart (s.under .minimal false) :=
    fun _ _ => ⟨rfl, rfl, rfl, fun _ => rfl⟩
  have h := endAlike_minimal (counterpart mode overriding) (hp.under mode overriding) hp'.plans hm
  have h' := endAlike_minimal (counterpart mode' overriding') (hp'.under mode' overriding')
    hp'.plans rfl
  exact h.trans Even.trans (h'.symm Even.symm)

/-- With the standard policy it is left to ask that no class is shared and that none names an
implementor. -/
theorem plainData_of_standard (hr : s.registry.Sound) (hp : s.policy = .standard)
    (hplans : run.plans = []) (hheap : run.heap.Orderly s.registry) (hroot : run.heap.Has root)
    (hclasses : ∀ o < run.heap.size, s.classShared run (run.heap.cls o) = false ∧
      ∀ p, s.planOf run (run.heap.cls o) = .ok p → s.sharesPlan p = false ∧ p.cloneWith = none) :
    s.PlainData run root := by
  have hfit : Plans.Fit s.registry run.plans := by
    rw [hplans]
    exact Plans.fit_nil _
  refine ⟨hfit, hheap, ?_, hroot⟩
  intro o ho
  obtain ⟨hshared, hplan⟩ := hclasses o (ho.reaches.lt_size hheap.closed hroot)
  refine ⟨by rw [hp]; rfl, hshared, by rw [hp]; rfl, ?_, ?_⟩
  · intro i hi
    exact ⟨Policy.standard_override (hp ▸ hi),
      fitsOverrides_standard hr hp (by rw [hp]; rfl) _ i hi⟩
  · intro p hof
    refine ⟨(hplan p hof).1, (hplan p hof).2, fun hself => ?_⟩
    rw [hp] at hself
    cases hself

end Setting

/-! ## Facades -/

/-- A cloner as it is made with the fast backend: it has the standard policy and follows all
rules. -/
structure Cloner.IsDefault (c : Cloner) : Prop where
  mode : c.mode = .full
  portable : c.portable = none
  policy : c.policy = .standard

/-- A cloner as quick ones are made. -/
structure Cloner.IsQuick (c : Cloner) : Prop where
  facade : c.facade = .quick
  mode : c.mode = .minimal
  portable : c.portable = none
  policy : c.policy = .minimal

namespace Workbench

variable {w : Workbench} {name : String} {c : Cloner} {α : Type}

/-- Two workbenches have the same objects. -/
def SameHeap (w w' : Workbench) : Prop := w'.heap = w.heap

theorem succeeds_clonerOf (hc : Assoc.find? name w.cloners = some c) :
    Succeeds (clonerOf name) w fun c' w' => c' = c ∧ w' = w := by
  simp only [clonerOf, named, Succeeds, ends_bind, ends_get, hc]
  exact ⟨rfl, rfl⟩

/-- The work of a cloner ends as what it does. -/
theorem ends_operate_iff (hc : Assoc.find? name w.cloners = some c) {op : Setting → CloneM α}
    {Q : α → Workbench → Prop} {E : Fault → Workbench → Prop} :
    Ends (operate name op) w Q E ↔
      Ends (op (w.setting c)) (w.start c) (fun a run => Q a (keepRun name c run w))
        fun e run => E (.stop e) (keepRun name c run w) := by
  simp only [operate, clonerOf, named, ends_bind, ends_get, hc, ends_pure]
  unfold Ends
  cases op (w.setting c) (w.start c) <;> rfl

/-- The work of two cloners ends alike if what they do ends alike. -/
theorem endAlike_operate {name' : String} {q : Cloner}
    (hc : Assoc.find? name w.cloners = some c) (hq : Assoc.find? name' w.cloners = some q)
    {op op' : Setting → CloneM α}
    (h : EndAlike Even (op (w.setting c)) (op' (w.setting q)) (w.start c) (w.start q)) :
    EndAlike SameHeap (operate name op) (operate name' op') w w := by
  have same : ∀ {run run'}, Even run run' →
      SameHeap (keepRun name c run w) (keepRun name' q run' w) := by
    intro run run' he
    unfold SameHeap
    rw [heap_keepRun, heap_keepRun, Run.heap, he.memory]
  unfold EndAlike Tandem
  simp only [ends_operate_iff hc, ends_operate_iff hq]
  refine ends_mono h ?_ ?_
  · intro u run hu
    exact ends_mono hu (fun _ _ h => ⟨h.1, same h.2⟩) fun _ _ h => h
  · intro e run he
    exact ends_mono he (fun _ _ h => h) fun _ _ h => ⟨congrArg Fault.stop h.1, same h.2⟩

theorem isDefault_of_clonerWith (w : Workbench) (reg : String) :
    Yields (clonerWith reg none) w fun c _ => c.IsDefault := ⟨rfl, rfl, rfl⟩

theorem isQuick_of_quickCloner (w : Workbench) (store : WorkM Nat) :
    Yields (quickCloner store) w fun q _ => q.IsQuick := by
  unfold quickCloner Yields
  rw [ends_bind, ends_get]
  split
  · rw [ends_bind]
    unfold Ends
    cases store w with
    | ok i w' => exact ⟨rfl, rfl, rfl, rfl⟩
    | error e w' => trivial
  · trivial

/-- A cloner as it is made and a quick one, each known by a name, with classes of one registry. -/
structure BothFacades (w : Workbench) (full quick : String) (c q : Cloner) : Prop where
  full : Assoc.find? full w.cloners = some c
  isDefault : c.IsDefault
  quick : Assoc.find? quick w.cloners = some q
  isQuick : q.IsQuick
  registry : w.clonerRegistry q = w.clonerRegistry c
  plans : Plans.Fit (w.clonerRegistry c) (w.planStore q.store).plans

section Facades

variable {full quick : String} {q : Cloner}

/-- What the quick cloner resets and what it moves data by are the same. -/
theorem BothFacades.counterpart (hb : w.BothFacades full quick c q) :
    (w.setting c).Counterpart (w.setting q) := by
  refine ⟨hb.isQuick.mode, hb.registry, ?_, ?_⟩
  · simp only [setting, hb.isQuick.portable, hb.isDefault.portable]
  · intro marks
    simp only [setting, hb.isQuick.policy, hb.isDefault.policy, Policy.resets, Policy.minimal,
      Policy.standard]

theorem BothFacades.endAlike_clone (hb : w.BothFacades full quick c q) {v : Value}
    (hp : (w.setting c).PlainData (w.start c) v) :
    EndAlike SameHeap (operate full fun s => s.clone v) (operate quick fun s => s.clone v) w w := by
  have hmemory : (w.start q).memory = (w.start c).memory := by
    simp only [start, hb.isQuick.portable, hb.isDefault.portable]
  have h : EndAlike Even ((w.setting c).clone v) ((w.setting q).clone v) (w.start c) (w.start q) :=
    Setting.endAlike_minimal hb.counterpart hp hb.plans hmemory
  exact endAlike_operate hb.full hb.quick h

/-- What a quick cloner makes of an object is an object, and what goes wrong is put down to a class
or to a field. -/
theorem ends_operate_quick (hq : Assoc.find? name w.cloners = some q) (hquick : q.IsQuick)
    (o : ObjectId) : Ends (operate name fun s => s.clone (.ref o)) w
      (fun v _ => ∃ copy, v = .ref copy) fun fault _ => ∃ e : Stop, fault = .stop e ∧ e.Placed := by
  have h := Setting.ends_clone_minimal (s := w.setting q) hquick.mode o (w.start q)
  rw [ends_operate_iff hq]
  exact ends_mono h (fun _ _ h => h) fun e _ h => ⟨e, rfl, h⟩

theorem ends_cloneObject_quick (hq : Assoc.find? name w.cloners = some q) (hquick : q.IsQuick)
    (o : ObjectId) : Ends (cloneObject name o) w (fun copy _ => copy.isSome)
      fun fault _ => ∀ kind, fault ≠ .stop (.failed (.config (.quickResult kind))) := by
  unfold cloneObject
  rw [ends_bind]
  refine ends_mono (succeeds_clonerOf hq) ?_ fun _ _ h => h.elim
  rintro _ _ ⟨rfl, rfl⟩
  rw [ends_bind]
  refine ends_mono (ends_operate_quick hq hquick o) ?_ ?_
  · rintro _ w' ⟨copy, rfl⟩
    rfl
  · rintro _ w' ⟨e, rfl, he⟩ kind hfault
    cases hfault
    exact he

theorem BothFacades.endAlike_cloneObject (hb : w.BothFacades full quick c q) {o : ObjectId}
    (hp : (w.setting c).PlainData (w.start c) (.ref o)) :
    EndAlike SameHeap (cloneObject full o) (cloneObject quick o) w w := by
  unfold EndAlike cloneObject
  refine Tandem.bind_left (succeeds_clonerOf hb.full) ?_
  rintro _ _ ⟨rfl, rfl⟩
  refine Tandem.bind_right (succeeds_clonerOf hb.quick) ?_
  rintro _ _ ⟨rfl, rfl⟩
  refine Tandem.bind (((hb.endAlike_clone hp).and_ends (P := fun _ _ => True)
    (F := fun _ _ => True) ?_ (ends_operate_quick hb.quick hb.isQuick o)).mono
      (fun _ _ _ _ h => h) fun _ _ _ _ h => h.1) ?_
  · unfold Ends
    split <;> trivial
  · rintro _ _ w₁ w₂ ⟨⟨rfl, hsame⟩, -, copy, rfl⟩
    exact ⟨rfl, hsame⟩

end Facades

/-- It does not matter for plain data whether the rules are consulted: in full mode and in minimal
mode, with implementors asked or not, a clone ends with the same value or the same error and makes
the same objects in the same order. So a quick cloner does what a default one with the fast backend
does; and as it never turns an object into anything but an object, it never has to say that it
did. -/
theorem full_and_minimal_cloning_agree_on_plain_data :
    (∀ (s : Setting) (run run' : Run) (v : Value), s.PlainData run v → s.PlainData run' v →
      run'.memory = run.memory → ∀ mode mode' overriding overriding',
        EndAlike Even ((s.under mode overriding).clone v) ((s.under mode' overriding').clone v)
          run run') ∧
    (∀ (w : Workbench) (full quick : String) (c q : Cloner), w.BothFacades full quick c q →
      (∀ v, (w.setting c).PlainData (w.start c) v →
        EndAlike SameHeap (operate full fun s => s.clone v) (operate quick fun s => s.clone v)
          w w) ∧
      ∀ o, (w.setting c).PlainData (w.start c) (.ref o) →
        EndAlike SameHeap (cloneObject full o) (cloneObject quick o) w w) ∧
    ∀ (w : Workbench) (quick : String) (q : Cloner), Assoc.find? quick w.cloners = some q →
      q.IsQuick → ∀ o,
        Yields (operate quick fun s => s.clone (.ref o)) w (fun v _ => ∃ copy, v = .ref copy) ∧
        Ends (cloneObject quick o) w (fun copy _ => copy.isSome)
          fun fault _ => ∀ kind, fault ≠ .stop (.failed (.config (.quickResult kind))) := by
  refine ⟨?_, ?_, ?_⟩
  · intro s run run' v hp hp' hm mode mode' overriding overriding'
    exact Setting.endAlike_under hp hp' hm mode mode' overriding overriding'
  · intro w full quick c q hb
    exact ⟨fun v hp => hb.endAlike_clone hp, fun o hp => hb.endAlike_cloneObject hp⟩
  · intro w quick q hq hquick o
    refine ⟨ends_mono (ends_operate_quick hq hquick o) (fun _ _ h => h) fun _ _ _ => trivial, ?_⟩
    exact ends_cloneObject_quick hq hquick o

/-- A default cloner with the fast backend. -/
def defaultCloner : Cloner where
  portable := none
  store := 0

/-- A quick cloner with the same store of plans. -/
def plainCloner : Cloner where
  facade := .quick
  portable := none
  store := 0
  mode := .minimal
  policy := .minimal

/-- The two cloners, and an instance with a list that holds the instance twice. -/
def ringBench : Workbench where
  heap := Setting.ringRun.heap
  registries := [(globalRegistry, Registry.initial.add Setting.ringNode)]
  cloners := [("full", defaultCloner), ("quick", plainCloner)]

theorem bothFacades_ringBench : ringBench.BothFacades "full" "quick" defaultCloner plainCloner where
  full := rfl
  isDefault := ⟨rfl, rfl, rfl⟩
  quick := rfl
  isQuick := ⟨rfl, rfl, rfl, rfl⟩
  registry := rfl
  plans := Plans.fit_nil _

/-- Neither class of the two objects is shared, and neither names an implementor. -/
theorem plainData_ringBench :
    (ringBench.setting defaultCloner).PlainData (ringBench.start defaultCloner) (.ref 0) := by
  refine Setting.plainData_of_standard (Registry.sound_initial.add Setting.ringNode) rfl rfl
    Setting.unaided_ring.heap Setting.unaided_ring.root ?_
  have hclass : ∀ cls, cls = 12 ∨ cls = 6 →
      (ringBench.setting defaultCloner).classShared (ringBench.start defaultCloner) cls = false ∧
      ((ringBench.setting defaultCloner).planOf (ringBench.start defaultCloner) cls).toOption.all
        (fun p => !(ringBench.setting defaultCloner).sharesPlan p && p.cloneWith.isNone) =
          true := by
    rintro _ (rfl | rfl)
    · exact ⟨by decide, by decide⟩
    · exact ⟨by decide, by decide⟩
  intro o ho
  have hcls : (ringBench.start defaultCloner).heap.cls o = 12 ∨
      (ringBench.start defaultCloner).heap.cls o = 6 := by
    rcases Nat.lt_succ_iff_lt_or_eq.mp ho with ho | rfl
    · cases Nat.lt_one_iff.mp ho
      exact Or.inl rfl
    · exact Or.inr rfl
  obtain ⟨hshared, hplan⟩ := hclass _ hcls
  refine ⟨hshared, fun p hp => ?_⟩
  rw [hp] at hplan
  simpa [Except.toOption] using hplan

theorem exists_clone_ringBench : ∃ r run', (ringBench.setting defaultCloner).clone (.ref 0)
    (ringBench.start defaultCloner) = .ok r run' :=
  Setting.exists_clone
    (Setting.unaided_of_standard Setting.unaided_ring.registry (Or.inl rfl) rfl (by decide +kernel)
      rfl Setting.unaided_ring.heap Setting.unaided_ring.root)
    (Setting.fitsOverrides_standard (Registry.sound_initial.add Setting.ringNode) rfl)

/-- An instance that is reached from its own list is plain data: all rules and none come to the
same, and the default cloner and the quick one return the same object over the same heap. -/
theorem a_ring_is_cloned_alike_by_both :
    (∀ overriding,
      EndAlike Even (((ringBench.setting defaultCloner).under .full overriding).clone (.ref 0))
        (((ringBench.setting defaultCloner).under .minimal false).clone (.ref 0))
        (ringBench.start defaultCloner) (ringBench.start defaultCloner)) ∧
    (∃ copy w w', operate "full" (fun s => s.clone (.ref 0)) ringBench = .ok (.ref copy) w ∧
      operate "quick" (fun s => s.clone (.ref 0)) ringBench = .ok (.ref copy) w' ∧
      w'.heap = w.heap) ∧
    Ends (cloneObject "quick" 0) ringBench (fun copy _ => copy.isSome)
      fun fault _ => ∀ kind, fault ≠ .stop (.failed (.config (.quickResult kind))) := by
  obtain ⟨hmodes, hfacades, hquick⟩ := full_and_minimal_cloning_agree_on_plain_data
  have hp := plainData_ringBench
  have hb := bothFacades_ringBench
  obtain ⟨href, hobject⟩ := hquick ringBench "quick" plainCloner hb.quick hb.isQuick 0
  refine ⟨fun overriding => hmodes _ _ _ _ hp hp rfl .full .minimal overriding false, ?_, hobject⟩
  obtain ⟨r, run, hclone⟩ := exists_clone_ringBench
  have hends : Succeeds (operate "full" fun s => s.clone (.ref 0)) ringBench fun _ _ => True :=
    (ends_operate_iff hb.full).mpr ((ends_of_ok hclone).mpr trivial)
  obtain ⟨_, w, hfull, -⟩ := hends.exists_ok
  have halike := (hfacades ringBench "full" "quick" defaultCloner plainCloner hb).1 (.ref 0) hp
  rcases tandem_iff.mp halike with ⟨_, _, _, w', hx, hy, rfl, hsame⟩ | ⟨_, _, _, _, hx, -⟩
  · cases hfull.symm.trans hx
    obtain ⟨copy, rfl⟩ := yields_of_ok href hy
    exact ⟨copy, w, w', hfull, hy, hsame⟩
  · cases hfull.symm.trans hx

end Workbench

end DeepCopy
