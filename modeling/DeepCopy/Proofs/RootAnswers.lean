-- What is remembered about shared roots. A cloner remembers for each class it was
-- asked about whether the class lies below a shared root, under the number of the
-- class alone, until another root is added. So an answer is right for the registry
-- in which it was worked out, as that was then: it can be out of date if the class
-- was not there yet, and wrong if the registry is another one.
import DeepCopy.Proofs.Caches
import DeepCopy.Proofs.RegistrationRules

namespace DeepCopy

open CloneM

namespace Policy

variable {p q : Policy} {r r' : Registry} {cls : ClassId}

theorem belowRoot_of_new (h : r.get? cls = none) : p.belowRoot r cls = false := by
  simp [belowRoot, Registry.isSubclass_of_new h]

/-- Whether a registered class lies below a root does not change as classes are added. -/
theorem belowRoot_extend (hr : r.Built) (hr' : r'.Built) (hext : r.Extends r')
    {e : Registry.Entry} (he : r.get? cls = some e) : p.belowRoot r' cls = p.belowRoot r cls := by
  obtain ⟨chain, hline⟩ := hr.consistent.exists_line he
  simp only [belowRoot, Registry.isSubclass, hline.ancestors_eq hr.consistent,
    (hline.extend hext).ancestors_eq hr'.consistent]

theorem belowRoot_congr (h : q.nonCloneableRoots = p.nonCloneableRoots) (r : Registry)
    (cls : ClassId) : q.belowRoot r cls = p.belowRoot r cls := by
  rw [belowRoot, belowRoot, h]

/-- The rule by which a class of a registry is shared: it is in one of the three sets, or a root is
the class itself or one of its ancestors. -/
def Shares (p : Policy) (r : Registry) (cls : ClassId) : Prop :=
  cls ∈ p.knownImmutables ∨ cls ∈ p.immutableClasses ∨ cls ∈ p.nonCloneableClasses ∨
    ∃ root ∈ p.nonCloneableRoots, ∃ chain, r.ancestors cls = .ok chain ∧ root ∈ chain

theorem belowRoot_iff_ancestors : p.belowRoot r cls = true ↔
    ∃ root ∈ p.nonCloneableRoots, ∃ chain, r.ancestors cls = .ok chain ∧ root ∈ chain := by
  simp only [belowRoot, List.any_eq_true]
  refine exists_congr fun root => and_congr_right fun _ => ?_
  unfold Registry.isSubclass
  cases r.ancestors cls with
  | ok chain => simp
  | error e => simp

theorem shares_iff : p.Shares r cls ↔ (p.listsShared cls || p.belowRoot r cls) = true := by
  simp only [Shares, ← belowRoot_iff_ancestors, listsShared, Bool.or_eq_true, List.contains_iff_mem,
    or_assoc]

/-- What the rule shares it goes on sharing as classes are added. -/
theorem Shares.extend (h : p.Shares r cls) (hr : r.Built) (hr' : r'.Built) (hext : r.Extends r') :
    p.Shares r' cls := by
  rw [shares_iff] at h ⊢
  cases he : r.get? cls with
  | some e => rw [belowRoot_extend hr hr' hext he, h]
  | none =>
    rw [belowRoot_of_new he, Bool.or_false] at h
    rw [h, Bool.true_or]

/-- What a question comes to: the rule for the registry it is put in, or what is remembered. -/
theorem exists_sharesClass (p : Policy) (r : Registry) (cls : ClassId) (answers : RootAnswers) :
    ∃ b, (p.sharesClass r cls answers).1 = (p.listsShared cls || b) ∧
      (b = p.belowRoot r cls ∨ Assoc.find? cls answers = some b) := by
  unfold sharesClass
  cases p.listsShared cls with
  | true => exact ⟨_, rfl, Or.inl rfl⟩
  | false =>
    unfold askRoots
    cases hroots : p.nonCloneableRoots with
    | nil => exact ⟨false, rfl, Or.inl (by simp [belowRoot, hroots])⟩
    | cons root roots =>
      cases hf : Assoc.find? cls answers with
      | some b => exact ⟨b, rfl, Or.inr rfl⟩
      | none => exact ⟨_, rfl, Or.inl rfl⟩

/-- What is remembered about another class is left as it is. -/
theorem find?_sharesClass_of_ne {answers : RootAnswers} {other : ClassId} (hne : other ≠ cls) :
    Assoc.find? other (p.sharesClass r cls answers).2 = Assoc.find? other answers := by
  unfold sharesClass askRoots
  split
  · rfl
  · split
    · rfl
    · split
      · rfl
      · exact Assoc.find?_put_of_ne (Ne.symm hne) _ _

theorem mem_addNonCloneableRoot (p : Policy) (answers : RootAnswers) (cls root : ClassId) :
    root ∈ (p.addNonCloneableRoot answers cls).1.nonCloneableRoots ↔
      root ∈ p.nonCloneableRoots ∨ cls = root := by
  unfold addNonCloneableRoot
  split
  · rename_i hin
    refine ⟨Or.inl, fun h => h.elim id ?_⟩
    rintro rfl
    exact hin
  · rw [List.mem_append, List.mem_singleton, eq_comm]

theorem addNonCloneableRoot_eq (p : Policy) (answers : RootAnswers) (cls : ClassId) :
    (p.addNonCloneableRoot answers cls).1 =
      { p with nonCloneableRoots := (p.addNonCloneableRoot answers cls).1.nonCloneableRoots } := by
  unfold addNonCloneableRoot
  split <;> rfl

/-- Nothing is remembered past a new root. -/
theorem find?_addNonCloneableRoot {answers : RootAnswers} {other : ClassId} {b : Bool}
    (h : Assoc.find? other (p.addNonCloneableRoot answers cls).2 = some b) :
    Assoc.find? other answers = some b ∧
      (p.addNonCloneableRoot answers cls).1.nonCloneableRoots = p.nonCloneableRoots := by
  unfold addNonCloneableRoot at h ⊢
  split at h
  · rename_i hin
    rw [if_pos hin]
    exact ⟨h, rfl⟩
  · cases h

end Policy

/-! ## Clones -/

namespace Setting

variable {s : Setting} {answers : RootAnswers}

/-- What a run remembers about roots it did before, or it has worked it out in its registry. -/
def Recalls (s : Setting) (answers : RootAnswers) (run : Run) : Prop :=
  ∀ cls b, Assoc.find? cls run.answers = some b →
    Assoc.find? cls answers = some b ∨ b = s.policy.belowRoot s.registry cls

theorem lasting_recalls : Lasting s (s.Recalls answers) := by
  intro run run' ha h cls b hb
  rcases ha.answers cls b hb with hb | hb
  · exact h cls b hb
  · exact Or.inr hb

/-- A clone, whatever takes part in it and however it ends, remembers nothing else. -/
theorem ends_clone_recalls (s : Setting) (run : Run) (v : Value) :
    Ends (s.clone v) run (fun _ => s.Recalls run.answers) (fun _ => s.Recalls run.answers) := by
  simp only [clone, begin, ends_bind, ends_modify, ends_heap]
  refine preserves_cloneValue (fun depth o run' ih h _ => ?_) _ v _ fun _ _ hb => Or.inl hb
  exact preserves_cloneNew lasting_recalls (fun _ _ _ h => h) ih o run' h

end Setting

/-! ## Calls -/

namespace Workbench

variable {name reg : String} {w w' : Workbench} {c c' : Cloner} {cls : ClassId}

/-- A call that can bear on what a cloner says about a class. -/
inductive PolicyCall where
  /-- A class is defined in a registry, or the class of an array is asked for. -/
  | extend (reg : String) (call : ClassCall)
  /-- Objects are made or written, so that the heap is another one. -/
  | heap (h : Heap)
  | addRoot (cls : ClassId)
  | clone (v : Value)
  | ask (reg : String) (cls : ClassId)

namespace PolicyCall

/-- Makes a call, whatever it answers. -/
def make (name : String) : PolicyCall → WorkM Unit
  | extend reg call => discard (call.make reg)
  | heap h => modify fun w => { w with heap := h }
  | addRoot cls => updateCloner name (·.addNonCloneableRoot cls)
  | clone v => discard (operate name fun s => s.clone v)
  | ask reg cls => discard (sharesClass name reg cls)

/-- A call shares a class and all its subclasses. -/
def Adds (root : ClassId) : PolicyCall → Prop
  | addRoot cls => cls = root
  | _ => False

/-- In a call the policy may be asked about a class of a registry: a clone may meet objects of any
class. `own` is the registry that the cloner works with. -/
def MayAsk (own reg : String) (cls : ClassId) : PolicyCall → Prop
  | clone _ => reg = own
  | ask asked about => asked = reg ∧ about = cls
  | _ => False

end PolicyCall

/-- The workbench after calls, whatever they have come to. -/
def afterPolicyCalls (name : String) (calls : List PolicyCall) (w : Workbench) : Workbench :=
  calls.foldl (fun w call => after (call.make name) w) w

/-- The name of the registry that a cloner works with. -/
def ownRegistry (w : Workbench) (c : Cloner) : String := (w.planStore c.store).registry

/-- A step from a workbench to a later one by a call, as a cloner sees it. -/
structure PolicyStep (name : String) (call : PolicyCall) (w w' : Workbench) (c c' : Cloner) :
    Prop where
  found : Assoc.find? name w'.cloners = some c'
  built : ∀ reg, (w.registryOf reg).Built → (w'.registryOf reg).Built
  grown : ∀ reg, (w.registryOf reg).Extends (w'.registryOf reg)
  own : w'.ownRegistry c' = w.ownRegistry c
  policy : c'.policy = { c.policy with nonCloneableRoots := c'.policy.nonCloneableRoots }
  roots : ∀ root, root ∈ c'.policy.nonCloneableRoots ↔
    root ∈ c.policy.nonCloneableRoots ∨ call.Adds root
  /-- Where something is remembered no root is new, and it was remembered before or is worked out in
  this step. -/
  answers : ∀ cls b, Assoc.find? cls c'.answers = some b →
    c'.policy.nonCloneableRoots = c.policy.nonCloneableRoots ∧
      (Assoc.find? cls c.answers = some b ∨
        ∃ reg, call.MayAsk (w.ownRegistry c) reg cls ∧
          b = c.policy.belowRoot (w.registryOf reg) cls)

namespace PolicyStep

/-- A step in which the cloner is not touched. -/
theorem aside {call : PolicyCall} (hc : Assoc.find? name w.cloners = some c)
    (hcall : ∀ root, ¬ call.Adds root) (hcloners : w'.cloners = w.cloners)
    (hstores : w'.stores = w.stores)
    (hbuilt : ∀ reg, (w.registryOf reg).Built → (w'.registryOf reg).Built)
    (hgrown : ∀ reg, (w.registryOf reg).Extends (w'.registryOf reg)) :
    PolicyStep name call w w' c c where
  found := by rw [hcloners, hc]
  built := hbuilt
  grown := hgrown
  own := by rw [ownRegistry, ownRegistry, planStore, planStore, hstores]
  policy := rfl
  roots := fun root => ⟨Or.inl, fun h => h.resolve_right (hcall root)⟩
  answers := fun _ _ hb => ⟨rfl, Or.inl hb⟩

theorem extend (hc : Assoc.find? name w.cloners = some c) (reg : String) (call : ClassCall) :
    PolicyStep name (.extend reg call) w (after (call.make reg) w) c c := by
  obtain ⟨registries, heq, hother⟩ := after_make_eq reg w call
  have other : ∀ reg', reg' ≠ reg →
      (after (call.make reg) w).registryOf reg' = w.registryOf reg' := by
    intro reg' hne
    rw [heq, registryOf, registryOf, hother reg' hne]
  refine aside hc (fun _ => id) (by rw [heq]) (by rw [heq]) ?_ ?_
  · intro reg' hb
    by_cases hreg : reg' = reg
    · subst hreg
      exact (after_make call).1 hb
    · rw [other reg' hreg]
      exact hb
  · intro reg'
    by_cases hreg : reg' = reg
    · subst hreg
      exact (after_make call).2
    · rw [other reg' hreg]
      exact Registry.Extends.refl _

/-- A step in which only the cloner is another one, and works with the same registry. -/
theorem changed {call : PolicyCall} (hc' : Assoc.find? name w'.cloners = some c')
    (hregistries : w'.registries = w.registries) (hown : w'.ownRegistry c' = w.ownRegistry c)
    (policy : c'.policy = { c.policy with nonCloneableRoots := c'.policy.nonCloneableRoots })
    (roots : ∀ root, root ∈ c'.policy.nonCloneableRoots ↔
      root ∈ c.policy.nonCloneableRoots ∨ call.Adds root)
    (answers : ∀ cls b, Assoc.find? cls c'.answers = some b →
      c'.policy.nonCloneableRoots = c.policy.nonCloneableRoots ∧
        (Assoc.find? cls c.answers = some b ∨
          ∃ reg, call.MayAsk (w.ownRegistry c) reg cls ∧
            b = c.policy.belowRoot (w.registryOf reg) cls)) :
    PolicyStep name call w w' c c' := by
  have same : ∀ reg, w'.registryOf reg = w.registryOf reg := by
    intro reg
    rw [registryOf, registryOf, hregistries]
  exact
    { found := hc'
      built := fun reg h => (same reg).symm ▸ h
      grown := fun reg => (same reg).symm ▸ Registry.Extends.refl _
      own := hown, policy, roots, answers }

theorem addRoot (hc : Assoc.find? name w.cloners = some c) (cls : ClassId) :
    PolicyStep name (.addRoot cls) w (after (PolicyCall.make name (.addRoot cls)) w) c
      (c.addNonCloneableRoot cls) := by
  have hafter : after (PolicyCall.make name (.addRoot cls)) w =
      { w with cloners := Assoc.put name (c.addNonCloneableRoot cls) w.cloners } := by
    simp only [PolicyCall.make, updateCloner, clonerOf, named, after, bind_assoc]
    rw [bind_of_ok (show (get : WorkM Workbench) w = .ok w w from rfl), hc]
    rfl
  rw [hafter]
  refine changed (Assoc.find?_put_self _ _ _) rfl rfl ?_ ?_ ?_
  · exact c.policy.addNonCloneableRoot_eq c.answers cls
  · exact c.policy.mem_addNonCloneableRoot c.answers cls
  · intro other b hb
    obtain ⟨hb, hroots⟩ := Policy.find?_addNonCloneableRoot hb
    exact ⟨hroots, Or.inl hb⟩

end PolicyStep

/-- What a cloner says when it is asked about a class of a registry. -/
theorem sharesClass_eq (hc : Assoc.find? name w.cloners = some c) (reg : String) (cls : ClassId) :
    sharesClass name reg cls w = .ok (c.sharesClass (w.registryOf reg) cls).1
      { w with cloners := Assoc.put name (c.sharesClass (w.registryOf reg) cls).2 w.cloners } := by
  simp only [sharesClass, clonerOf, named, bind_assoc]
  rw [bind_of_ok (show (get : WorkM Workbench) w = .ok w w from rfl), hc]
  rfl

namespace PolicyStep

theorem ask (hc : Assoc.find? name w.cloners = some c) (reg : String) (cls : ClassId) :
    PolicyStep name (.ask reg cls) w (after (sharesClass name reg cls) w) c
      (c.sharesClass (w.registryOf reg) cls).2 := by
  rw [after, sharesClass_eq hc]
  refine changed (Assoc.find?_put_self _ _ _) rfl rfl rfl ?_ ?_
  · exact fun root => ⟨Or.inl, fun h => h.resolve_right id⟩
  · intro other b hb
    by_cases hne : other = cls
    · subst hne
      rcases Policy.find?_sharesClass hb with hb | hb
      · exact ⟨rfl, Or.inl hb⟩
      · exact ⟨rfl, Or.inr ⟨reg, ⟨rfl, rfl⟩, hb⟩⟩
    · exact ⟨rfl, Or.inl ((Policy.find?_sharesClass_of_ne hne).symm.trans hb)⟩

theorem clone (hc : Assoc.find? name w.cloners = some c) (v : Value) :
    ∃ c', PolicyStep name (.clone v) w (after (operate name fun s => s.clone v) w) c c' := by
  refine ends_after (P := fun w' => ∃ c', PolicyStep name (.clone v) w w' c c') ?_
  have kept : ∀ run, (w.setting c).Recalls c.answers run →
      ∃ c', PolicyStep name (.clone v) w (keepRun name c run w) c c' := by
    intro run h
    refine ⟨{ c with answers := run.answers, resolved := run.resolved }, ?_⟩
    refine changed (Assoc.find?_put_self _ _ _) (registries_keepRun name c run w) ?_ rfl
      (fun root => ⟨Or.inl, fun h => h.resolve_right id⟩) ?_
    · rw [ownRegistry, ownRegistry, InOrder.planStore_keepRun]
      split <;> rfl
    · intro cls b hb
      rcases h cls b hb with hb | hb
      · exact ⟨rfl, Or.inl hb⟩
      · exact ⟨rfl, Or.inr ⟨w.ownRegistry c, rfl, hb⟩⟩
  refine ends_operate (fun hnone => ?_) fun c' hc' => ?_
  · rw [hnone] at hc
    cases hc
  · cases hc.symm.trans hc'
    exact ends_mono (Setting.ends_clone_recalls _ (w.start c) v) (fun _ => kept) (fun _ => kept)

end PolicyStep

/-- Every call is such a step. -/
theorem exists_policyStep (hc : Assoc.find? name w.cloners = some c) (call : PolicyCall) :
    ∃ c', PolicyStep name call w (after (call.make name) w) c c' := by
  cases call with
  | extend reg call =>
    rw [PolicyCall.make, after_discard]
    exact ⟨c, .extend hc reg call⟩
  | heap h =>
    exact ⟨c, .aside hc (fun _ => id) rfl rfl (fun _ h => h) fun _ => Registry.Extends.refl _⟩
  | addRoot cls => exact ⟨_, .addRoot hc cls⟩
  | clone v =>
    rw [PolicyCall.make, after_discard]
    exact PolicyStep.clone hc v
  | ask reg cls =>
    rw [PolicyCall.make, after_discard]
    exact ⟨_, .ask hc reg cls⟩

/-- In one of the calls the policy may be asked about a class of a registry, which is then `r`,
while its roots are `roots`. -/
def MayAskIn (name own : String) (roots : List ClassId) (calls : List PolicyCall) (w : Workbench)
    (cls : ClassId) (reg : String) (r : Registry) : Prop :=
  ∃ before call rest c, calls = before ++ call :: rest ∧ call.MayAsk own reg cls ∧
    Assoc.find? name (w.afterPolicyCalls name before).cloners = some c ∧
    c.policy.nonCloneableRoots = roots ∧ r = (w.afterPolicyCalls name before).registryOf reg

theorem mayAskIn_cons {own : String} {roots : List ClassId} {call : PolicyCall}
    {calls : List PolicyCall} {r : Registry}
    (h : (after (call.make name) w).MayAskIn name own roots calls cls reg r) :
    w.MayAskIn name own roots (call :: calls) cls reg r := by
  obtain ⟨before, call', rest, c, rfl, hmay⟩ := h
  exact ⟨call :: before, call', rest, c, rfl, hmay⟩

/-- What calls come to for a cloner. -/
structure PolicyRun (name : String) (calls : List PolicyCall) (w w' : Workbench) (c c' : Cloner) :
    Prop where
  found : Assoc.find? name w'.cloners = some c'
  built : ∀ reg, (w.registryOf reg).Built → (w'.registryOf reg).Built
  grown : ∀ reg, (w.registryOf reg).Extends (w'.registryOf reg)
  policy : c'.policy = { c.policy with nonCloneableRoots := c'.policy.nonCloneableRoots }
  roots : ∀ root, root ∈ c'.policy.nonCloneableRoots ↔
    root ∈ c.policy.nonCloneableRoots ∨ ∃ call ∈ calls, call.Adds root
  answers : ∀ cls b, Assoc.find? cls c'.answers = some b →
    (c'.policy.nonCloneableRoots = c.policy.nonCloneableRoots ∧
      Assoc.find? cls c.answers = some b) ∨
    ∃ reg r, w.MayAskIn name (w.ownRegistry c) c'.policy.nonCloneableRoots calls cls reg r ∧
      b = c'.policy.belowRoot r cls

/-- From what each call comes to: what all of them come to. -/
theorem exists_policyRun (hc : Assoc.find? name w.cloners = some c) (calls : List PolicyCall) :
    ∃ c', PolicyRun name calls w (w.afterPolicyCalls name calls) c c' := by
  induction calls generalizing w c with
  | nil =>
    exact ⟨c, hc, fun _ h => h, fun _ => Registry.Extends.refl _, rfl, fun root => by simp,
      fun _ _ hb => Or.inl ⟨rfl, hb⟩⟩
  | cons call calls ih =>
    obtain ⟨c₁, hstep⟩ := exists_policyStep hc call
    obtain ⟨c', hrun⟩ := ih hstep.found
    refine ⟨c', hrun.found, fun reg hb => hrun.built reg (hstep.built reg hb),
      fun reg => (hstep.grown reg).trans (hrun.grown reg), ?_, ?_, ?_⟩
    · rw [hrun.policy, hstep.policy]
    · intro root
      simp only [hrun.roots, hstep.roots, or_assoc, List.mem_cons, exists_eq_or_imp]
    · intro cls b hb
      rcases hrun.answers cls b hb with ⟨hroots, hb⟩ | ⟨reg, r, hmay, hb⟩
      · -- Nothing was new after the first call, so what it left is what counts.
        obtain ⟨hroots₁, hb | ⟨reg, hmay, hb⟩⟩ := hstep.answers cls b hb
        · exact Or.inl ⟨hroots.trans hroots₁, hb⟩
        · have hsame := hroots.trans hroots₁
          refine Or.inr ⟨reg, _, ⟨[], call, calls, c, rfl, hmay, hc, hsame.symm, rfl⟩, ?_⟩
          exact hb.trans (Policy.belowRoot_congr hsame _ _).symm
      · rw [hstep.own] at hmay
        exact Or.inr ⟨reg, r, mayAskIn_cons hmay, hb⟩

/-- The registry as it was before some of the calls goes on to that after all of them. -/
theorem extends_afterPolicyCalls (hc : Assoc.find? name w.cloners = some c)
    (before rest : List PolicyCall) (reg : String) :
    ((w.afterPolicyCalls name before).registryOf reg).Extends
      ((w.afterPolicyCalls name (before ++ rest)).registryOf reg) := by
  obtain ⟨c₁, hbefore⟩ := exists_policyRun hc before
  obtain ⟨c₂, hrest⟩ := exists_policyRun hbefore.found rest
  have happend : w.afterPolicyCalls name (before ++ rest) =
      (w.afterPolicyCalls name before).afterPolicyCalls name rest := List.foldl_append
  rw [happend]
  exact hrest.grown reg

/-- A registry in which the policy was asked is built up, and goes on to what it is later. -/
theorem MayAskIn.grown {own : String} {roots : List ClassId} {calls : List PolicyCall}
    {r : Registry} (h : w.MayAskIn name own roots calls cls reg r)
    (hc : Assoc.find? name w.cloners = some c) (hr : (w.registryOf reg).Built) :
    r.Built ∧ r.Extends ((w.afterPolicyCalls name calls).registryOf reg) := by
  obtain ⟨before, call, rest, -, rfl, -, -, -, rfl⟩ := h
  obtain ⟨c₁, hbefore⟩ := exists_policyRun hc before
  exact ⟨hbefore.built reg hr, extends_afterPolicyCalls hc before (call :: rest) reg⟩

/-! ### What is said about a class -/

/-- What a cloner says, when calls were made, if it is asked about a class of a registry. -/
structure SaysAfter (name : String) (calls : List PolicyCall) (w : Workbench) (c : Cloner)
    (reg : String) (cls : ClassId) (c' : Cloner) (shared : Bool) : Prop where
  found : Assoc.find? name (w.afterPolicyCalls name calls).cloners = some c'
  policy : c'.policy = { c.policy with nonCloneableRoots := c'.policy.nonCloneableRoots }
  roots : ∀ root, root ∈ c'.policy.nonCloneableRoots ↔
    root ∈ c.policy.nonCloneableRoots ∨ ∃ call ∈ calls, call.Adds root
  answers : Answers (sharesClass name reg cls) (w.afterPolicyCalls name calls) (.ok shared)
  /-- The rule is kept for the registry as it is now, or for one in which the policy may have been
  asked about this number since it has these roots, as that registry was then. -/
  rule : ∃ r, (shared = true ↔ c'.policy.Shares r cls) ∧
    (r = (w.afterPolicyCalls name calls).registryOf reg ∨ ∃ asked,
      w.MayAskIn name (w.ownRegistry c) c'.policy.nonCloneableRoots calls cls asked r)
  /-- In one registry nothing is shared that the rule does not share. -/
  sound : (∀ asked r, w.MayAskIn name (w.ownRegistry c) c'.policy.nonCloneableRoots calls cls asked
      r → asked = reg) → shared = true →
    c'.policy.Shares ((w.afterPolicyCalls name calls).registryOf reg) cls
  /-- In one registry, if nobody asked too early, the rule is kept as it stands. -/
  exact : (∀ asked r, w.MayAskIn name (w.ownRegistry c) c'.policy.nonCloneableRoots calls cls asked
      r → asked = reg ∧ ∃ e, r.get? cls = some e) →
    (shared = true ↔ c'.policy.Shares ((w.afterPolicyCalls name calls).registryOf reg) cls)

/-- A cloner that has said nothing yet: after any calls, whatever they have come to, it answers
every question about a class, and by the rule, but for a registry that may not be the one that it is
asked about or may have grown since. -/
theorem a_class_is_shared_as_it_was_when_it_was_asked_about
    (hr : ∀ reg, (w.registryOf reg).Built) (hc : Assoc.find? name w.cloners = some c)
    (hnone : c.answers = []) (calls : List PolicyCall) (reg : String) (cls : ClassId) :
    ∃ c' shared, SaysAfter name calls w c reg cls c' shared := by
  obtain ⟨c', hrun⟩ := exists_policyRun hc calls
  obtain ⟨b, hb, hfrom⟩ := c'.policy.exists_sharesClass
    ((w.afterPolicyCalls name calls).registryOf reg) cls c'.answers
  have hanswers : Answers (sharesClass name reg cls) (w.afterPolicyCalls name calls)
      (.ok (c'.policy.listsShared cls || b)) := ⟨_, hb ▸ sharesClass_eq hrun.found reg cls⟩
  have hrule : ∃ r, b = c'.policy.belowRoot r cls ∧
      (r = (w.afterPolicyCalls name calls).registryOf reg ∨ ∃ asked,
        w.MayAskIn name (w.ownRegistry c) c'.policy.nonCloneableRoots calls cls asked r) := by
    rcases hfrom with hb | hb
    · exact ⟨_, hb, Or.inl rfl⟩
    · rcases hrun.answers cls b hb with ⟨-, hb⟩ | ⟨asked, r, hmay, hb⟩
      · rw [hnone] at hb
        cases hb
      · exact ⟨r, hb, Or.inr ⟨asked, hmay⟩⟩
  obtain ⟨r, rfl, hwhere⟩ := hrule
  have hbuilt := hrun.built reg (hr reg)
  refine ⟨c', _, hrun.found, hrun.policy, hrun.roots, hanswers,
    ⟨r, Policy.shares_iff.symm, hwhere⟩, ?_, ?_⟩
  · intro hone hshared
    rcases hwhere with rfl | ⟨asked, hmay⟩
    · exact Policy.shares_iff.mpr hshared
    · obtain rfl := hone asked r hmay
      obtain ⟨hrb, hgrown⟩ := hmay.grown hc (hr asked)
      exact (Policy.shares_iff.mpr hshared).extend hrb hbuilt hgrown
  · intro hone
    rcases hwhere with rfl | ⟨asked, hmay⟩
    · exact Policy.shares_iff.symm
    · obtain ⟨rfl, e, he⟩ := hone asked r hmay
      obtain ⟨hrb, hgrown⟩ := hmay.grown hc (hr asked)
      rw [Policy.shares_iff, Policy.belowRoot_extend hrb hbuilt hgrown he]

/-- What a call answers, if it does. -/
def answer? {α : Type} (x : WorkM α) (w : Workbench) : Option α :=
  match x w with
  | .ok a _ => some a
  | .error _ _ => none

theorem Answers.answer? {α : Type} {x : WorkM α} {a : α} (h : Answers x w (.ok a)) :
    answer? x w = some a := by
  obtain ⟨w', h⟩ := h
  rw [Workbench.answer?, h]

/-- A cloner that has said nothing yet. -/
def carefulCloner : Cloner := { portable := none, store := 0 }

/-- A bench with nothing but that cloner. -/
def carefulBench : Workbench := { cloners := [("careful", carefulCloner)] }

/-- A call in which a class is defined in the main registry. -/
def defining (name : String) (superclass : Option ClassId) : PolicyCall :=
  .extend "main" (.define { name, superclass })

/-- Two classes, the second of them below the first, which is a root; they are asked about when they
are there. -/
def timelyCalls : List PolicyCall :=
  [ defining "Handle" none, .ask "main" 12, .addRoot 12, defining "File" (some 12), .ask "main" 13,
    defining "Other" none, .clone (.int 7) ]

/-- The subclass is shared, the class that is defined last is not. -/
theorem subclasses_are_shared_when_asked_about_in_time :
    (∀ reg, (carefulBench.registryOf reg).Built) ∧
      Assoc.find? "careful" carefulBench.cloners = some carefulCloner ∧
      (∃ c, SaysAfter "careful" timelyCalls carefulBench carefulCloner "main" 13 c true) ∧
      ∃ c, SaysAfter "careful" timelyCalls carefulBench carefulCloner "main" 14 c false := by
  have answered : ∀ cls b, answer? (sharesClass "careful" "main" cls)
      (carefulBench.afterPolicyCalls "careful" timelyCalls) = some b →
      ∃ c, SaysAfter "careful" timelyCalls carefulBench carefulCloner "main" cls c b := by
    intro cls b hb
    obtain ⟨c, shared, h⟩ := @a_class_is_shared_as_it_was_when_it_was_asked_about "careful"
      carefulBench carefulCloner (fun _ => .initial) rfl rfl timelyCalls "main" cls
    rw [h.answers.answer?] at hb
    exact ⟨c, Option.some.inj hb ▸ h⟩
  refine ⟨fun _ => .initial, rfl, answered 13 true ?_, answered 14 false ?_⟩ <;> decide

/-- A class is defined below a root, but was asked about before. -/
def earlyCalls : List PolicyCall :=
  [defining "Handle" none, .addRoot 12, .ask "main" 13, defining "File" (some 12)]

/-- A class below a root is not shared if it was asked about before it was there, though without
that question it is; and a class that is not there is shared if another registry was asked about a
class of its number. -/
theorem answers_can_be_out_of_date :
    let early := carefulBench.afterPolicyCalls "careful" earlyCalls
    let unasked := carefulBench.afterPolicyCalls "careful"
      [defining "Handle" none, .addRoot 12, defining "File" (some 12)]
    let asked := after (sharesClass "careful" "main" 13) unasked
    (∃ c, Assoc.find? "careful" early.cloners = some c ∧
        c.policy.Shares (early.registryOf "main") 13) ∧
      answer? (sharesClass "careful" "main" 13) early = some false ∧
      answer? (sharesClass "careful" "main" 13) unasked = some true ∧
      (∃ c, Assoc.find? "careful" asked.cloners = some c ∧
        ¬ c.policy.Shares (asked.registryOf "other") 13) ∧
      answer? (sharesClass "careful" "other" 13) asked = some true ∧
      answer? (sharesClass "careful" "other" 13) unasked = some false := by
  intro early unasked asked
  have hbelow : (Assoc.find? "careful" early.cloners).any (fun c =>
      c.policy.listsShared 13 || c.policy.belowRoot (early.registryOf "main") 13) = true := by
    decide
  have hnot : (Assoc.find? "careful" asked.cloners).any (fun c =>
      !(c.policy.listsShared 13 || c.policy.belowRoot (asked.registryOf "other") 13)) = true := by
    decide
  obtain ⟨c, hc, hbelow⟩ := (Option.any_eq_true _ _).mp hbelow
  obtain ⟨c', hc', hnot⟩ := (Option.any_eq_true _ _).mp hnot
  refine ⟨⟨c, hc, Policy.shares_iff.mpr hbelow⟩, ?_, ?_, ⟨c', hc', fun h => ?_⟩, ?_, ?_⟩
  case refine_3 => rw [Policy.shares_iff.mp h] at hnot; cases hnot
  all_goals decide

end Workbench

end DeepCopy
