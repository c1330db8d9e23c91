-- How errors come to the surface. A bare error of the heap, which an implementor may
-- return, is put down to the class of the object it was to clone, once and on the
-- spot. All other errors come up as they are, unless a routine on the way puts
-- another in their place.
import DeepCopy.Proofs.RegistrationRules
import DeepCopy.Proofs.SteadySteps
import DeepCopy.Proofs.Termination

namespace DeepCopy

open CloneM

/-- A self-copy method that passes no bare error of the heap off as an error of cloning. -/
def SelfCopy.Discreet (method : SelfCopy) : Prop :=
  ∀ o h cause, (method o h).1 ≠ .error (.clone (.heap cause))

/-- A computation fails with an error and leaves a run behind. -/
abbrev Fails {α : Type} (x : CloneM α) (run : Run) (e : CloneError) (last : Run) : Prop :=
  x run = .error (.failed e) last

/-- From a run a computation does not end with a bare error of the heap. -/
abbrev NamesFrom {α : Type} (x : CloneM α) (run : Run) : Prop :=
  Ends x run (fun _ _ => True) fun e _ => e.Named

theorem NamesFrom.not_fails {α : Type} {x : CloneM α} {run last : Run} {cause : HeapError}
    (h : NamesFrom x run) : ¬ Fails x run (.heap cause) last :=
  fun he => (ends_of_error he).mp h cause rfl

namespace Setting

variable {s : Setting} {n : Nested} {run last start : Run} {o : ObjectId} {e : CloneError}

/-- The self-copy methods that are used pass no bare errors of the heap off as errors of cloning. -/
def Discreet (s : Setting) (run : Run) : Prop :=
  ∀ cls p method, s.planOf run cls = .ok p → s.planVerdict p = .selfCopied method → method.Discreet

theorem Discreet.samePlans {run' : Run} (h : s.Discreet run) (hs : s.SamePlans run run') :
    s.Discreet run' := fun cls p method hp => h cls p method (hs cls ▸ hp)

/-! ## No bare errors -/

/-- What the traversal does by itself ends with no bare error of the heap if no nested clone
does. -/
theorem Strict.namesFrom {α : Type} {part : Nested → CloneM α} (hx : s.Strict part)
    (hs : ∀ v, s.Settles Value (n v)) (hn : ∀ v r, s.Discreet r → NamesFrom (n v) r)
    (hd : s.Discreet run) : NamesFrom (part n) run := by
  induction hx generalizing run with
  | step h => exact h.names run
  | nested v => exact hn v run hd
  | bind hx _ ihx ihf =>
    have hends := ends_and (ihx hd) ((Strict.free hx).settles hs run)
    unfold NamesFrom
    rw [ends_bind]
    exact ends_mono hends (fun a run' h => ihf a (hd.samePlans h.2)) fun _ _ h => h.1
  | caught hc => exact hc.elim

theorem names_delegate (n : Nested) (i : Implementor) (o : ObjectId) :
    Names Value (s.delegate n i o) := by
  intro run
  unfold delegate delegateBy
  rw [ends_bind, ends_outcome]
  unfold Ends
  cases s.implementBy n register i o run with
  | ok copy last =>
    show Ends (copyOf o >>= _) last _ _
    rw [ends_bind, ends_copyOf]
    split <;> trivial
  | error e last =>
    cases e with
    | failed e =>
      refine fun cause h => ?_
      exact named_blame _ e cause (Stop.failed.inj h)
    | _ => exact nofun

theorem namesFrom_copyItself {method : SelfCopy} (hm : method.Discreet) (p : Plan) :
    NamesFrom (copyItself method o p) run := by
  unfold copyItself NamesFrom
  simp only [ends_bind, ends_heap, ends_modify]
  cases hr : (method o run.memory.heap).1 with
  | ok copy => trivial
  | error fault =>
    cases fault with
    | clone e =>
      rintro cause ⟨⟩
      exact hm o run.memory.heap cause hr
    | other fault =>
      intro cause h
      cases h

theorem namesFrom_cloneValue (depth : Nat) (v : Value) (hd : s.Discreet run) :
    NamesFrom (cloneValue s depth v) run := by
  induction depth generalizing v run with
  | zero =>
    cases v with
    | ref o =>
      unfold cloneValue NamesFrom
      rw [ends_bind, ends_copyOf]
      split
      · trivial
      · exact nofun
    | _ =>
      unfold cloneValue
      trivial
  | succ depth ih =>
    cases v with
    | ref o =>
      cases hc : run.copies.find? o with
      | some w => exact (ends_of_ok (cloneValue_of_stands hc _)).mpr trivial
      | none =>
        unfold NamesFrom Ends
        rw [cloneValue_succ_of_new hc]
        cases s.way o run with
        | left i start _ heq =>
          rw [heq]
          exact names_delegate _ i o start
        | own _ part start hp hs heq =>
          rw [heq]
          exact hp.namesFrom (s.settles_cloneValue depth) (fun v _ => ih v) (hd.samePlans hs)
        | itself _ p method start hp hv heq =>
          rw [heq]
          exact namesFrom_copyItself (hd _ p method hp hv) p
    | _ =>
      unfold cloneValue
      trivial

/-- A copy into an instance, as a function of the way in which nested values are cloned. -/
def copyIntoBy (s : Setting) (source target : ObjectId) (n : Nested) : CloneM Unit := do
  begin
  let h ← heap
  let name := s.registry.className (h.cls source)
  if source = target then pure ()
  else if h.cls source ≠ h.cls target then
    fail (.config (.cannotCopy name (s.registry.className (h.cls target))))
  else if h.shape source ≠ .record ∨ h.shape target ≠ .record then
    fail (.config (.copyNeedsInstances name))
  else do
    let p ← s.plan (h.cls source)
    register source (.ref target)
    s.copyFields n source target p

theorem copyInto_eq_copyIntoBy (source target : ObjectId) (run : Run) :
    s.copyInto source target run =
      s.copyIntoBy source target (cloneValue s (depthAllowance run.heap)) run := by
  unfold copyInto copyIntoBy
  rw [begin_bind_heap, begin_bind_heap]

theorem strict_copyIntoBy (source target : ObjectId) : s.Strict (s.copyIntoBy source target) := by
  have hbegin : s.Steady Unit begin := ⟨settles_of_plans_eq fun _ => rfl, fun _ => trivial⟩
  refine .bind (.step hbegin) fun _ => .bind (.step steady_heap) fun h => ?_
  dsimp only
  split
  · exact .step (steady_pure ())
  · split
    · exact .step (steady_fail nofun)
    · split
      · exact .step (steady_fail nofun)
      · exact .bind (.step (steady_plan _)) fun p => .bind (.step (steady_register _ _)) fun _ =>
          strict_copyFields source target p

theorem places_writeElements (target : ObjectId) (index : Nat) (vs : List Value) :
    Places (s.writeElements target index vs) := by
  induction vs generalizing index with
  | nil => exact places_pure ()
  | cons v vs ih =>
    exact (places_onMemory (s.backend.places_writeElement target index v)).bind fun _ =>
      ih (index + 1)

theorem places_carryFields (source target : ObjectId) (bulk : Bool) (fs : List PlannedField) :
    Places (s.carryFields source target bulk fs) := by
  induction fs with
  | nil => exact places_pure ()
  | cons f fs ih =>
    unfold carryFields
    split
    · exact ih
    · exact (places_onMemory (s.backend.places_copyField f source target none)).bind fun _ => ih

/-- All that can go wrong with a copy that goes one level deep is put down to a class or a field. -/
theorem places_shallow (source : ObjectId) : Places (s.shallow source) := by
  refine places_heap.bind fun h => ?_
  cases h.shape source with
  | packed => exact places_onMemory (s.backend.places_duplicatePacked source)
  | slots =>
    exact (places_slotItems source).bind fun items => places_heap.bind fun h =>
      (places_onMemory (s.backend.places_allocateSlots _ _)).bind fun copy =>
        (places_writeElements copy 0 items).bind fun _ => places_pure _
  | container =>
    refine places_heap.bind fun h => (places_plan _).bind fun p =>
      (places_onMemory (s.backend.places_allocate p)).bind fun copy => places_heap.bind fun h => ?_
    cases h.contents? source with
    | none => exact places_fail trivial
    | some contents => exact (places_setContents p copy contents).bind fun _ => places_pure _
  | record =>
    exact places_heap.bind fun h => (places_plan _).bind fun p =>
      (places_onMemory (s.backend.places_allocate p)).bind fun copy =>
        (places_onMemory (s.backend.places_copyBlock source copy)).bind fun bulk =>
          (places_carryFields source copy bulk p.fields).bind fun _ => places_pure _

/-! ## What comes up from below -/

theorem cloneNew_of_leftTo {i : Implementor} (h : s.leftTo o run = .ok (some i) start)
    (n : Nested) :
    s.cloneNew n o run = s.delegate n i o start := by
  cases s.way o run with
  | left i' start' hl heq =>
    cases hl.symm.trans h
    exact heq n
  | own hl => exact absurd h (hl i start)
  | itself hl => exact absurd h (hl i start)

/-- On the way of an error up through a frame: the routine that the object is left to, if it is left
to any, returns the error. -/
def HandsOn (s : Setting) (e : CloneError) (last : Run) (depth : Nat) (o : ObjectId) (run : Run) :
    Prop :=
  ∀ i start, s.leftTo o run = .ok (some i) start → i ≠ .containers →
    Fails (s.implement (cloneValue s depth) i o) start e last

/-- An error that is no bare error of the heap comes up through what rebuilds containers. -/
theorem fails_delegate_containers {w : Value} {r : Run} (he : ∀ cause, e ≠ .heap cause)
    (ha : Asks (fun n => s.delegate n .containers o) n start w r)
    (hw : Fails (n w) r e last) : Fails (s.delegate n .containers o) start e last := by
  have hp : s.Strict fun n => s.implement n .containers o := strict_duplicateContainer o
  have hl := (Part.caught trivial hp.free).asks_of_bind ha
  have hf := hp.error_of_asks (hp.free.asks_of_outcome hl) hw
  unfold Fails
  rw [delegate_of_failed hf, blame_of_ne he]

/-- An error comes up through any number of frames. -/
theorem fails_of_takes {depth depth' : Nat} {v w : Value} {r : Run} (he : ∀ cause, e ≠ .heap cause)
    (h : s.Takes (s.HandsOn e last) depth v run depth' w r)
    (hw : Fails (cloneValue s depth' w) r e last) : Fails (cloneValue s depth v) run e last := by
  induction h with
  | here => exact hw
  | @down depth _ o _ _ run _ _ new hf asks _ ih =>
    have ih := ih hw
    unfold Fails
    rw [cloneValue_succ_of_new new]
    cases s.way o run with
    | left i start hl heq =>
      rw [heq]
      by_cases hi : i = .containers
      · subst hi
        exact fails_delegate_containers he (asks.congr fun n' _ h => (heq n').symm.trans h) ih
      · rw [delegate_of_failed (hf i start hl hi), blame_of_ne he]
    | own _ part start hp _ heq =>
      rw [heq]
      exact hp.error_of_asks (asks.congr fun n' _ h => (heq n').symm.trans h) ih
    | itself _ _ _ _ _ _ heq =>
      exact absurd (fun n' _ => (heq n').trans (heq _).symm) asks.not_ignores

end Setting

/-- A routine is told of an error by a reply. -/
def Request.Reports (e : CloneError) : (q : Request) → q.Reply → Prop
  | clone _, reply => reply = .error e
  | cloneFields _ _, reply => reply = .error e
  | _, _ => False

namespace Setting

variable {s : Setting} {n : Nested} {run last start : Run} {o : ObjectId} {e : CloneError}

/-- A routine is told of what goes wrong with nested clones, as it was. -/
theorem answer_of_fails {q : Request} {w : Value} {r : Run}
    (h : Asks (fun n => s.answer n q) n start w r) (hw : Fails (n w) r e last) :
    ∃ reply, s.answer n q start = .ok reply last ∧ q.Reports e reply := by
  cases q with
  | clone v =>
    have hp : s.Strict fun n => n v := .nested v
    exact ⟨_, outcome_of_failed (hp.error_of_asks (hp.asks_of_outcome h) hw), rfl⟩
  | cloneFields source target =>
    have hp := s.strict_cloneFields source target
    exact ⟨_, outcome_of_failed (hp.error_of_asks (hp.asks_of_outcome h) hw), rfl⟩
  | _ => exact absurd (fun _ _ => rfl) h.not_ignores

/-- What a self-copy method reports as an error of cloning comes up as it is. -/
theorem copyItself_of_refused {method : SelfCopy} {h : Heap} (p : Plan)
    (hm : method o start.heap = (.error (.clone e), h)) :
    Fails (copyItself method o p) start e { start with memory.heap := h } := by
  unfold Fails copyItself
  rw [heap_bind, hm]
  rfl

theorem fails_of_copyItself {p : Plan} {method : SelfCopy} {h : Heap}
    (hj : s.judge run (run.heap.cls o) o = .open) (hp : s.planOf run (run.heap.cls o) = .ok p)
    (hv : s.planVerdict p = .selfCopied method)
    (hm : method o run.heap = (.error (.clone e), h)) :
    ∃ last, Fails (s.cloneNew n o) run e last ∧ last.heap = h := by
  have hasked : s.planOf (s.asked run (run.heap.cls o)) (run.heap.cls o) = .ok p :=
    (planOf_asked _ _).trans hp
  obtain ⟨plans, hplan, -⟩ := exists_plan hasked
  have hsame : ({ s.asked run (run.heap.cls o) with plans } : Run).memory = run.memory :=
    memory_asked _
  have hm' : method o ({ s.asked run (run.heap.cls o) with plans } : Run).heap =
      (.error (.clone e), h) := by
    unfold Run.heap
    rw [hsame]
    exact hm
  refine ⟨{ ({ s.asked run (run.heap.cls o) with plans } : Run) with memory.heap := h }, ?_, rfl⟩
  unfold Fails
  rw [cloneNew_eq, hj]
  refine (bind_of_ok hplan).trans ?_
  unfold cloneByPlan cloneByPlanBy
  rw [hv]
  exact copyItself_of_refused p hm'

/-! ## How errors fare -/

/-- On every heap and with any implementors, no operation ends with a bare error of the heap: where
an implementor returns one, it is put down to the class of the object that this implementor was to
clone. Every other error, whoever raised it and however deep, comes up as it is through all frames,
up to a routine that is told of it and may answer with another. -/
theorem errors_come_up_as_they_are_and_never_bare {run : Run} (hd : s.Discreet run) :
    -- no operation ends with a bare error of the heap
    (∀ cause last, (∀ v, ¬ Fails (s.clone v) run (.heap cause) last) ∧
      (∀ source target, ¬ Fails (s.copyInto source target) run (.heap cause) last) ∧
      ∀ source, ¬ Fails (s.shallow source) run (.heap cause) last) ∧
    -- what an implementor returns: a bare error is put down to the class of its own source
    (∀ depth o r i start e last, r.copies.find? o = none → s.leftTo o r = .ok (some i) start →
      Fails (s.implement (cloneValue s depth) i o) start e last →
      Fails (cloneValue s (depth + 1) (.ref o)) r
        (match e with
        | .heap cause => .delegate (s.registry.className (last.heap.cls o)) (.heap cause)
        | e => e) last) ∧
    -- what a self-copy method returns
    (∀ depth o r p method e h, r.copies.find? o = none → s.judge r (r.heap.cls o) o = .open →
      s.planOf r (r.heap.cls o) = .ok p → s.planVerdict p = .selfCopied method →
      method o r.heap = (.error (.clone e), h) →
      ∃ last, Fails (cloneValue s (depth + 1) (.ref o)) r e last ∧ last.heap = h) ∧
    -- what comes up from below, by whatever it was raised
    (∀ depth w r e last, (∀ cause, e ≠ .heap cause) → Fails (cloneValue s depth w) r e last →
      (∀ v, s.Takes (s.HandsOn e last) (depthAllowance run.heap) v { run with copies := {} }
        depth w r → Fails (s.clone v) run e last) ∧
      (∀ source target v start,
        Asks (s.copyIntoBy source target) (cloneValue s (depthAllowance run.heap)) run v start →
        s.Takes (s.HandsOn e last) (depthAllowance run.heap) v start depth w r →
        Fails (s.copyInto source target) run e last) ∧
      ∀ q start, Asks (fun n => s.answer n q) (cloneValue s depth) start w r →
        ∃ reply, s.answer (cloneValue s depth) q start = .ok reply last ∧ q.Reports e reply) := by
  obtain ⟨top, htop⟩ : ∃ top, depthAllowance run.heap = top := ⟨_, rfl⟩
  have hclone : ∀ v, s.clone v run = cloneValue s top v { run with copies := {} } :=
    fun v => htop ▸ s.clone_eq v run
  have hinto : ∀ source target,
      s.copyInto source target run = s.copyIntoBy source target (cloneValue s top) run :=
    fun source target => htop ▸ s.copyInto_eq_copyIntoBy source target run
  rw [htop]
  refine ⟨fun cause last => ⟨fun v h => ?_, fun source target h => ?_, fun source => ?_⟩,
    ?_, ?_, ?_⟩
  · have hd' : s.Discreet { run with copies := {} } := hd.samePlans (samePlans_of_plans_eq rfl)
    exact (namesFrom_cloneValue top v hd').not_fails ((hclone v).symm.trans h)
  · have hnames := (s.strict_copyIntoBy source target).namesFrom (s.settles_cloneValue top)
      (fun v _ => namesFrom_cloneValue top v) hd
    exact hnames.not_fails ((hinto source target).symm.trans h)
  · exact NamesFrom.not_fails ((s.places_shallow source).names run)
  · intro depth o r i start e last new hl hi
    unfold Fails
    rw [cloneValue_succ_of_new new, cloneNew_of_leftTo hl, delegate_of_failed hi]
    cases e <;> rfl
  · intro depth o r p method e h new hj hp hv hm
    obtain ⟨last, hfails, hlast⟩ := fails_of_copyItself (n := cloneValue s depth) hj hp hv hm
    exact ⟨last, (cloneValue_succ_of_new new).trans hfails, hlast⟩
  · intro depth w r e last he hw
    refine ⟨fun v ht => ?_, fun source target v start ha ht => ?_, fun q start ha => ?_⟩
    · exact (hclone v).trans (fails_of_takes he ht hw)
    · refine (hinto source target).trans ?_
      exact (s.strict_copyIntoBy source target).error_of_asks ha (fails_of_takes he ht hw)
    · exact answer_of_fails ha hw

/-- A cloner that leaves lists to a routine that fails with an error of the heap, and lets instances
copy themselves. -/
def nodesSetting (method : SelfCopy) : Setting where
  registry := (Registry.initial.add ringNode).add (ownClass method)
  backend := .fast
  policy := Policy.addOverride { Policy.standard with flags := { useSelfCopy := true } } 6
    (.routine fun _ => .fail (.heap (.unknownClass "lost")))

/-- An instance with a list, and an instance with one that copies itself. -/
def nodesRun : Run where
  memory := { heap := ⟨#[Object.new 12 (.record [7, 0, 0, 0] [.ref 1]),
    Object.new 6 (.container (.list [])), Object.new 12 (.record [7, 0, 0, 0] [.ref 3]),
    Object.new 13 (.record [] [.ref 2])]⟩ }

/-- What a clone of an instance has come to when it gets to what the instance holds. -/
def nodeBegun (o : ObjectId) (plans : Plans) : Run :=
  { nodesRun with
    memory.heap := nodesRun.heap.add (Object.new 12 (.record [7, 0, 0, 0] [.null]))
    plans
    copies := Copies.put {} o (.ref 4) }

/-- Puts into the copy of an instance what stands for what the instance holds. -/
def setItem (s : Setting) (o : ObjectId) (copy : Value) : CloneM Unit :=
  onMemory (s.backend.copyField ⟨⟨12, "Node", "items", .object 0, .slot 0, {}⟩, "Node"⟩ o 4
    (some copy))

/-- A clone of an instance carries its label with the block, and what it holds comes next. -/
theorem cloneNew_node (method : SelfCopy) (ho : o = 0 ∨ o = 2) : ∃ plans,
    (nodesSetting method).SamePlans nodesRun (nodeBegun o plans) ∧ ∀ n,
      (nodesSetting method).cloneNew n o nodesRun =
        (((n (.ref (o + 1)) >>= setItem (nodesSetting method) o) >>= fun _ => pure ()) >>=
          fun _ => pure (.ref 4)) (nodeBegun o plans) := by
  obtain ⟨p, hp⟩ : ∃ p, (nodesSetting method).planOf nodesRun 12 = .ok p := ⟨_, rfl⟩
  obtain ⟨plans, hplan, -⟩ := exists_plan hp
  cases hp
  refine ⟨plans, ((settles_plan 12).of_ok hplan).trans (samePlans_of_plans_eq rfl), fun n => ?_⟩
  rcases ho with rfl | rfl
  · have hj : (nodesSetting method).judge nodesRun (nodesRun.heap.cls 0) 0 = .open := rfl
    rw [cloneNew_eq, hj]
    exact (bind_of_ok hplan).trans rfl
  · have hj : (nodesSetting method).judge nodesRun (nodesRun.heap.cls 2) 2 = .open := rfl
    rw [cloneNew_eq, hj]
    exact (bind_of_ok hplan).trans rfl

theorem discreet_nodes {method : SelfCopy} (hm : method.Discreet) :
    (nodesSetting method).Discreet nodesRun := by
  intro cls p method' hp hv
  obtain ⟨e, he, hdesc⟩ := describes_of_planOf (Plans.fit_nil _) hp
  have hself := (selfCopy_of_planVerdict hv).2
  rw [hdesc.selfCopy_eq] at hself
  rcases Registry.get?_add he with ⟨-, he⟩ | ⟨-, rfl⟩
  · rcases Registry.get?_add he with ⟨-, he⟩ | ⟨-, rfl⟩
    · rw [Registry.initial_selfCopy he] at hself
      cases hself
    · cases hself
  · cases hself
    exact hm

/-- What goes wrong with the list in an instance is put down to the class of lists, and so it comes
up through the instance. What the self-copy method of an instance refuses comes up as it is. -/
theorem a_lost_list_is_put_down_to_its_class_and_a_refusal_comes_up :
    (∀ cause last v,
      ¬ Fails ((nodesSetting SelfCopies.refusing).clone v) nodesRun (.heap cause) last) ∧
    (∃ last, Fails ((nodesSetting SelfCopies.refusing).clone (.ref 0)) nodesRun
      (.delegate "ArrayList" (.heap (.unknownClass "lost"))) last) ∧
    ∃ last, Fails ((nodesSetting SelfCopies.refusing).clone (.ref 2)) nodesRun
      (.config (.other "self-copy refused")) last := by
  have hd : (nodesSetting SelfCopies.refusing).Discreet nodesRun :=
    discreet_nodes fun _ _ _ => nofun
  obtain ⟨bare, blamed, refused, up⟩ := errors_come_up_as_they_are_and_never_bare hd
  have asks : ∀ o, o = 0 ∨ o = 2 → ∃ plans,
      (nodesSetting SelfCopies.refusing).SamePlans nodesRun (nodeBegun o plans) ∧ ∀ n,
        Asks (fun n => (nodesSetting SelfCopies.refusing).cloneNew n o) n nodesRun (.ref (o + 1))
          (nodeBegun o plans) := by
    intro o ho
    obtain ⟨plans, hsame, hnew⟩ := cloneNew_node SelfCopies.refusing ho
    exact ⟨plans, hsame, fun n n' last _ hw =>
      (hnew n').trans (bind_of_error (bind_of_error (bind_of_error hw)))⟩
  have hown : ∀ o, o = 0 ∨ o = 2 → ∀ i start,
      (nodesSetting SelfCopies.refusing).leftTo o nodesRun ≠ .ok (some i) start := by
    rintro o (rfl | rfl) i start hl
    · exact nomatch (show EStateM.Result.ok none _ = _ from hl)
    · exact nomatch (show EStateM.Result.ok none _ = _ from hl)
  have htop : depthAllowance nodesRun.heap = 2 ^ 48 + 3 + 1 := Nat.add_comm 4 (2 ^ 48)
  refine ⟨fun cause last v => (bare cause last).1 v, ?_, ?_⟩
  · obtain ⟨plans, -, hasks⟩ := asks 0 (Or.inl rfl)
    have hlist := blamed (2 ^ 48 + 2) 1 (nodeBegun 0 plans) _ _ (.heap (.unknownClass "lost"))
      (nodeBegun 0 plans) rfl rfl rfl
    refine ⟨_, (up _ _ _ _ _ (by nofun) hlist).1 (.ref 0) ?_⟩
    rw [htop]
    exact .down rfl (fun i start hl _ => absurd hl (hown 0 (Or.inl rfl) i start)) (hasks _)
      (.here _ _ _)
  · obtain ⟨plans, hsame, hasks⟩ := asks 2 (Or.inr rfl)
    obtain ⟨p, hp, hv⟩ : ∃ p, (nodesSetting SelfCopies.refusing).planOf nodesRun 13 = .ok p ∧
        (nodesSetting SelfCopies.refusing).planVerdict p = .selfCopied SelfCopies.refusing :=
      ⟨_, rfl, rfl⟩
    obtain ⟨last, hself, -⟩ := refused (2 ^ 48 + 2) 3 (nodeBegun 2 plans) p SelfCopies.refusing
      (.config (.other "self-copy refused")) _ rfl rfl ((hsame 13).trans hp) hv rfl
    refine ⟨last, (up _ _ _ _ _ (by nofun) hself).1 (.ref 2) ?_⟩
    rw [htop]
    exact .down rfl (fun i start hl _ => absurd hl (hown 2 (Or.inr rfl) i start)) (hasks _)
      (.here _ _ _)

end Setting

end DeepCopy
