-- A clone keeps its book. At every deed, and where it ends, there is a ledger for
-- what it has done: each object that has a copy was there and was registered once,
-- with the object made for it, and what it refers to was cloned after that.
import DeepCopy.Proofs.Interruptions
import DeepCopy.Proofs.Ledger
import DeepCopy.Proofs.PackedCopies
import DeepCopy.Proofs.Termination

namespace DeepCopy

/-! ## Plans and primitive arrays -/

/-- Each plan is of the class that it is kept for. -/
def Plans.Keyed (plans : Plans) : Prop := ∀ cls p, Assoc.find? cls plans = some p → p.cls = cls

theorem Setting.cls_of_planOf {s : Setting} {run : Run} {p : Plan} {cls : ClassId}
    (hk : run.plans.Keyed) (hp : s.planOf run cls = .ok p) : p.cls = cls := by
  unfold planOf Plans.get at hp
  cases hf : Assoc.find? cls run.plans with
  | some q =>
    rw [hf] at hp
    cases hp
    exact hk cls _ hf
  | none =>
    rw [hf] at hp
    cases hm : Plan.make s.registry s.classifier cls with
    | error e =>
      rw [hm] at hp
      cases hp
    | ok q =>
      rw [hm] at hp
      cases hp
      obtain ⟨e, -, hd⟩ := Plan.describes_of_make hm
      exact hd.cls_eq

namespace Backend

variable {b : Backend} {m : Memory} {source : ObjectId}

/-- Only a duplicate that breaks off leaves an object behind. -/
theorem ends_duplicatePacked_aborted (b : Backend) (m : Memory) (source : ObjectId) :
    Ends (b.duplicatePacked source) m (fun _ _ => True)
      (fun e m' => e = .aborted ∨ m'.heap = m.heap) := by
  simp only [duplicatePacked, ends_bind, ends_get]
  cases b with
  | fast =>
    cases hb : m.heap.body source with
    | packed kind bytes => trivial
    | _ => exact Or.inr rfl
  | portable r =>
    cases hb : m.heap.body source with
    | packed kind bytes =>
      simp only [ends_bind, ends_allocating]
      refine ends_allocateArray r _ _ (fun body tally => ?_) fun e => Or.inr rfl
      exact ends_mono (ends_fillPacked _ _) (fun _ _ _ => trivial) fun _ _ h => Or.inl h.1
    | _ => exact Or.inr rfl

/-- Of a primitive array as its class says there is a duplicate of that class, or nothing new. -/
theorem ends_duplicatePacked_of_suits
    (hs : ∀ kind bytes, m.heap.body source = .packed kind bytes →
      b.Suits (m.heap.cls source) kind bytes) :
    Ends (b.duplicatePacked source) m
      (fun o m' => o = m.heap.size ∧ ∃ x, m'.heap = m.heap.add x ∧ x.cls = m.heap.cls source)
      (fun e m' => e ≠ .tooDeep ∧ m'.heap = m.heap) := by
  have hnot : Ends (b.duplicatePacked source) m (fun _ _ => True) (fun e _ => e ≠ .aborted) := by
    by_cases hx : (m.heap.body source).shape = .packed
    · obtain ⟨kind, bytes, hx⟩ := Body.exists_packed hx
      exact ends_mono (ends_duplicatePacked_of_packed b hx) (fun _ _ _ => trivial)
        fun _ _ h => h.ne_aborted (hs kind bytes hx)
    · refine ends_mono (ends_duplicatePacked_of_other b hx) (fun _ _ _ => trivial) ?_
      rintro _ _ ⟨rfl, -⟩
      simp
  refine ends_mono (ends_and (b.ends_duplicatePacked source)
    (ends_and (ends_duplicatePacked_aborted b m source) hnot)) ?_ ?_
  · rintro o m' ⟨⟨ho, body, shape, hm⟩, -⟩
    exact ⟨ho, _, hm, rfl⟩
  · rintro e m' ⟨⟨he, -⟩, hheap, hne⟩
    exact ⟨he, hheap.resolve_left hne⟩

end Backend

/-! ## Keeping the book -/

/-- A setting and a run from which the book of a clone of `root` can be kept: it can be followed, no
object copies itself, and primitive arrays are such as their classes say. -/
structure Setting.Booked (s : Setting) (base : Run) (root : Value) : Prop
    extends s.Followed base root where
  native : s.policy.flags.useSelfCopy = false
  plans : base.plans.Keyed
  suits : ∀ o < base.heap.size, ∀ kind bytes, base.heap.body o = .packed kind bytes →
    s.backend.Suits (base.heap.cls o) kind bytes

theorem Kept.of_noted {s : Setting} {own : ObjectId → Prop} {run : Run} (d : Deed) :
    Kept s own run (d.notedIn run) :=
  { (Kept.refl run : Kept s own run run) with }

/-- The objects that are being filled, and one more. -/
abbrev With (busy : ObjectId → Prop) (source : ObjectId) : ObjectId → Prop :=
  fun o => busy o ∨ o = source

/-- A clone with a ledger, begun in `base`, as far as it has come. It goes no deeper than as many
objects are left as were there, and the `busy` ones have copies. -/
structure OnRecord (s : Setting) (base : Run) (depth : Nat) (busy : ObjectId → Prop) (run : Run) :
    Prop where
  kept : Kept s (base.heap.size ≤ ·) base run
  ledger : ∃ deeds, Ledger base.heap deeds run
  enough : base.heap.size + base.heap.size ≤ depth + run.heap.size
  busy : ∀ o, busy o → ∃ copy, run.copies.find? o = some copy

/-- What holds where a clone with a ledger breaks off. -/
def OnRecord.Stopped (base : Run) (e : Stop) (run : Run) : Prop :=
  e ≠ .tooDeep ∧ ∃ deeds, Ledger base.heap deeds run

namespace OnRecord

variable {s : Setting} {base run run' : Run} {depth depth' : Nat} {busy busy' : ObjectId → Prop}
  {source : ObjectId}

theorem stopped (h : OnRecord s base depth busy run) {e : Stop} (he : e ≠ .tooDeep) :
    Stopped base e run := ⟨he, h.ledger⟩

theorem mono (h : OnRecord s base depth busy run) (hd : depth ≤ depth')
    (hb : ∀ o, busy' o → busy o) : OnRecord s base depth' busy' run :=
  ⟨h.kept, h.ledger, Nat.le_trans h.enough (Nat.add_le_add_right hd _),
    fun o ho => h.busy o (hb o ho)⟩

/-- A step that neither makes objects nor touches the map. -/
theorem step (h : OnRecord s base depth busy run) (hk : Kept s (base.heap.size ≤ ·) run run')
    (hj : run'.journal = run.journal) (hc : run'.copies = run.copies)
    (hs : run'.heap.size = run.heap.size) : OnRecord s base depth busy run' where
  kept := h.kept.trans hk
  ledger :=
    let ⟨deeds, hl⟩ := h.ledger
    ⟨deeds, hl.step hj hc hs hk.heap.cls_eq⟩
  enough := hs ▸ h.enough
  busy := hc ▸ h.busy

theorem noted (h : OnRecord s base depth busy run) {d : Deed} (hd : d.registration? = none)
    (hold : d.object < base.heap.size) (hmet : ∀ o v, d = .clones o v → busy o) :
    OnRecord s base depth busy (d.notedIn run) where
  kept := h.kept.trans (Kept.of_noted d)
  ledger :=
    let ⟨deeds, hl⟩ := h.ledger
    ⟨deeds ++ [d], hl.note hd hold fun o v heq => h.busy o (hmet o v heq)⟩
  enough := h.enough
  busy := h.busy

/-- An object is made, and registered for a source that had no copy. -/
theorem registered (h : OnRecord s base (depth + 1) busy run) (hlt : source < base.heap.size)
    (new : run.copies.find? source = none) {m : Memory} {x : Object}
    (hm : m.heap = run.heap.add x) (hx : x.cls = base.heap.cls source) :
    OnRecord s base depth (With busy source)
      ((Deed.registers source (.ref run.heap.size)).notedIn
        { run with memory := m, copies := run.copies.put source (.ref run.heap.size) }) := by
  have hmade : Kept s (base.heap.size ≤ ·) run { run with memory := m } :=
    Kept.of_memory (hm ▸ Spared.of_add x)
  have hk : Kept s (base.heap.size ≤ ·) run
      { run with memory := m, copies := run.copies.put source (.ref run.heap.size) } :=
    hmade.trans (Kept.of_register _ new)
  obtain ⟨deeds, hl⟩ := h.ledger
  refine ⟨h.kept.trans (hk.trans (Kept.of_noted _)), ⟨_, hl.register hlt new hm hx⟩, ?_, ?_⟩
  · have := h.enough
    show _ ≤ depth + m.heap.size
    rw [hm, Heap.size_add]
    omega
  · rintro o (ho | rfl)
    · obtain ⟨copy, hcopy⟩ := h.busy o ho
      exact ⟨copy, hk.copies o copy hcopy⟩
    · exact ⟨_, Copies.find?_put _ _ _⟩

theorem of_finds {root : Value} (h : OnRecord s base depth busy run) (hs : s.Booked base root)
    (hf : Finds s (· = .containers) run run') : OnRecord s base depth busy run' :=
  h.step (Kept.of_finds hf) (hf.journal hs.silent) hf.copies (congrArg Heap.size hf.heap)

theorem body_eq (h : OnRecord s base depth busy run) (hlt : source < base.heap.size) :
    run.heap.body source = base.heap.body source :=
  h.kept.heap.body_eq source hlt (Nat.not_le.mpr hlt)

end OnRecord

/-- A step that makes the next object, of a class, or leaves the heap as it is. -/
def MakesOf (m : Memory) (cls : ClassId) (make : CopyM ObjectId) : Prop :=
  Ends make m (fun o m' => o = m.heap.size ∧ ∃ x, m'.heap = m.heap.add x ∧ x.cls = cls)
    fun e m' => e ≠ .tooDeep ∧ m'.heap = m.heap

theorem makesOf_allocate (b : Backend) (m : Memory) (p : Plan) :
    MakesOf m p.cls (b.allocate p) := by
  refine ends_mono (b.ends_allocate p) ?_ ?_
  · rintro o m' ⟨ho, body, hm⟩
    exact ⟨ho, _, hm, rfl⟩
  · rintro _ m' ⟨⟨c, rfl⟩, hm⟩
    exact ⟨by simp, hm⟩

theorem makesOf_allocateSlots (b : Backend) (m : Memory) (cls : ClassId) (length : Nat) :
    MakesOf m cls (b.allocateSlots cls length) := by
  refine ends_mono (b.ends_allocateSlots cls length) ?_ ?_
  · rintro o m' ⟨ho, body, hm⟩
    exact ⟨ho, _, hm, rfl⟩
  · rintro _ m' ⟨⟨c, rfl⟩, hm⟩
    exact ⟨by simp, hm⟩

namespace Setting

open CloneM

/-! ## The invariant -/

/-- A clone keeps its ledger, however far it has come. -/
def recording (s : Setting) (base : Run) (depth : Nat) (busy : ObjectId → Prop) : Invariant where
  Good := OnRecord s base depth busy
  Later _ := OnRecord s base depth busy
  Stopped _ := OnRecord.Stopped base
  Allows _ := base.heap.Has
  Gives _ _ _ := True
  refl h := h
  trans _ h := h
  good _ h := h
  stopped _ h := h
  failed h he := h.stopped he
  blamed h := ⟨by simp, h.2⟩
  allows _ h := h
  gives _ h := h

variable {α : Type} {s : Setting} {base run : Run} {root : Value} {depth : Nat}
  {busy : ObjectId → Prop} {tell : Deed → CloneM Unit} {nested : Value → CloneM Value}
  {source target : ObjectId}

/-- The clone goes on after a deed, or is broken off there. -/
theorem ends_told (ht : Tells tell) {d : Deed} {f : Unit → CloneM α} {Q : α → Run → Prop}
    {E : Stop → Run → Prop} (hf : Ends (f ()) (d.notedIn run) Q E)
    (haborted : E .aborted (d.notedIn run)) : Ends (tell d >>= f) run Q E := by
  rw [ends_bind]
  rcases ht d run with heq | heq
  · exact (ends_of_ok heq).mpr hf
  · exact (ends_of_error heq).mpr haborted

theorem receives_recording (hnew : base.heap.size ≤ target) :
    (s.recording base depth busy).Receives target := by
  intro α x hx run h
  rw [ends_onMemory]
  refine ends_mono (hx run.memory) ?_ ?_
  · rintro _ m ⟨htouch, -⟩
    refine ⟨h.step (Kept.of_memory (Spared.of_touched htouch hnew)) rfl rfl ?_, trivial⟩
    show m.heap.size = run.heap.size
    rcases htouch with heq | ⟨body, heq⟩
    · rw [heq]
    · rw [heq, Heap.size_setBody]
  · rintro e _ ⟨he, rfl⟩
    exact h.stopped he

theorem clones_cloneMet (ht : Tells tell) (hlt : source < base.heap.size) (hb : busy source)
    (hn : (s.recording base depth busy).Clones nested) :
    (s.recording base depth busy).Clones (cloneMet tell nested source) := by
  intro run v hv h
  have hnoted : OnRecord s base depth busy ((Deed.clones source v).notedIn run) := by
    refine h.noted rfl hlt ?_
    rintro _ _ heq
    cases heq
    exact hb
  exact ends_told ht (hn _ v hv hnoted) (hnoted.stopped (by simp))

/-! ## Duplicates -/

section Duplicating

variable (hs : s.Booked base root) (ht : Tells tell) (hlt : source < base.heap.size)
  (new : run.copies.find? source = none)
include ht hlt new

/-- An object is made and stands for the source from then on. -/
theorem recording_makeCopy {make : CopyM ObjectId} {fill : ObjectId → CloneM Unit}
    (hmake : MakesOf run.memory (base.heap.cls source) make)
    (hfill : ∀ target run', (s.recording base depth (With busy source)).Receives target →
      (s.recording base depth (With busy source)).Maintains (fill target) run' fun _ _ => True) :
    (s.recording base (depth + 1) busy).Maintains (makeCopy (registerTelling tell) source make fill)
      run fun _ run' => ∃ w, run'.copies.find? source = some w := by
  intro h
  unfold makeCopy
  rw [ends_bind, ends_onMemory]
  refine ends_mono hmake ?_ ?_
  · rintro _ m ⟨rfl, x, hm, hx⟩
    have h₁ := h.registered hlt new hm hx
    unfold registerTelling
    rw [bind_assoc, ends_bind, ends_register]
    refine ends_told ht ?_ (h₁.stopped (by simp))
    rw [ends_bind]
    refine ends_mono (hfill _ _ (receives_recording h.kept.heap.size_le) h₁) ?_ fun _ _ h => h
    rintro _ run₂ ⟨h₂, -⟩
    exact ⟨h₂.mono (Nat.le_succ _) fun _ ho => Or.inl ho, h₂.busy source (Or.inr rfl)⟩
  · rintro e m ⟨he, hm⟩
    have h₁ : OnRecord s base (depth + 1) busy { run with memory := m } :=
      h.step (Kept.of_memory (hm ▸ Spared.refl _)) rfl rfl (congrArg Heap.size hm)
    exact h₁.stopped he

include hs

theorem copies_recording : (s.recording base (depth + 1) busy).Copies
    (s.recording base depth (With busy source)) s (registerTelling tell) source
    (MakesOf run.memory (base.heap.cls source))
    (fun _ run' => ∃ w, run'.copies.find? source = some w) run where
  copy make fill run₁ _ hmem hcopies hmake hfill :=
    recording_makeCopy ht hlt (hcopies ▸ new) (hmem ▸ hmake) hfill
  allows run₁ v h hv _ o ho := by
    have hbody : run₁.heap.body source = base.heap.body source :=
      h.elim (·.body_eq hlt) (·.body_eq hlt)
    exact hs.closed source hlt _ (hbody ▸ hv o ho) o rfl
  plan h := by
    rw [h.kept.heap.cls_eq source hlt]
    refine ends_mono (ends_plan_finds (A := (· = .containers)) _) ?_ ?_
    · rintro p run₁ ⟨hf, hp⟩
      rw [h.kept.planOf] at hp
      refine ⟨h.of_finds hs hf, hf.memory, hf.copies, ?_⟩
      rw [← cls_of_planOf hs.plans hp]
      exact makesOf_allocate s.backend run.memory p
    · rintro _ _ ⟨⟨e, rfl⟩, rfl⟩
      exact h.stopped (by simp)

end Duplicating

/-! ## The rules -/

section Deciding

variable (hs : s.Booked base root) (ht : Tells tell)
  (hn : ∀ busy, (s.recording base depth busy).Clones nested)
include hs ht hn

theorem recording_cloneNewBy (hlt : source < base.heap.size)
    (new : run.copies.find? source = none) :
    (s.recording base (depth + 1) busy).Maintains
      (s.cloneNewBy (cloneMet tell nested source) (askTelling tell) (registerTelling tell) source)
      run fun _ _ => True := by
  intro h
  have hmet : (s.recording base depth (With busy source)).Clones (cloneMet tell nested source) :=
    clones_cloneMet ht hlt (Or.inr rfl) (hn _)
  have hcopies : ∀ {run'}, Finds s (· = .containers) run run' →
      (s.recording base (depth + 1) busy).Copies (s.recording base depth (With busy source)) s
        (registerTelling tell) source (MakesOf run'.memory (base.heap.cls source))
        (fun _ run' => ∃ w, run'.copies.find? source = some w) run' := fun hf =>
    copies_recording hs ht hlt (hf.copies ▸ new)
  refine Invariant.maintains_cloneNewBy ((h.kept.tame hs.tame).toBuiltIn.employs source)
    (fun _ hf => h.of_finds hs hf) (fun _ _ _ => trivial) (fun _ _ _ => trivial) ?_ ?_ ?_ h
  · rintro - _ run' rfl hf
    refine Invariant.maintains_delegateBy ((hcopies hf).duplicateContainer hmet) ?_
    rintro copy run₂ ⟨w, hw⟩ h₂
    -- The source of a container that was rebuilt has its copy already.
    have hasked : OnRecord s base (depth + 1) busy ((Deed.asks source).notedIn run₂) :=
      h₂.noted rfl hlt (by simp)
    unfold settleBy askTelling
    rw [bind_assoc]
    refine ends_told ht ?_ (hasked.stopped (by simp))
    have hfound : ((Deed.asks source).notedIn run₂).copies.find? source = some w := hw
    rw [ends_bind, ends_copyOf, hfound]
    exact ⟨hasked, trivial⟩
  · intro _ p method run' _ _ hon
    rw [hs.native] at hon
    cases hon
  · intro _ p run' hf hp
    have hcls : run'.heap.cls source = base.heap.cls source :=
      (congrArg (Heap.cls · source) hf.heap).trans (h.kept.heap.cls_eq source hlt)
    have hplan : s.planOf base (base.heap.cls source) = .ok p := by
      rw [← h.kept.planOf, ← h.kept.heap.cls_eq source hlt]
      exact hp
    refine ((hcopies hf).duplicate hmet ?_ ?_ ?_).mono fun _ _ _ _ _ => trivial
    · rw [← cls_of_planOf hs.plans hplan]
      exact makesOf_allocate s.backend _ p
    · rw [hcls]
      exact makesOf_allocateSlots s.backend _ _
    · rw [← hcls]
      refine Backend.ends_duplicatePacked_of_suits fun kind bytes hx => ?_
      have hbody : run'.memory.heap.body source = base.heap.body source :=
        (congrArg (Heap.body · source) hf.heap).trans (h.body_eq hlt)
      have := hs.suits source hlt kind bytes (hbody.symm.trans hx)
      rwa [← hcls] at this

end Deciding

/-- A clone of a value keeps the ledger, at whichever deed it is broken off. -/
theorem clones_cloneTelling (hs : s.Booked base root) (ht : Tells tell) (depth : Nat)
    (busy : ObjectId → Prop) :
    (s.recording base depth busy).Clones (cloneTelling s tell depth) := by
  induction depth generalizing busy with
  | zero =>
    intro run v hv h
    cases v with
    | ref o =>
      have h₁ : OnRecord s base 0 busy ((Deed.asks o).notedIn run) :=
        h.noted rfl (hv o rfl) (by simp)
      unfold cloneTelling askTelling
      rw [bind_assoc]
      refine ends_told ht ?_ (h₁.stopped (by simp))
      -- As many objects were made as were there, so this one has got its copy.
      obtain ⟨deeds, hl⟩ := h₁.ledger
      have hfull := h₁.enough
      rw [Nat.zero_add] at hfull
      obtain ⟨copy, hcopy⟩ := hl.exists_copy hfull (hv o rfl)
      rw [ends_bind, ends_copyOf, hcopy]
      exact ⟨h₁, trivial⟩
    | _ =>
      unfold cloneTelling
      exact ⟨h, trivial⟩
  | succ depth ih =>
    intro run v hv h
    cases v with
    | ref o =>
      have h₁ : OnRecord s base (depth + 1) busy ((Deed.asks o).notedIn run) :=
        h.noted rfl (hv o rfl) (by simp)
      unfold cloneTelling askTelling
      rw [bind_assoc]
      refine ends_told ht ?_ (h₁.stopped (by simp))
      rw [ends_bind, ends_copyOf]
      split
      · exact ⟨h₁, trivial⟩
      · rename_i hnone
        have h₂ : OnRecord s base (depth + 1) busy
            ((Deed.enters o).notedIn ((Deed.asks o).notedIn run)) :=
          h₁.noted rfl (hv o rfl) (by simp)
        refine ends_told ht ?_ (h₂.stopped (by simp))
        exact recording_cloneNewBy hs ht ih (hv o rfl) hnone h₂
    | _ =>
      unfold cloneTelling
      exact ⟨h, trivial⟩

end Setting

/-! ## The book of a clone -/

/-- The run in which a clone begins, with nothing in its log. -/
def Run.opened (run : Run) : Run := { run with copies := {}, journal := [] }

/-- The ledger of a run that was broken off is how the ledger of the whole begins, and what stood
for an object there stands for it in the end. -/
def Run.PartOf (h : Heap) (part whole : Run) : Prop :=
  ∃ deeds rest, Ledger h deeds part ∧ Ledger h (deeds ++ rest) whole ∧
    part.copies.Within whole.copies

theorem OnRecord.begin {s : Setting} {run : Run} {depth : Nat} (hd : run.heap.size ≤ depth) :
    OnRecord s run.opened depth (fun _ => False) run.opened where
  kept := Kept.refl _
  ledger := ⟨[], Ledger.begin _ rfl rfl rfl⟩
  enough := Nat.add_le_add_right hd _
  busy := fun _ h => h.elim

/-- A run that was broken off is a part of the whole if its journal is how that of the whole
begins. -/
theorem Ledger.partOf {h : Heap} {part whole : Run} (hp : ∃ deeds, Ledger h deeds part)
    (hw : ∃ deeds, Ledger h deeds whole) (hj : part.journal <+: whole.journal) :
    part.PartOf h whole := by
  obtain ⟨deeds, hp⟩ := hp
  obtain ⟨_, hw⟩ := hw
  rw [hp.written, hw.written] at hj
  obtain ⟨rest, rfl⟩ := Deed.prefix_of_flatMap_notes hj
  exact ⟨deeds, rest, hp, hw, hp.within hw⟩

namespace Setting

variable {s : Setting} {run : Run} {v : Value}

theorem booked_silent (hb : s.BuiltIn run) (hoff : s.policy.flags.useSelfCopy = false)
    (hplans : run.plans.Keyed) (hc : run.heap.Closed) (hv : run.heap.Has v)
    (hsuits : ∀ o < run.heap.size, ∀ kind bytes, run.heap.body o = .packed kind bytes →
      s.backend.Suits (run.heap.cls o) kind bytes) : s.silent.Booked run.opened v := by
  have ht : s.Tame run.opened := by
    refine ⟨⟨hb.overrides, hb.named, hb.resolved⟩, fun hon => ?_⟩
    rw [hoff] at hon
    cases hon
  exact ⟨followed_silent ht hc hv, hoff, hplans, hsuits⟩

/-- With no routine but the one that rebuilds containers, and no object that copies itself, a clone
does as it does with a log. Wherever it is broken off, and where it ends, well or not, there is a
ledger for what it has done, and the ledger of the whole goes on from that. So at every deed each
object that was made stands for one object that was there, of its class, and has stood for it since
before anything was cloned that the object refers to; none is asked about or gone into but those
that were there; and what stands for an object stands for it to the end. -/
theorem a_clone_registers_what_it_makes_once (s : Setting) (run : Run) (v : Value)
    (hb : s.BuiltIn run) (hoff : s.policy.flags.useSelfCopy = false) (hplans : run.plans.Keyed)
    (hc : run.heap.Closed) (hv : run.heap.Has v)
    (hsuits : ∀ o < run.heap.size, ∀ kind bytes, run.heap.body o = .packed kind bytes →
      s.backend.Suits (run.heap.cls o) kind bytes) :
    Ends (cloneTelling s.silent Deed.write (depthAllowance run.heap) v) run.opened
      (fun r whole => ∃ run', s.clone v run = .ok r run' ∧ whole.Same run')
      (fun e whole => ∃ run', s.clone v run = .error e run' ∧ whole.Same run') ∧
    ∀ tell, Tells tell →
      (after (cloneTelling s.silent tell (depthAllowance run.heap) v) run.opened).PartOf run.heap
        (after (cloneTelling s.silent Deed.write (depthAllowance run.heap) v) run.opened) := by
  have hbooked := booked_silent hb hoff hplans hc hv hsuits
  have hbegin := OnRecord.begin (s := s.silent) (size_le_depthAllowance run.heap)
  have hends : ∀ tell, Tells tell → Ends (cloneTelling s.silent tell (depthAllowance run.heap) v)
      run.opened (fun _ => OnRecord s.silent run.opened (depthAllowance run.heap) fun _ => False)
      (OnRecord.Stopped run.opened) := fun tell ht =>
    ends_mono (clones_cloneTelling hbooked ht _ _ _ v hv hbegin) (fun _ _ h => h.1) fun _ _ h => h
  have hledger : ∀ tell, Tells tell → ∃ deeds, Ledger run.heap deeds
      (after (cloneTelling s.silent tell (depthAllowance run.heap) v) run.opened) :=
    fun tell ht => ends_after (ends_mono (hends tell ht) (fun _ _ h => h.ledger) fun _ _ h => h.2)
  constructor
  · have hecho := echoes_cloneTelling (s := s) (depthAllowance run.heap) v run.opened
      { run with copies := {} } ⟨run.journal, rfl⟩
    refine ends_mono (ends_and (hends _ tells_write) hecho) ?_ ?_
    · rintro r whole ⟨-, run', hrun, hsame⟩
      exact ⟨run', (clone_eq s v run).trans hrun, hsame⟩
    · rintro e whole ⟨⟨he, -⟩, hsame⟩
      obtain ⟨run', hrun, hsame⟩ := hsame he
      exact ⟨run', (clone_eq s v run).trans hrun, hsame⟩
  · intro tell ht
    exact Ledger.partOf (hledger tell ht) (hledger _ tells_write)
      ((cuts_cloneTelling ht _ v).journal _)

/-- The instance that refers to its own list: all of this holds of its clone. -/
theorem a_ring_is_registered_once :
    Ends (cloneTelling ringSetting.silent Deed.write (depthAllowance ringRun.heap) (.ref 0))
      ringRun.opened
      (fun r whole => ∃ run', ringSetting.clone (.ref 0) ringRun = .ok r run' ∧ whole.Same run')
      (fun e whole => ∃ run', ringSetting.clone (.ref 0) ringRun = .error e run' ∧
        whole.Same run') ∧
    (after (cloneTelling ringSetting.silent Deed.write (depthAllowance ringRun.heap) (.ref 0))
      ringRun.opened).PartOf ringRun.heap
      (after (cloneTelling ringSetting.silent Deed.write (depthAllowance ringRun.heap) (.ref 0))
        ringRun.opened) := by
  obtain ⟨hends, hparts⟩ := a_clone_registers_what_it_makes_once ringSetting ringRun (.ref 0)
    ready_ring.tame.toBuiltIn rfl (fun _ _ h => by cases h) ready_ring.typed.closed
    unaided_ring.root (by
      intro o ho kind bytes hx
      match o, ho with
      | 0, _ => cases hx
      | 1, _ => cases hx)
  exact ⟨hends, hparts _ tells_write⟩

-- Both objects are registered before they are met again, so neither is gone into twice.
example : (after (cloneTelling ringSetting.silent Deed.write 2 (.ref 0)) ringRun.opened).journal =
    [Deed.asks 0, .enters 0, .registers 0 (.ref 2), .clones 0 (.ref 1), .asks 1, .enters 1,
      .registers 1 (.ref 3), .clones 1 (.ref 0), .asks 0, .clones 1 (.ref 0), .asks 0,
      .asks 1].flatMap Deed.notes := by
  decide +kernel

end Setting

end DeepCopy
