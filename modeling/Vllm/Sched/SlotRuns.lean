import Vllm.Sched.EncoderSlots

/-! The books of the encoder cache over the runs of the engine, whatever happens to the requests.
The size of an item is given by its hash. -/

set_option linter.unusedSectionVars false

namespace Vllm
open Base Dict Call Relation SchedConfig EncoderCacheManager List

variable {D : Type} {size : String → Nat}

/-- The items of the request, and those of the inputs that wait for it, have the size of their
hashes. -/
structure SchedRequest.Sized (size : String → Nat) (r : SchedRequest D) : Prop where
  items : ∀ f ∈ r.mmFeatures, f.numEmbeds = size f.identifier
  updates : ∀ update, some update ∈ r.streamingQueue.getD [] →
    ∀ f ∈ update.mmFeatures, f.numEmbeds = size f.identifier

variable {r r' : SchedRequest D}

theorem SchedRequest.Sized.congr (h : r.Sized size)
    (hitems : r'.mmFeatures = r.mmFeatures) (hqueue : r'.streamingQueue = r.streamingQueue) :
    r'.Sized size := ⟨hitems ▸ h.items, hqueue ▸ h.updates⟩

structure Booked (size : String → Nat) (d : Dict String (SchedRequest D))
    (m : EncoderCacheManager) : Prop where
  known : Known d
  sized : ∀ id r, d.get? id = some r → r.Sized size
  books : m.Accounted size

theorem Booked.set {d : Dict String (SchedRequest D)} {m : EncoderCacheManager} {id : String}
    (h : Booked size d m) (hid : r.requestId = id) (hlive : r.Live)
    (hsized : r.Sized size) : Booked size (d.set id r) m where
  known := h.known.set hid hlive
  sized id' r' hr' := by
    rw [get?_set] at hr'
    split at hr'
    · cases hr'
      exact hsized
    · exact h.sized id' r' hr'
  books := h.books

abbrev Scheduler.Booked (size : String → Nat) (s : Scheduler D) : Prop :=
  Vllm.Booked size s.requests s.encoder

def BookedWith (size : String → Nat) (ids : List String) (s : Scheduler D) : Prop :=
  s.Booked size ∧ ∀ id ∈ ids, id ∈ s.requests.keys

variable {s : Scheduler D}

theorem BookedWith.set {ids : List String} {id : String}
    (h : BookedWith size ids s) (hr : s.requests.get? id = some r) (hid : r'.requestId = r.requestId)
    (hlive : r'.Live) (hsized : r'.Sized size) : BookedWith size ids (s.setRequest id r') :=
  ⟨h.1.set (hid.trans (h.1.known id r hr).1) hlive hsized,
    fun id' hid' => mem_keys_set.mpr (.inr (h.2 id' hid'))⟩

theorem BookedWith.schedule {d : Dict String Int} {id : String} (h : BookedWith size d.keys s)
    (hr : s.requests.get? id = some r)
    (r' : SchedRequest D) (hid : r'.requestId = r.requestId) (hlive : r'.Live)
    (hsized : r'.Sized size) (n : Int) :
    BookedWith size (d.set id n).keys (s.setRequest id r') := by
  have hset := h.set hr hid hlive hsized
  refine ⟨hset.1, fun id' hid' => ?_⟩
  rcases mem_keys_set.mp hid' with rfl | hid'
  · exact mem_keys_set.mpr (.inl rfl)
  · exact hset.2 id' hid'

def NoFault {σ : Type} (e : PyError) (_ : σ) : Prop := ¬EncoderFault e

variable [DecidableEq D] {cfg : SchedConfig D}

/-! ## The loops of `schedule` -/

def Slots (size : String → Nat) (σ : Step D) : Prop :=
  BookedWith size σ.2.numScheduledTokens.keys σ.1

structure Visits (size : String → Nat) (r : SchedRequest D) (t : EncoderTrial) (σ : Step D) :
    Prop where
  slots : Slots size σ
  get : σ.1.requests.get? r.requestId = some r
  sized : r.Sized size
  live : r.Live
  room : Room (featuresOf r t.inputs) σ.1.encoder

abbrev SlotsAt (size : String → Nat) (id : String) (r : SchedRequest D) (σ : Step D) : Prop :=
  Slots size σ ∧ σ.1.requests.get? id = some r

section
variable {σ σ' : Step D} {r : SchedRequest D} {t : EncoderTrial} {id v : String}

variable {α : Type} {m : KVCall D α}

@[grind ←] theorem avoids_onKv (h : Call.Avoids EncoderFault m) :
    Call.Avoids EncoderFault (onKv m) := avoids_zoom h

@[grind ←] theorem avoids_requestOf (id : String) :
    Call.Avoids EncoderFault (requestOf id : SchedCall D _) := by
  unfold requestOf
  grind

@[grind ←] theorem avoids_preemptRequest (id : String) :
    Call.Avoids EncoderFault (cfg.preemptRequest id) := by
  unfold preemptRequest
  grind

theorem avoids_takeVictim : Call.Avoids EncoderFault cfg.takeVictim := by
  unfold takeVictim
  grind

theorem avoids_tryPromote (r : SchedRequest D) : Call.Avoids EncoderFault (tryPromote r) := by
  unfold tryPromote setRequest
  grind

theorem avoids_computedTokens (r : SchedRequest D) :
    Call.Avoids EncoderFault (cfg.computedTokens r) := by
  unfold computedTokens
  grind

theorem requestOf_slots (id : String) :
    Triple (Slots size) (requestOf id).lift (SlotsAt (D := D) size id) NoFault :=
  .of_avoids (avoids_lift (avoids_requestOf id)) fun σ r σ' h hcall => by
    obtain ⟨hr, hσ'⟩ := lift_eq_ok.mp hcall
    obtain ⟨hr, hσ⟩ := requestOf_eq_ok.mp hr
    obtain rfl : σ' = σ := Prod.ext hσ hσ'
    exact ⟨h, hr⟩

theorem onKv_keeps {P : Step D → Prop}
    (h : Call.Avoids EncoderFault m) (hP : ∀ σ kv, P σ → P ({ σ.1 with kv }, σ.2)) :
    Triple P (onKv m).lift (fun _ => P) NoFault :=
  .of_avoids (avoids_lift (avoids_onKv h)) fun σ _ σ' hσ hcall => by
    obtain ⟨hcall, hσ'⟩ := lift_eq_ok.mp hcall
    obtain ⟨kv, -, hs⟩ := onKv_eq_ok.mp hcall
    obtain rfl : σ' = ({ σ.1 with kv }, σ.2) := Prod.ext hs hσ'
    exact hP σ kv hσ

theorem trial_slots (c n b : Int) :
    Triple (SlotsAt size id r) (cfg.tryScheduleEncoderInputs r c n b).lift (Visits size r) NoFault := by
  rintro ⟨s, l⟩ ⟨h, hr⟩
  obtain ⟨t, encoder, ht, haccounted, hpromised⟩ :=
    tryScheduleEncoderInputs_accounted cfg r c n b h.1.books
  rw [lift_run ht]
  obtain ⟨rfl, hlive⟩ := h.1.known id r hr
  exact ⟨⟨{ h.1 with books := haccounted }, h.2⟩, hr, h.1.sized _ r hr, hlive, hpromised.room⟩

theorem allocateEncoderInputs_slots :
    Triple (fun σ : Step D => Slots size σ ∧ r.Sized size ∧ Room (featuresOf r t.inputs) σ.1.encoder)
      (allocateEncoderInputs r t) (fun _ => Slots size) NoFault := by
  unfold allocateEncoderInputs
  refine .ite (fun _ => .pure () fun _ h => h.1) fun _ => ?_
  refine .bind (Q := fun _ σ => Slots size σ ∧ r.Sized size ∧
    Room (featuresOf r t.inputs) σ.1.encoder) (.modify fun _ h => h) fun _ => ?_
  refine .bind (Q := fun _ => Slots size) ?_ fun _ => .modify fun _ h => h
  rintro ⟨s, l⟩ ⟨h, hsized, hroom⟩
  have hitems : ∀ f ∈ featuresOf r t.inputs, f.numEmbeds = size f.identifier := by
    intro f hf
    obtain ⟨i, -, hi⟩ := mem_filterMap.mp hf
    exact hsized.items f (mem_of_getElem? hi)
  obtain ⟨encoder, halloc, haccounted⟩ := allocate_accounted r.requestId h.1.books hroom hitems
  rw [lift_run (onEncoder_eq_ok.mpr ⟨encoder, halloc, rfl⟩)]
  exact ⟨{ h.1 with books := haccounted }, h.2⟩

theorem numScheduledTokens_dropVictim :
    ∀ id ∈ (cfg.dropVictim σ v).2.numScheduledTokens.keys, id ∈ σ.2.numScheduledTokens.keys := by
  unfold dropVictim
  split
  · exact fun _ hid => hid
  · dsimp only
    split
    · exact fun id hid => (mem_keys_erase.mp hid).2
    · exact fun _ hid => hid

theorem takeVictim_slots :
    Triple (Visits size r t) cfg.takeVictim (fun _ => Visits size r t) NoFault := by
  refine .of_avoids avoids_takeVictim fun σ v σ' h hcall => ?_
  obtain ⟨-, rfl⟩ := takeVictim_eq_ok hcall
  refine ⟨⟨?_, fun id hid => ?_⟩, ?_, h.sized, h.live, ?_⟩
  · unfold Scheduler.Booked
    rw [requests_dropVictim, encoder_dropVictim]
    exact h.slots.1
  · rw [requests_dropVictim]
    exact h.slots.2 id (numScheduledTokens_dropVictim id hid)
  · rw [requests_dropVictim]
    exact h.get
  · rw [encoder_dropVictim]
    exact h.room

/-- The preempted request gives up its references, so what was free stays free. -/
theorem preemptRequest_slots (v : String) :
    Triple (Visits size r t) (cfg.preemptRequest v).lift
      (fun _ σ => Slots size σ ∧ (v ≠ r.requestId → Visits size r t σ)) NoFault := by
  refine .of_avoids (avoids_lift (avoids_preemptRequest v)) fun σ _ σ' h hcall => ?_
  obtain ⟨hcall, hσ'⟩ := lift_eq_ok.mp hcall
  obtain ⟨rv, kv, hrv, -, -, hs⟩ := preemptRequest_eq_ok hcall
  obtain rfl : σ' = (cfg.preempted σ.1 v rv kv, σ.2) := Prod.ext hs hσ'
  have hsized := h.slots.1.sized v rv hrv
  have hset : BookedWith size σ.2.numScheduledTokens.keys (σ.1.setRequest v (preemptedReq rv)) :=
    h.slots.set hrv rfl ⟨rfl, nofun⟩ (hsized.congr rfl rfl)
  have hslots : Slots size (cfg.preempted σ.1 v rv kv, σ.2) :=
    ⟨{ hset.1 with books := hset.1.books.freeAll hsized.items }, hset.2⟩
  refine ⟨hslots, fun hne => ⟨hslots, ?_, h.sized, h.live, ?_⟩⟩
  · exact (get?_set_of_ne _ _ hne.symm).trans h.get
  · exact h.room.mono (shrinks_free _).keys (Int.le_of_eq numFreeSlots_free.symm)

theorem allocateOrPreempt_slots (fuel : Nat) :
    Triple (Visits size r t) (cfg.allocateOrPreempt r t.numNewTokens fuel)
      (fun res σ => Slots size σ ∧ (res ≠ none → Visits size r t σ)) NoFault := by
  induction fuel with
  | zero => exact .raise fun _ _ => by simp [NoFault, EncoderFault]
  | succ fuel ih =>
    unfold allocateOrPreempt
    refine .bind (onKv_keeps (KVCacheConfig.avoids_allocateSlots _ _) fun σ kv h =>
      { h with }) fun newBlocks => ?_
    cases newBlocks with
    | some blocks => exact .pure _ fun σ h => ⟨h.slots, fun _ => h⟩
    | none =>
      refine .bind takeVictim_slots fun v => .bind (preemptRequest_slots v) fun _ => ?_
      refine .bind (Q := fun _ σ => Slots size σ ∧ (v ≠ r.requestId → Visits size r t σ))
        (.modify fun σ h => ⟨h.1, fun hne => ?_⟩) fun _ => ?_
      · obtain ⟨hslots, hget, hsized, hlive, hroom⟩ := h.2 hne
        exact ⟨hslots, hget, hsized, hlive, hroom⟩
      · refine .ite (fun _ => .pure _ fun σ h => ⟨h.1, fun hne => absurd rfl hne⟩) fun hne => ?_
        exact ih.pre fun σ h => h.2 hne

theorem scheduleRunning_slots (blocks : Option (List (List Nat))) :
    Triple (Visits size r t) (scheduleRunning r t blocks) (fun _ => Slots size) NoFault := by
  refine .bind (.modify fun σ h => ⟨?_, h.sized, h.room⟩) fun _ => allocateEncoderInputs_slots
  exact h.slots.schedule h.get { r with specTokenIds := [] } rfl (h.live.congr rfl rfl) (h.sized.congr rfl rfl) _

theorem visitRunning_slots (id : String) :
    Triple (Slots size) (cfg.visitRunning id) (fun _ => Slots size) NoFault := by
  refine .bind (requestOf_slots id) fun r => .ite (fun _ => ?_) fun _ => ?_
  · exact .bind (Q := fun _ => Slots size) (.modify fun _ h => h.1) fun _ => .skip
  refine .bind (.gets fun _ h => h) fun l => .bind (trial_slots _ _ _) fun t => .ite (fun _ => ?_) ?_
  · exact .bind (Q := fun _ => Slots size) (.modify fun _ h => h.slots) fun _ => .skip
  refine fun _ => .bind (.gets fun _ h => h) fun n => .bind (allocateOrPreempt_slots _) fun res => ?_
  cases res with
  | none => exact .pure _ fun _ h => h.1
  | some blocks =>
    refine .bind (Q := fun _ => Slots size) ?_ fun _ => .skip
    exact (scheduleRunning_slots blocks).pre fun _ h => h.2 nofun

theorem runningLoop_slots (fuel : Nat) :
    Triple (Slots size) (cfg.runningLoop fuel) (fun _ => Slots size) NoFault := by
  induction fuel with
  | zero => exact .skip
  | succ fuel ih =>
    refine .bind (.get fun _ h => h) fun σ => ?_
    dsimp only
    split
    · exact .skip
    refine .ite (fun _ => .bind (visitRunning_slots _) fun goOn => ?_) fun _ => .skip
    exact .ite (fun _ => ih) fun _ => .skip

theorem BookedWith.popQueue {ids : List String} {s : Scheduler D} (h : BookedWith size ids s)
    (q : WaitingQueue) : BookedWith size ids (cfg.popQueue q s) := by
  cases q <;> exact h

theorem tryPromote_slots :
    Triple (SlotsAt size id r) (tryPromote r).lift (fun _ => Slots size) NoFault := by
  refine .of_avoids (avoids_lift (avoids_tryPromote r)) fun σ ready σ' h hcall => ?_
  obtain ⟨hcall, hσ'⟩ := lift_eq_ok.mp hcall
  obtain ⟨hslots, hr⟩ := h
  unfold Slots
  rw [hσ']
  rcases tryPromote_eq_ok hcall with hs | ⟨-, hs⟩ <;> rw [hs]
  · exact hslots
  · obtain rfl := (hslots.1.known id r hr).1
    exact hslots.set hr rfl ⟨rfl, nofun⟩ ((hslots.1.sized _ r hr).congr rfl rfl)

theorem computedTokens_slots :
    Triple (SlotsAt size id r) (cfg.computedTokens r).lift (fun _ => SlotsAt size id r) NoFault := by
  refine .of_avoids (avoids_lift (avoids_computedTokens r)) fun σ _ σ' h hcall => ?_
  obtain ⟨hcall, hσ'⟩ := lift_eq_ok.mp hcall
  obtain rfl : σ' = σ := Prod.ext (computedTokens_eq_ok hcall) hσ'
  exact h

section
variable (q : WaitingQueue)

theorem scheduleWaiting_slots (c : Nat) :
    Triple (Visits size r t) (cfg.scheduleWaiting q r c t) (fun _ => Slots size) NoFault := by
  refine .bind (Q := fun _ => Visits size r t) (.modify fun σ h => ?_) fun _ =>
    .bind (Q := fun _ => Visits size r t) (.check (fun _ h _ => h) fun _ _ _ => ?_) fun _ =>
    .bind (.modify fun σ h => ?_) fun _ => allocateEncoderInputs_slots
  · cases q <;> exact { h with }
  · simp [NoFault, EncoderFault]
  · exact ⟨h.slots.schedule h.get { r with status := .running, numComputedTokens := c } rfl
      ⟨rfl, nofun⟩ (h.sized.congr rfl rfl) _, h.sized, h.room⟩

theorem placeWaiting_slots (hits : Option (List (List Nat))) (numLocal c : Nat) :
    Triple (Visits size r t) (cfg.placeWaiting q r hits numLocal c t) (fun _ => Slots size)
      NoFault := by
  refine .bind (onKv_keeps (KVCacheConfig.avoids_allocateSlots _ _) fun σ kv h =>
    { h with }) fun newBlocks => ?_
  cases newBlocks with
  | some blocks => exact .bind (scheduleWaiting_slots q c) fun _ => .skip
  | none =>
    refine .bind (Q := fun _ => Slots size) ?_ fun _ => .skip
    intro σ h
    exact ⟨{ h.slots.1 with books := h.slots.1.books.freeAll h.sized.items }, h.slots.2⟩

theorem considerWaiting_slots :
    Triple (SlotsAt size id r) (cfg.considerWaiting q r) (fun _ => Slots size) NoFault := by
  refine .bind computedTokens_slots fun _ => .bind (Q := fun _ => SlotsAt size id r)
    (.gets fun _ h => h) fun l => ?_
  refine .ite (fun _ => .pure _ fun _ h => h.1) fun _ => .bind (Q := fun _ => SlotsAt size id r)
    (.check (fun _ h _ => h) fun _ _ _ => ?_) fun _ => ?_
  · simp [NoFault, EncoderFault]
  · exact .bind (trial_slots _ _ _) fun t => .ite (fun _ => .pure _ fun _ h => h.slots) fun _ =>
      placeWaiting_slots _ _ _ _

theorem visitWaiting_slots (id : String) :
    Triple (Slots size) (cfg.visitWaiting q id) (fun _ => Slots size) NoFault := by
  refine .bind (requestOf_slots id) fun r => .bind tryPromote_slots fun ready =>
    .bind (.gets fun _ h => h) fun l => .ite (fun _ => ?_) fun _ =>
    .bind (requestOf_slots id) fun r => considerWaiting_slots q
  exact .bind (Q := fun _ => Slots size) (.modify fun σ h => h.popQueue q) fun _ => .skip

end

theorem waitingLoop_slots (fuel : Nat) :
    Triple (Slots size) (cfg.waitingLoop fuel) (fun _ => Slots size) NoFault := by
  induction fuel with
  | zero => exact .skip
  | succ fuel ih =>
    refine .bind (.get fun _ h => h) fun σ => ?_
    dsimp only
    split
    · exact .skip
    refine .ite (fun _ => .bind (visitWaiting_slots _ _) fun goOn => ?_) fun _ => .skip
    exact .ite (fun _ => ih) fun _ => .skip

theorem recordLoras_slots : Triple (Slots size) cfg.recordLoras (fun _ => Slots size) NoFault := by
  refine .bind (.get fun _ h => h) fun σ => ?_
  dsimp only
  split
  · exact .skip
  · exact .bind (Q := fun _ => Slots size) (.modify fun _ h => h) fun _ =>
      .check (fun _ h _ => h) fun _ _ _ => by simp [NoFault, EncoderFault]

theorem scheduleLoops_slots :
    Triple (Slots size) cfg.scheduleLoops (fun _ => Slots size) NoFault := by
  refine .bind (onKv_keeps KVCacheConfig.avoids_newStepStarts fun _ _ h => h) fun _ =>
    .bind (.gets fun _ h => h) fun n => .bind (runningLoop_slots n) fun _ =>
    .bind recordLoras_slots fun _ => .bind (.get fun _ h => h) fun σ => ?_
  refine .ite (fun _ => .bind (waitingLoop_slots _) fun _ => ?_) fun _ => .skip
  exact .modify fun _ h => h

/-! ## The whole step -/

theorem avoids_checkConstraints (s : Scheduler D) (l : StepLocals) :
    Call.Avoids EncoderFault (cfg.checkConstraints s l) := by
  unfold checkConstraints
  grind

@[grind ←] theorem avoids_makeNewRequestData (l : StepLocals) (id : String) :
    Call.Avoids EncoderFault (cfg.makeNewRequestData l id) := by
  unfold makeNewRequestData
  grind

@[grind ←] theorem avoids_makeCachedRequest (l : StepLocals) (resumed : Bool) (id : String) :
    Call.Avoids EncoderFault (cfg.makeCachedRequest l resumed id) := by
  unfold makeCachedRequest
  grind

theorem avoids_makeOutput (l : StepLocals) : Call.Avoids EncoderFault (cfg.makeOutput l) := by
  unfold makeOutput
  grind

end

section
variable {s s' : Scheduler D} {out : SchedulerOutput} {id : String} {ids : List String}

theorem advance_booked (n : Int) (hid : id ∈ ids) :
    Triple (BookedWith size ids) (advance id n : SchedCall D Unit) (fun _ => BookedWith size ids)
      NoFault := by
  refine .of_forall fun s h => .bind_get ?_
  rcases hr : s.requests.get? id with _ | r
  · exact absurd (h.2 id hid) (get?_eq_none_iff.mp hr)
  dsimp only
  unfold withComputed
  split
  · exact .bind_error rfl (by simp [NoFault, EncoderFault])
  refine .bind_run rfl (.of_ok rfl ?_)
  have hsized := h.1.sized id r hr
  have hset : BookedWith size ids (s.setRequest id (computed n r)) :=
    h.set hr rfl ((h.1.known id r hr).2.congr rfl rfl) (hsized.congr rfl rfl)
  refine ⟨{ hset.1 with books := h.1.books.foldl fun f hf => hsized.items f ?_ }, hset.2⟩
  exact (mem_filter.mp (mem_filter.mp hf).1).1

theorem addPlaceholders_booked (drafts : Dict String (List Token)) (hid : id ∈ ids) :
    Triple (BookedWith size ids) (cfg.addPlaceholders drafts id) (fun _ => BookedWith size ids)
      NoFault := by
  refine .of_forall fun s h => .bind_get ?_
  rcases hr : s.requests.get? id with _ | r
  · exact absurd (h.2 id hid) (get?_eq_none_iff.mp hr)
  obtain ⟨rfl, hlive⟩ := h.1.known id r hr
  refine .ite (fun _ => .of_ok rfl h) fun _ => .of_ok rfl ?_
  exact h.set hr rfl (hlive.congr rfl rfl) ((h.1.sized _ r hr).congr rfl rfl)

theorem updateAfterSchedule_booked :
    Triple (BookedWith size out.numScheduledTokens.keys) (cfg.updateAfterSchedule out)
      (fun _ => BookedWith size out.numScheduledTokens.keys) NoFault := by
  refine .bind (.forEach_inv _ fun x hx => advance_booked x.2 (mem_map_of_mem hx)) fun _ =>
    .bind (.modify fun _ h => h) fun _ => .ite (fun _ => ?_) fun _ => .skip
  exact .forEach_inv _ fun id hid => addPlaceholders_booked _ hid

theorem makeOutput_booked {σ : Step D} (h : Slots size σ)
    (hcall : cfg.makeOutput σ.2 σ.1 = (.ok out, s')) :
    BookedWith size out.numScheduledTokens.keys s' := by
  obtain ⟨houtput, hsent, hrequests⟩ := makeOutput_eq_ok hcall
  have hencoder : s'.encoder = { σ.1.encoder with freed := [] } := congrArg (·.encoder) hsent
  have hbooks := h.1.books
  refine ⟨?_, ?_⟩
  · unfold Scheduler.Booked
    rw [hencoder, hrequests]
    exact { h.1 with
      books := { hbooks with } }
  · rw [houtput.scheduled, hrequests]
    exact h.2

theorem schedule_booked :
    Triple (Scheduler.Booked size) cfg.schedule (fun _ => Scheduler.Booked size) NoFault := by
  refine .bind (Q := fun _ => Scheduler.Booked size) (.get fun _ h => h) fun s₀ =>
    .withLocal (.bind (Q := fun _ => Slots size) ?_ fun _ => .of_forall fun σ h => .bind_get ?_)
  · refine scheduleLoops_slots.pre fun σ h => ⟨h.1, fun id hid => ?_⟩
    rw [h.2] at hid
    cases hid
  refine .bind (Q := fun _ τ => τ = σ) ?_ fun _ => .bind (Q := fun out τ =>
    BookedWith size out.numScheduledTokens.keys τ.1) ?_ fun out => ?_
  · refine .of_avoids (avoids_checkConstraints _ _) fun τ _ τ' hτ hcheck => ?_
    simp only [checkConstraints, bind_eq_ok, check_eq_ok] at hcheck
    obtain ⟨_, _, ⟨-, rfl⟩, _, _, ⟨-, rfl⟩, _, _, ⟨-, rfl⟩, -, rfl⟩ := hcheck
    exact hτ
  · refine .of_avoids (avoids_lift (avoids_makeOutput _)) fun τ out τ' hτ hmake => ?_
    subst hτ
    exact makeOutput_booked h (lift_eq_ok.mp hmake).1
  · refine .bind (Q := fun _ τ => τ.1.Booked size) (.lift fun _ => ?_)
      fun _ => .skip
    exact updateAfterSchedule_booked.mapOk fun _ _ h => h.1

/-! ## The other calls -/

section
variable (h : s.Booked size)
include h

theorem Scheduler.Booked.freed {fs : List MultiModalFeatureSpec} {kv : KVState D}
    (hfs : ∀ f ∈ fs, f.numEmbeds = size f.identifier) : (SchedConfig.freed s id fs kv).Booked size where
  known := h.known.erase id
  sized id' r hr := by
    simp only [SchedConfig.freed, get?_erase] at hr
    split at hr
    · cases hr
    · exact h.sized id' r hr
  books := h.books.freeAll hfs

variable {status : RequestStatus} {u : Unit}

theorem finishOne_booked (hcall : cfg.finishOne status id s = (.ok u, s')) : s'.Booked size := by
  obtain ⟨r, kv, hr, -, rfl⟩ := finishOne_eq_ok h.known hcall
  exact h.freed (h.sized _ r hr).items

theorem finishRequests_booked {requestIds : Option (List String)}
    (hcall : cfg.finishRequests requestIds status s = (.ok ids, s')) :
    s'.Booked size := by
  simp only [finishRequests, bind_eq_ok, check_eq_ok, get_eq_ok, modify_eq_ok,
    pure_eq_ok, foldl_dropAwaiting] at hcall
  obtain ⟨_, _, ⟨-, rfl⟩, _, s, ⟨rfl, rfl⟩, _, _, rfl, _, _, hloop, -, rfl⟩ := hcall
  exact forEach_ok (I := fun _ s => s.Booked size) (fun _ _ _ _ hI hx => finishOne_booked hI hx)
    h hloop

theorem resetRunning_booked (hcall : cfg.resetRunning ids s = (.ok u, s')) : s'.Booked size := by
  induction ids generalizing s with
  | nil =>
    obtain ⟨-, rfl⟩ := pure_eq_ok.mp hcall
    exact h
  | cons id ids ih =>
    obtain ⟨r, kv, hr, -, -, hrest⟩ := resetRunning_cons hcall
    have hsized := h.sized id r hr
    have hpreempted : (cfg.preempted { s with running := s.running.dropLast } id r kv).Booked size := by
      have hset := h.set (r := preemptedReq r) (h.known id r hr).1 ⟨rfl, nofun⟩
        (hsized.congr rfl rfl)
      exact { hset with books := h.books.freeAll hsized.items }
    exact ih (hpreempted.set (r := resetReq r) rfl ⟨rfl, nofun⟩ (hsized.congr rfl rfl)) hrest

theorem resetPrefixCache_booked {forced b : Bool}
    (hcall : cfg.resetPrefixCache forced s = (.ok b, s')) : s'.Booked size := by
  cases forced with
  | false =>
    obtain ⟨kv, -, rfl⟩ := resetPrefixCache_unforced hcall
    exact h
  | true =>
    simp only [resetPrefixCache, resetRunningRequests, bind_eq_ok, when_eq_ok, if_true,
      get_eq_ok, modify_eq_ok, onKv_eq_ok, check_eq_ok, pure_eq_ok] at hcall
    obtain ⟨_, _, ⟨_, s, ⟨rfl, rfl⟩, _, s₁, hreset, rfl⟩, _, _, ⟨kv, -, rfl⟩, _, _, ⟨-, rfl⟩, -, rfl⟩ :=
      hcall
    have hbooked := resetRunning_booked h hreset
    exact hbooked

end

theorem updateRequestAsSession_items {session request : Request D} {update : StreamingUpdate}
    (hcall : Vllm.updateRequestAsSession cfg.hasher session update = .ok request)
    (hsession : ∀ f ∈ session.mmFeatures, f.numEmbeds = size f.identifier)
    (hupdate : ∀ f ∈ update.mmFeatures, f.numEmbeds = size f.identifier) :
    ∀ f ∈ request.mmFeatures, f.numEmbeds = size f.identifier := by
  unfold Vllm.updateRequestAsSession at hcall
  split at hcall
  · cases hcall
  · cases hcall
    intro f hf
    rcases mem_append.mp hf with hf | hf
    · exact hsession f hf
    · obtain ⟨g, hg, rfl⟩ := mem_map.mp hf
      exact hupdate g hg

variable {mo : ModelRunnerOutput}

theorem SchedConfig.EntryMove.booked {σ σ' : Scheduler D × UpdateLocals}
    (hmove : EntryMove cfg out mo id σ σ') (h : σ.1.Booked size) : σ'.1.Booked size := by
  have htaken : ∀ {r r' : SchedRequest D} {generated kept : List Token} {stopped : Bool}
      {kv : KVState D}, Takes cfg out mo id σ.1 r generated r' kept stopped kv → r'.Sized size := by
    intro r r' _ _ _ _ htakes
    obtain ⟨_, _, _, _, _, rfl, -⟩ := htakes.spec
    exact (h.sized id r htakes.get).congr rfl rfl
  cases hmove with
  | skip _ => exact h
  | keep htakes =>
    have hr := h.known id _ htakes.get
    have hset := h.set (htakes.requestId.trans hr.1) (hr.2.congr htakes.status htakes.resumable)
      (htaken htakes)
    exact hset
  | @stop s r r' _ _ kv _ htakes hstop =>
    have hid : r'.requestId = id := htakes.requestId.trans (h.known id r htakes.get).1
    have hsized : r'.Sized size := htaken htakes
    cases hstop with
    | finish _ _ =>
      rw [freed_again]
      exact h.freed hsized.items
    | @goOn update rest request lt _ hqueue hupdate =>
      rw [setRequest_again]
      have hitems := updateRequestAsSession_items hupdate hsized.items
        (hsized.updates update (hqueue ▸ mem_cons_self))
      have hset := h.set (r := continued r' rest update request)
        ((updateRequestAsSession_requestId hupdate).trans hid) ⟨rfl, nofun⟩
        ⟨hitems, fun u hu => hsized.updates u (hqueue ▸ mem_cons_of_mem _ hu)⟩
      exact hset
    | await hres _ =>
      rw [setRequest_again]
      have hset := h.set (r := { r' with status := .waitingForStreamingReq }) hid
        ⟨rfl, fun _ => hres⟩ (hsized.congr rfl rfl)
      exact hset

theorem updateFromOutput_booked {outputs : List EngineCoreOutput}
    (h : s.Booked size) (hcall : cfg.updateFromOutput out mo s = (.ok outputs, s')) :
    s'.Booked size := by
  obtain ⟨σ, hloop, rfl⟩ := updateFromOutput_eq_ok hcall
  have hrun : σ.1.Booked size := forEach_ok (I := fun _ σ => σ.1.Booked size)
    (fun _ _ _ _ hI hx => (updateEntry_move hI.known hx).booked hI) h hloop
  exact hrun

variable {q : SchedCoreRequest}

theorem fromEngineCoreRequest_booked {r : SchedRequest D}
    (hr : SchedRequest.fromEngineCoreRequest cfg.hasher q = .ok r) :
    r.Live ∧ r.mmFeatures = q.mmFeatures := by
  obtain ⟨base, maxTokens, status, hbase, hlimits, rfl⟩ := fromEngineCoreRequest_spec hr
  obtain ⟨n, -, rfl⟩ := fromEngineCoreRequest_eq hbase
  refine ⟨?_, rfl⟩
  rcases limits_status hlimits with rfl | rfl <;> exact ⟨rfl, nofun⟩

theorem SchedConfig.Adds.booked (hadds : Adds cfg q s s') (h : s.Booked size)
    (hq : ∀ f ∈ q.mmFeatures, f.numEmbeds = size f.identifier) : s'.Booked size := by
  cases hadds with
  | @fresh r _ _ _ hr _ _ _ =>
    obtain ⟨hlive, hitems⟩ := fromEngineCoreRequest_booked hr
    have hset := h.set (r := { r with streamingQueue := if r.resumable then some [] else none })
      rfl (hlive.congr rfl rfl) ⟨hitems ▸ hq, fun u hu => ?_⟩
    · exact hset
    · dsimp only at hu
      split at hu <;> cases hu
  | @queued r existing queue hr hget _ hqueue =>
    obtain ⟨-, hitems⟩ := fromEngineCoreRequest_booked hr
    have hknown := h.known _ _ hget
    have hold := h.sized _ _ hget
    refine h.set hknown.1 (hknown.2.congr rfl rfl) ⟨hold.items, fun u hu => ?_⟩
    rcases mem_append.mp hu with hu | hu
    · exact hold.updates u (by rw [hqueue]; exact hu)
    · obtain hu := mem_singleton.mp hu
      unfold SchedRequest.streamingUpdate at hu
      split at hu
      · cases hu
        exact hitems ▸ hq
      · cases hu
  | @updated r existing update request hr hget _ hupdate hrequest =>
    obtain ⟨-, hitems⟩ := fromEngineCoreRequest_booked hr
    have hknown := h.known _ _ hget
    have hold := h.sized _ _ hget
    have hnew : ∀ f ∈ update.mmFeatures, f.numEmbeds = size f.identifier := by
      unfold SchedRequest.streamingUpdate at hupdate
      split at hupdate
      · cases hupdate
        exact hitems ▸ hq
      · cases hupdate
    have hset := h.set
      (r := { existing with
        toRequest := request, status := .waiting
        arrivalTime := update.arrivalTime, samplingParams := update.samplingParams })
      ((updateRequestAsSession_requestId hrequest).trans hknown.1) ⟨rfl, nofun⟩
      ⟨updateRequestAsSession_items hrequest hold.items hnew, hold.updates⟩
    exact hset
  | ended _ _ _ _ hfinish => exact finishRequests_booked h hfinish

end

/-! ## Runs -/

/-- The calls of the engine with `reset_encoder_cache`. -/
inductive CacheOp where
  | engine (op : EngineOp)
  | resetEncoderCache

namespace CacheOp

def next (cfg : SchedConfig D) : CacheOp → Engine D → Engine D
  | engine op, e => op.next cfg e
  | resetEncoderCache, e => { e with sched := { e.sched with encoder := e.sched.encoder.reset } }

def Returns (cfg : SchedConfig D) : CacheOp → Engine D → Prop
  | engine op, e => op.Returns cfg e
  | resetEncoderCache, _ => True

def SizedBy (size : String → Nat) : CacheOp → Prop
  | engine (.addRequest q) => ∀ f ∈ q.mmFeatures, f.numEmbeds = size f.identifier
  | _ => True

instance (op : CacheOp) (e : Engine D) : Decidable (op.Returns cfg e) := by
  cases op <;> unfold Returns <;> infer_instance

instance (op : CacheOp) : Decidable (op.SizedBy size) := by
  unfold SizedBy
  split <;> infer_instance

end CacheOp

section
variable {e e' : Engine D}

theorem EngineStep.booked {op : EngineOp} (hstep : EngineStep cfg op e e')
    (hop : (CacheOp.engine op).SizedBy size) (h : e.sched.Booked size) : e'.sched.Booked size := by
  cases hstep with
  | addRequest hcall => exact (addRequest_eq_ok h.known hcall).booked h hop
  | schedule hcall => exact schedule_booked.ok h hcall
  | updateFromOutput _ hcall => exact updateFromOutput_booked h hcall
  | updateDraftTokenIds hcall =>
    have hdrafts := updateDraftTokenIds_redrafted h.known hcall
    rw [hdrafts.frame]
    refine ⟨fun id r' hr' => ?_, fun id r' hr' => ?_, h.books⟩
    · obtain ⟨r, spec, hr, rfl⟩ := hdrafts.request hr'
      exact ⟨(h.known id r hr).1, (h.known id r hr).2.congr rfl rfl⟩
    · obtain ⟨r, spec, hr, rfl⟩ := hdrafts.request hr'
      exact (h.sized id r hr).congr rfl rfl
  | finishRequests hcall => exact finishRequests_booked h hcall
  | resetPrefixCache hcall => exact resetPrefixCache_booked h hcall
  | setPauseState => exact h
  | @compileGrammar id _ =>
    unfold EngineOp.grammarCompiled
    split
    · exact h
    · next r hr =>
      have hknown := h.known id r hr
      exact h.set hknown.1 (hknown.2.congr rfl rfl) ((h.sized id r hr).congr rfl rfl)

theorem booked_of_run (run : Run (CacheOp.next cfg) (fun op e => op.Returns cfg e ∧ op.SizedBy size)
    cfg.start e) : e.sched.Booked size := by
  refine run.inv (I := fun e => e.sched.Booked size) ?_ fun op e h hop => ?_
  · have hnone : ∀ id, cfg.start.sched.requests.get? id = none := fun _ => rfl
    have hempty : ∀ id r, cfg.start.sched.requests.get? id ≠ some r := fun id r hr =>
      Option.some_ne_none r (hr.symm.trans (hnone id))
    exact ⟨fun id r hr => absurd hr (hempty id r), fun id r hr => absurd hr (hempty id r),
      accounted_new size cfg.encoderCacheSize⟩
  · cases op with
    | engine op => exact (engineStep_of_returns hop.1).booked hop.2 h
    | resetEncoderCache => exact ⟨h.known, h.sized, accounted_reset size _⟩

/-- In every run the counters of the encoder cache agree with its entries, `can_allocate` can be
asked for any item without running out of entries to evict, and no step ends with an exception of
the encoder cache. -/
theorem encoderSlots_of_run
    (run : Run (CacheOp.next cfg) (fun op e => op.Returns cfg e ∧ op.SizedBy size) cfg.start e) :
    let m := e.sched.encoder
    m.numFreeSlots = m.cacheSize - m.cached.weight size ∧
      m.numFreeableSlots = m.numFreeSlots + m.freeable.sum id ∧
      (∀ h n, m.freeable.get? h = some n → n = size h) ∧
      (∀ h, h ∈ m.freeable.keys ↔ m.cached.get? h = some []) ∧
      (0 ≤ m.numFreeSlots ∧ m.numFreeSlots ≤ m.cacheSize) ∧
      (0 ≤ m.numFreeableSlots ∧ m.numFreeableSlots ≤ m.cacheSize) ∧
      (∀ f budget scheduled, ∃ b m', canAllocate f budget scheduled m = (.ok b, m')) ∧
      ∀ err s', cfg.schedule e.sched = (.error err, s') → ¬EncoderFault err := by
  have h := booked_of_run run
  obtain ⟨hfree, hle, hfreeable⟩ := h.books.bounds
  refine ⟨h.books.free, h.books.freeable, h.books.sizes, h.books.keys, ⟨hfree, hle.trans hfreeable⟩,
    ⟨hfree.trans hle, hfreeable⟩, fun f budget scheduled => ?_, fun err s' hcall => schedule_booked.error h hcall⟩
  obtain ⟨b, m', hcall, -⟩ := canAllocate_accounted f budget scheduled h.books
  exact ⟨b, m', hcall⟩

end

def resetOps : List CacheOp := .resetEncoderCache :: imageOps.map .engine

def afterCache (cfg : SchedConfig D) (ops : List CacheOp) : Engine D :=
  ops.foldl (fun e op => op.next cfg e) cfg.start

theorem encoderSlots_of_run_image :
    (afterCache (visionSched .fcfs) resetOps).sched.encoder.numFreeSlots = 2 ∧
      (afterCache (visionSched .fcfs) resetOps).sched.encoder.numFreeableSlots = 4 ∧
      ∀ err s', (visionSched .fcfs).schedule (afterCache (visionSched .fcfs) resetOps).sched =
        (.error err, s') → ¬EncoderFault err :=
  ⟨by decide +kernel, by decide +kernel,
    (@encoderSlots_of_run _ (fun _ => 2) _ (visionSched .fcfs) (afterCache (visionSched .fcfs) resetOps)
      (.of_allowed (by decide +kernel))).2.2.2.2.2.2.2⟩

end Vllm
