import Vllm.Unified.Search

/-! Loading experts: `ensure_loaded` with its rollback, and `warm_up`. A load leaves alone what it
does not ask for. Whatever the miss loop has claimed, evicted and relocated when it raises, the
handler takes back the claims of this call and nothing else. -/

set_option linter.unusedSectionVars false

namespace Vllm.UnifiedPool
open Base
variable {u : UnifiedPool} {s s' e : Nat}

theorem get?_drop_of_ne (he : u.expertAtSuperBlock.get? s ≠ some e) :
    (u.drop s).superBlockAtExpert.get? e = u.superBlockAtExpert.get? e ∧
      (u.drop s).expertLru.get? e = u.expertLru.get? e := by
  unfold drop
  split
  · exact ⟨rfl, rfl⟩
  · next e' he' =>
    have hne : e ≠ e' := fun hc => he (hc ▸ he')
    exact ⟨Dict.get?_erase_of_ne _ hne, Dict.get?_erase_of_ne _ hne⟩

theorem Inv.loaded_drop (h : u.Inv) : (u.drop s).superBlockAtExpert.get? e = some s' ↔
    u.superBlockAtExpert.get? e = some s' ∧ s' ≠ s := by
  rw [← (h.drop s).inverse, get?_drop, ← h.inverse]
  by_cases hs : s' = s <;> simp [hs]

theorem Inv.loaded_foldl_drop (h : u.Inv) (A : List Nat) :
    (A.foldl UnifiedPool.drop u).superBlockAtExpert.get? e = some s ↔
      u.superBlockAtExpert.get? e = some s ∧ s ∉ A := by
  induction A generalizing u with
  | nil => simp
  | cons s' A ih =>
    rw [List.foldl_cons, ih (h.drop s'), h.loaded_drop, List.mem_cons, not_or, and_assoc]

theorem Stamped.foldl_drop {step : Nat} (h : u.Stamped step) (A : List Nat) :
    (A.foldl UnifiedPool.drop u).Stamped step := by
  induction A generalizing u with
  | nil => exact h
  | cons s A ih => exact ih (h.drop s)

end Vllm.UnifiedPool

namespace Vllm.Unified
open Base UnifiedPoolManager List

variable {K : Type} [DecidableEq K]
variable {cfg : PoolConfig} {r : Regime} {ex : Nat → Nat → Prop} {out : Nat → Prop}
variable {st st₁ st₂ : UnifiedState K} {l e : Nat} {needed : List Nat}

/-! ## What a load leaves alone -/

def Fresh (m : UnifiedPoolManager) (l e : Nat) : Prop :=
  (∃ s, (m.layer l).superBlockAtExpert.get? e = some s ∧ s ∈ (m.layer l).pinnedSuperBlocks) ∧
    (m.layer l).expertLru.get? e = some m.step

structure Undisturbed (cfg : PoolConfig) (l : Nat) (needed : List Nat) (st st' : UnifiedState K) :
    Prop where
  others : ∀ l', l' ≠ l → st'.2.layer l' = st.2.layer l'
  pinned : ∀ s ∈ (st.2.layer l).pinnedSuperBlocks, s ∈ (st'.2.layer l).pinnedSuperBlocks
  kept : ∀ e ∈ needed, ∀ s, (st.2.layer l).superBlockAtExpert.get? e = some s →
    (st'.2.layer l).superBlockAtExpert.get? e = some s
  stamps : ∀ e ∈ needed, (st.2.layer l).expertLru.get? e = some st.2.step →
    (st'.2.layer l).expertLru.get? e = some st.2.step
  step : st'.2.step = st.2.step
  faults : Pending st.2.copyFaults st'
  tail : NoTail cfg st → NoTail cfg st'

namespace Undisturbed

theorem refl (st : UnifiedState K) : Undisturbed cfg l needed st st :=
  ⟨fun _ _ => rfl, fun _ hs => hs, fun _ _ _ hs => hs, fun _ _ hs => hs, rfl, fun _ hx => hx,
    fun ht => ht⟩

section
variable (h : Undisturbed cfg l needed st st₁)
include h

theorem trans (h' : Undisturbed cfg l needed st₁ st₂) : Undisturbed cfg l needed st st₂ where
  others l' hl' := (h'.others l' hl').trans (h.others l' hl')
  pinned s hs := h'.pinned s (h.pinned s hs)
  kept e he s hs := h'.kept e he s (h.kept e he s hs)
  stamps e he hs := h.step ▸ h'.stamps e he (h.step.symm ▸ h.stamps e he hs)
  step := h'.step.trans h.step
  faults x hx := h.faults x (h'.faults x hx)
  tail ht := h'.tail (h.tail ht)

theorem expected {e : PyError} (he : Expected cfg l st₁ e) :
    Expected cfg l st e := fun ht =>
  (he (h.tail ht)).imp_right fun hd => ⟨hd.1, h.faults true hd.2⟩

theorem fresh (he : e ∈ needed) (hf : Fresh st.2 l e) : Fresh st₁.2 l e := by
  obtain ⟨⟨s, hs, hp⟩, ht⟩ := hf
  exact ⟨⟨s, h.kept e he s hs, h.pinned s hp⟩, h.step.symm ▸ h.stamps e he ht⟩

end

end Undisturbed

theorem Shuffled.undisturbed (h : Shuffled (Spare st) st st₁) :
    Undisturbed cfg l needed st st₁ where
  others l' _ := by rw [h.layer]
  pinned s hs := by rwa [h.layer]
  kept e _ s hs := by rwa [h.layer]
  stamps e _ hs := by rwa [h.layer]
  step := h.step
  faults := h.faults
  tail := h.noTail

variable {s : Nat} {A : List Nat} {p : BlockPool K} {m : UnifiedPoolManager}

/-- An expert that is asked for is not the one that makes room. -/
theorem Found.get?_eq (h : Found cfg r ex out l needed st s st₁) (he : e ∈ needed) :
    (st₁.2.layer l).superBlockAtExpert.get? e = (st.2.layer l).superBlockAtExpert.get? e ∧
      (st₁.2.layer l).expertLru.get? e = (st.2.layer l).expertLru.get? e := by
  rw [h.layer, Function.update_self]
  exact UnifiedPool.get?_drop_of_ne fun hc => h.victim e hc he

theorem Found.undisturbed (h : Found cfg r ex out l needed st s st₁) :
    Undisturbed cfg l needed st st₁ := by
  refine ⟨fun l' hl' => ?_, fun s' hs' => ?_, fun e he s' hs' => (h.get?_eq he).1.trans hs',
    fun e he ht => (h.get?_eq he).2.trans ht, h.step, h.faults, h.tail⟩
  · rw [h.layer, Function.update_of_ne hl']
  · rwa [h.layer, Function.update_self, UnifiedPool.pinned_drop]

/-! ## Claims -/

theorem Inv.loaded {l e : Nat} (h : Inv cfg (fun l' s' => ex l' s' ∨ l' = l ∧ s' = s) out st)
    (he : (st.2.layer l).expertAtSuperBlock.get? s = some e)
    (hbytes : ∀ o, o / cfg.expertSlotBytes = s → st.2.poolBuffer l o = expertByte cfg l e (o % cfg.expertSlotBytes)) :
    Inv cfg ex out st := by
  refine ⟨h.core, h.pinned, ⟨fun l' hl' s' e' he' hex o ho => ?_, h.content.kv⟩, h.complete⟩
  by_cases hls : l' = l ∧ s' = s
  · obtain ⟨rfl, rfl⟩ := hls
    rw [he] at he'
    rw [hbytes o ho, Option.some.inj he']
  · exact h.content.experts l' hl' s' e' he' (fun hc => hc.elim hex hls) o ho

theorem dma_claimed_sound (h : Sound cfg r (fun l' s' => ex l' s' ∨ l' = l ∧ s' = s) out st)
    (he : (st.2.layer l).expertAtSuperBlock.get? s = some e)
    (hpages : r.strict → ∀ p, cfg.superBlockOfPage p = s → st.1.hash p = none) :
    Triple (· = st) (dmaExpertIntoSuperBlock cfg l e s)
      (fun _ st' => Sound cfg r ex out st' ∧ Shuffled (Spare st) st st' ∧ st'.1 = st.1)
      (fun err st' => Sound cfg r (fun l' s' => ex l' s' ∨ l' = l ∧ s' = s) out st' ∧
        Shuffled (Spare st) st st' ∧ err = deviceError ∧ true ∈ st.2.copyFaults) := by
  have hcopied : ∀ st', Copied (fun l' o => l' = l ∧ o / cfg.expertSlotBytes = s) st st' →
      Sound cfg r (fun l' s' => ex l' s' ∨ l' = l ∧ s' = s) out st' := fun st' hc =>
    h.copied hc fun hstrict l' o ⟨hl', ho⟩ =>
      ⟨hpages hstrict _ (by rw [← slot_div]; exact ho), fun _ _ => .inr ⟨hl', ho⟩⟩
  refine dma_spec.post (fun _ st' ⟨hc, hb⟩ => ?_) fun _ st' ⟨hc, herr⟩ =>
    ⟨hcopied st' hc, (hc.shuffled _).1, herr⟩
  obtain ⟨hstep, hpool, -⟩ := hc.shuffled (Spare st)
  have h' := hcopied st' hc
  exact ⟨⟨h'.tables, fun hs => (h'.inv hs).loaded (hstep.layer ▸ he) hb⟩, hstep, hpool⟩

def claimedAndPinned (m : UnifiedPoolManager) (l s e : Nat) : UnifiedPoolManager :=
  (claimed m l s e).modifyLayer l fun u => u.pin s

theorem layer_claimedAndPinned (m : UnifiedPoolManager) (l s e : Nat) :
    (claimedAndPinned m l s e).layer =
      Function.update m.layer l (((m.layer l).assigned s e m.step).pin s) := by
  funext l'
  rw [claimedAndPinned, layer_modifyLayer, layer_claimed, layer_claimed, Function.update_apply]
  by_cases hl' : l' = l <;> simp [hl']

theorem Sound.claimedAndPinned (h : Sound cfg r ex out st) (hl : l ∈ cfg.layerIds)
    (hc : Slot cfg r.strict st l s) (he : (st.2.layer l).superBlockAtExpert.get? e = none) :
    Sound cfg r (fun l' s' => ex l' s' ∨ l' = l ∧ s' = s) out
      (st.1, claimedAndPinned st.2 l s e) := by
  have hclaim := h.claim hl hc he
  have hpinned : Pinned cfg (claimed st.2 l s e) := hclaim.tables.layers.pinned
  refine hclaim.retag (fun hi => hi.pin s) rfl (fun s' hs' => ?_) ((hclaim.tables.stamps l).pin s)
  rcases Finset.mem_insert.mp hs' with rfl | hs'
  · exact (maps_claimed st.2 l l s' s' e).mpr (.inr ⟨rfl, rfl⟩)
  · exact hpinned l hl s' hs'

theorem undisturbed_claimedAndPinned (he : (st.2.layer l).superBlockAtExpert.get? e = none) :
    Undisturbed cfg l needed st (st.1, claimedAndPinned st.2 l s e) := by
  have hlayer := layer_claimedAndPinned st.2 l s e
  refine ⟨fun l' hne => ?_, fun s' hs' => ?_, fun e' _ s' hs' => ?_, fun e' _ ht => ?_, rfl,
    fun _ hx => hx, fun ht => ht⟩
  · rw [hlayer, Function.update_of_ne hne]
  · rw [hlayer, Function.update_self]
    exact Finset.mem_insert_of_mem hs'
  · have hee : e' ≠ e := by
      rintro rfl
      simp [he] at hs'
    rw [hlayer]
    simpa [UnifiedPool.pin, UnifiedPool.assigned, Dict.get?_set, hee] using hs'
  · rw [hlayer]
    by_cases hee : e' = e
    · simp [UnifiedPool.pin, UnifiedPool.assigned, hee]
    · simpa [UnifiedPool.pin, UnifiedPool.assigned, Dict.get?_set, hee] using ht

/-! ## The miss loop -/

def victimOf (cfg : PoolConfig) (l : Nat) (needed : List Nat) (st : UnifiedState K) : List Nat :=
  match (selectSuperBlockForExpert cfg l needed st).1 with
  | .ok s => ((st.2.layer l).expertAtSuperBlock.get? s).toList
  | .error _ => []

def victims (cfg : PoolConfig) (l : Nat) (needed : List Nat) :
    List Nat → UnifiedState K × List Nat → List Nat
  | [], _ => []
  | e :: es, st => victimOf cfg l needed st.1 ++
      match claimMiss cfg l needed e st with
      | (.ok (), st') => victims cfg l needed es st'
      | (.error _, _) => []

/-- The layers `u` within the miss loop of layer `l`, from `u₀` before the call, after evictions of
the experts `V` and claims of the super-blocks `A`. -/
structure Rolling (l : Nat) (needed : List Nat) (u₀ : Nat → UnifiedPool) (V A : List Nat)
    (u : Nat → UnifiedPool) : Prop where
  others : ∀ l', l' ≠ l → u l' = u₀ l'
  claims : ∀ s ∈ A, ∃ e ∈ needed, (u₀ l).superBlockAtExpert.get? e = none ∧
    (u l).superBlockAtExpert.get? e = some s
  loaded : ∀ e s, (u l).superBlockAtExpert.get? e = some s →
    s ∈ A ∨ (u₀ l).superBlockAtExpert.get? e = some s
  kept : ∀ e s, (u₀ l).superBlockAtExpert.get? e = some s →
    e ∈ V ∨ (u l).superBlockAtExpert.get? e = some s
  gone : ∀ e ∈ V, e ∉ needed ∧ (u₀ l).superBlockAtExpert.get? e ≠ none ∧
    (u l).superBlockAtExpert.get? e = none

namespace Rolling
variable {l s e : Nat} {needed V A : List Nat} {u₀ u : Nat → UnifiedPool}

theorem drop (h : Rolling l needed u₀ V A u) (hu : (u l).Inv)
    (hvictim : ∀ e, (u l).expertAtSuperBlock.get? s = some e → e ∉ needed) :
    Rolling l needed u₀ (V ++ ((u l).expertAtSuperBlock.get? s).toList) A
      (Function.update u l ((u l).drop s)) := by
  -- a claim of this call is not evicted: its expert is needed
  have hclaim : ∀ s' ∈ A, s' ≠ s := by
    rintro s' hs' rfl
    obtain ⟨e, he, -, hat⟩ := h.claims s' hs'
    exact hvictim e ((hu.inverse s' e).mpr hat) he
  have hgone : ∀ e', (u l).superBlockAtExpert.get? e' = none →
      ((u l).drop s).superBlockAtExpert.get? e' = none := fun e' he' => by
    by_contra hc
    obtain ⟨s', hs'⟩ := Option.ne_none_iff_exists'.mp hc
    rw [(hu.loaded_drop.mp hs').1] at he'
    cases he'
  refine ⟨fun l' hl' => ?_, fun s' hs' => ?_, fun e s' he => ?_, fun e s' he => ?_, fun e he => ?_⟩
  · rw [Function.update_of_ne hl', h.others l' hl']
  · obtain ⟨e, he, hnone, hat⟩ := h.claims s' hs'
    refine ⟨e, he, hnone, ?_⟩
    rw [Function.update_self]
    exact hu.loaded_drop.mpr ⟨hat, hclaim s' hs'⟩
  · rw [Function.update_self] at he
    exact h.loaded e s' (hu.loaded_drop.mp he).1
  · rw [Function.update_self, mem_append]
    rcases h.kept e s' he with hV | hat
    · exact .inl (.inl hV)
    · by_cases hs : s' = s
      · have hmem := (hu.inverse s e).mpr (hs ▸ hat)
        exact .inl (.inr (Option.mem_toList.mpr hmem))
      · exact .inr (hu.loaded_drop.mpr ⟨hat, hs⟩)
  · rw [Function.update_self]
    rcases mem_append.mp he with hV | hmem
    · obtain ⟨hn, hold, hnone⟩ := h.gone e hV
      exact ⟨hn, hold, hgone e hnone⟩
    · have hat := Option.mem_toList.mp hmem
      have hload := (hu.inverse s e).mp hat
      refine ⟨hvictim e hat, ?_, ?_⟩
      · rcases h.loaded e s hload with hA | hold
        · exact absurd rfl (hclaim s hA)
        · simp [hold]
      · by_contra hc
        obtain ⟨s', hs'⟩ := Option.ne_none_iff_exists'.mp hc
        obtain ⟨hs'', hne⟩ := hu.loaded_drop.mp hs'
        exact hne (Option.some.inj (hs''.symm.trans hload))

theorem claim (h : Rolling l needed u₀ V A u) {step : Nat} (he : e ∈ needed)
    (hmiss : (u₀ l).superBlockAtExpert.get? e = none)
    (hnone : (u l).superBlockAtExpert.get? e = none) :
    Rolling l needed u₀ V (A ++ [s]) (Function.update u l (((u l).assigned s e step).pin s)) := by
  have hget : ∀ e', (((u l).assigned s e step).pin s).superBlockAtExpert.get? e' =
      if e' = e then some s else (u l).superBlockAtExpert.get? e' := fun e' => by
    simp [UnifiedPool.pin, UnifiedPool.assigned, Dict.get?_set]
  refine ⟨fun l' hl' => ?_, fun s' hs' => ?_, fun e' s' he' => ?_, fun e' s' he' => ?_,
    fun e' he' => ?_⟩
  · rw [Function.update_of_ne hl', h.others l' hl']
  · rw [Function.update_self]
    rcases mem_append.mp hs' with hA | hlast
    · obtain ⟨e', hmem, hold, hat⟩ := h.claims s' hA
      have hee : e' ≠ e := by
        rintro rfl
        rw [hnone] at hat
        cases hat
      exact ⟨e', hmem, hold, by rw [hget, if_neg hee, hat]⟩
    · exact ⟨e, he, hmiss, by rw [hget, if_pos rfl, mem_singleton.mp hlast]⟩
  · rw [Function.update_self, hget] at he'
    split at he'
    · cases he'
      exact .inl (by simp)
    · exact (h.loaded e' s' he').imp_left (mem_append_left _)
  · rw [Function.update_self, hget]
    have hee : e' ≠ e := by
      rintro rfl
      rw [hmiss] at he'
      cases he'
    rw [if_neg hee]
    exact h.kept e' s' he'
  · rw [Function.update_self, hget]
    obtain ⟨hn, hold, hnone'⟩ := h.gone e' he'
    have hee : e' ≠ e := fun hee => hn (hee ▸ he)
    rw [if_neg hee]
    exact ⟨hn, hold, hnone'⟩

end Rolling

theorem assign_taken {u : UnifiedPool} {l n e t : Nat}
    (h : u.expertAtSuperBlock.get? s ≠ none ∨ u.superBlockAtExpert.get? e ≠ none) :
    ∃ err, UnifiedPool.assign l n s e t u = (.error err, u) := by
  rcases hs : u.expertAtSuperBlock.get? s with _ | e'
  · obtain ⟨s', hs'⟩ := Option.ne_none_iff_exists'.mp (h.resolve_left fun hc => hc hs)
    exact ⟨_, by simp only [UnifiedPool.assign, Call.run_bind, Call.get, hs, hs']; rfl⟩
  · exact ⟨_, by simp only [UnifiedPool.assign, Call.run_bind, Call.get, hs]; rfl⟩

/-- What the handler of a failed load finds: only bytes of this call's claims may be wrong. -/
def Broken (cfg : PoolConfig) (r : Regime) (ex : Nat → Nat → Prop) (out : Nat → Prop) (l : Nat)
    (st : UnifiedState K × List Nat) : Prop :=
  Sound cfg r (fun l' s' => ex l' s' ∨ l' = l ∧ s' ∈ st.2) out st.1

/-- A turn of the miss loop for expert `e` adds its victim and its claim to those before it. -/
def Rolls (cfg : PoolConfig) (l : Nat) (needed : List Nat) (e : Nat)
    (st st' : UnifiedState K × List Nat) : Prop :=
  ∀ u₀ V, (u₀ l).superBlockAtExpert.get? e = none → Rolling l needed u₀ V st.2 st.1.2.layer →
    Rolling l needed u₀ (V ++ victimOf cfg l needed st.1) st'.2 st'.1.2.layer

theorem claimMiss_sound (hl : l ∈ cfg.layerIds) (he : e ∈ needed) (hne : e < cfg.numExperts l)
    (h : Sound cfg r ex out st) :
    Triple (· = (st, A)) (claimMiss cfg l needed e)
      (fun _ st' => Sound cfg r ex out st'.1 ∧ Undisturbed cfg l needed st st'.1 ∧
        Fresh st'.1.2 l e ∧ (∀ e' ∈ needed, e' ≠ e →
          (st.2.layer l).superBlockAtExpert.get? e' = none →
          (st'.1.2.layer l).superBlockAtExpert.get? e' = none) ∧ Rolls cfg l needed e (st, A) st')
      (fun err st' => Broken cfg r ex out l st' ∧
        ((st.2.layer l).superBlockAtExpert.get? e = none → Expected cfg l st err) ∧
        Rolls cfg l needed e (st, A) st') := by
  have hbroken : ∀ {st : UnifiedState K} {A : List Nat}, Sound cfg r ex out st →
      Broken cfg r ex out l (st, A) := fun h => h.mono fun _ _ => .inl
  have hselect : Triple (· = st) (selectSuperBlockForExpert cfg l needed)
      (Found cfg r ex out l needed st) (Fails cfg r ex out l st) :=
    selectSuperBlockForExpert_sound h hl
  rcases hsel : selectSuperBlockForExpert cfg l needed st with ⟨err | s, st₁⟩
  · obtain ⟨h₁, hlayer, herr⟩ := hselect.error rfl hsel
    refine .of_error (Call.bind_of_error (Call.lift_run hsel A)) ⟨hbroken h₁, fun _ => herr,
      fun u₀ V _ hr => ?_⟩
    simpa only [victimOf, hsel, append_nil, hlayer] using hr
  have hf := hselect.ok rfl hsel
  have hvictim : victimOf cfg l needed st = ((st.2.layer l).expertAtSuperBlock.get? s).toList := by
    simp only [victimOf, hsel]
  have hroll : ∀ u₀ V, Rolling l needed u₀ V A st.2.layer →
      Rolling l needed u₀ (V ++ victimOf cfg l needed st) A st₁.2.layer := fun u₀ V hr => by
    rw [hvictim, hf.layer]
    exact hr.drop (h.tables.layers.core.layer l hl) hf.victim
  rcases hload : (st₁.2.layer l).superBlockAtExpert.get? e with _ | s'
  · -- the claim is made and pinned before the copies start
    have hassign : (onLayer l (UnifiedPool.assign l (cfg.numExperts l) s e st₁.2.step) :
        UnifiedCall K Unit) st₁ =
        (.ok (), (st₁.1, st₁.2.modifyLayer l fun u => u.assigned s e st₁.2.step)) := by
      simp only [onLayer, Call.zoom, UnifiedPool.assign_eq hf.slot.slot hload hne]
      rfl
    have hrun : claimMiss cfg l needed e (st, A) = (dmaExpertIntoSuperBlock cfg l e s).lift
        ((st₁.1, claimedAndPinned st₁.2 l s e), A ++ [s]) := by
      rw [claimMiss, Call.bind_of_ok (Call.lift_run hsel A), Call.get_bind,
        Call.bind_of_ok (Call.lift_run hassign A)]
      rfl
    have hlayer := layer_claimedAndPinned st₁.2 l s e
    have hdma := dma_claimed_sound (e := e) (hf.sound.claimedAndPinned hl hf.slot hload)
      (by rw [hlayer, Function.update_self]; simp [UnifiedPool.pin, UnifiedPool.assigned])
      fun hs p hp => (hf.slot.pages hs p hp).2
    have hsame : Undisturbed cfg l needed st (st₁.1, claimedAndPinned st₁.2 l s e) :=
      hf.undisturbed.trans (undisturbed_claimedAndPinned hload)
    have hrolls : ∀ {st₂ : UnifiedState K}, st₂.2.layer = (claimedAndPinned st₁.2 l s e).layer →
        Rolls cfg l needed e (st, A) (st₂, A ++ [s]) := fun hlay u₀ V hmiss hr => by
      simp only [hlay, hlayer]
      exact (hroll u₀ V hr).claim he hmiss hload
    rcases hd : dmaExpertIntoSuperBlock cfg l e s (st₁.1, claimedAndPinned st₁.2 l s e) with
      ⟨err | u, st₂⟩
    · obtain ⟨h₂, hstep, herr⟩ := hdma.error rfl hd
      refine .of_error (hrun.trans (Call.lift_run hd _)) ⟨h₂.mono fun l' s' hx => ?_,
        fun _ => hsame.expected fun _ => .inr herr, hrolls hstep.layer⟩
      exact hx.imp_right fun hls => ⟨hls.1, by simp [hls.2]⟩
    · obtain ⟨h₂, hstep, -⟩ := hdma.ok rfl hd
      refine .of_ok (hrun.trans (Call.lift_run hd _)) ⟨h₂, hsame.trans hstep.undisturbed, ?_,
        fun e' he' hee hnone => ?_, hrolls hstep.layer⟩
      · have hnow : st₂.2.layer l = ((st₁.2.layer l).assigned s e st₁.2.step).pin s := by
          rw [hstep.layer, hlayer, Function.update_self]
        have hsteps : st₂.2.step = st₁.2.step := hstep.step
        rw [Fresh, hnow, hsteps]
        exact ⟨⟨s, by simp [UnifiedPool.pin, UnifiedPool.assigned], Finset.mem_insert_self ..⟩,
          by simp [UnifiedPool.pin, UnifiedPool.assigned]⟩
      · rw [hstep.layer, hlayer]
        simpa [UnifiedPool.pin, UnifiedPool.assigned, Dict.get?_set, hee] using
          (hf.get?_eq he').1.trans hnone
  · obtain ⟨err, herr⟩ := assign_taken (u := st₁.2.layer l) (s := s) (l := l)
      (n := cfg.numExperts l) (t := st₁.2.step) (.inr (by rw [hload]; simp))
    have hassign : (onLayer l (UnifiedPool.assign l (cfg.numExperts l) s e st₁.2.step) :
        UnifiedCall K Unit) st₁ = (.error err, st₁) := by
      simp only [onLayer, Call.zoom, herr, modifyLayer, Function.update_eq_self]
    have hrun : claimMiss cfg l needed e (st, A) = (.error err, (st₁, A)) := by
      rw [claimMiss, Call.bind_of_ok (Call.lift_run hsel A), Call.get_bind]
      exact Call.bind_of_error (Call.lift_run hassign A)
    refine .of_error hrun ⟨hbroken hf.sound, fun hnone => ?_, fun u₀ V _ => hroll u₀ V⟩
    rw [(hf.get?_eq he).1, hnone] at hload
    cases hload

theorem forEach_claimMiss_sound (hl : l ∈ cfg.layerIds) (es : List Nat)
    (hes : ∀ e ∈ es, e ∈ needed ∧ e < cfg.numExperts l) {st : UnifiedState K}
    (h : Sound cfg r ex out st) :
    Triple (· = (st, A)) (Call.forEach es (claimMiss cfg l needed))
      (fun _ st' => Sound cfg r ex out st'.1 ∧ Undisturbed cfg l needed st st'.1 ∧
        ∀ e ∈ es, Fresh st'.1.2 l e)
      (fun err st' => Broken cfg r ex out l st' ∧
        (es.Nodup → (∀ e ∈ es, (st.2.layer l).superBlockAtExpert.get? e = none) →
          Expected cfg l st err) ∧
        ∀ u₀ V, (∀ e ∈ es, (u₀ l).superBlockAtExpert.get? e = none) →
          Rolling l needed u₀ V A st.2.layer →
          Rolling l needed u₀ (V ++ victims cfg l needed es (st, A)) st'.2 st'.1.2.layer) := by
  induction es generalizing st A with
  | nil => exact .pure () fun s hs => by rw [hs]; exact ⟨h, Undisturbed.refl st, by simp⟩
  | cons e es ih =>
    obtain ⟨he, hne⟩ := hes e mem_cons_self
    have hturn : Triple (· = (st, A)) (claimMiss cfg l needed e) _ _ :=
      claimMiss_sound hl he hne h
    rcases hrun : claimMiss cfg l needed e (st, A) with ⟨err | u, st₁, A₁⟩
    · obtain ⟨h₁, herr, hroll⟩ := hturn.error rfl hrun
      refine .bind_error hrun ⟨h₁, fun _ hnone => herr (hnone e mem_cons_self),
        fun u₀ V hmiss hr => ?_⟩
      rw [victims, hrun]
      simpa using hroll u₀ V (hmiss e mem_cons_self) hr
    · obtain ⟨h₁, hsame, hfresh, habsent, hroll⟩ := hturn.ok rfl hrun
      refine .bind_run hrun ((ih (fun e he => hes e (mem_cons_of_mem _ he)) h₁).post
        (fun _ st' ⟨h', hsame', hrest⟩ => ⟨h', hsame.trans hsame', fun e' he' => ?_⟩)
        fun err st' ⟨h', herr, hrest⟩ => ⟨h', fun hnd hnone => hsame.expected (herr ?_ fun e' he' => ?_),
          fun u₀ V hmiss hr => ?_⟩)
      · rcases mem_cons.mp he' with rfl | he'
        · exact hsame'.fresh he hfresh
        · exact hrest e' he'
      · exact (nodup_cons.mp hnd).2
      · exact habsent e' (hes e' (mem_cons_of_mem _ he')).1
          (fun hee => (nodup_cons.mp hnd).1 (hee ▸ he')) (hnone e' (mem_cons_of_mem _ he'))
      · have hrolled := hrest u₀ _ (fun e' he' => hmiss e' (mem_cons_of_mem _ he'))
          (hroll u₀ V (hmiss e mem_cons_self) hr)
        rw [victims, hrun, ← append_assoc]
        exact hrolled

/-! ## The handler -/

theorem layer_foldl_dropLayerMapping (l l' : Nat) (A : List Nat) (m : UnifiedPoolManager) :
    (A.foldl (fun m s => m.dropLayerMapping l s) m).layer l' =
      if l' = l then A.foldl UnifiedPool.drop (m.layer l) else m.layer l' := by
  induction A generalizing m with
  | nil => by_cases hl : l' = l <;> simp [hl]
  | cons s A ih =>
    rw [foldl_cons, ih, layer_dropLayerMapping, layer_dropLayerMapping, if_pos rfl]
    by_cases hl : l' = l <;> simp [hl]

theorem foldl_dropLayerMapping (hl : l ∈ cfg.layerIds) (A : List Nat) (hcore : Core cfg (p, m))
    (hcontent : Content cfg (fun l' s' => ex l' s' ∨ l' = l ∧ s' ∈ A) (p, m)) :
    Core cfg (p, A.foldl (fun m s => m.dropLayerMapping l s) m) ∧
      Content cfg ex (p, A.foldl (fun m s => m.dropLayerMapping l s) m) := by
  induction A generalizing m with
  | nil => exact ⟨hcore, by simpa using hcontent⟩
  | cons s A ih =>
    have hcontent' : Content cfg (fun l' s' => (ex l' s' ∨ l' = l ∧ s' ∈ A) ∨ l' = l ∧ s' = s)
        (p, m) := by
      refine ⟨fun l' hl' s' e he hex => hcontent.experts l' hl' s' e he fun hc => hex ?_,
        hcontent.kv⟩
      rcases hc with hc | ⟨h1, h2⟩
      · exact .inl (.inl hc)
      · exact (mem_cons.mp h2).elim (fun h => .inr ⟨h1, h⟩) fun h => .inl (.inr ⟨h1, h⟩)
    obtain ⟨hcore₁, hcontent₁⟩ := Inv.dropLayerMapping hcore hl hcontent'
    exact ih hcore₁ hcontent₁

/-- The state that the handler of a failed load leaves, from the claims `A`. -/
def undone (l : Nat) (A : List Nat) (m : UnifiedPoolManager) : UnifiedPoolManager :=
  (A.foldl (fun m s => m.dropLayerMapping l s) m).modifyLayer l fun u => u.unpinAll

theorem layer_undone (l l' : Nat) (A : List Nat) (m : UnifiedPoolManager) :
    (undone l A m).layer l' =
      if l' = l then (A.foldl UnifiedPool.drop (m.layer l)).unpinAll else m.layer l' := by
  rw [undone, layer_modifyLayer, layer_foldl_dropLayerMapping, layer_foldl_dropLayerMapping]
  by_cases hl : l' = l <;> simp [hl]

theorem relayers_undone (l : Nat) (A : List Nat) (m : UnifiedPoolManager) :
    Relayers (undone l A) m := by
  have hfold : Relayers (A.foldl (fun m s => m.dropLayerMapping l s)) m := by
    induction A generalizing m with
    | nil => exact ⟨m.layer, m.superBlockHolder, fun _ => rfl⟩
    | cons s A ih =>
      obtain ⟨lay, hold, hdrop⟩ := relayers_dropLayerMapping m l s
      obtain ⟨lay', hold', hrest⟩ := ih { m with layer := lay, superBlockHolder := hold }
      exact ⟨lay', hold', fun lru => (congrArg
        (fun m' => A.foldl (fun m s => m.dropLayerMapping l s) m') (hdrop lru)).trans (hrest lru)⟩
  obtain ⟨lay, hold, h⟩ := hfold
  exact ⟨Function.update lay l (lay l).unpinAll, hold, fun lru =>
    congrArg (fun m' => m'.modifyLayer l fun u => u.unpinAll) (h lru)⟩

theorem Inv.undone (hl : l ∈ cfg.layerIds)
    (h : Inv cfg (fun l' s' => ex l' s' ∨ l' = l ∧ s' ∈ A) out (p, m)) :
    Inv cfg ex out (p, undone l A m) := by
  obtain ⟨hcore, hcontent⟩ := foldl_dropLayerMapping hl A h.core h.content
  refine ⟨hcore.retag (fun hi => hi.unpinAll) rfl, fun l' hl' s hs => ?_, hcontent.retag rfl,
    h.complete⟩
  -- only the other layers still pin something
  rw [Maps, layer_undone]
  rw [layer_undone] at hs
  split at hs
  · simp [UnifiedPool.unpinAll] at hs
  · next hne =>
    rw [if_neg hne]
    exact h.pinned l' hl' s hs

theorem Sound.undone (hl : l ∈ cfg.layerIds) (h : Broken cfg r ex out l ((p, m), A)) :
    Sound cfg r ex out (p, undone l A m) := by
  have hblank : Inv cfg (fun l' s' => True ∨ l' = l ∧ s' ∈ A) (fun _ => True)
      (onBlank p.numGpuBlocks m : UnifiedState K) :=
    h.tables.layers.mono fun _ _ _ => .inl trivial
  refine ⟨h.tables.relayers (relayers_undone l A m) (hblank.undone hl) fun l' => ?_,
    fun hs => (h.inv hs).undone hl⟩
  rw [layer_undone]
  split
  · exact ((h.tables.stamps l).foldl_drop A).unpinAll
  · exact h.tables.stamps l'

/-! ## The whole call -/

def hitsPinned (l : Nat) (needed : List Nat) (st : UnifiedState K) : UnifiedState K :=
  (st.1, (needed.filterMap fun e => ((st.2.layer l).superBlockAtExpert.get? e).map
    fun s => (e, s)).foldl (fun m h => m.modifyLayer l fun u => (u.pin h.2).bumpExpert h.1 m.step)
      st.2)

def missesOf (u : UnifiedPool) (needed : List Nat) : List Nat :=
  needed.filter fun e => (u.superBlockAtExpert.get? e).isNone

def evicted (cfg : PoolConfig) (l : Nat) (needed : List Nat) (st : UnifiedState K) : List Nat :=
  victims cfg l needed (missesOf (st.2.layer l) needed) (hitsPinned l needed st, [])

theorem forEach_modifyManager {β : Type} (f : β → UnifiedPoolManager → UnifiedPoolManager)
    (xs : List β) (st : UnifiedState K) :
    Call.forEach xs (fun x => modifyManager (f x)) st =
      (.ok (), (st.1, xs.foldl (fun m x => f x m) st.2)) := by
  induction xs generalizing st with
  | nil => rfl
  | cons x xs ih => exact ih (st.1, f x st.2)

theorem ensureLoaded_eq (l : Nat) (needed : List Nat) :
    ensureLoaded cfg l needed st = Call.withLocal []
      ((Call.forEach (missesOf (st.2.layer l) needed) (claimMiss cfg l needed)).onError (rollback l))
      (hitsPinned l needed st) := by
  unfold ensureLoaded
  rw [Call.get_bind]
  exact Call.bind_of_ok (forEach_modifyManager
    (fun (h : Nat × Nat) m => m.modifyLayer l fun u => (u.pin h.2).bumpExpert h.1 m.step) _ st)

theorem Sound.pinHit (h : Sound cfg r ex out st) (hl : l ∈ cfg.layerIds)
    (hs : (st.2.layer l).superBlockAtExpert.get? e = some s) :
    Sound cfg r ex out (st.1, st.2.modifyLayer l fun u => (u.pin s).bumpExpert e st.2.step) := by
  have hinv : (st.2.layer l).Inv := h.tables.layers.core.layer l hl
  have hpins : Pinned cfg st.2 := h.tables.layers.pinned
  refine h.retag (fun hi => (hi.pin s).bumpExpert e _) ?_ (fun s' hs' => ?_)
    (((h.tables.stamps l).pin s).bumpExpert e)
  · rw [UnifiedPool.expertAt_bumpExpert]
    rfl
  · rw [UnifiedPool.pinned_bumpExpert] at hs'
    rcases Finset.mem_insert.mp hs' with rfl | hs'
    · exact maps_iff.mpr ⟨e, (hinv.inverse s' e).mpr hs⟩
    · exact hpins l hl s' hs'

theorem undisturbed_pinHit (hkey : e ∈ (st.2.layer l).expertLru.keys)
    (hs : (st.2.layer l).superBlockAtExpert.get? e = some s) :
    Undisturbed cfg l needed st
        (st.1, st.2.modifyLayer l fun u => (u.pin s).bumpExpert e st.2.step) ∧
      Fresh (st.2.modifyLayer l fun u => (u.pin s).bumpExpert e st.2.step) l e := by
  have hbump : ((st.2.layer l).pin s).bumpExpert e st.2.step = { (st.2.layer l).pin s with
      expertLru := (st.2.layer l).expertLru.setLast e st.2.step } := if_pos hkey
  have hlayer : ((st.2.modifyLayer l fun u => (u.pin s).bumpExpert e st.2.step).layer l) =
      { (st.2.layer l).pin s with expertLru := (st.2.layer l).expertLru.setLast e st.2.step } := by
    rw [layer_modifyLayer, if_pos rfl, hbump]
  refine ⟨⟨fun l' hne => ?_, fun s' hs' => ?_, fun e' _ s' hs' => ?_, fun e' _ ht => ?_, rfl,
    fun _ hx => hx, fun ht => ht⟩, ?_⟩
  · simp only [layer_modifyLayer, if_neg hne]
  · rw [hlayer]
    exact Finset.mem_insert_of_mem hs'
  · rw [hlayer]
    exact hs'
  · rw [hlayer]
    change ((st.2.layer l).expertLru.setLast e st.2.step).get? e' = _
    rw [Dict.get?_setLast]
    split
    · rfl
    · exact ht
  · rw [Fresh, hlayer]
    refine ⟨⟨s, hs, Finset.mem_insert_self ..⟩, ?_⟩
    change ((st.2.layer l).expertLru.setLast e st.2.step).get? e = _
    rw [Dict.get?_setLast, if_pos rfl]
    rfl

theorem Sound.hitsPinned (h : Sound cfg r ex out st) (hl : l ∈ cfg.layerIds) (needed : List Nat) :
    Sound cfg r ex out (hitsPinned l needed st) ∧
      Undisturbed cfg l needed st (Unified.hitsPinned l needed st) ∧
      ((Unified.hitsPinned l needed st).2.layer l).superBlockAtExpert =
        (st.2.layer l).superBlockAtExpert ∧
      ∀ e ∈ needed, (st.2.layer l).superBlockAtExpert.get? e ≠ none →
        Fresh (Unified.hitsPinned l needed st).2 l e := by
  have hloop : ∀ (hits : List (Nat × Nat)) (m : UnifiedPoolManager), Sound cfg r ex out (st.1, m) →
      (∀ x ∈ hits, x.1 ∈ needed ∧ (m.layer l).superBlockAtExpert.get? x.1 = some x.2) →
      let m' := hits.foldl
        (fun m h => m.modifyLayer l fun u => (u.pin h.2).bumpExpert h.1 m.step) m
      Sound cfg r ex out (st.1, m') ∧ Undisturbed cfg l needed (st.1, m) (st.1, m') ∧
        (m'.layer l).superBlockAtExpert = (m.layer l).superBlockAtExpert ∧
        ∀ x ∈ hits, Fresh m' l x.1 := by
    intro hits
    induction hits with
    | nil => exact fun m hm _ => ⟨hm, Undisturbed.refl _, rfl, by simp⟩
    | cons x hits ih =>
      intro m hm hx
      obtain ⟨hneed, hs⟩ := hx x mem_cons_self
      have hkey : x.1 ∈ (m.layer l).expertLru.keys :=
        ((hm.tables.layers.core.layer l hl).lru x.1).mpr (Dict.mem_keys_of_get? hs)
      obtain ⟨hsame, hfresh⟩ : Undisturbed cfg l needed (st.1, m) _ ∧ Fresh _ l x.1 :=
        undisturbed_pinHit hkey hs
      have hat : ((m.modifyLayer l fun u => (u.pin x.2).bumpExpert x.1 m.step).layer
          l).superBlockAtExpert = (m.layer l).superBlockAtExpert := by
        rw [layer_modifyLayer, if_pos rfl, UnifiedPool.superBlockAt_bumpExpert]
        rfl
      obtain ⟨h', hsame', hat', hfresh'⟩ := ih _ (hm.pinHit hl hs) fun y hy => by
        rw [hat]
        exact hx y (mem_cons_of_mem _ hy)
      refine ⟨h', hsame.trans hsame', hat'.trans hat, fun y hy => ?_⟩
      rcases mem_cons.mp hy with rfl | hy
      · exact hsame'.fresh hneed hfresh
      · exact hfresh' y hy
  obtain ⟨h', hsame, hat, hfresh⟩ := hloop (needed.filterMap fun e =>
    ((st.2.layer l).superBlockAtExpert.get? e).map fun s => (e, s)) st.2 h fun x hx => by
      obtain ⟨e, he, hx⟩ := mem_filterMap.mp hx
      obtain ⟨s, hs, rfl⟩ := Option.map_eq_some_iff.mp hx
      exact ⟨he, hs⟩
  refine ⟨h', hsame, hat, fun e he hne => ?_⟩
  obtain ⟨s, hs⟩ := Option.ne_none_iff_exists'.mp hne
  exact hfresh (e, s) (mem_filterMap.mpr ⟨e, he, by rw [hs]; rfl⟩)

structure RolledBack (cfg : PoolConfig) (l : Nat) (needed : List Nat) (st st' : UnifiedState K) :
    Prop where
  unpinned : (st'.2.layer l).pinnedSuperBlocks = ∅
  missed : ∀ e ∈ needed, (st.2.layer l).superBlockAtExpert.get? e = none →
    (st'.2.layer l).superBlockAtExpert.get? e = none ∧
      (∀ s, (st'.2.layer l).expertAtSuperBlock.get? s ≠ some e) ∧
      e ∉ (st'.2.layer l).expertLru.keys ∧ (st'.2.layer l).superBlockIdAt e = -1
  holders : ∀ s, l ∈ (st'.2.superBlockHolder.get? s).getD ∅ →
    ∃ e, (st.2.layer l).superBlockAtExpert.get? e = some s ∧
      (st'.2.layer l).superBlockAtExpert.get? e = some s
  kept : ∀ e s, (st.2.layer l).superBlockAtExpert.get? e = some s → e ∉ evicted cfg l needed st →
    (st'.2.layer l).superBlockAtExpert.get? e = some s
  gone : ∀ e ∈ evicted cfg l needed st, e ∉ needed ∧
    (st.2.layer l).superBlockAtExpert.get? e ≠ none ∧
    (st'.2.layer l).superBlockAtExpert.get? e = none
  others : ∀ l', l' ≠ l → st'.2.layer l' = st.2.layer l' ∧
    ∀ s, l' ∈ (st'.2.superBlockHolder.get? s).getD ∅ ↔ l' ∈ (st.2.superBlockHolder.get? s).getD ∅

theorem Rolling.rolledBack {caching : Bool} {quiet : Prop}
    (hr : Rolling l needed st.2.layer (evicted cfg l needed st) A m.layer)
    (h : Tables cfg caching quiet st) (h₁ : Tables cfg caching quiet (p, m))
    (hback : Tables cfg caching quiet (p, undone l A m)) (hl : l ∈ cfg.layerIds) :
    RolledBack cfg l needed st (p, undone l A m) := by
  have hu : ((undone l A m).layer l).Inv := hback.layers.core.layer l hl
  have hu₁ : (m.layer l).Inv := h₁.layers.core.layer l hl
  have hlayer : (undone l A m).layer l = (A.foldl UnifiedPool.drop (m.layer l)).unpinAll := by
    rw [layer_undone, if_pos rfl]
  have hloaded : ∀ e s, ((undone l A m).layer l).superBlockAtExpert.get? e = some s ↔
      (m.layer l).superBlockAtExpert.get? e = some s ∧ s ∉ A := fun e s => by
    rw [hlayer]
    exact hu₁.loaded_foldl_drop A
  have hcame : ∀ e s, ((undone l A m).layer l).superBlockAtExpert.get? e = some s →
      (st.2.layer l).superBlockAtExpert.get? e = some s := fun e s he =>
    (hr.loaded e s ((hloaded e s).mp he).1).resolve_left ((hloaded e s).mp he).2
  have hlost : ∀ e, (m.layer l).superBlockAtExpert.get? e = none ∨
      (st.2.layer l).superBlockAtExpert.get? e = none →
      ((undone l A m).layer l).superBlockAtExpert.get? e = none := fun e he => by
    by_contra hc
    obtain ⟨s, hs⟩ := Option.ne_none_iff_exists'.mp hc
    rcases he with he | he
    · simp [((hloaded e s).mp hs).1] at he
    · simp [hcame e s hs] at he
  have hother : ∀ l', l' ≠ l → (undone l A m).layer l' = st.2.layer l' := fun l' hl' => by
    rw [layer_undone, if_neg hl']
    exact hr.others l' hl'
  have hholder : ∀ s l', l' ∈ ((undone l A m).superBlockHolder.get? s).getD ∅ ↔
      l' ∈ cfg.layerIds ∧ (undone l A m).Maps l' s := hback.layers.core.holder
  have hholder₀ : ∀ s l', l' ∈ (st.2.superBlockHolder.get? s).getD ∅ ↔
      l' ∈ cfg.layerIds ∧ st.2.Maps l' s := h.layers.core.holder
  refine ⟨?_, fun e he hnone => ?_, fun s hs => ?_, fun e s he hev => ?_, fun e he => ?_,
    fun l' hl' => ⟨hother l' hl', fun s => ?_⟩⟩
  · simp only [hlayer]
    rfl
  · have hnone' := hlost e (.inr hnone)
    refine ⟨hnone', fun s hs => ?_, fun hmem => ?_, ?_⟩
    · rw [(hu.inverse s e).mp hs] at hnone'
      cases hnone'
    · have hsome := Dict.mem_keys_iff.mp ((hu.lru e).mp hmem)
      rw [hnone'] at hsome
      cases hsome
    · simp only [hu.mirror, hnone']
      rfl
  · obtain ⟨e, he⟩ := maps_iff.mp ((hholder s l).mp hs).2
    have hat := (hu.inverse s e).mp he
    exact ⟨e, hcame e s hat, hat⟩
  · -- a claim of this call is not where `e` was: `e` would have been loaded there in its place
    have hat := (hr.kept e s he).resolve_left hev
    refine (hloaded e s).mpr ⟨hat, fun hA => ?_⟩
    obtain ⟨e', -, hnone, hat'⟩ := hr.claims s hA
    have hee : e' = e := Option.some.inj
      (((hu₁.inverse s e').mpr hat').symm.trans ((hu₁.inverse s e).mpr hat))
    rw [hee, he] at hnone
    cases hnone
  · obtain ⟨hn, hold, hnone⟩ := hr.gone e he
    exact ⟨hn, hold, hlost e (.inl hnone)⟩
  · simp only [hholder, hholder₀, Maps, hother l' hl']

theorem ensureLoaded_sound (hl : l ∈ cfg.layerIds) (hne : ∀ e ∈ needed, e < cfg.numExperts l)
    (h : Sound cfg r ex out st) :
    Triple (· = st) (ensureLoaded cfg l needed)
      (fun _ st' => Sound cfg r ex out st' ∧ Undisturbed cfg l needed st st' ∧
        ∀ e ∈ needed, Fresh st'.2 l e)
      (fun err st' => Sound cfg r ex out st' ∧ (needed.Nodup → Expected cfg l st err) ∧
        RolledBack cfg l needed st st') := by
  obtain ⟨hpinned, hsame, hat, hhits⟩ := h.hitsPinned hl needed
  have hstart : Rolling l needed st.2.layer [] [] (hitsPinned l needed st).2.layer :=
    ⟨hsame.others, by simp, fun e s he => .inr (hat ▸ he), fun e s he => .inr (hat ▸ he), by simp⟩
  have hmiss : ∀ e, e ∈ missesOf (st.2.layer l) needed ↔
      e ∈ needed ∧ (st.2.layer l).superBlockAtExpert.get? e = none := fun e => by
    rw [missesOf, mem_filter, Option.isNone_iff_eq_none]
  have hloop : Triple (· = (hitsPinned l needed st, [])) _ _ _ :=
    forEach_claimMiss_sound hl (missesOf (st.2.layer l) needed)
      (fun e he => ⟨((hmiss e).mp he).1, hne e ((hmiss e).mp he).1⟩) hpinned
  intro s hs
  subst hs
  rw [ensureLoaded_eq]
  refine Triple.withLocal (P := fun s' => s' = hitsPinned l needed s)
    (Triple.onError (hloop.weaken (fun _ hs => Prod.ext hs.1 hs.2) ?_ fun _ _ hs => hs)
      fun err => Triple.of_forall ?_) _ rfl
  · rintro _ st' ⟨h', hsame', hfresh⟩
    refine ⟨h', hsame.trans hsame', fun e he => ?_⟩
    rcases hload : (s.2.layer l).superBlockAtExpert.get? e with _ | s'
    · exact hfresh e ((hmiss e).mpr ⟨he, hload⟩)
    · exact hsame'.fresh he (hhits e he (by rw [hload]; simp))
  · rintro ⟨⟨p, m⟩, A⟩ ⟨hbroken, herr, hrolled⟩
    have hback : Sound cfg r ex out (p, undone l A m) := Sound.undone hl hbroken
    have hrun : rollback l ((p, m), A) = (.ok (), ((p, undone l A m), A)) := rfl
    refine Triple.of_ok hrun ⟨hback, fun hnd => ?_, ?_⟩
    · exact hsame.expected (herr (hnd.filter _) fun e he => by
        rw [hat]
        exact ((hmiss e).mp he).2)
    · have hr := hrolled s.2.layer [] (fun e he => ((hmiss e).mp he).2) hstart
      exact hr.rolledBack h.tables hbroken.tables hback.tables hl

theorem releasePinned_sound (l : Nat) :
    Triple (Sound cfg r ex out) (releasePinned (K := K) l) (fun _ => Sound cfg r ex out)
      (fun _ _ => False) :=
  .modify fun _ h => h.retag (fun hi => hi.unpinAll) rfl
    (fun s hs => by simp [UnifiedPool.unpinAll] at hs) (h.tables.stamps l).unpinAll

theorem endForwardStep_sound :
    Triple (Sound cfg r ex out) (endForwardStep (K := K)) (fun _ => Sound cfg r ex out)
      (fun _ _ => False) := by
  refine .modify fun _ h => ⟨h.tables.update h.pool rfl rfl rfl (Nat.le_succ _)
    (h.tables.recency.mono (Nat.le_succ _)) rfl fun hq => hq, fun hs => ?_⟩
  have h := h.inv hs
  exact ⟨h.core.update_pool rfl rfl h.core.pool rfl h.core.held_pages h.core.lru,
    h.pinned.congr rfl, ⟨h.content.experts, h.content.kv⟩, h.complete⟩

/-! ## Start-up -/

theorem warmExpert_sound (h : Sound cfg r ex out st) (hl : l ∈ cfg.layerIds)
    (hs : e + 1 < cfg.numSuperBlocks) (hne : e < cfg.numExperts l)
    (hpages : r.strict → ∀ p, cfg.superBlockOfPage p = e + 1 →
      st.1.refCnt p = 0 ∧ st.1.hash p = none) :
    Triple (· = st) (warmExpert cfg e l)
      (fun _ st' => Sound cfg r ex out st' ∧ st'.1 = st.1)
      (fun _ st' => Sound cfg r (fun _ _ => True) out st') := by
  refine .bind_get ?_
  by_cases hfree : (st.2.layer l).expertAtSuperBlock.get? (e + 1) = none ∧
      (st.2.layer l).superBlockAtExpert.get? e = none
  · have hassign : (onLayer l (UnifiedPool.assign l (cfg.numExperts l) (e + 1) e st.2.step) :
        UnifiedCall K Unit) st =
        (.ok (), (st.1, st.2.modifyLayer l fun u => u.assigned (e + 1) e st.2.step)) := by
      simp only [onLayer, Call.zoom, UnifiedPool.assign_eq hfree.1 hfree.2 hne]
      rfl
    refine .bind_run hassign (.bind_run rfl ?_)
    refine (dma_claimed_sound (h.claim hl ⟨by omega, hs, hfree.1, hpages⟩ hfree.2) ?_
      fun hs p hp => (hpages hs p hp).2).post (fun _ st' hs => ⟨hs.1, hs.2.2⟩)
      fun _ st' hs => hs.1.mono fun _ _ _ => trivial
    rw [get?_claimed, if_pos ⟨rfl, rfl⟩]
  · obtain ⟨err, herr⟩ := assign_taken (l := l) (n := cfg.numExperts l) (t := st.2.step)
      (not_and_or.mp hfree)
    have hrun : (onLayer l (UnifiedPool.assign l (cfg.numExperts l) (e + 1) e st.2.step) :
        UnifiedCall K Unit) st = (.error err, st) := by
      simp only [onLayer, Call.zoom, herr, modifyLayer, Function.update_eq_self]
    exact .bind_error hrun (h.mono fun _ _ _ => trivial)

def NoneLive (cfg : PoolConfig) (n : Nat) (p : BlockPool K) : Prop :=
  ∀ b, 1 ≤ cfg.superBlockOfPage b → cfg.superBlockOfPage b ≤ n → ¬ 0 < p.refCnt b

theorem warmSuperBlock_sound (h : Sound cfg r ex out st) {n : Nat}
    (hlive : r.strict → NoneLive cfg n st.1) (hen : e < n) (hs : e + 1 < cfg.numSuperBlocks)
    (hne : ∀ l ∈ cfg.layerIds, e < cfg.numExperts l) :
    Triple (· = st) (warmSuperBlock cfg e)
      (fun _ st' => Sound cfg r ex out st' ∧ st'.1 = st.1)
      (fun _ st' => Sound cfg r (fun _ _ => True) out st') := by
  have hany : Sound cfg r (fun _ _ => True) out st := h.mono fun _ _ _ => trivial
  refine Triple.bind (Q := fun _ st' => st' = st ∧ ∀ p ∈ cfg.pagesOf (e + 1), st.1.hash p = none)
    ?_ fun _ => Triple.of_forall fun st₁ ⟨hst, hhash⟩ => ?_
  · refine (Triple.forEach (I := fun done _ st' => st' = st ∧ ∀ p ∈ done, st.1.hash p = none) []
      (cfg.pagesOf (e + 1)) fun pre p post _ => Triple.of_forall fun st₁ ⟨hst, hpre⟩ => ?_).pre
        fun _ hs => ⟨hs, by simp⟩
    rw [hst]
    refine Triple.bind_get (Triple.bind_check (fun _ => ?_) fun _ => hany)
    refine Triple.check (fun _ hs hp => ⟨hs, fun q hq => ?_⟩) fun _ hs _ => hs ▸ hany
    rcases mem_append.mp hq with hq | hq
    · exact hpre q hq
    · rw [mem_singleton.mp hq]
      simpa using hp
  · rw [hst]
    have hpages : r.strict → ∀ p, cfg.superBlockOfPage p = e + 1 →
        st.1.refCnt p = 0 ∧ st.1.hash p = none := fun hstrict p hp => by
      have hpos : 1 ≤ cfg.superBlockOfPage p := by omega
      have hnn := h.pool.ref_nonneg p (page_ne_zero hpos)
      have hnl := hlive hstrict p hpos (by omega)
      exact ⟨by omega, hhash p (mem_pagesOf.mpr hp)⟩
    refine (Triple.forEach_inv (I := fun st' => Sound cfg r ex out st' ∧ st'.1 = st.1) cfg.layerIds
      fun l hl => Triple.of_forall fun st₂ ⟨h₂, hpool⟩ => ?_).pre
        fun _ hs => by rw [hs]; exact ⟨h, rfl⟩
    exact (warmExpert_sound h₂ hl hs (hne l hl) (hpool ▸ hpages)).mapOk
      fun _ st' hs => ⟨hs.1, hs.2.trans hpool⟩

theorem warmUp_sound {warmCount : Nat} :
    Triple (fun st => Sound cfg r ex out st ∧ (r.strict → NoneLive cfg warmCount st.1))
      (warmUp (K := K) cfg warmCount)
      (fun _ => Sound cfg r ex out) (fun _ => Sound cfg r (fun _ _ => True) out) := by
  refine Triple.of_forall fun st ⟨h, hlive⟩ => ?_
  have hany : ∀ {st : UnifiedState K}, Sound cfg r ex out st →
      Sound cfg r (fun _ _ => True) out st := fun h => h.mono fun _ _ _ => trivial
  refine Triple.ite (fun _ => Triple.pure () fun _ hs => hs ▸ h) fun _ => ?_
  refine Triple.bind (Q := fun _ st' => st' = st ∧ ∀ l ∈ cfg.layerIds, warmCount ≤ cfg.numExperts l)
    ?_ fun _ => Triple.of_forall fun st₁ ⟨hst, hexp⟩ => ?_
  · refine (Triple.forEach (I := fun done _ st' => st' = st ∧
      ∀ l ∈ done, warmCount ≤ cfg.numExperts l) [] cfg.layerIds fun pre l post _ =>
        Triple.check (fun _ hs hc => ⟨hs.1, fun l' hl' => ?_⟩) fun _ hs _ => hs.1 ▸ hany h).pre
          fun _ hs => ⟨hs, by simp⟩
    rcases mem_append.mp hl' with hl' | hl'
    · exact hs.2 l' hl'
    · rw [mem_singleton.mp hl']
      simpa using hc
  rw [hst]
  refine Triple.bind_check (fun hcount => ?_) fun _ => hany h
  have hcount : warmCount + 1 ≤ cfg.numSuperBlocks := by simpa using hcount
  refine Triple.ite (fun _ => Triple.pure () fun _ hs => hs ▸ h) fun _ => ?_
  refine Triple.bind (Q := fun _ => Sound cfg r ex out) ?_ fun _ => ?_
  · refine (Triple.forEach_inv (I := fun st' => Sound cfg r ex out st' ∧ st'.1 = st.1)
      (List.range warmCount) fun e he => Triple.of_forall fun st₂ ⟨hinv, hpool⟩ => ?_).weaken
      (fun _ hs => by rw [hs]; exact ⟨h, rfl⟩) (fun _ _ hs => hs.1) fun _ _ hs => hs
    have he := mem_range.mp he
    exact (warmSuperBlock_sound hinv (hpool ▸ hlive) he (by omega) fun l hl =>
      he.trans_le (hexp l hl)).mapOk fun _ st' hs => ⟨hs.1, hs.2.trans hpool⟩
  · -- the comparison after warm-up only reads
    refine Triple.forEach_inv _ fun l _ => Triple.of_forall fun st₂ h₂ => Triple.bind_get ?_
    refine (Triple.forEach_inv (I := fun st' => st' = st₂) _ fun ⟨e, s⟩ _ => Triple.bind_get
      (Triple.bind_check (fun _ => Triple.check (fun _ hs _ => hs) fun _ hs _ => hs ▸ hany h₂)
        fun _ => hany h₂)).mapOk fun _ _ hs => hs ▸ h₂

end Vllm.Unified
