import Vllm.Unified.KvSteps

/-! Copies and the moves of cached pages: what `_relocate_kv_page`, `_evict_prefix_globally` and
`_vacate_kv_super_block` do to the state, and how they fail when the device refuses a copy. -/

set_option linter.unusedSectionVars false

namespace Vllm.Unified
open Base Call UnifiedPoolManager List BlockPool Triple

variable {K : Type} {cfg : PoolConfig} {r : Regime} {ex : Nat → Nat → Prop} {out : Nat → Prop}
variable {st : UnifiedState K}

/-! ## Copies -/

def deviceError : PyError := .runtimeError "CUDA error"

def withBuffer (st : UnifiedState K) (buf : Nat → Nat → UInt8) (faults : List Bool) :
    UnifiedState K := (st.1, { st.2 with poolBuffer := buf, copyFaults := faults })

def Pending (faults : List Bool) (st : UnifiedState K) : Prop := ∀ x ∈ st.2.copyFaults, x ∈ faults

def Copied (R : Nat → Nat → Prop) (st st' : UnifiedState K) : Prop :=
  (∃ buf faults, st' = withBuffer st buf faults ∧ ∀ l o, buf l o ≠ st.2.poolBuffer l o → R l o) ∧
    Pending st.2.copyFaults st'

theorem Copied.refl (R : Nat → Nat → Prop) (st : UnifiedState K) : Copied R st st :=
  ⟨⟨_, _, rfl, fun _ _ h => absurd rfl h⟩, fun _ hx => hx⟩

variable {R : Nat → Nat → Prop} {s : Nat} {A : Nat → Prop}

theorem transfer_spec {f : (Nat → Nat → UInt8) → Nat → Nat → UInt8} {s₁ : UnifiedState K}
    (h : Copied R st s₁) (hf : ∀ buf l o, f buf l o ≠ buf l o → R l o) :
    Triple (· = s₁) (transfer f)
      (fun _ s => Copied R st s ∧ s.2.poolBuffer = f s₁.2.poolBuffer)
      (fun e s => Copied R st s ∧ e = deviceError ∧ true ∈ st.2.copyFaults) := by
  obtain ⟨⟨buf, faults, rfl, hR⟩, hp⟩ := h
  have hR' : ∀ l o, f buf l o ≠ st.2.poolBuffer l o → R l o := fun l o hne => by
    by_cases hc : f buf l o = buf l o
    · exact hR l o (hc ▸ hne)
    · exact hf buf l o hc
  rcases faults with _ | ⟨_ | _, faults⟩
  · exact .of_run (by exact ⟨⟨⟨f buf, [], rfl, hR'⟩, hp⟩, rfl⟩) rfl
  · have hp' : ∀ x ∈ faults, x ∈ st.2.copyFaults := fun x hx => hp x (mem_cons_of_mem _ hx)
    exact .of_run (by exact ⟨⟨⟨f buf, faults, rfl, hR'⟩, hp'⟩, rfl⟩) rfl
  · have hp' : ∀ x ∈ faults, x ∈ st.2.copyFaults := fun x hx => hp x (mem_cons_of_mem _ hx)
    exact .of_run
      (by exact ⟨⟨⟨buf, faults, rfl, hR⟩, hp'⟩, rfl, hp true mem_cons_self⟩) rfl

variable {src dst : Nat}

theorem copyPageAllLayers_spec (hne : src ≠ dst) :
    Triple (· = st) (copyPageAllLayers cfg src dst)
      (fun _ s => Copied (fun _ o => o / cfg.pageSizeBytes = dst) st s ∧
        ∀ l ∈ cfg.kvLayers, ∀ o, o / cfg.pageSizeBytes = dst → s.2.poolBuffer l o =
          s.2.poolBuffer l (src * cfg.pageSizeBytes + o % cfg.pageSizeBytes))
      (fun e s => Copied (fun _ o => o / cfg.pageSizeBytes = dst) st s ∧ e = deviceError ∧
        true ∈ st.2.copyFaults) := by
  have hsrc : ∀ o, (src * cfg.pageSizeBytes + o % cfg.pageSizeBytes) / cfg.pageSizeBytes ≠ dst := by
    intro o
    rwa [(mul_add_div_mod (Nat.mod_lt o cfg.page_pos)).1]
  refine (forEach (I := fun done _ s =>
    Copied (fun _ o => o / cfg.pageSizeBytes = dst) st s ∧
      ∀ l ∈ done, ∀ o, o / cfg.pageSizeBytes = dst → s.2.poolBuffer l o =
        s.2.poolBuffer l (src * cfg.pageSizeBytes + o % cfg.pageSizeBytes)) [] cfg.kvLayers
    fun pre l post _ => of_forall fun s₁ ⟨hc, hdone⟩ => ?_).pre
      fun s hs => by rw [hs]; exact ⟨Copied.refl _ st, by simp⟩
  refine (transfer_spec hc fun buf l' o hb => ?_).mapOk
    fun _ s ⟨hs, hbuf⟩ => ⟨hs, fun l' hl' o ho => ?_⟩
  · by_contra hd
    exact hb (if_neg fun h => hd h.2)
  · -- the source page is not touched, so a layer copied earlier stays copied
    simp only [hbuf, copyPage, ho, and_true, hsrc o, and_false, if_false]
    split
    · next hll => rw [hll]
    · next hll =>
      have : l' ∈ pre := by simpa [hll] using hl'
      exact hdone l' this o ho

theorem dma_spec {l e : Nat} :
    Triple (· = st) (dmaExpertIntoSuperBlock cfg l e s)
      (fun _ s' => Copied (fun l' o => l' = l ∧ o / cfg.expertSlotBytes = s) st s' ∧
        ∀ o, o / cfg.expertSlotBytes = s →
          s'.2.poolBuffer l o = expertByte cfg l e (o % cfg.expertSlotBytes))
      (fun e s' => Copied (fun l' o => l' = l ∧ o / cfg.expertSlotBytes = s) st s' ∧
        e = deviceError ∧ true ∈ st.2.copyFaults) := by
  have hslot : cfg.w13Bytes l + cfg.w2Bytes l = cfg.expertSlotBytes := cfg.slot_eq l
  have hpos : 0 < cfg.expertSlotBytes := Nat.mul_pos cfg.page_pos cfg.pages_pos
  have hin : ∀ start size, s * cfg.expertSlotBytes ≤ start →
      start + size ≤ s * cfg.expertSlotBytes + cfg.expertSlotBytes → ∀ data buf l' o,
      writeBytes l start size data buf l' o ≠ buf l' o →
        l' = l ∧ o / cfg.expertSlotBytes = s := by
    intro start size h1 h2 data buf l' o hb
    have hc : l' = l ∧ start ≤ o ∧ o < start + size := by
      by_contra hc
      exact hb (if_neg hc)
    exact ⟨hc.1, (Nat.div_eq_iff hpos).mpr (by omega)⟩
  refine .bind (transfer_spec (Copied.refl _ st) (hin _ _ (by omega) (by omega) _))
    fun _ => .of_forall fun s₁ ⟨hc, h13⟩ => ?_
  refine (transfer_spec hc (hin _ _ (by omega) (by omega) _)).mapOk
    fun _ s' ⟨hs', h2⟩ => ⟨hs', fun o ho => ?_⟩
  -- the second copy covers the rest of the slot
  have hdm : s * cfg.expertSlotBytes + o % cfg.expertSlotBytes = o := by
    rw [← ho]
    exact Nat.div_add_mod' o _
  have hlt := Nat.mod_lt o hpos
  rw [h2, writeBytes, h13, writeBytes, expertByte]
  by_cases hi : o % cfg.expertSlotBytes < cfg.w13Bytes l
  · rw [if_neg (by omega), if_pos ⟨rfl, by omega, by omega⟩, if_pos hi]
    congr 1
    omega
  · rw [if_pos ⟨rfl, by omega, by omega⟩, if_neg hi]
    congr 1
    omega

/-! ## One page -/

structure Shuffled (A : Nat → Prop) (st st' : UnifiedState K) : Prop where
  layer : st'.2.layer = st.2.layer
  refs : ∀ p, st'.1.refCnt p = st.1.refCnt p
  free : st'.1.free = st.1.free
  num : st'.1.numGpuBlocks = st.1.numGpuBlocks
  step : st'.2.step = st.2.step
  faults : Pending st.2.copyFaults st'
  lru : (∀ p ∈ st.2.prefixLru.keys, A p) → ∀ p ∈ st'.2.prefixLru.keys, A p

theorem Shuffled.refl (A : Nat → Prop) (st : UnifiedState K) : Shuffled A st st :=
  ⟨rfl, fun _ => rfl, rfl, rfl, rfl, fun _ hx => hx, fun h => h⟩

variable {st₁ st₂ : UnifiedState K}

theorem Shuffled.trans (h : Shuffled A st st₁) (h' : Shuffled A st₁ st₂) : Shuffled A st st₂ :=
  ⟨h'.layer.trans h.layer, fun p => (h'.refs p).trans (h.refs p), h'.free.trans h.free,
    h'.num.trans h.num, h'.step.trans h.step, fun x hx => h.faults x (h'.faults x hx),
    fun hA => h'.lru (h.lru hA)⟩

variable {st' : UnifiedState K}

theorem Copied.shuffled (h : Copied R st st') (A : Nat → Prop) :
    Shuffled A st st' ∧ st'.1 = st.1 ∧ st'.2.prefixLru = st.2.prefixLru := by
  obtain ⟨⟨buf, faults, rfl, -⟩, hp⟩ := h
  exact ⟨⟨rfl, fun _ => rfl, rfl, rfl, rfl, hp, fun hA => hA⟩, rfl, rfl⟩

variable [DecidableEq K]

theorem Sound.copied (h : Sound cfg r ex out st) (hc : Copied R st st')
    (hR : r.strict → ∀ l o, R l o → st.1.hash (o / cfg.pageSizeBytes) = none ∧ (l ∈ cfg.layerIds → st.2.Maps l (o / cfg.expertSlotBytes) → ex l (o / cfg.expertSlotBytes))) :
    Sound cfg r ex out st' := by
  obtain ⟨⟨buf, faults, rfl, hbuf⟩, -⟩ := hc
  exact h.buffer fun hs l o hne => hR hs l o (hbuf l o hne)

def Refused (cfg : PoolConfig) (r : Regime) (ex : Nat → Nat → Prop) (out : Nat → Prop)
    (A : Nat → Prop) (st : UnifiedState K) (e : PyError) (st' : UnifiedState K) : Prop :=
  Sound cfg r ex out st' ∧ Shuffled A st st' ∧ e = deviceError ∧ true ∈ st.2.copyFaults

theorem Refused.trans {e : PyError} (h : Shuffled A st st₁)
    (h' : Refused cfg r ex out A st₁ e st₂) : Refused cfg r ex out A st e st₂ :=
  ⟨h'.1, h.trans h'.2.1, h'.2.2.1, h.faults true h'.2.2.2⟩

theorem relocateKvPage_sound (h : Sound cfg r ex out st)
    (hsrc : st.1.hash src ≠ none) (href : st.1.refCnt src = 0) (hdst : st.1.hash dst = none)
    (hlt : dst < st.1.numGpuBlocks ∧ dst ≠ 0)
    (hhole : r.strict → dst ∈ st.1.free ∧ ¬ Held cfg st.2 (cfg.superBlockOfPage dst)) (hA : A dst) :
    Triple (· = st) (relocateKvPage cfg src dst)
      (fun _ st' => Sound cfg r ex out st' ∧ Shuffled A st st' ∧ (∀ p, st'.1.hash p =
        if p = dst then st.1.hash src else if p = src then none else st.1.hash p) ∧
        st'.2.prefixLru = st.2.prefixLru.rename src dst st.2.step)
      (Refused cfg r ex out A st) := by
  obtain ⟨key, hkey⟩ := Option.ne_none_iff_exists'.mp hsrc
  have hne : src ≠ dst := by
    rintro rfl
    exact hsrc hdst
  have hcopied : ∀ st', Copied (fun _ o => o / cfg.pageSizeBytes = dst) st st' →
      Sound cfg r ex out st' := fun st' hc => h.copied hc fun hs l o ho => by
    subst ho
    exact ⟨hdst, fun hl hm => absurd ⟨l, hl, slot_div cfg o ▸ hm⟩ (hhole hs).2⟩
  refine .bind ((copyPageAllLayers_spec hne).mapError
    fun _ st' hs => ⟨hcopied st' hs.1, (hs.1.shuffled A).1, hs.2⟩) fun _ =>
    .of_forall fun st₁ ⟨hc, hcopy⟩ => ?_
  have h₁ := hcopied st₁ hc
  obtain ⟨hstep, hpool, hlru⟩ := hc.shuffled A
  have hrel : relocatePrefixHash src dst st₁ =
      (.ok true, ((st₁.1.unpublish src key).publish dst key, st₁.2)) := by
    have hlts := (h.pool.hash_lt src hsrc).1
    rw [relocatePrefixHash, get_bind, hpool, check_bind (by simp [hlts, hlt.1]),
      hkey]
    simp only
    rw [check_bind (by simp [hdst]), check_bind (by simp [href]),
      BlockHashToBlockMap.pop_fst ((h.pool.hash_iff src key).mp hkey)]
    simp only [modifyPool]
    rw [modify_bind, hpool]
    rfl
  refine .bind_run hrel ?_
  refine .of_run ?_ rfl
  refine ⟨h₁.relocate (hpool ▸ hkey) (hpool ▸ hdst) (hpool ▸ hlt) (fun hs => ⟨hpool ▸ (hhole hs).1,
    fun hh => (hhole hs).2 ((held_congr hstep.layer _).mp hh)⟩) hcopy, ⟨hstep.layer, fun p => ?_,
    hstep.free, hstep.num, hstep.step, hstep.faults, fun hall p hp => ?_⟩, fun p => ?_, ?_⟩
  · simp [unpublish, publish, hpool]
  · rcases Dict.mem_keys_rename.mp hp with rfl | hp
    · exact hA
    · exact hall p (hlru ▸ hp.2)
  · simp [unpublish, publish, hpool, hkey]
  · rw [← hlru, ← hstep.step]

theorem evictPrefixGlobally_sound (A : Nat → Prop) (h : Sound cfg r ex out st) {b : Nat}
    (hb : b < st.1.numGpuBlocks) :
    ∃ st', evictPrefixGlobally cfg b st = (.ok (), st') ∧ Sound cfg r ex out st' ∧
      Shuffled A st st' ∧ (∀ p, st'.1.hash p = if p = b then none else st.1.hash p) ∧
      (st.1.hash b ≠ none → st'.2.prefixLru = st.2.prefixLru.erase b) := by
  cases hh : st.1.hash b with
  | none =>
    refine ⟨st, ?_, h, Shuffled.refl A st, fun p => ?_, fun hc => absurd rfl hc⟩
    · rw [evictPrefixGlobally, get_bind, check_bind (by simpa using hb),
        if_pos (by simp [hh])]
      rfl
    · by_cases hp : p = b <;> simp [hp, hh]
  | some key =>
    refine ⟨(st.1.unpublish b key, onPrefixRemoved b st.2), ?_, h.evict hh,
      ⟨rfl, fun p => by simp [unpublish], rfl, rfl, rfl, fun _ hx => hx,
        fun hA p hp => hA p (Dict.mem_keys_erase.mp hp).2⟩, fun p => by simp [unpublish],
      fun _ => rfl⟩
    rw [evictPrefixGlobally, get_bind, check_bind (by simpa using hb),
      if_neg (by simp [hh])]
    have hev : evictPrefixHash (hooks cfg) b st =
        (.ok true, (st.1.unpublish b key, onPrefixRemoved b st.2)) := by
      rw [evictPrefixHash, get_bind, check_bind (by simpa using hb),
        maybeEvict_eq h.pool, hh]
    exact bind_of_ok hev

/-! ## Vacating a super-block -/

/-- What a turn of the loop of `_vacate_kv_super_block` over super-block `s` starts with. When the
recency list is stale, a victim need not be cached and may also be among the holes. -/
structure Clearing (cfg : PoolConfig) (strict : Prop) (A : Nat → Prop) (s : Nat)
    (st : UnifiedState K) (ps holes : List Nat) (cold : List (Nat × Nat)) : Prop where
  pages_nodup : ps.Nodup
  pages : ∀ p ∈ ps, cfg.superBlockOfPage p = s ∧ st.1.hash p ≠ none ∧ st.1.refCnt p = 0
  holes_nodup : holes.Nodup
  hashless : ∀ b ∈ holes, st.1.hash b = none
  cold_nodup : (cold.map Prod.fst).Nodup
  cached : strict → ∀ v ∈ cold.map Prod.fst, st.1.hash v ≠ none
  targets : ∀ b ∈ holes ++ cold.map Prod.fst,
    b < st.1.numGpuBlocks ∧ b ≠ 0 ∧ cfg.superBlockOfPage b ≠ s ∧ A b ∧
      (strict → b ∈ st.1.free ∧ ¬ Held cfg st.2 (cfg.superBlockOfPage b))

namespace Clearing
variable {strict : Prop} {A : Nat → Prop} {s p : Nat} {st' : UnifiedState K}
  {ps holes holes' : List Nat} {cold cold' : List (Nat × Nat)}

theorem next (h : Clearing cfg strict A s st (p :: ps) holes cold) (hstep : Shuffled A st st')
    (hholes : holes'.Sublist holes) (hcold : cold'.Sublist cold)
    (hhash : ∀ q ∈ ps ++ holes', st'.1.hash q = st.1.hash q)
    (hvictims : strict → ∀ v ∈ cold'.map Prod.fst, st'.1.hash v = st.1.hash v) :
    Clearing cfg strict A s st' ps holes' cold' := by
  refine ⟨(nodup_cons.mp h.pages_nodup).2, fun q hq => ?_, h.holes_nodup.sublist hholes,
    fun b hb => ?_, h.cold_nodup.sublist (hcold.map _), fun hs v hv => ?_, fun b hb => ?_⟩
  · rw [hhash q (mem_append_left _ hq), hstep.refs]
    exact h.pages q (mem_cons_of_mem _ hq)
  · rw [hhash b (mem_append_right _ hb)]
    exact h.hashless b (hholes.subset hb)
  · rw [hvictims hs v hv]
    exact h.cached hs v ((hcold.map _).subset hv)
  · rw [hstep.num, hstep.free, held_congr hstep.layer]
    exact h.targets b ((hholes.append (hcold.map _)).subset hb)

variable {q : Nat}

theorem ne_of_mem (h : Clearing cfg strict A s st (p :: ps) holes cold) (hq : q ∈ ps) :
    q ≠ p := fun e => (nodup_cons.mp h.pages_nodup).1 (e ▸ hq)

theorem target_ne (h : Clearing cfg strict A s st ps holes cold) {b : Nat}
    (hb : b ∈ holes ++ cold.map Prod.fst) (hq : q ∈ ps) : q ≠ b := fun e =>
  (h.targets b hb).2.2.1 (e ▸ (h.pages q hq).1)

theorem giveUp (h : Clearing cfg strict A s st (p :: ps) holes cold) (hstep : Shuffled A st st')
    (hhash : ∀ q, st'.1.hash q = if q = p then none else st.1.hash q) :
    Clearing cfg strict A s st' ps [] [] := by
  refine h.next hstep (nil_sublist _) (nil_sublist _) (fun q hq => ?_) (by simp)
  rw [append_nil] at hq
  rw [hhash, if_neg (h.ne_of_mem hq)]

theorem fill {hole : Nat} (h : Clearing cfg strict A s st (p :: ps) (hole :: holes) cold)
    (hstep : Shuffled A st st') (hhash : ∀ q, st'.1.hash q =
      if q = hole then st.1.hash p else if q = p then none else st.1.hash q) :
    Clearing cfg strict A s st' ps holes cold := by
  have hhole := h.hashless hole mem_cons_self
  refine h.next hstep (sublist_cons_self ..) (List.Sublist.refl _) (fun q hq => ?_)
    fun hs v hv => ?_
  · rcases mem_append.mp hq with hq | hq
    · have hqh := h.target_ne (b := hole) (by simp) (mem_cons_of_mem _ hq)
      rw [hhash, if_neg hqh, if_neg (h.ne_of_mem hq)]
    · have hqh : q ≠ hole := fun e => (nodup_cons.mp h.holes_nodup).1 (e ▸ hq)
      have hqp := h.target_ne (b := q) (by simp [hq]) mem_cons_self
      rw [hhash, if_neg hqh, if_neg hqp.symm]
  · have hvh : v ≠ hole := fun e => h.cached hs v hv (e ▸ hhole)
    have hvp := h.target_ne (mem_append_right _ hv) mem_cons_self
    rw [hhash, if_neg hvh, if_neg hvp.symm]

theorem displace {v : Nat × Nat} (h : Clearing cfg strict A s st (p :: ps) [] (v :: cold))
    (hstep : Shuffled A st st')
    (hhash : ∀ q, q ≠ v.1 → st'.1.hash q = if q = p then none else st.1.hash q) :
    Clearing cfg strict A s st' ps [] cold := by
  refine h.next hstep (List.Sublist.refl _) (sublist_cons_self ..) (fun q hq => ?_)
    fun hs c hc => ?_
  · rw [append_nil] at hq
    have hqv := h.target_ne (b := v.1) (by simp) (mem_cons_of_mem _ hq)
    rw [hhash q hqv, if_neg (h.ne_of_mem hq)]
  · have hcv : c ≠ v.1 := fun e => (nodup_cons.mp h.cold_nodup).1 (e ▸ hc)
    have hcp := h.target_ne (b := c) (mem_cons_of_mem _ hc) mem_cons_self
    rw [hhash c hcv, if_neg hcp.symm]

end Clearing

def Vacated (cfg : PoolConfig) (s : Nat) (st st' : UnifiedState K) (ps : List Nat) : Prop :=
  ∀ q, cfg.superBlockOfPage q = s → st'.1.hash q = if q ∈ ps then none else st.1.hash q

variable {p : Nat} {ps : List Nat}

theorem Vacated.cons {s : Nat}
    (h₁ : ∀ q, cfg.superBlockOfPage q = s → st₁.1.hash q = if q = p then none else st.1.hash q)
    (h₂ : Vacated cfg s st₁ st₂ ps) : Vacated cfg s st st₂ (p :: ps) := by
  intro q hq
  rw [h₂ q hq, h₁ q hq]
  by_cases hp : q ∈ ps <;> by_cases hqp : q = p <;> simp [hp, hqp]

theorem relocateOrEvict_sound (ps holes : List Nat) (cold : List (Nat × Nat)) {st : UnifiedState K}
    (h : Sound cfg r ex out st) (hc : Clearing cfg r.strict A s st ps holes cold) :
    Triple (· = st) (relocateOrEvict cfg ps holes cold)
      (fun _ st' => Sound cfg r ex out st' ∧ Shuffled A st st' ∧ Vacated cfg s st st' ps)
      (Refused cfg r ex out A st) := by
  -- a turn that leads to `st₁`, and the rest of the loop from there
  have turn : ∀ {p : Nat} {ps holes : List Nat} {cold : List (Nat × Nat)} {st st₁ : UnifiedState K},
      Shuffled A st st₁ →
      (∀ q, cfg.superBlockOfPage q = s → st₁.1.hash q = if q = p then none else st.1.hash q) →
      Triple (· = st₁) (relocateOrEvict cfg ps holes cold)
        (fun _ st' => Sound cfg r ex out st' ∧ Shuffled A st₁ st' ∧ Vacated cfg s st₁ st' ps)
        (Refused cfg r ex out A st₁) →
      Triple (· = st₁) (relocateOrEvict cfg ps holes cold)
        (fun _ st' => Sound cfg r ex out st' ∧ Shuffled A st st' ∧ Vacated cfg s st st' (p :: ps))
        (Refused cfg r ex out A st) := fun hstep hhash hrest =>
    hrest.post (fun _ st' hs => ⟨hs.1, hstep.trans hs.2.1, Vacated.cons hhash hs.2.2⟩)
      fun _ _ hs => Refused.trans hstep hs
  induction ps generalizing holes cold st with
  | nil =>
    cases holes <;> cases cold <;>
    exact .of_run (by exact ⟨h, Shuffled.refl A _, fun q _ => by simp⟩) rfl
  | cons p ps ih =>
    obtain ⟨hps, hph, hpr⟩ := hc.pages p mem_cons_self
    -- evicting `p` itself, with nothing left to consume
    have hgiveUp : Triple (· = st)
        (do evictPrefixGlobally cfg p; relocateOrEvict cfg ps [] [])
        (fun _ st' => Sound cfg r ex out st' ∧ Shuffled A st st' ∧ Vacated cfg s st st' (p :: ps))
        (Refused cfg r ex out A st) := by
      obtain ⟨st₁, hrun, h₁, hstep, hhash, -⟩ :=
        evictPrefixGlobally_sound A h (h.pool.hash_lt p hph).1
      exact .bind_run hrun
        (turn hstep (fun q _ => hhash q) (ih [] [] h₁ (hc.giveUp hstep hhash)))
    match holes, cold with
    | hole :: holes, cold =>
      obtain ⟨hlt, h0, hne, hA, hhole⟩ := hc.targets hole (by simp)
      refine .bind (relocateKvPage_sound h hph hpr (hc.hashless hole mem_cons_self)
        ⟨hlt, h0⟩ hhole hA) fun _ => .of_forall fun st₁ ⟨h₁, hstep, hhash, _⟩ => ?_
      refine turn hstep (fun q hq => ?_) (ih holes cold h₁ (hc.fill hstep hhash))
      have hqh : q ≠ hole := fun e => hne (e ▸ hq)
      rw [hhash, if_neg hqh]
    | [], [] => exact hgiveUp
    | [], (victim, victimStep) :: cold =>
      refine .bind_get (.ite (fun _ => ?_) fun _ => hgiveUp)
      obtain ⟨hlt, h0, hne, hA, hhole⟩ := hc.targets victim (by simp)
      obtain ⟨st₁, hrun, h₁, hstep₁, hhash₁, -⟩ := evictPrefixGlobally_sound A h hlt
      have hpv : p ≠ victim := fun e => hne (e ▸ hps)
      refine .bind_run hrun (.bind ((relocateKvPage_sound (A := A) h₁
        (by simpa [hhash₁, hpv] using hph) ((hstep₁.refs p).trans hpr) (by simp [hhash₁])
        ⟨hstep₁.num ▸ hlt, h0⟩ (fun hs => ⟨hstep₁.free ▸ (hhole hs).1, fun hh =>
          (hhole hs).2 ((held_congr hstep₁.layer _).mp hh)⟩) hA).mapError
            fun _ _ hs => Refused.trans hstep₁ hs) fun _ =>
        .of_forall fun st₂ ⟨h₂, hstep₂, hhash₂, _⟩ => ?_)
      have hhash : ∀ q, q ≠ victim → st₂.1.hash q = if q = p then none else st.1.hash q :=
        fun q hq => by rw [hhash₂, if_neg hq, hhash₁, if_neg hq]
      exact turn (hstep₁.trans hstep₂) (fun q hq => hhash q fun e => hne (e ▸ hq))
        (ih [] cold h₂ (hc.displace (hstep₁.trans hstep₂) hhash))

structure Vacatable (cfg : PoolConfig) (st : UnifiedState K) (s : Nat) : Prop where
  pos : 1 ≤ s
  unheld : ¬ Held cfg st.2 s
  dead : ∀ p, cfg.superBlockOfPage p = s → st.1.refCnt p ≤ 0
  inPool : ∀ p, cfg.superBlockOfPage p = s → p < st.1.numGpuBlocks

def Spare (st : UnifiedState K) (p : Nat) : Prop := p ∈ st.1.free ∨ p ∈ st.2.prefixLru.keys

theorem mem_cachedPages :
    p ∈ (cfg.pagesOf s).filter (fun p => (st.1.hash p).isSome) ↔
      cfg.superBlockOfPage p = s ∧ st.1.hash p ≠ none := by
  rw [mem_filter, mem_pagesOf, Option.isSome_iff_ne_none]

theorem Vacatable.ref_eq_zero (h : st.1.Inv) (hs : Vacatable cfg st s)
    (hp : cfg.superBlockOfPage p = s) (h0 : p ≠ 0) : st.1.refCnt p = 0 :=
  le_antisymm (hs.dead p hp) (h.ref_nonneg p h0)

section
variable (h : Sound cfg r ex out st) (hs : Vacatable cfg st s)
include h hs

/-- The loop starts with the cached pages of `s`, the free pages elsewhere and the listed ones. -/
theorem Sound.clearing {limit : Nat}
    (hps : ps.Perm ((cfg.pagesOf s).filter fun p => (st.1.hash p).isSome)) :
    Clearing cfg r.strict (Spare st) s st ps (collectFreePages cfg st s limit)
      (displaceablePagesColdestFirst cfg st.2 s limit) := by
  have hkey : ∀ v ∈ (displaceablePagesColdestFirst cfg st.2 s limit).map Prod.fst,
      v ∈ st.2.prefixLru.keys ∧ cfg.superBlockOfPage v ≠ s := fun v hv => by
    obtain ⟨e, he, rfl⟩ := mem_map.mp hv
    obtain ⟨hent, hb⟩ := mem_filter.mp (mem_of_mem_take he)
    simp only [Bool.and_eq_true, decide_eq_true_eq] at hb
    exact ⟨mem_map.mpr ⟨e, hent, rfl⟩, hb.1⟩
  have hlru : r.strict → ∀ v ∈ st.2.prefixLru.keys, v ∈ st.1.free ∧ st.1.hash v ≠ none :=
    fun hstrict v hv => ((h.inv hstrict).core.lru v).mp hv
  refine ⟨hps.nodup_iff.mpr (List.Nodup.filter _ nodup_range'), fun p hp => ?_,
    (h.pool.free_nodup.filter _).sublist (take_sublist ..), fun b hb => ?_,
    st.2.prefixLru.nodup.sublist (((take_sublist ..).trans filter_sublist).map Prod.fst),
    fun hstrict v hv => (hlru hstrict v (hkey v hv).1).2, fun b hb => ?_⟩
  · obtain ⟨hsb, hhash⟩ := mem_cachedPages.mp (hps.mem_iff.mp hp)
    exact ⟨hsb, hhash, hs.ref_eq_zero h.pool hsb (h.pool.hash_lt p hhash).2⟩
  · have hb := (mem_filter.mp (mem_of_mem_take hb)).2
    simp only [isTrulyFree, Bool.and_eq_true, Option.isNone_iff_eq_none] at hb
    exact hb.1.1.1.1
  · rcases mem_append.mp hb with hb | hb
    · obtain ⟨hfree, hb⟩ := mem_filter.mp (mem_of_mem_take hb)
      simp only [Bool.and_eq_true, decide_eq_true_eq] at hb
      obtain ⟨hlt, -, h0⟩ := h.pool.free_spec b hfree
      exact ⟨hlt, h0, hb.2, .inl hfree, fun hstrict =>
        ⟨hfree, ((isTrulyFree_iff (h.inv hstrict).core).mp hb.1.1).2.1⟩⟩
    · obtain ⟨hmem, hne⟩ := hkey b hb
      obtain ⟨hlt, h0⟩ := h.tables.recency.range b hmem
      exact ⟨hlt, h0, hne, .inr hmem, fun hstrict => ⟨(hlru hstrict b hmem).1,
        (h.inv hstrict).core.hash_not_held (hlru hstrict b hmem).2⟩⟩

theorem vacateKvSuperBlock_sound :
    Triple (· = st) (vacateKvSuperBlock cfg s)
      (fun _ st' => Sound cfg r ex out st' ∧ Shuffled (Spare st) st st' ∧
        ∀ p, cfg.superBlockOfPage p = s → st'.1.hash p = none)
      (Refused cfg r ex out (Spare st) st) := by
  set cached := (cfg.pagesOf s).filter fun p => (st.1.hash p).isSome with hcached
  have hdone : ∀ st' ps, (∀ p, p ∈ ps ↔ p ∈ cached) → Vacated cfg s st st' ps →
      ∀ p, cfg.superBlockOfPage p = s → st'.1.hash p = none := by
    intro st' ps hps hv p hp
    rw [hv p hp]
    split
    · rfl
    · next hn =>
      rw [hps, mem_cachedPages, not_and, not_not] at hn
      exact hn hp
  refine bind_get (bind_check (fun _ => ite (fun _ => ?_) fun _ => ?_)
    fun hr => ?_)
  · exact (relocateOrEvict_sound _ _ _ h (h.clearing hs (perm_insertionSort ..))).mapOk
      fun _ st' ⟨h', hstep, hv⟩ => ⟨h', hstep, hdone st' _
        (fun _ => (perm_insertionSort ..).mem_iff) hv⟩
  · refine (forEach (I := fun done _ st' => Sound cfg r ex out st' ∧
      Shuffled (Spare st) st st' ∧ Vacated cfg s st st' done) [] cached fun pre p post he =>
        of_forall fun st₁ ⟨h₁, hstep, hv⟩ => ?_).weaken
      (fun s hs => by
        rw [hs]
        exact ⟨h, Shuffled.refl _ st, fun q _ => by simp⟩)
      (fun _ st' ⟨h', hstep, hv⟩ => ⟨h', hstep, hdone st' _ (fun p => by simp) hv⟩)
      fun _ _ hs => hs
    have hmem : p ∈ cached := by
      rw [← nil_append cached, he]
      simp
    have hlt := (h.pool.hash_lt p (mem_cachedPages.mp hmem).2).1
    obtain ⟨st', hrun, h', hstep', hhash, -⟩ :=
      evictPrefixGlobally_sound (Spare st) h₁ (hstep.num ▸ hlt)
    refine of_ok hrun ⟨h', hstep.trans hstep', fun q hq => ?_⟩
    rw [hhash, hv q hq]
    by_cases hqp : q = p <;> by_cases hpre : q ∈ pre <;> simp [hqp, hpre]
  · -- the pages of a vacatable super-block are in the pool
    have hin : (cfg.pagesOf s).all (· < st.1.numGpuBlocks) = true :=
      all_eq_true.mpr fun p hp => by simpa using hs.inPool p (mem_pagesOf.mp hp)
    rw [hin] at hr
    cases hr

end

end Vllm.Unified
