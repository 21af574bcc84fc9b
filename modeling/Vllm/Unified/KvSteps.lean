import Vllm.Unified.Tables

/-! The pool's own operations keep the invariant of the unified pool: victims for a KV allocation,
`get_new_blocks`, `touch`, `free_blocks`, `cache_full_blocks`, `evict_blocks` and a KV write. -/

namespace Vllm.Unified
open Base BlockPool Dict UnifiedPoolManager List Triple

variable {K : Type} [DecidableEq K]
variable {cfg : PoolConfig} {r : Regime} {ex : Nat → Nat → Prop} {out : Nat → Prop} {st : UnifiedState K}

theorem maybeEvict_eq (h : st.1.Inv) (b : Nat) :
    maybeEvictCachedBlock (hooks cfg) b st =
      match st.1.hash b with
      | none => (.ok false, st)
      | some key => (.ok true, (st.1.unpublish b key, onPrefixRemoved b st.2)) := by
  unfold maybeEvictCachedBlock
  rw [h.dropHash?_eq]
  cases st.1.hash b <;> rfl

/-! ## One victim -/

variable {m : UnifiedPoolManager} {s b : Nat} {bs : List Nat}

theorem not_pinned_of_any (h : m.anyLayerPinsSuperBlock cfg s = false) :
    ∀ l ∈ cfg.layerIds, s ∉ (m.layer l).pinnedSuperBlocks := by
  simpa [anyLayerPinsSuperBlock] using h

/-- What the scan over the holder map has found after the entries `es`: a super-block that no layer
pins and whose coldest holder is the coldest of all of them. -/
def ColdestOf (cfg : PoolConfig) (m : UnifiedPoolManager) (es : List (Nat × Finset Nat)) :
    Option (Nat × Nat) → Prop
  | none => ∀ e ∈ es, m.anyLayerPinsSuperBlock cfg e.1 = false →
      m.coldestHolderStep cfg e.1 e.2 = none
  | some (s, t) => (∃ holders, (s, holders) ∈ es ∧ m.anyLayerPinsSuperBlock cfg s = false ∧
      m.coldestHolderStep cfg s holders = some t) ∧
      ∀ e ∈ es, m.anyLayerPinsSuperBlock cfg e.1 = false →
        ∀ t', m.coldestHolderStep cfg e.1 e.2 = some t' → t ≤ t'

theorem oldestGlobalExpert_coldest (cfg : PoolConfig) (m : UnifiedPoolManager) :
    ColdestOf cfg m m.superBlockHolder.entries (m.oldestGlobalExpert cfg) := by
  unfold UnifiedPoolManager.oldestGlobalExpert
  induction m.superBlockHolder.entries using reverseRecOn with
  | nil => simp [ColdestOf]
  | append_singleton done e h =>
    rw [foldl_append, foldl_cons, foldl_nil]
    -- one turn of the scan, from what the entries before it gave
    generalize foldl _ _ done = best at h ⊢
    change ColdestOf cfg m (done ++ [e]) (if m.anyLayerPinsSuperBlock cfg e.1 then best else _)
    have hsplit : ∀ x, x ∈ done ++ [e] ↔ x ∈ done ∨ x = e := by simp
    -- an entry that gives no step leaves everything as it was
    have hskip : (m.anyLayerPinsSuperBlock cfg e.1 = false →
        m.coldestHolderStep cfg e.1 e.2 = none) → ColdestOf cfg m (done ++ [e]) best := by
      intro hnone
      rcases best with _ | ⟨s, t⟩
      · intro x hx hpin
        rcases (hsplit x).mp hx with hx | rfl
        · exact h x hx hpin
        · exact hnone hpin
      · obtain ⟨⟨holders, hmem, hfound⟩, hleast⟩ := h
        refine ⟨⟨holders, (hsplit _).mpr (.inl hmem), hfound⟩, fun x hx hpin t' ht' => ?_⟩
        rcases (hsplit x).mp hx with hx | rfl
        · exact hleast x hx hpin t' ht'
        · rw [hnone hpin] at ht'
          cases ht'
    split
    · next hpin => exact hskip fun hc => absurd hpin (by simp [hc])
    · next hpin =>
      have hpin : m.anyLayerPinsSuperBlock cfg e.1 = false := by simpa using hpin
      have hself : (e.1, e.2) ∈ done ++ [e] := (hsplit _).mpr (.inr rfl)
      rcases hstep : m.coldestHolderStep cfg e.1 e.2 with _ | t <;> rcases best with _ | ⟨s', t'⟩
      · exact hskip fun _ => hstep
      · exact hskip fun _ => hstep
      · refine ⟨⟨e.2, hself, hpin, hstep⟩, fun x hx hpx u hu => ?_⟩
        rcases (hsplit x).mp hx with hx | rfl
        · rw [h x hx hpx] at hu
          cases hu
        · exact (Option.some.inj (hstep.symm.trans hu)).le
      · obtain ⟨⟨holders, hmem, hfound⟩, hleast⟩ := h
        simp only
        split
        · next hlt =>
          refine ⟨⟨e.2, hself, hpin, hstep⟩, fun x hx hpx u hu => ?_⟩
          rcases (hsplit x).mp hx with hx | rfl
          · exact hlt.le.trans (hleast x hx hpx u hu)
          · exact (Option.some.inj (hstep.symm.trans hu)).le
        · next hge =>
          refine ⟨⟨holders, (hsplit _).mpr (.inl hmem), hfound⟩, fun x hx hpx u hu => ?_⟩
          rcases (hsplit x).mp hx with hx | rfl
          · exact hleast x hx hpx u hu
          · rw [hstep] at hu
            cases hu
            exact Nat.le_of_not_lt hge

theorem oldestGlobalExpert_spec {step : Nat} (h : m.oldestGlobalExpert cfg = some (s, step)) :
    s ∈ m.superBlockHolder.keys ∧ m.anyLayerPinsSuperBlock cfg s = false := by
  have hcold := oldestGlobalExpert_coldest cfg m
  rw [h] at hcold
  obtain ⟨⟨holders, hmem, hpin, -⟩, -⟩ := hcold
  exact ⟨mem_map.mpr ⟨_, hmem, rfl⟩, hpin⟩

/-- What one victim selection does: page `b`, free and in a super-block that no layer pins, leaves
the queue; in a strict run no expert holds its super-block. -/
structure Picked (cfg : PoolConfig) (strict : Prop) (st st' : UnifiedState K) (b : Nat) : Prop where
  mem : b ∈ st.1.free
  free : st'.1.free = st.1.free.erase b
  refs : ∀ p, st'.1.refCnt p = st.1.refCnt p
  pins : SamePins st.2 st'.2
  unpinned : st.2.anyLayerPinsSuperBlock cfg (cfg.superBlockOfPage b) = false
  held : ∀ s, Held cfg st'.2 s → Held cfg st.2 s
  unheld : strict → ¬ Held cfg st'.2 (cfg.superBlockOfPage b)

abbrev PicksOne (cfg : PoolConfig) (r : Regime) (ex : Nat → Nat → Prop) (out : Nat → Prop)
    (st : UnifiedState K) (call : UnifiedCall K Nat) : Prop :=
  Triple (· = st) call
    (fun c st' => Sound cfg r ex (fun c' => out c' ∨ c' = c) st' ∧ Picked cfg r.strict st st' c)
    (fun _ st' => Sound cfg r ex out st')

section
variable (h : Sound cfg r ex out st)
include h

section
variable (hpin : st.2.anyLayerPinsSuperBlock cfg (cfg.superBlockOfPage b) = false)
    (hheld : r.strict → ¬ Held cfg st.2 (cfg.superBlockOfPage b))
include hpin hheld

theorem removeFree_picked {L : Dict Nat Nat}
    (hrec : Recency st.1.numGpuBlocks st.2.step L)
    (hlru : r.strict → ∀ p, p ∈ L.keys ↔ p ≠ b ∧ p ∈ st.2.prefixLru.keys) :
    Triple (· = st) (removeFree b)
      (fun _ st' => st'.2 = st.2 ∧
        Sound cfg r ex (fun c => out c ∨ c = b) (st'.1, { st.2 with prefixLru := L }) ∧
        Picked cfg r.strict st (st'.1, { st.2 with prefixLru := L }) b)
      (fun _ st' => st' = st) := by
  by_cases hb : b ∈ st.1.free
  · refine .of_run ?_ (if_pos hb)
    exact ⟨rfl, h.dequeue hb hrec hlru, hb, rfl, fun _ => rfl, fun _ => rfl, hpin, fun _ hs => hs,
      hheld⟩
  · exact .of_run rfl (if_neg hb)

theorem Sound.pick
    (hhash : r.strict → st.1.hash b = none) :
    PicksOne cfg r ex out st (do removeFree b; return b) := by
  refine .bind ((removeFree_picked h hpin hheld h.tables.recency fun hs p => ?_).mapError
    fun _ _ hs => hs ▸ h) fun _ =>
    .pure b fun st' ⟨hm, h', hp⟩ => ?_
  · refine ⟨fun hp => ⟨fun e => ?_, hp⟩, fun hp => hp.2⟩
    exact (((h.inv hs).core.lru p).mp hp).2 (e ▸ hhash hs)
  · have hst : st' = (st'.1, st.2) := Prod.ext rfl hm
    rw [hst]
    exact ⟨h', hp⟩

end

theorem kvTakePrefixPage_sound (hb : b ∈ st.2.prefixLru.keys)
    (hpin : st.2.anyLayerPinsSuperBlock cfg (cfg.superBlockOfPage b) = false) :
    PicksOne cfg r ex out st (kvTakePrefixPage b) := by
  have hheld : r.strict → ¬ Held cfg st.2 (cfg.superBlockOfPage b) := fun hs =>
    (h.inv hs).core.hash_not_held (((h.inv hs).core.lru b).mp hb).2
  refine .bind ((removeFree_picked h hpin hheld (h.tables.recency.erase b)
    fun _ p => mem_keys_erase).mapError
      fun _ _ hs => hs ▸ h) fun _ => .of_forall fun st₁ ⟨hm, h', hp⟩ => ?_
  refine .bind_modify (.pure b fun st' hst' => ?_)
  rw [hst', hm]
  exact ⟨h', hp⟩

theorem takeFirstPage_sound
    (hpin : st.2.anyLayerPinsSuperBlock cfg s = false) (hheld : r.strict → ¬ Held cfg st.2 s) :
    ∀ ps : List Nat,
      (∀ p ∈ ps, cfg.superBlockOfPage p = s ∧ (r.strict → st.1.hash p = none)) →
      PicksOne cfg r ex out st (takeFirstPage s ps) := by
  intro ps
  induction ps with
  | nil => exact fun _ => .raise fun _ hs => hs ▸ h
  | cons p ps ih =>
    intro hps
    refine .bind_get (.bind_check (fun _ => .ite (fun _ => ?_) fun _ => ?_)
      fun _ => h)
    · exact ih fun q hq => hps q (mem_cons_of_mem _ hq)
    · obtain ⟨rfl, hhash⟩ := hps p mem_cons_self
      exact h.pick hpin hheld hhash

theorem kvTakePageEvictingExpert_sound (hs : Held cfg st.2 s)
    (hpin : st.2.anyLayerPinsSuperBlock cfg s = false) :
    PicksOne cfg r ex out st (kvTakePageEvictingExpert cfg s) := by
  have hnp := not_pinned_of_any hpin
  refine .bind (Q := fun _ st' => st'.1 = st.1 ∧ Dropped st.2 st'.2 s
    (cfg.layerIds.filter fun l => l ∈ (st.2.superBlockHolder.get? s).getD ∅)) ?_ fun _ => ?_
  · refine .zoom (A := fun _ m => m = st.2) (fun _ _ => broadcast_spec hnp) ?_ ?_ ?_
    · rintro _ rfl
      rfl
    · rintro _ _ m rfl hd
      exact ⟨rfl, hd⟩
    · exact fun _ _ _ _ hf => hf.elim
  · refine .of_forall fun ⟨p₁, m₁⟩ ⟨hst, hd⟩ => ?_
    obtain rfl : p₁ = st.1 := hst
    obtain ⟨h₁, hheld, hpins⟩ := h.dropped hnp hd
    refine (takeFirstPage_sound h₁ ((hpins.any_eq s).trans hpin)
      (fun _ hc => ((hheld s).mp hc).2 rfl) (cfg.pagesOf s) fun p hp => ?_).mapOk
        fun c st' ⟨h', hc⟩ => ⟨h', hc.mem, hc.free, hc.refs, hpins.trans hc.pins,
        (hpins.any_eq _).symm.trans hc.unpinned, fun s' hs' => ((hheld s').mp (hc.held s' hs')).1,
        hc.unheld⟩
    have hps := mem_pagesOf.mp hp
    exact ⟨hps, fun hstrict => ((h.inv hstrict).core.held_pages p (hps ▸ hs)).2⟩

end

theorem isTrulyFree_iff (h : Core cfg st) :
    isTrulyFree cfg st b = true ↔ st.1.hash b = none ∧
      ¬ Held cfg st.2 (cfg.superBlockOfPage b) ∧
      st.2.anyLayerPinsSuperBlock cfg (cfg.superBlockOfPage b) = false := by
  simp only [isTrulyFree, Bool.and_eq_true, Option.isNone_iff_eq_none, Bool.not_eq_true',
    ← Bool.not_eq_true, h.isHeld_iff, and_assoc]

theorem pickOneKvVictim_sound (h : Sound cfg r ex out st) :
    PicksOne cfg r ex out st (pickOneKvVictim cfg) := by
  refine .bind_get ?_
  split
  · next b hb =>
    have hfree := find?_some hb
    have hiff : r.strict → _ := fun hs => (isTrulyFree_iff (h.inv hs).core).mp hfree
    simp only [isTrulyFree, Bool.and_eq_true, Bool.not_eq_true'] at hfree
    exact h.pick hfree.2 (fun hs => (hiff hs).2.1) fun hs => (hiff hs).1
  · -- either the coldest expert's super-block or the coldest cached page
    have hexpert : ∀ s step, st.2.oldestGlobalExpert cfg = some (s, step) →
        PicksOne cfg r ex out st (kvTakePageEvictingExpert cfg s) := fun s step hs =>
      have hspec := oldestGlobalExpert_spec hs
      kvTakePageEvictingExpert_sound h (h.tables.layers.core.holder_key hspec.1) hspec.2
    have hpage : ∀ b step, st.2.oldestPrefixPage cfg = some (b, step) →
        PicksOne cfg r ex out st (kvTakePrefixPage b) := fun b step hb =>
      kvTakePrefixPage_sound h (mem_map.mpr ⟨_, mem_of_find?_eq_some hb, rfl⟩)
        (by simpa using find?_some hb)
    split
    · next s es b ps he hp => exact .ite (fun _ => hexpert s es he) fun _ => hpage b ps hp
    · next s es he _ => exact hexpert s es he
    · next b ps _ hp => exact hpage b ps hp
    · exact .raise fun _ hs => hs ▸ h

/-! ## Allocation -/

structure Selected (cfg : PoolConfig) (strict : Prop) (st st' : UnifiedState K) (ret : List Nat) :
    Prop where
  nodup : ret.Nodup
  mem : ∀ b ∈ ret, b ∈ st.1.free
  free : ∀ b, b ∈ st'.1.free ↔ b ∈ st.1.free ∧ b ∉ ret
  refs : ∀ b, st'.1.refCnt b = st.1.refCnt b
  pins : SamePins st.2 st'.2
  unpinned : ∀ b ∈ ret, st.2.anyLayerPinsSuperBlock cfg (cfg.superBlockOfPage b) = false
  held : ∀ s, Held cfg st'.2 s → Held cfg st.2 s
  unheld : strict → ∀ b ∈ ret, ¬ Held cfg st'.2 (cfg.superBlockOfPage b)

theorem selectKvVictimBlocks_sound (n : Nat) {out : Nat → Prop} {st : UnifiedState K}
    (h : Sound cfg r ex out st) :
    Triple (· = st) (selectKvVictimBlocks cfg n)
      (fun ret st' => Sound cfg r ex (fun b => out b ∨ b ∈ ret) st' ∧
        Selected cfg r.strict st st' ret)
      (fun _ st' => Sound cfg r ex (fun _ => True) st') := by
  induction n generalizing out st with
  | zero =>
    refine .pure [] fun s hs => ?_
    subst hs
    exact ⟨h.mono_out fun _ => .inl, nodup_nil, by simp, by simp, fun _ => rfl,
      fun _ => rfl, by simp, fun _ hh => hh, by simp⟩
  | succ n ih =>
    refine .bind ((pickOneKvVictim_sound h).mapError
      fun _ _ hs => hs.mono_out fun _ _ => trivial) fun b => ?_
    refine .of_forall fun st₁ ⟨h₁, hb⟩ => ?_
    refine .bind (ih h₁) fun ret => .pure _ fun st₂ ⟨h₂, hsel⟩ => ?_
    have hfree₁ : ∀ c, c ∈ st₁.1.free ↔ c ≠ b ∧ c ∈ st.1.free := fun c => by
      rw [hb.free]
      exact h.pool.free_nodup.mem_erase_iff
    have hbret : b ∉ ret := fun hc => ((hfree₁ b).mp (hsel.mem b hc)).1 rfl
    refine ⟨h₂.mono_out fun c hc => ?_, nodup_cons.mpr ⟨hbret, hsel.nodup⟩, ?_, ?_,
      fun c => (hsel.refs c).trans (hb.refs c), hb.pins.trans hsel.pins, ?_,
      fun s hs => hb.held s (hsel.held s hs), fun hstrict => ?_⟩
    · rcases hc with (hc | hc) | hc
      · exact .inl hc
      · exact .inr (by simp [hc])
      · exact .inr (by simp [hc])
    · intro c hc
      rcases mem_cons.mp hc with rfl | hc
      · exact hb.mem
      · exact ((hfree₁ c).mp (hsel.mem c hc)).2
    · intro c
      rw [hsel.free, hfree₁, mem_cons]
      tauto
    · intro c hc
      rcases mem_cons.mp hc with rfl | hc
      · exact hb.unpinned
      · exact (hb.pins.any_eq _).symm.trans (hsel.unpinned c hc)
    · intro c hc
      rcases mem_cons.mp hc with rfl | hc
      · exact fun hh => hb.unheld hstrict (hsel.held _ hh)
      · exact hsel.unheld hstrict c hc

structure Taken (cfg : PoolConfig) (strict : Prop) (st : UnifiedState K) (b : Nat) : Prop where
  not_free : b ∉ st.1.free
  ref : st.1.refCnt b = 0
  unheld : strict → ¬ Held cfg st.2 (cfg.superBlockOfPage b)

theorem Selected.taken {strict : Prop} {st' : UnifiedState K} {ret : List Nat} (hpool : st.1.Inv)
    (h : Selected cfg strict st st' ret) (hb : b ∈ ret) : Taken cfg strict st' b :=
  ⟨fun hf => ((h.free b).mp hf).2 hb, (h.refs b).trans (hpool.free_spec b (h.mem b hb)).2.1,
    fun hs => h.unheld hs b hb⟩

theorem held_congr {m' : UnifiedPoolManager} (h : m'.layer = m.layer) (s : Nat) :
    Held cfg m' s ↔ Held cfg m s := by simp [Held, Maps, h]

theorem Sound.maybeEvict (h : Sound cfg r ex out st) (b : Nat) :
    ∃ c st', maybeEvictCachedBlock (hooks cfg) b st = (.ok c, st') ∧
      Sound cfg r ex out st' ∧ (∀ c, st'.1.refCnt c = st.1.refCnt c) ∧ st'.1.free = st.1.free ∧
      st'.2.layer = st.2.layer ∧ st'.1.numGpuBlocks = st.1.numGpuBlocks ∧
      (∀ c, st'.1.hash c = if c = b then none else st.1.hash c) := by
  rw [maybeEvict_eq h.pool]
  cases hb : st.1.hash b with
  | none =>
    refine ⟨_, _, rfl, h, fun _ => rfl, rfl, rfl, rfl, fun c => ?_⟩
    by_cases hc : c = b <;> simp [hc, hb]
  | some key =>
    exact ⟨_, _, rfl, h.evict hb, by simp [unpublish], rfl, rfl, rfl,
      by simp [unpublish]⟩

theorem allocateOne_sound (h : Sound cfg r ex out st) (hb : Taken cfg r.strict st b) :
    Triple (· = st) (allocateOne (hooks cfg) b)
      (fun _ st' => Sound cfg r ex (fun c => out c ∧ c ≠ b) st' ∧ st'.2.layer = st.2.layer ∧
        ∀ c, c ≠ b → Taken cfg r.strict st c → Taken cfg r.strict st' c)
      (fun _ st' => Sound cfg r ex out st') := by
  refine .bind (Q := fun _ st' => Sound cfg r ex out st' ∧ st'.2.layer = st.2.layer ∧
    ∀ c, Taken cfg r.strict st c → Taken cfg r.strict st' c) ?_ fun _ =>
    .of_forall fun st₁ ⟨h₁, hlayer, htk⟩ => ?_
  · refine .bind_get (.ite (fun _ => ?_) fun _ => .pure () fun s hs => ?_)
    · obtain ⟨_, st', hrun, h', href, hfree, hlayer, -⟩ := h.maybeEvict b
      refine .bind_run hrun (.pure () fun s hs => ?_)
      rw [hs]
      exact ⟨h', hlayer, fun c hc => ⟨hfree ▸ hc.not_free, (href c).trans hc.ref,
        fun hstrict hh => hc.unheld hstrict ((held_congr hlayer _).mp hh)⟩⟩
    · rw [hs]
      exact ⟨h, rfl, fun _ hc => hc⟩
  · refine .bind_get (.bind_check (fun _ => ?_) fun _ => h₁)
    refine .modify fun s hs => ?_
    subst hs
    have htb := htk b hb
    refine ⟨h₁.setRefCnt htb.not_free htb.unheld fun _ => by rw [htb.ref]; decide, hlayer,
      fun c hc hct => ?_⟩
    exact ⟨(htk c hct).not_free, by simpa [hc] using (htk c hct).ref, (htk c hct).unheld⟩

/-- The callback finds no pin under the new blocks. -/
theorem onKvAllocation_sound {p : BlockPool K} {ids : List Nat} (h : Sound cfg r ex out (p, m))
    (hpin : ∀ b ∈ ids, m.anyLayerPinsSuperBlock cfg (cfg.superBlockOfPage b) = false) :
    Triple (fun m' => m' = m) (onKvAllocation cfg ids) (fun _ m' => Sound cfg r ex out (p, m'))
      (fun _ _ => False) := by
  refine (forEach_inv (I := fun m' => Sound cfg r ex out (p, m') ∧ SamePins m m') _
    fun s hs => of_forall fun m₁ ⟨h₁, hpins⟩ => ?_).weaken
    (fun m' hm => by rw [hm]; exact ⟨h, fun _ => rfl⟩) (fun _ _ hm => hm.1) fun _ _ hf => hf
  obtain ⟨b, hb, rfl⟩ := mem_map.mp (mem_eraseDups.mp hs)
  have hnp := not_pinned_of_any ((hpins.any_eq _).trans (hpin b hb))
  refine (broadcast_spec hnp).mapOk fun _ m' hd => ?_
  obtain ⟨h', -, hpins'⟩ := h₁.dropped hnp hd
  exact ⟨h', hpins.trans hpins'⟩

/-- One that raises after its first victim may leave blocks outside the queue. -/
theorem getNewBlocks_sound (n : Nat) :
    Triple (Sound cfg r ex out) (getNewBlocks (K := K) (hooks cfg) n)
      (fun _ => Sound cfg r ex out) (fun _ => Sound cfg r ex fun _ => True) := by
  have hany : ∀ {out' : Nat → Prop} {s : UnifiedState K}, Sound cfg r ex out' s →
      Sound cfg r ex (fun _ => True) s := fun h => h.mono_out fun _ _ => trivial
  refine of_forall fun st h => bind_get (bind_check (fun _ => ?_)
    fun _ => hany h)
  refine bind (selectKvVictimBlocks_sound n h) fun ret => ?_
  refine of_forall fun st₁ ⟨h₁, hsel⟩ => ?_
  -- blocks still to come are taken, and only they are missing from the queue
  have hloop : Triple (· = st₁) (Call.forEach ret (allocateOne (hooks cfg)))
      (fun _ s => Sound cfg r ex out s ∧ s.2.layer = st₁.2.layer)
      (fun _ => Sound cfg r ex fun _ => True) := by
    refine (forEach (I := fun _ todo s =>
      Sound cfg r ex (fun b => out b ∨ b ∈ todo) s ∧ (∀ b ∈ todo, Taken cfg r.strict s b) ∧
        s.2.layer = st₁.2.layer) [] ret
      fun pre b post he => of_forall fun s ⟨hs, htk, hlayer⟩ => ?_).weaken
        (fun s hs => by rw [hs]; exact ⟨h₁, fun b hb => hsel.taken h.pool hb, rfl⟩)
        (fun _ s ⟨hs, _, hlayer⟩ => ⟨hs.mono_out (by simp), hlayer⟩) fun _ _ hs => hs
    have hnd : (pre ++ b :: post).Nodup := he ▸ hsel.nodup
    have hpost : ∀ c ∈ post, c ≠ b := fun c hc e =>
      (nodup_cons.mp (nodup_append.mp hnd).2.1).1 (e ▸ hc)
    refine (allocateOne_sound hs (htk b mem_cons_self)).post
      (fun _ s' ⟨hs', hl, htk'⟩ => ⟨hs'.mono_out fun c ⟨hc, hne⟩ => ?_, fun c hc => ?_,
        hl.trans hlayer⟩) fun _ _ hs => hany hs
    · simpa [hne] using hc
    · exact htk' c (hpost c hc) (htk c (mem_cons_of_mem _ hc))
  refine bind hloop fun _ => of_forall fun st₂ ⟨h₂, hlayer⟩ => ?_
  refine bind (Q := fun _ => Sound cfg r ex out) ?_ fun _ => skip
  have hpins := hsel.pins.trans (SamePins.of_layer hlayer)
  have hcall := onKvAllocation_sound h₂ fun b hb => (hpins.any_eq _).trans (hsel.unpinned b hb)
  exact zoom (A := fun s m => s = st₂ ∧ m = st₂.2)
    (B := fun s _ m => s = st₂ ∧ Sound cfg r ex out (st₂.1, m)) (C := fun _ _ _ => False)
    (fun s hs => hcall.weaken (fun m hm => hm.2) (fun _ m hm => ⟨hs, hm⟩) fun _ _ hf => hf)
    (fun s hs => ⟨hs, hs ▸ rfl⟩) (fun s _ m _ hm => hm.1 ▸ hm.2) fun _ _ _ _ hf => hf.elim

/-! ## Touching and freeing -/

/-- The null block, a cached page or a live page: what a prefix-cache hit consists of. -/
def Touchable (p : BlockPool K) (b : Nat) : Prop := b = 0 ∨ p.hash b ≠ none ∨ 0 < p.refCnt b

theorem Core.zero_not_held (h : Core cfg st) : ¬ Held cfg st.2 (cfg.superBlockOfPage 0) := by
  intro hh
  have := (h.held_range _ hh).1
  simp [PoolConfig.superBlockOfPage] at this

theorem Core.touchable_not_held (h : Core cfg st) (hb : Touchable st.1 b) :
    ¬ Held cfg st.2 (cfg.superBlockOfPage b) := by
  rcases hb with rfl | hb | hb
  · exact h.zero_not_held
  · exact h.hash_not_held hb
  · exact h.ref_pos_not_held hb

section
variable (h : Sound cfg r ex out st) (hb : r.strict → Touchable st.1 b)
include h hb

theorem leaveFree_sound :
    Triple (· = st) (leaveFree (hooks cfg) b)
      (fun _ st' => Sound cfg r ex (fun c => out c ∨ c = b) st' ∧ b ∉ st'.1.free ∧
        st'.2.layer = st.2.layer ∧
        (∀ c, st'.1.refCnt c = st.1.refCnt c) ∧ ∀ c, st'.1.hash c = st.1.hash c)
      (fun _ => Sound cfg r ex out) := by
  refine .bind_get (.ite (fun hc => ?_) fun hc => ?_)
  · by_cases hf : b ∈ st.1.free
    · refine .bind_run (if_pos hf) ?_
      have hgone : b ∉ st.1.free.erase b := fun hc => (h.pool.free_nodup.mem_erase_iff.mp hc).1 rfl
      refine .ite (fun _ => .of_run ?_ rfl) fun hn => .of_run ?_ rfl
      · exact ⟨h.dequeue hf (h.tables.recency.erase b) fun _ p => mem_keys_erase, hgone, rfl,
          fun _ => rfl, fun _ => rfl⟩
      · -- a strict run touches a free page only if it is cached
        refine ⟨h.dequeue hf h.tables.recency fun hs => ?_, hgone, rfl, fun _ => rfl, fun _ => rfl⟩
        have h0 : b ≠ 0 := h.pool.isNull_eq_false_iff.mp hc.2
        rcases hb hs with hb | hb | hb
        · exact absurd hb h0
        · exact absurd (Option.isSome_iff_ne_none.mpr hb) hn
        · exact absurd hc.1 hb.ne'
    · exact .bind_error (if_neg hf) h
  · refine .pure () fun s hs => ?_
    subst hs
    refine ⟨h.mono_out fun _ => .inl, fun hf => ?_, rfl, fun _ => rfl, fun _ => rfl⟩
    have hspec := h.pool.free_spec b hf
    exact hc ⟨hspec.2.1, h.pool.isNull_eq_false_iff.mpr hspec.2.2⟩

theorem touchOne_sound :
    Triple (· = st) (touchOne (hooks cfg) b)
      (fun _ st' => Sound cfg r ex out st' ∧ ∀ c, Touchable st.1 c → Touchable st'.1 c)
      (fun _ => Sound cfg r ex out) := by
  refine .bind (leaveFree_sound h hb) fun _ => .modify fun st' hst' => ?_
  obtain ⟨h', hfree, hlayer, href, hhash⟩ := hst'
  have hun : r.strict → ¬ Held cfg st'.2 (cfg.superBlockOfPage b) := fun hs hh =>
    (h.inv hs).core.touchable_not_held (hb hs) ((held_congr hlayer _).mp hh)
  have hnn : b ≠ 0 → 0 < st'.1.refCnt b + 1 := fun h0 =>
    Int.lt_add_one_of_le (h'.pool.ref_nonneg b h0)
  refine ⟨(h'.setRefCnt hfree hun hnn).mono_out fun c hc => hc.1.resolve_right hc.2,
    fun c hc => ?_⟩
  rcases hc with hc | hc | hc
  · exact .inl hc
  · exact .inr (.inl (by simpa [hhash] using hc))
  · refine .inr (.inr ?_)
    simp only [refCnt_setRefCnt, href]
    split
    · next hcb =>
      subst hcb
      omega
    · exact hc

end

theorem touch_sound :
    Triple (fun st => Sound cfg r ex out st ∧ (r.strict → ∀ b ∈ bs, Touchable st.1 b))
      (touch (K := K) (hooks cfg) bs)
      (fun _ => Sound cfg r ex out) (fun _ => Sound cfg r ex out) := by
  refine (forEach_inv bs fun b hb => of_forall fun st ⟨h, htch⟩ => ?_).mapOk
    fun _ _ hs => hs.1
  exact (touchOne_sound h fun hs => htch hs b hb).mapOk
    fun _ st' h' => ⟨h'.1, fun hs c hc => h'.2 c (htch hs c hc)⟩

theorem foldl_onPrefixAdded {n : Nat} (cached : Nat → Bool) (bs : List Nat)
    (h : Recency n m.step m.prefixLru) (hbs : ∀ b ∈ bs, b < n ∧ b ≠ 0) :
    ∃ lru', bs.foldl (fun m b => if cached b then onPrefixAdded b m else m) m =
        { m with prefixLru := lru' } ∧ Recency n m.step lru' ∧
      ∀ b, b ∈ lru'.keys ↔ b ∈ m.prefixLru.keys ∨ b ∈ bs ∧ cached b = true := by
  induction bs generalizing m with
  | nil => exact ⟨m.prefixLru, rfl, h, by simp⟩
  | cons b bs ih =>
    have hrest : ∀ c ∈ bs, c < n ∧ c ≠ 0 := fun c hc => hbs c (mem_cons_of_mem _ hc)
    rw [foldl_cons]
    by_cases hb : cached b = true
    · rw [if_pos hb]
      have hadd : Recency n (onPrefixAdded b m).step (onPrefixAdded b m).prefixLru :=
        h.setLast (hbs b mem_cons_self)
      obtain ⟨lru', he, hrec, hmem⟩ := ih hadd hrest
      refine ⟨lru', he, hrec, fun c => ?_⟩
      rw [hmem, onPrefixAdded, mem_keys_setLast, mem_cons]
      constructor
      · rintro ((rfl | hc) | hc)
        · exact .inr ⟨.inl rfl, hb⟩
        · exact .inl hc
        · exact .inr ⟨.inr hc.1, hc.2⟩
      · rintro (hc | ⟨rfl | hc, hcc⟩)
        · exact .inl (.inr hc)
        · exact .inl (.inl rfl)
        · exact .inr ⟨hc, hcc⟩
    · rw [if_neg hb]
      obtain ⟨lru', he, hrec, hmem⟩ := ih h hrest
      refine ⟨lru', he, hrec, fun c => ?_⟩
      rw [hmem, mem_cons]
      constructor
      · exact fun hc => hc.imp_right fun h' => ⟨.inr h'.1, h'.2⟩
      · rintro (hc | ⟨rfl | hc, hcc⟩)
        · exact .inl hc
        · exact absurd hcc hb
        · exact .inr ⟨hc, hcc⟩

theorem Inv.freed (h : Inv cfg ex out st) (hbs : st.1.Freeable bs) {L : Dict Nat Nat}
    (hmem : ∀ b, b ∈ L.keys ↔ b ∈ st.2.prefixLru.keys ∨ b ∈ st.1.newlyFreed bs ∧ ((st.1.freed bs).hash b).isSome = true)
    :
    Inv cfg ex out (st.1.freed bs, { st.2 with prefixLru := L }) := by
  have hpool := h.core.pool
  have hnum : (st.1.freed bs).numGpuBlocks = st.1.numGpuBlocks :=
    (foldl_decRefCnt_frame st.1 bs).2.2.2.1
  refine h.update_pool (hpool.freed hbs) hnum (fun p hp => ?_) (fun p => ?_)
    (fun p hp => st.1.hash_freed bs p ▸ hp) fun b hb h0 hr hn => ?_
  · have hpages := h.core.held_pages p hp
    have hnb : p ∉ bs := fun hc => by
      have h0 : p ≠ 0 := by
        rintro rfl
        exact h.core.zero_not_held hp
      have := (hbs.live p hc h0).2
      omega
    rw [refCnt_freed, hash_freed, count_eq_zero_of_not_mem hnb]
    exact ⟨by simpa using hpages.1, hpages.2⟩
  · rw [hmem, h.core.lru, free_freed, mem_append, hash_freed, Option.isSome_iff_ne_none]
    tauto
  · rw [free_freed, mem_append]
    rw [refCnt_freed] at hr
    by_cases hc : b ∈ bs
    · rw [hbs.once b hc h0] at hr
      exact .inr ((hpool.mem_newlyFreed hbs).mpr ⟨hc, h0, by omega⟩)
    · rw [count_eq_zero_of_not_mem hc] at hr
      exact .inl (h.complete b (hnum ▸ hb) h0 (by simpa using hr) hn)

theorem freeBlocks_sound :
    Triple (fun st => Sound cfg r ex out st ∧ st.1.Freeable bs)
      (freeBlocks (K := K) (hooks cfg) bs)
      (fun _ => Sound cfg r ex out) (fun _ _ => False) := by
  refine .of_forall fun st ⟨h, hbs⟩ => ?_
  have hframe := foldl_decRefCnt_frame st.1 bs
  obtain ⟨lru', hm, hrec, hmem⟩ := foldl_onPrefixAdded
    (fun b => ((st.1.freed bs).hash b).isSome) (st.1.newlyFreed bs) h.tables.recency fun b hb => by
      obtain ⟨hb, h0, -⟩ := (h.pool.mem_newlyFreed hbs).mp hb
      exact ⟨(hbs.live b hb h0).1, h0⟩
  refine .of_run (r := (.ok (), (st.1.freed bs, { st.2 with prefixLru := lru' }))) ?_ ?_
  · exact ⟨h.tables.update (h.pool.freed hbs) hframe.2.2.2.1 rfl rfl le_rfl hrec
      hframe.2.2.2.2.1 fun hq p => (st.1.hash_freed bs p).trans (hq p),
      fun hs => (h.inv hs).freed hbs hmem⟩
  · rw [← hm]
    exact freeBlocks_eq st.1 bs (hooks cfg) st.2

/-! ## Publishing, evicting and writing -/

def Recorded (cfg : PoolConfig) (m : UnifiedPoolManager) (b : Nat) : Prop :=
  ∀ l ∈ cfg.kvLayers, ∀ o, o / cfg.pageSizeBytes = b →
    m.poolBuffer l o = m.kvOf b l (o % cfg.pageSizeBytes)

theorem Inv.publish (h : Inv cfg ex out st) {key : K} (hb : st.1.hash b = none)
    (hlive : 0 < st.1.refCnt b) (hlt : b < st.1.numGpuBlocks) (h0 : b ≠ 0)
    (hrec : Recorded cfg st.2 b) : Inv cfg ex out (st.1.publish b key, st.2) := by
  have hhash : ∀ p, (st.1.publish b key).hash p = if p = b then some key else st.1.hash p := by
    simp [BlockPool.publish]
  have hfree : b ∉ st.1.free := fun hf => by
    have := (h.core.pool.free_spec b hf).2.1
    omega
  refine ⟨h.core.update_pool rfl rfl (h.core.pool.publish hb hlt h0) rfl (fun p hp => ?_)
    (fun p => ?_), h.pinned.congr rfl, ⟨h.content.experts, fun p hp => ?_⟩,
    by simpa [QueueComplete, BlockPool.publish] using h.complete⟩
  · have hpb : p ≠ b := fun e => h.core.ref_pos_not_held hlive (e ▸ hp)
    simpa [BlockPool.publish, hpb] using h.core.held_pages p hp
  · rw [h.core.lru, hhash]
    change _ ↔ p ∈ st.1.free ∧ _
    by_cases hpb : p = b
    · simp [hpb, hfree]
    · simp [hpb]
  · rw [hhash] at hp
    by_cases hpb : p = b
    · exact hpb ▸ hrec
    · exact h.content.kv p (by simpa [hpb] using hp)

theorem Sound.publish (h : Sound cfg r ex out st) {key : K} (hb : st.1.hash b = none)
    (hlive : 0 < st.1.refCnt b) (hlt : b < st.1.numGpuBlocks) (h0 : b ≠ 0) (hq : ¬ r.quiet)
    (hrec : r.strict → Recorded cfg st.2 b) : Sound cfg r ex out (st.1.publish b key, st.2) :=
  ⟨⟨h.pool.publish hb hlt h0, h.tables.layers, h.tables.recency, h.tables.stamps, h.tables.flag,
    fun hq' => absurd hq' hq⟩, fun hs => (h.inv hs).publish hb hlive hlt h0 (hrec hs)⟩

def Cacheable (p : BlockPool K) (b : Nat) : Prop :=
  b = 0 ∨ b < p.numGpuBlocks ∧ 0 < p.refCnt b

theorem cacheOne_sound (h : Sound cfg r ex out st) (hb : Cacheable st.1 b) (hq : ¬ r.quiet)
    (hrec : r.strict → st.1.hash b = none → Recorded cfg st.2 b) (key : Option K) :
    Triple (· = st) (cacheOne b key)
      (fun _ st' => Sound cfg r ex out st' ∧ st'.2 = st.2 ∧
        (∀ c, Cacheable st.1 c → Cacheable st'.1 c) ∧ ∀ c, st'.1.hash c = none → st.1.hash c = none)
      (fun _ => Sound cfg r ex out) := by
  refine .bind_get (.ite (fun _ => ?_) fun hn => ?_)
  · refine .pure () fun s hs => ?_
    subst hs
    exact ⟨h, rfl, fun _ hc => hc, fun _ hc => hc⟩
  · refine .bind_check (fun hnone => ?_) fun _ => h
    have hnone : st.1.hash b = none := by simpa using hnone
    have h0 : b ≠ 0 := h.pool.isNull_eq_false_iff.mp (by simpa using hn)
    obtain ⟨hlt, hlive⟩ := hb.resolve_left h0
    cases key with
    | none => exact .raise fun _ hs => hs ▸ h
    | some key =>
      refine .of_run ?_ rfl
      refine ⟨h.publish hnone hlive hlt h0 hq fun hs => hrec hs hnone, rfl, fun c hc => ?_,
        fun c hc => ?_⟩
      · simpa [Cacheable, BlockPool.publish] using hc
      · by_cases hcb : c = b
        · exact hcb ▸ hnone
        · simpa [BlockPool.publish, hcb] using hc

theorem cacheFullBlocks_sound {numBlockHashes numCached numFull : Nat} {keys : List K}
    {blocks : List Nat} (hq : ¬ r.quiet) :
    Triple (fun st => Sound cfg r ex out st ∧ ∀ b ∈ (blocks.take numFull).drop numCached,
        Cacheable st.1 b ∧ (r.strict → st.1.hash b = none → Recorded cfg st.2 b))
      (cacheFullBlocks numBlockHashes keys blocks numCached numFull)
      (fun _ => Sound cfg r ex out) (fun _ => Sound cfg r ex out) := by
  refine ite (fun _ => pure () fun _ hs => hs.1) fun _ => ?_
  refine of_forall fun st h => bind_check (fun _ => ?_) fun _ => h.1
  refine (forEach_inv (I := fun st => Sound cfg r ex out st ∧
    ∀ b ∈ (blocks.take numFull).drop numCached, Cacheable st.1 b ∧
      (r.strict → st.1.hash b = none → Recorded cfg st.2 b)) _ fun ⟨b, i⟩ hb => ?_).weaken
    (fun s hs => hs ▸ h) (fun _ _ hs => hs.1) fun _ _ hs => hs
  refine of_forall fun st₁ h₁ => ?_
  have hmem : b ∈ (blocks.take numFull).drop numCached := fst_mem_of_mem_zipIdx hb
  refine (cacheOne_sound h₁.1 (h₁.2 b hmem).1 hq (h₁.2 b hmem).2 _).mapOk
    fun _ st' ⟨h', hm, hc, hh⟩ => ⟨h', fun c hcm => ?_⟩
  exact ⟨hc c (h₁.2 c hcm).1, fun hs hn => hm ▸ (h₁.2 c hcm).2 hs (hh c hn)⟩

theorem evictPrefixHash_sound :
    Triple (Sound cfg r ex out) (evictPrefixHash (K := K) (hooks cfg) b)
      (fun _ => Sound cfg r ex out) (fun _ => Sound cfg r ex out) := by
  refine .of_forall fun st h => .bind_get (.bind_check (fun _ => ?_) fun _ => h)
  obtain ⟨_, st', hrun, h', -⟩ := h.maybeEvict b
  exact .of_run h' hrun

theorem evictBlocks_sound :
    Triple (Sound cfg r ex out) (evictBlocks (K := K) (hooks cfg) bs)
      (fun _ => Sound cfg r ex out) (fun _ => Sound cfg r ex out) := by
  refine .forEach_inv bs fun b _ => .of_forall fun st h =>
    .bind_get (.bind_check (fun _ => ?_) fun _ => h)
  obtain ⟨_, st', hrun, h', -⟩ := h.maybeEvict b
  exact .bind_run hrun (.pure () fun _ hs => hs ▸ h')

omit [DecidableEq K] in
theorem resetPrefixCache_eq :
    resetPrefixCache st =
      if (st.1.numGpuBlocks : Int) - st.1.getNumFreeBlocks = 1 then
        (.ok true, (st.1.resetHashes, st.2)) else (.ok false, st) := by
  by_cases hr : (st.1.numGpuBlocks : Int) - st.1.getNumFreeBlocks = 1 <;>
  simp [resetPrefixCache, Call.run_bind, Call.get, hr, modifyPool, Call.modify]

theorem Inv.reset (h : Inv cfg ex out st) (hnone : ∀ p, st.1.hash p = none) :
    Inv cfg ex out (st.1.resetHashes, st.2) := by
  refine h.update_pool (L := st.2.prefixLru) h.core.pool.resetHashes rfl
    (fun p hp => ⟨(h.core.held_pages p hp).1, rfl⟩) (fun p => ?_) (fun p hp => absurd rfl hp)
    h.complete
  rw [h.core.lru, hnone]
  rfl

theorem resetPrefixCache_sound (h : Sound cfg r ex out st)
    (hnone : r.strict → (st.1.numGpuBlocks : Int) - st.1.getNumFreeBlocks = 1 →
      ∀ p, st.1.hash p = none) :
    Triple (· = st) (resetPrefixCache (K := K))
      (fun _ => Sound cfg r ex out) (fun _ _ => False) := by
  by_cases hr : (st.1.numGpuBlocks : Int) - st.1.getNumFreeBlocks = 1
  · refine .of_run (r := (.ok true, (st.1.resetHashes, st.2))) ?_
      (resetPrefixCache_eq.trans (if_pos hr))
    exact ⟨h.tables.update h.pool.resetHashes rfl rfl rfl le_rfl h.tables.recency rfl
      fun _ _ => rfl, fun hs => (h.inv hs).reset (hnone hs hr)⟩
  · exact .of_run (r := (.ok false, st)) h (resetPrefixCache_eq.trans (if_neg hr))

def pageBytes (cfg : PoolConfig) (m : UnifiedPoolManager) (b : Nat) : Nat → Nat → UInt8 :=
  fun l i => m.poolBuffer l (b * cfg.pageSizeBytes + i)

/-- The bytes of the pages of `bs` that get a hash now are what the hash stands for. -/
def record (cfg : PoolConfig) (bs : List Nat) (st : UnifiedState K) : UnifiedState K :=
  let kv := fun b => if b ∈ bs ∧ (st.1.hash b).isNone then pageBytes cfg st.2 b else st.2.kvOf b
  (st.1, { st.2 with kvOf := kv })

theorem Inv.record (h : Inv cfg ex out st) (bs : List Nat) :
    Inv cfg ex out (record cfg bs st) ∧
      ∀ b ∈ bs, st.1.hash b = none → Recorded cfg (Unified.record cfg bs st).2 b := by
  refine ⟨⟨h.core.update_pool rfl rfl h.core.pool rfl h.core.held_pages h.core.lru,
    h.pinned.congr rfl, ⟨h.content.experts, fun p hp l hl o ho => ?_⟩, h.complete⟩,
    fun b hb hn l hl o ho => ?_⟩
  · have hp' : ¬ (p ∈ bs ∧ (st.1.hash p).isNone = true) := fun hc =>
      hp (Option.isNone_iff_eq_none.mp hc.2)
    simp only [Unified.record, if_neg hp']
    exact h.content.kv p hp l hl o ho
  · subst ho
    simp only [Unified.record, hb, hn, Option.isNone_none, and_self, if_true, pageBytes]
    rw [Nat.div_add_mod']

theorem Sound.record (h : Sound cfg r ex out st) (bs : List Nat) :
    Sound cfg r ex out (Unified.record cfg bs st) :=
  ⟨h.tables.update h.pool rfl rfl rfl le_rfl h.tables.recency rfl fun hq => hq,
    fun hs => ((h.inv hs).record bs).1⟩

def kvWrite (cfg : PoolConfig) (p : Nat) (data : Nat → Nat → UInt8) (st : UnifiedState K) :
    UnifiedState K :=
  (st.1, { st.2 with
    poolBuffer := fun l o =>
      if l ∈ cfg.kvLayers ∧ o / cfg.pageSizeBytes = p then data l (o % cfg.pageSizeBytes)
      else st.2.poolBuffer l o
    kvOf := Function.update st.2.kvOf p data })

theorem Inv.kvWrite (h : Inv cfg ex out st) {p : Nat} (hp : 0 < st.1.refCnt p)
    (data : Nat → Nat → UInt8) : Inv cfg ex out (kvWrite cfg p data st) := by
  refine ⟨h.core.update_pool rfl rfl h.core.pool rfl h.core.held_pages h.core.lru,
    h.pinned.congr rfl, ⟨fun l hl s e he hex o ho => ?_, fun q hq l hl o ho => ?_⟩, h.complete⟩
  · have hne : ¬ (l ∈ cfg.kvLayers ∧ o / cfg.pageSizeBytes = p) := fun hc =>
      h.core.ref_pos_not_held hp ⟨l, hl, maps_iff.mpr ⟨e, by
        rw [← hc.2, ← slot_div, ho]
        exact he⟩⟩
    simp only [Unified.kvWrite, if_neg hne]
    exact h.content.experts l hl s e he hex o ho
  · by_cases hqp : q = p
    · subst hqp
      simp [Unified.kvWrite, hl, ho]
    · simp only [Unified.kvWrite, ho, hqp, and_false]
      rw [Function.update_of_ne hqp]
      exact h.content.kv q hq l hl o ho

theorem Sound.kvWrite (h : Sound cfg r ex out st) {p : Nat} (hp : 0 < st.1.refCnt p)
    (data : Nat → Nat → UInt8) : Sound cfg r ex out (Unified.kvWrite cfg p data st) :=
  ⟨h.tables.update h.pool rfl rfl rfl le_rfl h.tables.recency rfl fun hq => hq,
    fun hs => (h.inv hs).kvWrite hp data⟩

end Vllm.Unified
