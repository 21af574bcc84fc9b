import Vllm.Unified.Allocation

/-! What vacating a super-block costs. The cached pages of the super-block go, warmest first, to the
holes elsewhere and then to the places of colder pages; those left over are evicted. So as many
cached pages are lost as there are too few holes, and they are the coldest ones. -/

set_option linter.unusedSectionVars false

namespace Vllm.Unified
open Base Dict UnifiedPoolManager List

variable {K : Type} [DecidableEq K]
variable {cfg : PoolConfig} {st st₀ : UnifiedState K}

/-! ## Moves of cached pages -/

/-- The cached pages of `st` apart from `killed` are those of `st'`, each at its place under `dest`
and in its old position of the recency list. -/
structure Moved (st st' : UnifiedState K) (killed : List Nat) (dest : Nat → Nat) : Prop where
  kept : ∀ p, st.1.hash p ≠ none → p ∉ killed → st'.1.hash (dest p) = st.1.hash p
  only : ∀ q, st'.1.hash q ≠ none → ∃ p, st.1.hash p ≠ none ∧ p ∉ killed ∧ dest p = q
  inj : ∀ p q, st.1.hash p ≠ none → p ∉ killed → st.1.hash q ≠ none → q ∉ killed →
    dest p = dest q → p = q
  order : st'.2.prefixLru.entries =
    (st.2.prefixLru.entries.filter fun e => e.1 ∉ killed).map fun e => (dest e.1, e.2)

theorem Moved.refl (st : UnifiedState K) : Moved st st [] id :=
  ⟨fun _ _ _ => rfl, fun q hq => ⟨q, hq, by simp, rfl⟩, fun _ _ _ _ _ _ h => h, by simp⟩

variable {st₁ st₂ st' : UnifiedState K} {w dest : Nat → Nat} {p s : Nat} {ps killed : List Nat}
  {m : UnifiedPoolManager}

theorem Moved.trans {k₁ k₂ : List Nat} {d₁ d₂ : Nat → Nat} (h : Moved st st₁ k₁ d₁)
    (h' : Moved st₁ st₂ k₂ d₂) (hlru : ∀ p ∈ st.2.prefixLru.keys, st.1.hash p ≠ none)
    (hk : ∀ p, st.1.hash p ≠ none → p ∉ k₁ → (d₁ p ∈ k₂ ↔ p ∈ k₂)) :
    Moved st st₂ (k₁ ++ k₂) (d₂ ∘ d₁) := by
  have hstep : ∀ p, st.1.hash p ≠ none → p ∉ k₁ ++ k₂ →
      p ∉ k₁ ∧ st₁.1.hash (d₁ p) ≠ none ∧ d₁ p ∉ k₂ := fun p hp hn => by
    rw [mem_append, not_or] at hn
    exact ⟨hn.1, by rwa [h.kept p hp hn.1], fun hc => hn.2 ((hk p hp hn.1).mp hc)⟩
  refine ⟨fun p hp hn => ?_, fun q hq => ?_, fun p q hp hpn hq hqn he => ?_, ?_⟩
  · obtain ⟨h₁, h₂, h₃⟩ := hstep p hp hn
    exact (h'.kept _ h₂ h₃).trans (h.kept p hp h₁)
  · obtain ⟨p₁, hp₁, hn₁, rfl⟩ := h'.only q hq
    obtain ⟨p, hp, hn, rfl⟩ := h.only p₁ hp₁
    refine ⟨p, hp, ?_, rfl⟩
    rw [mem_append, not_or]
    exact ⟨hn, fun hc => hn₁ ((hk p hp hn).mpr hc)⟩
  · obtain ⟨hp₁, hp₂, hp₃⟩ := hstep p hp hpn
    obtain ⟨hq₁, hq₂, hq₃⟩ := hstep q hq hqn
    exact h.inj p q hp hp₁ hq hq₁ (h'.inj _ _ hp₂ hp₃ hq₂ hq₃ he)
  · rw [h'.order, h.order, filter_map, filter_filter, List.map_map]
    congr 1
    refine filter_congr fun e he => ?_
    have hp := hlru e.1 (mem_map.mpr ⟨e, he, rfl⟩)
    by_cases h₁ : e.1 ∈ k₁
    · simp [h₁]
    · simp [h₁, hk e.1 hp h₁]

theorem Moved.relocate {src dst : Nat} {step : Nat} (hsrc : st.1.hash src ≠ none)
    (hkey : src ∈ st.2.prefixLru.keys) (hdst : st.1.hash dst = none)
    (hlru : ∀ p ∈ st.2.prefixLru.keys, st.1.hash p ≠ none)
    (hhash : ∀ p, st'.1.hash p = if p = dst then st.1.hash src else if p = src then none else st.1.hash p)
    (hren : st'.2.prefixLru = st.2.prefixLru.rename src dst step) :
    Moved st st' [] fun q => if q = src then dst else q := by
  have hne : src ≠ dst := fun e => hsrc (e ▸ hdst)
  have hcached : ∀ p, st.1.hash p ≠ none → p ≠ dst := fun p hp e => hp (e ▸ hdst)
  refine ⟨fun p hp _ => ?_, fun q hq => ?_, fun p q hp _ hq _ he => ?_, ?_⟩
  · by_cases hps : p = src
    · simp [hhash, hps]
    · simp [hhash, hps, hcached p hp]
  · by_cases hqd : q = dst
    · exact ⟨src, hsrc, by simp, by simp [hqd]⟩
    · have hqs : q ≠ src := fun e => hq (by simp [hhash, e, hne])
      exact ⟨q, by simpa [hhash, hqd, hqs] using hq, by simp, by simp [hqs]⟩
  · split at he <;> split at he
    · next h₁ h₂ => rw [h₁, h₂]
    · exact absurd he.symm (hcached q hq)
    · exact absurd he (hcached p hp)
    · exact he
  · rw [hren, entries_rename_of_mem hkey hne]
    have hfilter : st.2.prefixLru.entries.filter (fun e => e.1 ≠ dst) =
        st.2.prefixLru.entries.filter fun e => e.1 ∉ ([] : List Nat) := by
      refine filter_congr fun e he => ?_
      have := hcached e.1 (hlru e.1 (mem_map.mpr ⟨e, he, rfl⟩))
      simp [this]
    rw [hfilter]
    refine map_congr_left fun e _ => ?_
    split <;> rfl

theorem Moved.evict {b : Nat} (hhash : ∀ p, st'.1.hash p = if p = b then none else st.1.hash p)
    (hlru : st'.2.prefixLru = st.2.prefixLru.erase b) : Moved st st' [b] id := by
  refine ⟨fun p _ hn => ?_, fun q hq => ?_, fun _ _ _ _ _ _ he => he, ?_⟩
  · have hpb : p ≠ b := by simpa using hn
    simp [hhash, hpb]
  · have hqb : q ≠ b := fun e => hq (by simp [hhash, e])
    exact ⟨q, by simpa [hhash, hqb] using hq, by simpa using hqb, rfl⟩
  · rw [hlru]
    simp [Dict.erase]

/-! ## The loop -/

/-- What the loop over the pages `ps`, warmest first, knows of the stamps `w`: `cold` and `rest` are
the pages it may displace, coldest first, and `rest` those beyond the limit it looks at. -/
structure Ranked (w : Nat → Nat) (st : UnifiedState K) (ps : List Nat)
    (cold rest : List (Nat × Nat)) : Prop where
  stamps : ∀ p ∈ ps, st.2.prefixLru.get? p = some (w p)
  warmest : ps.Pairwise fun p q => w q ≤ w p
  cold_stamps : ∀ c ∈ cold ++ rest, w c.1 = c.2
  coldest : (cold ++ rest).Pairwise fun a b => a.2 ≤ b.2
  enough : ps.length ≤ cold.length ∨ rest = []

structure Settled (w : Nat → Nat) (ps holes : List Nat) (cold rest : List (Nat × Nat))
    (st st' : UnifiedState K) (killed : List Nat) (dest : Nat → Nat) : Prop where
  moved : Moved st st' killed dest
  nodup : killed.Nodup
  count : killed.length = ps.length - holes.length
  source : ∀ k ∈ killed, k ∈ ps ∨ k ∈ cold.map Prod.fst
  still : ∀ q, q ∉ ps → dest q = q
  below : ∀ k ∈ killed, ∃ p ∈ ps, w k ≤ w p
  /-- A page that survives without a hole displaced another one. -/
  paid : holes = [] → ∀ q ∈ ps, q ∉ killed → ∃ c ∈ cold, c.2 ≤ w q
  colder : ∀ k ∈ killed, ∀ q, q ∈ ps ∨ q ∈ (cold ++ rest).map Prod.fst → q ∉ killed → w k ≤ w q

/-- The pages of a turn that evicts `p` itself: nothing is left to consume, so every later page is
evicted too. -/
theorem Settled.giveUp {cold rest : List (Nat × Nat)}
    (h : Settled w ps [] [] [] st₁ st₂ killed dest) (hm : Moved st st₁ [p] id)
    (hlru : ∀ q ∈ st.2.prefixLru.keys, st.1.hash q ≠ none) (hp : p ∉ ps)
    (hwarm : ∀ q ∈ ps, w q ≤ w p) (hcold : ∀ c ∈ cold ++ rest, w p ≤ w c.1) :
    Settled w (p :: ps) [] cold rest st st₂ (p :: killed) dest := by
  have hsource : ∀ k ∈ killed, k ∈ ps := fun k hk => (h.source k hk).resolve_right (by simp)
  have hwarm' : ∀ k ∈ p :: killed, w k ≤ w p := fun k hk => by
    rcases mem_cons.mp hk with rfl | hk
    · exact le_rfl
    · exact hwarm k (hsource k hk)
  have hall : ∀ q ∈ ps, q ∈ killed := fun q hq => by
    by_contra hn
    obtain ⟨c, hc, -⟩ := h.paid rfl q hq hn
    cases hc
  have hsurvive : ∀ q ∈ p :: ps, q ∈ p :: killed := fun q hq => by
    rcases mem_cons.mp hq with rfl | hq
    · exact mem_cons_self
    · exact mem_cons_of_mem _ (hall q hq)
  refine ⟨hm.trans h.moved hlru fun _ _ _ => Iff.rfl, nodup_cons.mpr ⟨fun hc => hp (hsource p hc),
    h.nodup⟩, ?_, fun k hk => ?_, fun q hq => ?_, fun k hk => ⟨p, mem_cons_self, hwarm' k hk⟩,
    fun _ q hq hn => absurd (hsurvive q hq) hn, fun k hk q hq hn => ?_⟩
  · have := h.count
    simp only [length_cons, length_nil] at this ⊢
    omega
  · rcases mem_cons.mp hk with rfl | hk
    · exact .inl mem_cons_self
    · exact .inl (mem_cons_of_mem _ (hsource k hk))
  · exact h.still q fun hc => hq (mem_cons_of_mem _ hc)
  · rcases hq with hq | hq
    · exact absurd (hsurvive q hq) hn
    · obtain ⟨c, hc, rfl⟩ := mem_map.mp hq
      exact (hwarm' k hk).trans (hcold c hc)

theorem Settled.move {b : Nat} {holes holes' : List Nat} {cold cold' rest : List (Nat × Nat)}
    (h : Settled w ps holes' cold' rest st₁ st₂ killed dest) {victims : List Nat}
    (hm : Moved st st₁ victims fun q => if q = p then b else q)
    (hlru : ∀ q ∈ st.2.prefixLru.keys, st.1.hash q ≠ none) (hp : p ∉ ps) (hbps : b ∉ ps)
    (hb : b ∉ cold'.map Prod.fst) (hpc : p ∉ cold'.map Prod.fst) (hwarm : ∀ q ∈ ps, w q ≤ w p)
    (hvn : victims.Nodup) (hvk : ∀ v ∈ victims, v ∉ killed)
    (hcount : victims.length + (ps.length - holes'.length) = (p :: ps).length - holes.length)
    (hvc : ∀ v ∈ victims, v ∈ cold.map Prod.fst) (hsub : ∀ c ∈ cold', c ∈ cold)
    (hvp : ∀ v ∈ victims, w v ≤ w p) (hpaid : holes = [] → holes' = [] ∧ ∃ c ∈ cold, c.2 ≤ w p)
    (hfrom : ∀ q ∈ (cold ++ rest).map Prod.fst, q ∈ victims ∨ q ∈ (cold' ++ rest).map Prod.fst)
    (hvcold : ∀ v ∈ victims, ∀ q, q ∈ ps ∨ q ∈ (cold' ++ rest).map Prod.fst → q ∉ killed → w v ≤ w q)
    :
    Settled w (p :: ps) holes cold rest st st₂ (victims ++ killed)
      (dest ∘ fun q => if q = p then b else q) := by
  have hk : ∀ k ∈ killed, k ≠ b ∧ k ≠ p := fun k hk => by
    rcases h.source k hk with hk | hk
    · exact ⟨fun e => hbps (e ▸ hk), fun e => hp (e ▸ hk)⟩
    · exact ⟨fun e => hb (e ▸ hk), fun e => hpc (e ▸ hk)⟩
  refine ⟨hm.trans h.moved hlru fun q _ _ => ?_, nodup_append.mpr ⟨hvn, h.nodup, fun v hv k hk' e =>
    hvk v hv (e ▸ hk')⟩, ?_, fun k hk' => ?_, fun q hq => ?_, fun k hk' => ?_, fun hholes q hq hn => ?_,
    fun k hk' q hq hn => ?_⟩
  · by_cases hqp : q = p
    · rw [if_pos hqp, hqp]
      exact ⟨fun hc => absurd rfl (hk b hc).1, fun hc => absurd rfl (hk p hc).2⟩
    · rw [if_neg hqp]
  · rw [length_append, h.count]
    exact hcount
  · rcases mem_append.mp hk' with hv | hk'
    · exact .inr (hvc k hv)
    · rcases h.source k hk' with hps | hc
      · exact .inl (mem_cons_of_mem _ hps)
      · obtain ⟨c, hmem, rfl⟩ := mem_map.mp hc
        exact .inr (mem_map.mpr ⟨c, hsub c hmem, rfl⟩)
  · have hqp : q ≠ p := fun e => hq (e ▸ mem_cons_self)
    simp only [Function.comp_apply, if_neg hqp]
    exact h.still q fun hc => hq (mem_cons_of_mem _ hc)
  · rcases mem_append.mp hk' with hv | hk'
    · exact ⟨p, mem_cons_self, hvp k hv⟩
    · obtain ⟨q, hq, hle⟩ := h.below k hk'
      exact ⟨q, mem_cons_of_mem _ hq, hle⟩
  · obtain ⟨hholes', c, hc, hle⟩ := hpaid hholes
    rw [mem_append, not_or] at hn
    rcases mem_cons.mp hq with rfl | hq
    · exact ⟨c, hc, hle⟩
    · obtain ⟨c', hc', hle'⟩ := h.paid hholes' q hq hn.2
      exact ⟨c', hsub c' hc', hle'⟩
  · rw [mem_append, not_or] at hn
    -- a page to compare with: `p`, or one that the rest of the loop compares with too
    have hq' : q = p ∨ q ∈ ps ∨ q ∈ (cold' ++ rest).map Prod.fst := by
      rcases hq with hq | hq
      · exact (mem_cons.mp hq).imp_right .inl
      · exact .inr (.inr ((hfrom q hq).resolve_left hn.1))
    rcases mem_append.mp hk' with hv | hk'
    · rcases hq' with rfl | hq'
      · exact hvp k hv
      · exact hvcold k hv q hq' hn.2
    · rcases hq' with rfl | hq'
      · obtain ⟨p', hp', hle⟩ := h.below k hk'
        exact hle.trans (hwarm p' hp')
      · exact h.colder k hk' q hq' hn.2

theorem warmth_of_get? {t : Nat} (h : m.prefixLru.get? p = some t) : m.warmth p = t := by
  simp [warmth, h]

variable {r : Regime} {ex : Nat → Nat → Prop} {out : Nat → Prop}

theorem relocateOrEvict_settled {A : Nat → Prop} (hstrict : r.strict) (ps holes : List Nat)
    (cold rest : List (Nat × Nat)) {st : UnifiedState K} (h : Sound cfg r ex out st)
    (hc : Clearing cfg r.strict A s st ps holes cold) (hr : Ranked w st ps cold rest) :
    Triple (· = st) (relocateOrEvict cfg ps holes cold)
      (fun _ st' => ∃ killed dest, Settled w ps holes cold rest st st' killed dest)
      (fun _ _ => True) := by
  induction ps generalizing holes cold rest st with
  | nil =>
    have hdone : Settled w [] holes cold rest st st [] id :=
      ⟨Moved.refl st, nodup_nil, by simp, by simp, fun _ _ => rfl, by simp, by simp, by simp⟩
    cases holes <;> cases cold <;> exact .of_run (by exact ⟨_, _, hdone⟩) rfl
  | cons p ps ih =>
    have hlisted : ∀ {st : UnifiedState K}, Sound cfg r ex out st →
        ∀ q ∈ st.2.prefixLru.keys, st.1.hash q ≠ none := fun h q hq =>
      (((h.inv hstrict).core.lru q).mp hq).2
    have hlru := hlisted h
    obtain ⟨hps, hph, hpr⟩ := hc.pages p mem_cons_self
    have hpps : p ∉ ps := (nodup_cons.mp hc.pages_nodup).1
    have hwarm : ∀ q ∈ ps, w q ≤ w p := (pairwise_cons.mp hr.warmest).1
    have hwarmest := (pairwise_cons.mp hr.warmest).2
    have hkey : p ∈ st.2.prefixLru.keys := mem_keys_of_get? (hr.stamps p mem_cons_self)
    have hstamps : ∀ {st₁ : UnifiedState K},
        (∀ q ∈ ps, st₁.2.prefixLru.get? q = st.2.prefixLru.get? q) →
        ∀ q ∈ ps, st₁.2.prefixLru.get? q = some (w q) := fun hget q hq =>
      (hget q hq).trans (hr.stamps q (mem_cons_of_mem _ hq))
    have hgiveUp : (∀ c ∈ cold ++ rest, w p ≤ w c.1) → Triple (· = st)
        (do evictPrefixGlobally cfg p; relocateOrEvict cfg ps [] [])
        (fun _ st' => ∃ killed dest, Settled w (p :: ps) [] cold rest st st' killed dest)
        (fun _ _ => True) := fun hcold => by
      obtain ⟨st₁, hrun, h₁, hstep, hhash, herase⟩ :=
        evictPrefixGlobally_sound A h (h.pool.hash_lt p hph).1
      have herase := herase hph
      have hget : ∀ q ∈ ps, st₁.2.prefixLru.get? q = st.2.prefixLru.get? q := fun q hq => by
        rw [herase, get?_erase_of_ne _ (hc.ne_of_mem hq)]
      refine .bind_run hrun ((ih [] [] [] h₁ (hc.giveUp hstep hhash)
        ⟨hstamps hget, hwarmest, by simp, by simp, .inr rfl⟩).post
          (fun _ st' ⟨killed, dest, hd⟩ => ?_) fun _ _ _ => trivial)
      exact ⟨p :: killed, dest, hd.giveUp (Moved.evict hhash herase) hlru hpps hwarm hcold⟩
    match holes, cold with
    | hole :: holes, cold =>
      obtain ⟨hlt, h0, -, hA, hhole⟩ := hc.targets hole (by simp)
      have hnone := hc.hashless hole mem_cons_self
      have hne : ∀ q ∈ p :: ps, q ≠ hole := fun q hq => hc.target_ne (by simp) hq
      have hhc : hole ∉ cold.map Prod.fst := fun hm => hc.cached hstrict hole hm hnone
      have hpc : p ∉ cold.map Prod.fst := fun hm =>
        hc.target_ne (mem_append_right _ hm) mem_cons_self rfl
      refine .bind ((relocateKvPage_sound h hph hpr hnone ⟨hlt, h0⟩ hhole hA).mapError
        fun _ _ _ => trivial)
        fun _ => .of_forall fun st₁ ⟨h₁, hstep, hhash, hren⟩ => ?_
      have hget : ∀ q ∈ ps, st₁.2.prefixLru.get? q = st.2.prefixLru.get? q := fun q hq => by
        rw [hren, get?_rename_of_ne (hc.ne_of_mem hq) (hne q (mem_cons_of_mem _ hq))]
      refine (ih holes cold rest h₁ (hc.fill hstep hhash) ⟨hstamps hget, hwarmest, hr.cold_stamps,
        hr.coldest, hr.enough.imp_left fun hl => (Nat.le_succ _).trans hl⟩).post
          (fun _ st' ⟨killed, dest, hd⟩ => ⟨[] ++ killed,
          dest ∘ fun q => if q = p then hole else q, ?_⟩) fun _ _ _ => trivial
      refine hd.move (Moved.relocate hph hkey hnone hlru hhash hren) hlru hpps
        (fun hm => hne hole (mem_cons_of_mem _ hm) rfl) hhc hpc hwarm nodup_nil (by simp) ?_
        (by simp) (fun _ hm => hm) (by simp) (fun hn => by cases hn) (fun _ hq => .inr hq) (by simp)
      simp
    | [], [] =>
      refine hgiveUp fun c hmem => ?_
      have : rest = [] := hr.enough.resolve_left (by simp)
      simp [this] at hmem
    | [], (victim, victimStep) :: cold =>
      have hstamp : w victim = victimStep := hr.cold_stamps (victim, victimStep) (by simp)
      have hafter : ∀ c ∈ cold ++ rest, victimStep ≤ c.2 := (pairwise_cons.mp hr.coldest).1
      refine .bind_get (.ite (fun hlt => ?_) fun hge => hgiveUp fun c hmem => ?_)
      · rw [warmth_of_get? (hr.stamps p mem_cons_self)] at hlt
        have hlt : victimStep < w p := by exact_mod_cast hlt
        obtain ⟨hvlt, h0, -, hA, hhole⟩ := hc.targets victim (by simp)
        have hne : ∀ q ∈ p :: ps, q ≠ victim := fun q hq => hc.target_ne (by simp) hq
        have hpv := hne p mem_cons_self
        have hvps : victim ∉ ps := fun hm => hne victim (mem_cons_of_mem _ hm) rfl
        have hvc : victim ∉ cold.map Prod.fst := (nodup_cons.mp hc.cold_nodup).1
        have hpc : p ∉ cold.map Prod.fst := fun hm =>
          hc.target_ne (b := p) (mem_cons_of_mem _ hm) mem_cons_self rfl
        obtain ⟨st₁, hrun, h₁, hstep₁, hhash₁, herase⟩ := evictPrefixGlobally_sound A h hvlt
        have herase := herase (hc.cached hstrict victim (by simp))
        have hkey₁ : p ∈ st₁.2.prefixLru.keys := by
          rw [herase]
          exact mem_keys_erase.mpr ⟨hpv, hkey⟩
        have hph₁ : st₁.1.hash p ≠ none := by simpa [hhash₁, hpv] using hph
        have hnone : st₁.1.hash victim = none := by simp [hhash₁]
        refine .bind_run hrun (.bind ((relocateKvPage_sound h₁ hph₁
          ((hstep₁.refs p).trans hpr) hnone ⟨hstep₁.num ▸ hvlt, h0⟩ (fun hs =>
            ⟨hstep₁.free ▸ (hhole hs).1, fun hh => (hhole hs).2 ((held_congr hstep₁.layer _).mp hh)⟩)
          hA).mapError fun _ _ _ => trivial) fun _ =>
          .of_forall fun st₂ ⟨h₂, hstep₂, hhash₂, hren⟩ => ?_)
        have hget : ∀ q ∈ ps, st₂.2.prefixLru.get? q = st.2.prefixLru.get? q := fun q hq => by
          have hqv := hne q (mem_cons_of_mem _ hq)
          rw [hren, get?_rename_of_ne (hc.ne_of_mem hq) hqv, herase, get?_erase_of_ne _ hqv]
        have hhash : ∀ q, q ≠ victim → st₂.1.hash q = if q = p then none else st.1.hash q :=
          fun q hq => by rw [hhash₂, if_neg hq, hhash₁, if_neg hq]
        have hm : Moved st st₂ [victim] fun q => if q = p then victim else q :=
          (Moved.evict hhash₁ herase).trans
            (Moved.relocate hph₁ hkey₁ hnone (hlisted h₁) hhash₂ hren) hlru fun _ _ _ => by simp
        refine (ih [] cold rest h₂ (hc.displace (hstep₁.trans hstep₂) hhash) ⟨hstamps hget,
          hwarmest, fun c hmem => hr.cold_stamps c (mem_cons_of_mem _ hmem),
          (pairwise_cons.mp hr.coldest).2, hr.enough.imp_left fun hl => by simpa using hl⟩).post
            (fun _ st' ⟨killed, dest, hd⟩ => ⟨[victim] ++ killed,
            dest ∘ fun q => if q = p then victim else q, ?_⟩) fun _ _ _ => trivial
        refine hd.move hm hlru hpps hvps hvc hpc hwarm (nodup_singleton _)
          (fun v hvm hk => ?_) ?_ (by simp) (fun c hmem => mem_cons_of_mem _ hmem) ?_
          (fun _ => ⟨rfl, _, mem_cons_self, hlt.le⟩) (fun q hq => ?_) fun v hvm q hq hn => ?_
        · obtain rfl := mem_singleton.mp hvm
          exact (hd.source v hk).elim hvps hvc
        · simp only [length_cons, length_nil]
          omega
        · intro v hvm
          rw [mem_singleton.mp hvm, hstamp]
          exact hlt.le
        · simpa using hq
        · obtain rfl := mem_singleton.mp hvm
          rw [hstamp]
          rcases hq with hq | hq
          · -- a page that survives displaced a page no colder than this one
            obtain ⟨c, hmem, hle⟩ := hd.paid rfl q hq hn
            exact (hafter c (mem_append_left _ hmem)).trans hle
          · obtain ⟨c, hmem, rfl⟩ := mem_map.mp hq
            rw [hr.cold_stamps c (mem_cons_of_mem _ hmem)]
            exact hafter c hmem
      · rw [warmth_of_get? (hr.stamps p mem_cons_self)] at hge
        have hge : w p ≤ victimStep := by
          have : ¬ victimStep < w p := by exact_mod_cast hge
          omega
        rw [hr.cold_stamps c hmem]
        rcases mem_cons.mp hmem with rfl | hmem
        · exact hge
        · exact hge.trans (hafter c hmem)

/-! ## Vacating -/

def cachedPages (cfg : PoolConfig) (st : UnifiedState K) (s : Nat) : List Nat :=
  (cfg.pagesOf s).filter fun p => (st.1.hash p).isSome

def usableHoles (cfg : PoolConfig) (st : UnifiedState K) (s : Nat) : List Nat :=
  st.1.free.filter fun b =>
    isTrulyFree cfg st b && !st.1.isNull b && decide (cfg.superBlockOfPage b ≠ s)

/-- What vacating super-block `s` does, with relocation enabled: the pages `killed` are lost, any
other cached page `p` is afterwards at `dest p`. -/
structure Vacation (cfg : PoolConfig) (s : Nat) (st st' : UnifiedState K) (killed : List Nat)
    (dest : Nat → Nat) : Prop where
  cleared : ∀ p, cfg.superBlockOfPage p = s → st'.1.hash p = none
  nodup : killed.Nodup
  cached : ∀ p ∈ killed, st.1.hash p ≠ none ∧ p ∈ st.2.prefixLru.keys
  count : killed.length = (cachedPages cfg st s).length - (usableHoles cfg st s).length
  kept : ∀ p, st.1.hash p ≠ none → p ∉ killed →
    st'.1.hash (dest p) = st.1.hash p ∧ (cfg.superBlockOfPage p ≠ s → dest p = p)
  only : ∀ q, st'.1.hash q ≠ none → ∃ p, st.1.hash p ≠ none ∧ p ∉ killed ∧ dest p = q
  inj : ∀ p q, st.1.hash p ≠ none → p ∉ killed → st.1.hash q ≠ none → q ∉ killed →
    dest p = dest q → p = q
  coldest : ∀ k ∈ killed, ∀ q, q ∉ killed → cfg.superBlockOfPage q = s ∨
      st.2.anyLayerPinsSuperBlock cfg (cfg.superBlockOfPage q) = false →
    ∀ t t', st.2.prefixLru.get? k = some t → st.2.prefixLru.get? q = some t' → t ≤ t'
  order : st'.2.prefixLru.entries =
    (st.2.prefixLru.entries.filter fun e => e.1 ∉ killed).map fun e => (dest e.1, e.2)

def displaceable (cfg : PoolConfig) (m : UnifiedPoolManager) (s : Nat) : List (Nat × Nat) :=
  m.prefixLru.entries.filter fun (b, _) =>
    decide (cfg.superBlockOfPage b ≠ s) && !m.anyLayerPinsSuperBlock cfg (cfg.superBlockOfPage b)

def stamp (m : UnifiedPoolManager) (p : Nat) : Nat := (m.prefixLru.get? p).getD 0

theorem stamp_of_get? {t : Nat} (h : m.prefixLru.get? p = some t) : stamp m p = t := by
  simp [stamp, h]

theorem get?_of_mem_keys (hp : p ∈ m.prefixLru.keys) : m.prefixLru.get? p = some (stamp m p) := by
  obtain ⟨t, ht⟩ := exists_of_mem_keys hp
  rw [stamp_of_get? ht, ht]

theorem mem_displaceable {e : Nat × Nat} :
    e ∈ displaceable cfg m s ↔ e ∈ m.prefixLru.entries ∧ cfg.superBlockOfPage e.1 ≠ s ∧
      m.anyLayerPinsSuperBlock cfg (cfg.superBlockOfPage e.1) = false := by
  simp [displaceable]

theorem Inv.listed (h : Inv cfg ex (fun _ => False) st) (hs : Vacatable cfg st s) :
    ∀ p ∈ cachedPages cfg st s, p ∈ st.2.prefixLru.keys := by
  intro p hp
  obtain ⟨hps, hph⟩ := mem_cachedPages.mp hp
  obtain ⟨hlt, h0⟩ := h.core.pool.hash_lt p hph
  have hfree := h.complete p hlt h0 (hs.ref_eq_zero h.core.pool hps h0) id
  exact (h.core.lru p).mpr ⟨hfree, hph⟩

/-- The loop starts with the pages of `s` from the warmest on, and the others from the coldest on. -/
theorem ranked_start (ht : Tables cfg r.caching r.quiet st) {n : Nat}
    (hps : ∀ p ∈ ps, p ∈ st.2.prefixLru.keys) (hn : ps.length = n) :
    Ranked (stamp st.2) st (ps.insertionSort fun p q => st.2.warmth q ≤ st.2.warmth p)
      ((displaceable cfg st.2 s).take n) ((displaceable cfg st.2 s).drop n) := by
  set sorted := ps.insertionSort fun p q => st.2.warmth q ≤ st.2.warmth p
  have hperm : sorted.Perm ps := perm_insertionSort _ _
  have hget : ∀ p ∈ sorted, st.2.prefixLru.get? p = some (stamp st.2 p) := fun p hp =>
    get?_of_mem_keys (hps p (hperm.mem_iff.mp hp))
  refine ⟨hget, ?_, fun c hc => ?_, ?_, ?_⟩
  · have htotal : Std.Total fun p q => st.2.warmth q ≤ st.2.warmth p :=
      ⟨fun p q => le_total (st.2.warmth q) (st.2.warmth p)⟩
    have htrans : IsTrans Nat fun p q => st.2.warmth q ≤ st.2.warmth p :=
      ⟨fun _ _ _ hpq hqr => hqr.trans hpq⟩
    refine (pairwise_insertionSort _ _).imp_of_mem fun {p q} hp hq hle => ?_
    rw [warmth_of_get? (hget p hp), warmth_of_get? (hget q hq)] at hle
    exact_mod_cast hle
  · rw [take_append_drop] at hc
    exact stamp_of_get? (get?_eq_some_iff.mpr (mem_displaceable.mp hc).1)
  · rw [take_append_drop]
    exact ht.recency.sorted.sublist filter_sublist
  · rw [hperm.length_eq, hn, length_take, drop_eq_nil_iff]
    omega

theorem Settled.vacation (h : Inv cfg ex (fun _ => False) st) {n : Nat}
    (hperm : ps.Perm (cachedPages cfg st s)) (hlisted : ∀ p ∈ ps, p ∈ st.2.prefixLru.keys)
    (hn : (cachedPages cfg st s).length = n)
    (hclear : ∀ p, cfg.superBlockOfPage p = s → st'.1.hash p = none)
    (hd : Settled (stamp st.2) ps ((usableHoles cfg st s).take n) ((displaceable cfg st.2 s).take n) ((displaceable cfg st.2 s).drop n) st st' killed dest)
    :
    Vacation cfg s st st' killed dest := by
  have hmem : ∀ p, p ∈ ps ↔ cfg.superBlockOfPage p = s ∧ st.1.hash p ≠ none := fun p =>
    hperm.mem_iff.trans mem_cachedPages
  have hkeys : ∀ k ∈ killed, k ∈ st.2.prefixLru.keys := fun k hk => by
    rcases hd.source k hk with hk | hk
    · exact hlisted k hk
    · obtain ⟨c, hc, rfl⟩ := mem_map.mp hk
      exact mem_map.mpr ⟨c, (mem_displaceable.mp (mem_of_mem_take hc)).1, rfl⟩
  refine ⟨hclear, hd.nodup, fun p hp => ⟨((h.core.lru p).mp (hkeys p hp)).2, hkeys p hp⟩, ?_,
    fun p hp hn => ⟨hd.moved.kept p hp hn, fun hps => hd.still p fun hc => hps ((hmem p).mp hc).1⟩,
    hd.moved.only, hd.moved.inj, ?_, hd.moved.order⟩
  · rw [hd.count, hperm.length_eq, length_take]
    omega
  · intro k hk q hq hplace t t' hkt hqt
    rw [← stamp_of_get? hkt, ← stamp_of_get? hqt]
    refine hd.colder k hk q ?_ hq
    by_cases hqs : cfg.superBlockOfPage q = s
    · exact .inl ((hmem q).mpr ⟨hqs, ((h.core.lru q).mp (mem_keys_of_get? hqt)).2⟩)
    · refine .inr (mem_map.mpr ⟨(q, t'), ?_, rfl⟩)
      rw [take_append_drop, mem_displaceable]
      exact ⟨get?_eq_some_iff.mp hqt, hqs, hplace.resolve_left hqs⟩

theorem vacateKvSuperBlock_vacation (h : Sound cfg r ex (fun _ => False) st) (hstrict : r.strict)
    (hrel : cfg.relocationEnabled = true) (hs : Vacatable cfg st s) :
    Triple (· = st) (vacateKvSuperBlock cfg s)
      (fun _ st' => ∃ killed dest, Vacation cfg s st st' killed dest)
      (fun e _ => e = deviceError ∧ true ∈ st.2.copyFaults) := by
  have hinv := h.inv hstrict
  set ps := (cachedPages cfg st s).insertionSort fun p q => st.2.warmth q ≤ st.2.warmth p
  have hperm : ps.Perm (cachedPages cfg st s) := perm_insertionSort _ _
  have hlisted := hinv.listed hs
  have hloop : Triple (· = st) (vacateKvSuperBlock cfg s)
      (fun _ st' => ∃ killed dest, Settled (stamp st.2) ps
        ((usableHoles cfg st s).take (cachedPages cfg st s).length)
        ((displaceable cfg st.2 s).take (cachedPages cfg st s).length)
        ((displaceable cfg st.2 s).drop (cachedPages cfg st s).length) st st' killed dest)
      (fun _ _ => True) := by
    refine .bind_get (.bind_check (fun _ => ?_) fun _ => trivial)
    rw [if_pos hrel]
    exact relocateOrEvict_settled hstrict _ _ _ _ h (h.clearing hs hperm)
      (ranked_start h.tables hlisted rfl)
  refine ((vacateKvSuperBlock_sound h hs).and hloop).post
    (fun _ st' ⟨⟨_, _, hclear⟩, killed, dest, hd⟩ => ⟨killed, dest, ?_⟩)
    fun _ _ ⟨⟨_, _, hfault⟩, _⟩ => hfault
  exact hd.vacation hinv hperm (fun p hp => hlisted p (hperm.mem_iff.mp hp)) rfl hclear

theorem vacate_of_run (h₀ : Started cfg st₀)
    (run : Run (Op.next cfg) (fun op st => op.Promised cfg st ∧ op.Steady cfg st) st₀ st)
    (hrel : cfg.relocationEnabled = true) {s : Nat} {w : Int}
    (hs : (cheapestKvSuperBlock cfg st).1 = .ok (some (s, w))) :
    match vacateKvSuperBlock cfg s st with
    | (.ok _, st') => ∃ killed dest, Vacation cfg s st st' killed dest
    | (.error e, _) => e = deviceError ∧ true ∈ st.2.copyFaults := by
  have h := steady_of_run h₀ run
  have hcheap := cheapestKvSuperBlock_spec h.tables.supers st rfl
  have hvac : Vacatable cfg st s := by
    rcases hrun : cheapestKvSuperBlock cfg st with ⟨e | r, st'⟩ <;> rw [hrun] at hs hcheap
    · cases hs
    · exact hcheap.2.vacatable h.tables (Except.ok.inj hs)
  have hspec := vacateKvSuperBlock_vacation h trivial hrel hvac st rfl
  rcases hrun : vacateKvSuperBlock cfg s st with ⟨e | u, st'⟩ <;> rw [hrun] at hspec
  · exact hspec
  · exact hspec

def bothCached : List (Op Nat) :=
  [.getNewBlocks 2, .cacheFullBlocks 1 [5] [1] 0 1, .cacheFullBlocks 1 [6] [2] 0 1, .freeBlocks [1],
    .endForwardStep, .freeBlocks [2]]

theorem vacate_of_run_bothCached :
    (oneLayerRun bothCached).2.prefixLru.entries = [(1, 0), (2, 1)] ∧
      (cheapestKvSuperBlock oneLayer (oneLayerRun bothCached)).1 = .ok (some (1, 0)) ∧
      match vacateKvSuperBlock oneLayer 1 (oneLayerRun bothCached) with
      | (.ok _, st') => ∃ killed dest, Vacation oneLayer 1 (oneLayerRun bothCached) st' killed dest
      | (.error e, _) => e = deviceError ∧ true ∈ (oneLayerRun bothCached).2.copyFaults := by
  have hops : Run.Allowed (Op.next oneLayer) (fun op st => op.Promised oneLayer st ∧
      op.Steady oneLayer st) bothCached oneLayerStart :=
    ⟨⟨trivial, .inl (by decide)⟩, ⟨by decide, rfl⟩, ⟨by decide, rfl⟩, ⟨by decide, trivial⟩,
      ⟨trivial, trivial⟩, ⟨by decide, trivial⟩, trivial⟩
  exact ⟨by decide, by decide, vacate_of_run started_oneLayerStart (.of_allowed hops) rfl
    (by decide : (cheapestKvSuperBlock oneLayer (oneLayerRun bothCached)).1 = .ok (some (1, 0)))⟩

/-! ### A stale entry of the recency list -/

/-- A reset forgets the hash of page 1 and leaves its entry, so that the page is listed while a
request has it. -/
def staleEntry : List (Op Nat) :=
  [.getNewBlocks 1, .cacheFullBlocks 1 [5] [1] 0 1, .freeBlocks [1], .resetPrefixCache,
    .endForwardStep, .getNewBlocks 2, .cacheFullBlocks 1 [6] [2] 0 1, .freeBlocks [2]]

theorem run_staleEntry : Run (Op.next oneLayer) (fun op st => op.Promised oneLayer st)
    oneLayerStart (oneLayerRun staleEntry) :=
  .of_allowed (by decide)

/-- The only cached page is moved onto the live page: none is lost, with no hole for it. -/
theorem vacate_onto_live_page :
    Run (Op.next oneLayer) (fun op st => op.Promised oneLayer st) oneLayerStart
        (oneLayerRun staleEntry) ∧
      (oneLayerRun staleEntry).1.refCnt 1 = 1 ∧
      (cheapestKvSuperBlock oneLayer (oneLayerRun staleEntry)).1 = .ok (some (2, 1)) ∧
      (vacateKvSuperBlock oneLayer 2 (oneLayerRun staleEntry)).1 = .ok () ∧
      ∀ killed dest, ¬ Vacation oneLayer 2 (oneLayerRun staleEntry)
        (vacateKvSuperBlock oneLayer 2 (oneLayerRun staleEntry)).2 killed dest := by
  refine ⟨run_staleEntry, by decide, by decide, by decide, fun killed dest hv => ?_⟩
  have hcount : killed.length = 1 := by
    rw [hv.count]
    decide
  obtain ⟨k, rfl⟩ := length_eq_one_iff.mp hcount
  have hkeys : (oneLayerRun staleEntry).2.prefixLru.keys = [1, 2] := by decide
  obtain ⟨hk, hkey⟩ := hv.cached k (by simp)
  have hk2 : k = 2 := by
    rcases mem_pair.mp hkey with rfl | rfl
    · exact absurd (by decide) hk
    · rfl
  -- the page that is cached afterwards comes from one that was cached and is not lost
  obtain ⟨p, hp, hpk, -⟩ := hv.only 1 (by decide)
  have hlt := ((sound_of_anyRun started_oneLayerStart run_staleEntry).pool.hash_lt p hp).1
  have hcached : ∀ p < 3, (oneLayerRun staleEntry).1.hash p ≠ none → p = 2 := by decide
  exact hpk (by simp [hcached p hlt hp, hk2])

end Vllm.Unified
