import Vllm.Offload.Lru

/-! `ARCOffloadingManager` follows the protocol too, and keeps its four lists apart. -/

set_option linter.unusedSectionVars false

namespace Vllm.Offload
open Base Dict Call List

variable {H : Type} [DecidableEq H]

namespace ARC

def view : View H (ARC H) where
  entries s := s.t1.entries ++ s.t2.entries
  backend := ARC.backend

structure Balanced (capacity : Nat) (s : ARC H) : Prop where
  numBlocks : s.backend.numBlocks = capacity
  cacheCapacity : s.cacheCapacity = capacity
  b1 : ∀ h ∈ s.b1.keys, h ∉ s.t1.keys ∧ h ∉ s.t2.keys ∧ h ∉ s.b2.keys
  b2 : ∀ h ∈ s.b2.keys, h ∉ s.t1.keys ∧ h ∉ s.t2.keys
  target_nonneg : 0 ≤ s.targetT1Size
  target_le : s.targetT1Size ≤ capacity

variable {s s' : ARC H} {g : Transfers H} {h : H} {block block' : CPUBlockStatus} {capacity : Nat}

theorem block_eq : view.block s h = s.get? h := lookup_append

theorem keys_eq : (view.entries s).map Prod.fst = s.t1.keys ++ s.t2.keys := map_append

theorem not_mem_t2 (ha : view.Agrees s g) (hin : h ∈ s.t1.keys) : h ∉ s.t2.keys := by
  have hkeys := ha.keys
  rw [keys_eq, nodup_append] at hkeys
  exact fun hin₂ => hkeys.2.2 h hin h hin₂ rfl

theorem Balanced.congr (hb : Balanced capacity s) (hnum : s'.backend.numBlocks = s.backend.numBlocks)
    (hcap : s'.cacheCapacity = s.cacheCapacity) (htarget : s'.targetT1Size = s.targetT1Size)
    (hkeys : ∀ k, k ∈ s'.t1.keys ∨ k ∈ s'.t2.keys → k ∈ s.t1.keys ∨ k ∈ s.t2.keys)
    (hb1 : ∀ k ∈ s'.b1.keys, k ∈ s.b1.keys) (hb2 : ∀ k ∈ s'.b2.keys, k ∈ s.b2.keys) :
    Balanced capacity s' where
  numBlocks := hnum.trans hb.numBlocks
  cacheCapacity := hcap.trans hb.cacheCapacity
  b1 k hk := by
    obtain ⟨h1, h2, h3⟩ := hb.b1 k (hb1 k hk)
    have hout : ¬(k ∈ s'.t1.keys ∨ k ∈ s'.t2.keys) := fun hin => (hkeys k hin).elim h1 h2
    exact ⟨fun hin => hout (.inl hin), fun hin => hout (.inr hin), fun hin => h3 (hb2 k hin)⟩
  b2 k hk := by
    obtain ⟨h1, h2⟩ := hb.b2 k (hb2 k hk)
    have hout : ¬(k ∈ s'.t1.keys ∨ k ∈ s'.t2.keys) := fun hin => (hkeys k hin).elim h1 h2
    exact ⟨fun hin => hout (.inl hin), fun hin => hout (.inr hin)⟩
  target_nonneg := htarget ▸ hb.target_nonneg
  target_le := htarget ▸ hb.target_le

theorem Balanced.blocks (hb : Balanced capacity s) {t1 t2 : Dict H CPUBlockStatus} {b : CPUBackend}
    (hnum : b.numBlocks = s.backend.numBlocks)
    (hkeys : ∀ k, k ∈ t1.keys ∨ k ∈ t2.keys → k ∈ s.t1.keys ∨ k ∈ s.t2.keys) :
    Balanced capacity { s with t1, t2, backend := b } :=
  hb.congr hnum rfl rfl hkeys (fun _ hk => hk) fun _ hk => hk

/-! ## Turns -/

variable {V : Type} {d : Dict H V} {k : H} {v : V}

theorem mem_keys_of_set (hin : h ∈ d.keys) (hk : k ∈ (d.set h v).keys) : k ∈ d.keys := by
  rcases mem_keys_set.mp hk with rfl | hk
  · exact hin
  · exact hk

theorem mem_keys_of_setLast (hin : h ∈ d.keys) (hk : k ∈ (d.setLast h v).keys) : k ∈ d.keys := by
  rcases mem_keys_setLast.mp hk with rfl | hk
  · exact hin
  · exact hk

theorem changes_setBlock (hblock : s.get? h = some block) :
    Changes view h block block' s (s.setBlock h block') := by
  unfold ARC.get? at hblock
  unfold setBlock
  cases h1 : s.t1.get? h with
  | some b =>
    rw [h1] at hblock
    obtain rfl := Option.some.inj hblock
    rw [if_pos (by simp [Dict.contains, h1])]
    exact ⟨⟨(s.t1.erase h).entries ++ s.t2.entries, (entries_perm_erase h1).append_right _,
      (entries_set_perm _ _ _).append_right _⟩, rfl⟩
  | none =>
    rw [h1] at hblock
    have h2 : s.t2.get? h = some block := hblock
    rw [if_neg (by simp [Dict.contains, h1])]
    exact ⟨⟨s.t1.entries ++ (s.t2.erase h).entries,
      ((entries_perm_erase h2).append_left _).trans perm_middle,
      ((entries_set_perm _ _ _).append_left _).trans perm_middle⟩, rfl⟩

theorem Balanced.setBlock (hb : Balanced capacity s) (hblock : s.get? h = some block) :
    Balanced capacity (s.setBlock h block') := by
  unfold ARC.get? at hblock
  unfold ARC.setBlock
  split
  · next hin =>
    refine hb.blocks rfl fun k hk => ?_
    exact hk.imp_left (mem_keys_of_set (mem_keys_iff.mpr hin))
  · next hout =>
    have h2 : s.t2.get? h = some block := by
      cases h1 : s.t1.get? h with
      | some b => simp [Dict.contains, h1] at hout
      | none => rwa [h1] at hblock
    refine hb.blocks rfl fun k hk => ?_
    exact hk.imp_right (mem_keys_of_set (mem_keys_of_get? h2))

/-! ## Touches -/

section
variable (ops : Rounding capacity)

variable {q : ℚ}

theorem round_nonneg (hq : 0 ≤ q) : 0 ≤ ops.round q := by
  have hzero := ops.exact 0 (Nat.zero_le _)
  rw [Nat.cast_zero] at hzero
  exact hzero ▸ ops.mono hq

theorem round_le (hq : q ≤ capacity) : ops.round q ≤ capacity :=
  (ops.mono hq).trans_eq (ops.exact capacity (Nat.le_refl _))

theorem Balanced.retarget (hb : Balanced capacity s) {target : ℚ} (hlo : 0 ≤ target)
    (hhi : target ≤ capacity) {b1 b2 : Dict H Unit} (hb1 : ∀ k ∈ b1.keys, k ∈ s.b1.keys)
    (hb2 : ∀ k ∈ b2.keys, k ∈ s.b2.keys) :
    Balanced capacity { s with targetT1Size := target, b1, b2 } where
  numBlocks := hb.numBlocks
  cacheCapacity := hb.cacheCapacity
  b1 k hk := by
    obtain ⟨h1, h2, h3⟩ := hb.b1 k (hb1 k hk)
    exact ⟨h1, h2, fun hin => h3 (hb2 k hin)⟩
  b2 k hk := hb.b2 k (hb2 k hk)
  target_nonneg := hlo
  target_le := hhi

theorem touchOne_agrees (ha : view.Agrees s g) (hb : Balanced capacity s) (h : H) :
    view.Agrees (touchOne ops s h) g ∧ Balanced capacity (touchOne ops s h) := by
  unfold touchOne
  cases h1 : s.t1.get? h with
  | some block =>
    have hin := Dict.mem_keys_of_get? h1
    dsimp only
    split
    · have hout := not_mem_t2 ha hin
      have hset := Dict.entries_set_perm s.t2 h block
      rw [Dict.erase_of_not_mem hout] at hset
      refine ⟨Consistent.perm ha ?_, hb.blocks rfl fun k hk => ?_⟩
      · have hmoved := (hset.append_left (s.t1.erase h).entries).trans perm_middle
        exact hmoved.trans ((Dict.entries_perm_erase h1).append_right _).symm
      · rcases hk with hk | hk
        · exact .inl (Dict.mem_keys_erase.mp hk).2
        · rcases Dict.mem_keys_set.mp hk with rfl | hk
          · exact .inl hin
          · exact .inr hk
    · refine ⟨Consistent.perm ha ?_, hb.blocks rfl fun k hk => ?_⟩
      · exact ((Dict.entries_setLast_perm _ _ _).trans (Dict.entries_perm_erase h1).symm).append_right _
      · exact hk.imp_left (mem_keys_of_setLast hin)
  | none =>
    cases h2 : s.t2.get? h with
    | some block =>
      have hin := Dict.mem_keys_of_get? h2
      refine ⟨Consistent.perm ha ?_, hb.blocks rfl fun k hk => ?_⟩
      · exact ((Dict.entries_setLast_perm _ _ _).trans (Dict.entries_perm_erase h2).symm).append_left _
      · exact hk.imp_right (mem_keys_of_setLast hin)
    | none =>
      dsimp only
      have hlo := hb.target_nonneg
      have hhi := hb.target_le
      split
      · next hghost =>
        refine ⟨ha, hb.retarget ?_ ?_ (fun _ => mem_keys_of_setLast (Dict.mem_keys_iff.mpr hghost)) fun _ hk => hk⟩
        · refine le_min (round_nonneg ops ?_) (Nat.cast_nonneg _)
          exact add_nonneg hlo (zero_le_one.trans (le_max_left _ _))
        · rw [hb.cacheCapacity]
          exact min_le_right _ _
      · split
        · next hghost =>
          refine ⟨ha, hb.retarget (le_max_right _ _) ?_ (fun _ hk => hk) fun _ =>
            mem_keys_of_setLast (Dict.mem_keys_iff.mpr hghost)⟩
          refine max_le (round_le ops ?_) (Nat.cast_nonneg _)
          have hdelta := zero_le_one.trans (le_max_left (1 : ℚ) (ops.round (s.b1.size / s.b2.size)))
          exact (sub_le_self _ hdelta).trans hhi
        · exact ⟨ha, hb⟩

theorem touch_agrees (hs : List H) (ha : view.Agrees s g) (hb : Balanced capacity s) :
    view.Agrees (touch ops hs s) g ∧ Balanced capacity (touch ops hs s) :=
  foldlRecOn (motive := fun s => view.Agrees s g ∧ Balanced capacity s) hs.reverse (touchOne ops)
    ⟨ha, hb⟩ fun _ h k _ => touchOne_agrees ops h.1 h.2 k

end

/-! ## Evictions -/

variable {protectedHashes : List H} {e : H × CPUBlockStatus}

theorem findEviction_some {d : Dict H CPUBlockStatus}
    (hfind : findEviction protectedHashes d.entries = some e) : d.get? e.1 = some e.2 ∧ e.2.refCnt = 0 := by
  have hin := mem_of_find?_eq_some hfind
  have hfree := find?_some hfind
  simp only [decide_eq_true_eq] at hfree
  exact ⟨get?_eq_some_iff.mpr hin, hfree.1⟩

/-- A turn of the loop: from T1 if T1 is long enough and has a block that may go, else from T2. -/
inductive Turn (protectedHashes : List H) (s : ARC H) : Option (H × ARC H) → Prop where
  | t1 {h : H} {block : CPUBlockStatus} (hlong : s.t1.size ≥ truncate s.targetT1Size)
      (hfind : findEviction protectedHashes s.t1.entries = some (h, block)) :
      Turn protectedHashes s (some (h, s.evictT1 h block))
  | t2 {h : H} {block : CPUBlockStatus}
      (hskip : s.t1.size ≥ truncate s.targetT1Size →
        findEviction protectedHashes s.t1.entries = none)
      (hfind : findEviction protectedHashes s.t2.entries = some (h, block)) :
      Turn protectedHashes s (some (h, s.evictT2 h block))
  | stuck (hskip : s.t1.size ≥ truncate s.targetT1Size →
        findEviction protectedHashes s.t1.entries = none)
      (hfind : findEviction protectedHashes s.t2.entries = none) : Turn protectedHashes s none

theorem evictOne_turn : Turn protectedHashes s (evictOne protectedHashes s) := by
  unfold evictOne
  dsimp only
  split
  · next hfrom =>
    split at hfrom
    · next hlong => exact .t1 hlong hfrom
    · cases hfrom
  · next hfrom =>
    have hskip : s.t1.size ≥ truncate s.targetT1Size →
        findEviction protectedHashes s.t1.entries = none :=
      fun hlong => by rwa [if_pos hlong] at hfrom
    split
    · next hfind => exact .t2 hskip hfind
    · next hfind => exact .stuck hskip hfind

theorem evictOne_some (ha : view.Agrees s g) (hb : Balanced capacity s)
    (hone : evictOne protectedHashes s = some (h, s')) :
    view.Agrees s' g ∧ Balanced capacity s' ∧ (view.entries s).length = (view.entries s').length + 1 ∧
      ∀ k, k ∈ s'.t1.keys ∨ k ∈ s'.t2.keys → k ∈ s.t1.keys ∨ k ∈ s.t2.keys := by
  cases hone ▸ evictOne_turn with
  | @t1 _ block _ hfind =>
    obtain ⟨h1, hzero⟩ := findEviction_some hfind
    have hin := mem_keys_of_get? h1
    have hrm : Removes view h block s (s.evictT1 h block) :=
      ⟨(entries_perm_erase h1).append_right _, rfl⟩
    refine ⟨hrm.agrees ha fun hc => hc.evict hzero, ⟨hb.numBlocks, hb.cacheCapacity, fun k hk => ?_,
      fun k hk => ?_, hb.target_nonneg, hb.target_le⟩, hrm.rest.length_eq, fun k hk => ?_⟩
    · rcases mem_keys_set.mp hk with rfl | hk
      · have hout : k ∉ s.t2.keys := not_mem_t2 ha hin
        exact ⟨fun hk => (mem_keys_erase.mp hk).1 rfl, hout, fun hk => (hb.b2 k hk).1 hin⟩
      · obtain ⟨h1, h2, h3⟩ := hb.b1 k hk
        exact ⟨fun hk => h1 (mem_keys_erase.mp hk).2, h2, h3⟩
    · obtain ⟨h1, h2⟩ := hb.b2 k hk
      exact ⟨fun hk => h1 (mem_keys_erase.mp hk).2, h2⟩
    · exact hk.imp_left fun hk => (mem_keys_erase.mp hk).2
  | @t2 _ block _ hfind =>
    obtain ⟨h2, hzero⟩ := findEviction_some hfind
    have hin := mem_keys_of_get? h2
    have hrm : Removes view h block s (s.evictT2 h block) :=
      ⟨((entries_perm_erase h2).append_left _).trans perm_middle, rfl⟩
    refine ⟨hrm.agrees ha fun hc => hc.evict hzero, ⟨hb.numBlocks, hb.cacheCapacity, fun k hk => ?_,
      fun k hk => ?_, hb.target_nonneg, hb.target_le⟩, hrm.rest.length_eq, fun k hk => ?_⟩
    · obtain ⟨h1, h2, h3⟩ := hb.b1 k hk
      refine ⟨h1, fun hk => h2 (mem_keys_erase.mp hk).2, fun hk => ?_⟩
      exact (mem_keys_set.mp hk).elim (fun heq => h2 (heq ▸ hin)) h3
    · rcases mem_keys_set.mp hk with rfl | hk
      · exact ⟨fun hk => not_mem_t2 ha hk hin, fun hk => (mem_keys_erase.mp hk).1 rfl⟩
      · obtain ⟨h1, h2⟩ := hb.b2 k hk
        exact ⟨h1, fun hk => h2 (mem_keys_erase.mp hk).2⟩
    · exact hk.imp_right fun hk => (mem_keys_erase.mp hk).2

variable {n : Nat}

theorem evictLoop_ok (ha : view.Agrees s g) (hb : Balanced capacity s) :
    ∃ res s', evictLoop protectedHashes n s = (.ok res, s') ∧ view.Agrees s' g ∧ Balanced capacity s' ∧
      (res.isSome = true → (view.entries s).length = (view.entries s').length + n) ∧
      ∀ k, k ∈ s'.t1.keys ∨ k ∈ s'.t2.keys → k ∈ s.t1.keys ∨ k ∈ s.t2.keys := by
  induction n generalizing s with
  | zero => exact ⟨some [], s, rfl, ha, hb, fun _ => rfl, fun _ hk => hk⟩
  | succ n ih =>
    unfold evictLoop
    rw [get_bind]
    cases hone : evictOne protectedHashes s with
    | none => exact ⟨none, s, rfl, ha, hb, by simp, fun _ hk => hk⟩
    | some e =>
      obtain ⟨h, s₁⟩ := e
      obtain ⟨ha₁, hb₁, hlen, hkeys⟩ := evictOne_some ha hb hone
      obtain ⟨res, s', hloop, ha', hb', hcount, hkeys'⟩ := ih ha₁ hb₁
      refine ⟨res.map (h :: ·), s', ?_, ha', hb', fun hsome => ?_, fun k hk => hkeys k (hkeys' k hk)⟩
      · dsimp only
        rw [modify_bind, bind_of_ok hloop]
        rfl
      · rw [Option.isSome_map] at hsome
        have hrest := hcount hsome
        omega

/-! ## Stores -/

theorem mem_keys_trimGhosts {b : Dict H Unit} (hk : k ∈ (trimGhosts b n).keys) :
    k ∈ b.keys := ((drop_sublist _ _).map Prod.fst).subset hk

theorem Balanced.insert (hb : Balanced capacity s) : Balanced capacity (s.insert h block) where
  numBlocks := hb.numBlocks
  cacheCapacity := hb.cacheCapacity
  b1 k hk := by
    obtain ⟨hne, hk⟩ := mem_keys_erase.mp hk
    obtain ⟨h1, h2, h3⟩ := hb.b1 k hk
    exact ⟨fun hin => (mem_keys_set.mp hin).elim hne h1, h2, fun hin => h3 (mem_keys_erase.mp hin).2⟩
  b2 k hk := by
    obtain ⟨hne, hk⟩ := mem_keys_erase.mp hk
    obtain ⟨h1, h2⟩ := hb.b2 k hk
    exact ⟨fun hin => (mem_keys_set.mp hin).elim hne h1, h2⟩
  target_nonneg := hb.target_nonneg
  target_le := hb.target_le

theorem entries_insert (he : e.1 ∉ (view.entries s).map Prod.fst) :
    (view.entries (s.insert e.1 e.2)).Perm (e :: view.entries s) := by
  rw [keys_eq, mem_append, not_or] at he
  have hset := Dict.entries_set_perm s.t1 e.1 e.2
  rw [Dict.erase_of_not_mem he.1] at hset
  exact hset.append_right s.t2.entries

theorem storeBlocks_ok {toStore toEvict : List H} (ha : view.Agrees s g) (hb : Balanced capacity s)
    (hnodup : toStore.Nodup) (hfresh : ∀ h ∈ toStore, h ∉ s.t1.keys ∧ h ∉ s.t2.keys)
    (hroom : toStore.length ≤ s.backend.getNumFreeBlocks) :
    ∃ ids s', storeBlocks toStore toEvict s = (.ok (some
        { blockHashesToStore := toStore, storeSpec := ids, blockHashesEvicted := toEvict }), s') ∧
      Balanced capacity s' ∧ view.Agrees s' (g.store toStore ids) := by
  unfold storeBlocks
  rw [modify_bind]
  obtain ⟨ids, b, hcall, hlen, hsize, hle, hids⟩ := CPUBackend.allocateBlocks_ok hroom
  have hspec : (ids.map fun id => ({ blockId := id } : CPUBlockStatus)).map (·.blockId) = ids := by
    rw [List.map_map]
    exact map_id _
  generalize htrim : ({ s with
    b1 := trimGhosts s.b1 s.cacheCapacity
    b2 := trimGhosts s.b2 s.cacheCapacity
    events := noteEvent s.backend.blockSize true toEvict s.events } : ARC H) = s₁
  have hzoom : (CPUBackend.allocateBlocks toStore.length).zoom ARC.backend
      (fun backend s => { s with backend }) s₁ =
        (.ok (ids.map fun id => { blockId := id }), { s₁ with backend := b }) := by
    unfold Call.zoom
    rw [← htrim, hcall]
  have hb₁ : Balanced capacity ({ s₁ with backend := b } : ARC H) := by
    subst htrim
    exact hb.congr hsize rfl rfl (fun _ hk => hk) (fun _ => mem_keys_trimGhosts)
      fun _ => mem_keys_trimGhosts
  have hsame : s₁.t1 = s.t1 ∧ s₁.t2 = s.t2 := by
    subst htrim
    exact ⟨rfl, rfl⟩
  rw [bind_of_ok hzoom, check_bind (by simpa using hlen), hspec]
  have hkeys := Consistent.map_fst_zip_ids hlen
  have hentries : view.entries ({ s₁ with backend := b } : ARC H) = view.entries s := by
    change s₁.t1.entries ++ s₁.t2.entries = _
    rw [hsame.1, hsame.2]
    rfl
  have hout : ∀ h ∈ toStore, h ∉ (view.entries s).map Prod.fst := by
    intro h hh
    rw [keys_eq, mem_append, not_or]
    exact hfresh h hh
  obtain ⟨hperm, hback⟩ := inserts_of_turns (v := view) (m := { s₁ with backend := b }) entries_insert
    (fun _ _ => rfl) (hkeys.symm ▸ hnodup)
    fun e he => hentries ▸ hout e.1 (hkeys ▸ mem_map.mpr ⟨e, he, rfl⟩)
  refine ⟨ids, _, rfl, foldlRecOn (motive := Balanced capacity) _ _ hb₁ fun _ hb _ _ => hb.insert, ?_⟩
  unfold View.Agrees
  rw [hback]
  exact (Consistent.allocate ha hnodup hout hlen hle hids).perm (hentries ▸ hperm)

theorem prepareStore_ok {hs : List H} (ha : view.Agrees s g) (hb : Balanced capacity s)
    (hnodup : hs.Nodup) :
    ∃ out s', prepareStore hs s = (.ok out, s') ∧ Balanced capacity s' ∧ match out with
      | none => view.Agrees s' g
      | some out => view.Agrees s' (g.store out.blockHashesToStore out.storeSpec) := by
  unfold prepareStore
  rw [get_bind]
  generalize htoStore : (hs.filter fun h => !s.t1.contains h && !s.t2.contains h) = toStore
  have hfresh : ∀ h ∈ toStore, h ∉ s.t1.keys ∧ h ∉ s.t2.keys := by
    intro h hh
    rw [← htoStore] at hh
    have hno := (mem_filter.mp hh).2
    rw [mem_keys_iff, mem_keys_iff]
    simpa [Dict.contains] using hno
  split
  · refine ⟨_, s, rfl, hb, ?_⟩
    simpa [Transfers.store] using ha
  · obtain ⟨res, s₁, hloop, ha₁, hb₁, hcount, hkeys⟩ := @evictLoop_ok _ _ s g capacity hs
      (toStore.length - s.backend.getNumFreeBlocks) ha hb
    rw [bind_of_ok hloop]
    cases res with
    | none => exact ⟨none, s₁, rfl, hb₁, ha₁⟩
    | some toEvict =>
      have hroom : toStore.length ≤ s₁.backend.getNumFreeBlocks := by
        have hbefore := Consistent.numFree ha
        have hafter := Consistent.numFree ha₁
        have hevicted := hcount rfl
        have hsame : (view.backend s₁).numBlocks = (view.backend s).numBlocks :=
          hb₁.numBlocks.trans hb.numBlocks.symm
        simp only [show ∀ s : ARC H, view.backend s = s.backend from fun _ => rfl] at hbefore hafter hsame
        omega
      have hfresh₁ : ∀ h ∈ toStore, h ∉ s₁.t1.keys ∧ h ∉ s₁.t2.keys := fun h hh =>
        ⟨fun hin => (hkeys h (.inl hin)).elim (hfresh h hh).1 (hfresh h hh).2,
          fun hin => (hkeys h (.inr hin)).elim (hfresh h hh).1 (hfresh h hh).2⟩
      have hnodup' : toStore.Nodup := htoStore ▸ hnodup.filter _
      obtain ⟨ids, s', hcall, hb', ha'⟩ := @storeBlocks_ok _ _ s₁ g capacity toStore toEvict ha₁ hb₁ hnodup'
        hfresh₁ hroom
      exact ⟨_, s', hcall, hb', ha'⟩

theorem markStored_turn {s : ARC H} (hb : Balanced capacity s) (hblock : view.block s h = some block)
    (hready : block.isReady = false) : ∃ s', markStored h s = (.ok (some h), s') ∧
      Changes view h block { block with refCnt := 0 } s s' ∧ Balanced capacity s' := by
  rw [block_eq] at hblock
  refine ⟨_, ?_, changes_setBlock hblock, hb.setBlock hblock⟩
  unfold markStored
  rw [get_bind, hblock]
  simp only [hready]
  rfl

theorem dropFailed_rest {s : ARC H} (hb : Balanced capacity s)
    (hblock : view.block s h = some block) :
    (view.entries s).Perm ((h, block) :: view.entries (s.dropFailed h)) ∧
      view.backend (s.dropFailed h) = (if block.isReady then s.backend else s.backend.free block) ∧
      Balanced capacity (s.dropFailed h) := by
  rw [block_eq] at hblock
  have hstate : s.dropFailed h = { s with
      t1 := if s.t1.contains h then s.t1.erase h else s.t1
      t2 := if s.t1.contains h then s.t2 else s.t2.erase h
      backend := if block.isReady then s.backend else s.backend.free block } := by
    unfold dropFailed
    rw [hblock]
    cases s.t1.contains h <;> cases hready : block.isReady <;> simp [hready]
  have hnum : (if block.isReady then s.backend else s.backend.free block).numBlocks =
      s.backend.numBlocks := by
    split <;> rfl
  rw [hstate]
  unfold ARC.get? at hblock
  cases h1 : s.t1.get? h with
  | some b =>
    rw [h1] at hblock
    obtain rfl := Option.some.inj hblock
    have hin : s.t1.contains h = true := by simp [Dict.contains, h1]
    simp only [hin, if_true]
    exact ⟨(entries_perm_erase h1).append_right _, rfl,
      hb.blocks hnum fun k hk => hk.imp_left fun hk => (mem_keys_erase.mp hk).2⟩
  | none =>
    rw [h1] at hblock
    have h2 : s.t2.get? h = some block := hblock
    have hout : s.t1.contains h = false := by simp [Dict.contains, h1]
    simp only [hout, Bool.false_eq_true, if_false]
    exact ⟨((entries_perm_erase h2).append_left _).trans perm_middle, rfl,
      hb.blocks hnum fun k hk => hk.imp_right fun hk => (mem_keys_erase.mp hk).2⟩

theorem lawful (ops : Rounding capacity) : Lawful (manager ops) view (Balanced (H := H) capacity) where
  touch hs ha hb := touch_agrees ops hs ha hb
  prepareLoad ha hb hnodup hready := by
    refine loads_of_turns (fun hb hblock hready => ?_) ha hb hnodup hready
    rw [block_eq] at hblock
    refine ⟨_, ?_, changes_setBlock hblock, hb.setBlock hblock⟩
    rw [get_bind, hblock]
    dsimp only
    rw [check_bind hready]
    rfl
  completeLoad ha hb hnodup hin := by
    refine unloads_of_turns (fun hb hblock hpos => ?_) (fun hblock hpos => ?_) ha hb hnodup hin
    · rw [block_eq] at hblock
      refine ⟨_, ?_, changes_setBlock hblock, hb.setBlock hblock⟩
      rw [get_bind, hblock]
      dsimp only
      rw [check_bind (by simpa using hpos)]
      rfl
    · rw [block_eq] at hblock
      refine ⟨.assertionError "Block ref_cnt is already 0", ?_⟩
      rw [get_bind, hblock]
      dsimp only
      rw [check_bind_error (by simpa using hpos)]
  prepareStore ha hb hnodup := prepareStore_ok ha hb hnodup
  completeStore {m g hs} success ha hb hnodup hin := by
    change ∃ m', completeStore hs success m = (.ok (), m') ∧ _
    unfold completeStore
    cases success with
    | true =>
      obtain ⟨m', hloop, ha', hb'⟩ := stored_of_turns markStored_turn ha hb hnodup hin
      rw [if_pos rfl, bind_of_ok hloop]
      refine ⟨_, rfl, ha', ?_⟩
      exact hb'.congr rfl rfl rfl (fun _ hk => hk) (fun _ hk => hk) fun _ hk => hk
    | false =>
      refine failed_of_turns (fun hb hblock hready => ?_) ha hb hnodup hin
      obtain ⟨hrest, hback, hb'⟩ := dropFailed_rest hb hblock
      exact ⟨_, rfl, ⟨hrest, by rw [hback, hready]; rfl⟩, hb'⟩

end ARC

/-! ## Every run -/

/-- No block is in two hands: every id that was ever allocated is free or has one hash, and a hash
that is stored or loaded keeps the id that was given out for it. -/
structure Safe (numBlocks : Nat) (es : Entries H) (b : CPUBackend) (g : Transfers H) : Prop where
  distinct : ∀ e ∈ es, ∀ e' ∈ es, e.1 ≠ e'.1 → e.2.blockId ≠ e'.2.blockId
  bounds : ∀ e ∈ es, e.2.blockId < numBlocks
  free : b.allocatedBlocksFreeList.Nodup
  disjoint : ∀ e ∈ es, e.2.blockId ∉ b.allocatedBlocksFreeList
  allocated : ∀ i, i < b.numAllocatedBlocks ↔ i ∈ b.allocatedBlocksFreeList ∨ ∃ e ∈ es, e.2.blockId = i
  kept : ∀ x ∈ g.storing ++ g.loading, ∃ block, (x.1, block) ∈ es ∧ block.blockId = x.2

variable {es : Entries H}

theorem nodup_of_perm_range {free : List Nat} {n : Nat}
    (h : (es.map (·.2.blockId) ++ free).Perm (List.range n)) :
    (es.map (·.2.blockId)).Nodup ∧ free.Nodup ∧ ∀ e ∈ es, e.2.blockId ∉ free := by
  obtain ⟨hes, hfree, hne⟩ := nodup_append.mp (h.nodup_iff.mpr nodup_range)
  exact ⟨hes, hfree, fun e he hin => hne _ (mem_map.mpr ⟨e, he, rfl⟩) _ hin rfl⟩

theorem Consistent.safe {b : CPUBackend} {g : Transfers H} (hc : Consistent es b g) :
    Safe b.numBlocks es b g := by
  obtain ⟨hes, hfree, hdisjoint⟩ := nodup_of_perm_range hc.ids
  refine ⟨fun e he e' he' hne heq => hne ?_, fun e he => hc.blockId_lt he, hfree, hdisjoint, fun i => ?_,
    hc.resident⟩
  · exact congrArg Prod.fst (inj_on_of_nodup_map hes he he' heq)
  · rw [← mem_range, ← hc.ids.mem_iff, mem_append, mem_map, or_comm]

section
variable {blockSize numBlocks : Nat} {enableEvents : Bool}

theorem LRU.agrees_of_run {t : Managed H (LRU H)} (run : Run (ManagerOp.next LRU.manager LRU.view)
    (fun op t => op.Follows LRU.view t) { manager := LRU.new { blockSize, numBlocks } enableEvents } t) :
    LRU.view.Agrees t.manager t.transfers ∧ LRU.Sized numBlocks t.manager :=
  LRU.lawful.run rfl rfl rfl (by exact rfl) run

theorem ARC.agrees_of_run {ops : Rounding numBlocks} {t : Managed H (ARC H)}
    (run : Run (ManagerOp.next (ARC.manager ops) ARC.view) (fun op t => op.Follows ARC.view t)
      { manager := ARC.new { blockSize, numBlocks } enableEvents } t) :
    ARC.view.Agrees t.manager t.transfers ∧ ARC.Balanced numBlocks t.manager :=
  (ARC.lawful ops).run rfl rfl rfl ⟨rfl, Nat.zero_add _, fun _ hk => absurd hk not_mem_nil,
    fun _ hk => absurd hk not_mem_nil, le_refl _, Nat.cast_nonneg _⟩ run

end

/-- In every run of the protocol, over a backend of any size, the blocks of both managers are safe;
the lists of the adaptive one are disjoint, its blocks and the free ones make up the capacity, and
its target stays within it. -/
theorem blocks_of_run (blockSize numBlocks : Nat) (enableEvents : Bool) (ops : Rounding numBlocks) :
    (∀ t, Run (ManagerOp.next (LRU.manager (H := H)) LRU.view) (fun op t => op.Follows LRU.view t)
      { manager := LRU.new { blockSize, numBlocks } enableEvents } t →
        Safe numBlocks t.manager.blocks.entries t.manager.backend t.transfers) ∧
    ∀ t, Run (ManagerOp.next (ARC.manager (H := H) ops) ARC.view) (fun op t => op.Follows ARC.view t)
      { manager := ARC.new { blockSize, numBlocks } enableEvents } t →
        Safe numBlocks (t.manager.t1.entries ++ t.manager.t2.entries) t.manager.backend t.transfers ∧
        [t.manager.t1.keys, t.manager.t2.keys, t.manager.b1.keys, t.manager.b2.keys].Pairwise List.Disjoint ∧
        t.manager.t1.size + t.manager.t2.size + t.manager.backend.getNumFreeBlocks = numBlocks ∧
        0 ≤ t.manager.targetT1Size ∧ t.manager.targetT1Size ≤ numBlocks := by
  constructor
  · intro t run
    obtain ⟨ha, hI⟩ := LRU.agrees_of_run run
    have hsafe := Consistent.safe ha
    rwa [show (LRU.view.backend t.manager).numBlocks = numBlocks from hI] at hsafe
  · intro t run
    obtain ⟨ha, hb⟩ := ARC.agrees_of_run run
    have hsafe := Consistent.safe ha
    rw [show (ARC.view.backend t.manager).numBlocks = numBlocks from hb.numBlocks] at hsafe
    have hcount := Consistent.numFree ha
    refine ⟨hsafe, ?_, ?_, hb.target_nonneg, hb.target_le⟩
    · have ht : t.manager.t1.keys.Disjoint t.manager.t2.keys := fun h => ARC.not_mem_t2 ha
      simp only [pairwise_cons, mem_cons, forall_eq_or_imp, not_mem_nil, false_imp_iff,
        implies_true, and_true, List.Pairwise.nil]
      exact ⟨⟨ht, fun h h1 hk => (hb.b1 h hk).1 h1, fun h h1 hk => (hb.b2 h hk).1 h1⟩,
        ⟨fun h h2 hk => (hb.b1 h hk).2.1 h2, fun h h2 hk => (hb.b2 h hk).2 h2⟩,
        fun h h1 hk => (hb.b1 h h1).2.2 hk⟩
    · rw [show (ARC.view.backend t.manager).numBlocks = numBlocks from hb.numBlocks] at hcount
      rw [show ARC.view.entries t.manager = t.manager.t1.entries ++ t.manager.t2.entries from rfl,
        length_append] at hcount
      exact hcount

def exactRounding (capacity : Nat) : Rounding capacity := ⟨id, monotone_id, fun _ _ => rfl⟩

/-- Two blocks: one is loaded while a third hash is stored, so the other one is evicted. -/
def offloadOps : List (ManagerOp Nat) :=
  [.prepareStore [1, 2], .completeStore [1, 2] true, .touch [1], .prepareLoad [1], .prepareStore [3],
    .touch [2], .completeLoad [1], .completeStore [3] false, .prepareStore [2]]

def afterArc (numBlocks : Nat) (ops : List (ManagerOp Nat)) : Managed Nat (ARC Nat) :=
  ops.foldl (fun t op => op.next (ARC.manager (exactRounding numBlocks)) ARC.view t)
    { manager := ARC.new { blockSize := 16, numBlocks } }

theorem blocks_of_run_two :
    (afterArc 2 offloadOps).manager.t2.keys = [1] ∧ (afterArc 2 offloadOps).transfers.storing = [(2, 1)] ∧
      Safe 2 ((afterArc 2 offloadOps).manager.t1.entries ++ (afterArc 2 offloadOps).manager.t2.entries)
        (afterArc 2 offloadOps).manager.backend (afterArc 2 offloadOps).transfers :=
  have hallowed : Run.Allowed (ManagerOp.next (ARC.manager (exactRounding 2)) ARC.view)
      (fun op t => op.Follows ARC.view t) offloadOps { manager := ARC.new { blockSize := 16, numBlocks := 2 } } := by
    decide +kernel
  ⟨by decide +kernel, by decide +kernel,
    ((blocks_of_run 16 2 false (exactRounding 2)).2 _ (.of_allowed hallowed)).1⟩

end Vllm.Offload
