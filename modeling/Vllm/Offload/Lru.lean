import Vllm.Offload.Protocol

/-! `LRUOffloadingManager` follows the protocol: what it evicts is not being transferred, and what it
stores gets blocks of its own. -/

namespace Vllm.Offload
open Base Dict Call List

variable {H : Type} [DecidableEq H]

namespace LRU

def view : View H (LRU H) where
  entries s := s.blocks.entries
  backend := LRU.backend

variable {s : LRU H} {g : Transfers H} {h : H} {block block' : CPUBlockStatus} {numBlocks : Nat}

def Sized (numBlocks : Nat) (s : LRU H) : Prop := s.backend.numBlocks = numBlocks

section
variable (hblock : s.blocks.get? h = some block)
include hblock

theorem blockOf_eq : blockOf h s = (.ok block, s) := by
  unfold blockOf
  rw [get_bind, hblock]
  rfl

theorem changes_setBlock : Changes view h block block' s (s.setBlock h block') where
  rest := ⟨(s.blocks.erase h).entries, entries_perm_erase hblock, entries_set_perm _ _ _⟩
  backend := rfl

theorem removes_erase :
    Removes view h block s { s with backend := s.backend.free block, blocks := s.blocks.erase h } where
  rest := entries_perm_erase hblock
  backend := rfl

end

/-! ## The order of the blocks -/

theorem touchOne_agrees (ha : view.Agrees s g) (hI : Sized numBlocks s) (h : H) :
    view.Agrees (s.touchOne h) g ∧ Sized numBlocks (s.touchOne h) := by
  unfold touchOne
  cases hblock : s.blocks.get? h with
  | none => exact ⟨ha, hI⟩
  | some block =>
    refine ⟨Consistent.perm ha ?_, hI⟩
    exact (entries_setLast_perm _ _ _).trans (entries_perm_erase hblock).symm

theorem touch_agrees (hs : List H) (ha : view.Agrees s g) (hI : Sized numBlocks s) :
    view.Agrees (touch hs s) g ∧ Sized numBlocks (touch hs s) :=
  foldlRecOn (motive := fun s => view.Agrees s g ∧ Sized numBlocks s) hs.reverse touchOne ⟨ha, hI⟩
    fun _ h k _ => touchOne_agrees h.1 h.2 k

/-! ## Evictions -/

theorem findEvictions_some {protectedHashes : List H} {n : Nat} {es : Entries H} {hs : List H}
    (hn : 0 < n) (hfind : findEvictions protectedHashes n es = some hs) :
    hs.length = n ∧ hs.Sublist (es.map Prod.fst) ∧ ∀ h ∈ hs, ∃ block, (h, block) ∈ es ∧ block.refCnt = 0 := by
  induction es generalizing n hs with
  | nil => cases hfind
  | cons e es ih =>
    obtain ⟨h, block⟩ := e
    have hskip : ∀ {ks : List H}, (∀ k ∈ ks, ∃ b, (k, b) ∈ es ∧ b.refCnt = 0) →
        ∀ k ∈ ks, ∃ b, (k, b) ∈ (h, block) :: es ∧ b.refCnt = 0 := fun hks k hk => by
      obtain ⟨b, hb, hzero⟩ := hks k hk
      exact ⟨b, mem_cons_of_mem _ hb, hzero⟩
    unfold findEvictions at hfind
    split at hfind
    · next hfree =>
      have hhead : ∃ b, (h, b) ∈ (h, block) :: es ∧ b.refCnt = 0 := ⟨block, mem_cons_self, hfree.1⟩
      split at hfind
      · next hlast =>
        obtain rfl := Option.some.inj hfind
        refine ⟨by rw [length_singleton]; omega, (nil_sublist _).cons_cons h, ?_⟩
        exact forall_mem_cons.mpr ⟨hhead, nofun⟩
      · next hmore =>
        obtain ⟨rest, hrest, rfl⟩ := Option.map_eq_some_iff.mp hfind
        obtain ⟨hlen, hsub, hzero⟩ := ih (by omega) hrest
        refine ⟨by rw [length_cons]; omega, hsub.cons_cons h, ?_⟩
        exact forall_mem_cons.mpr ⟨hhead, hskip hzero⟩
    · obtain ⟨hlen, hsub, hzero⟩ := ih hn hfind
      exact ⟨hlen, hsub.cons _, hskip hzero⟩

theorem evictions_agrees {hs : List H} (ha : view.Agrees s g) (hI : Sized numBlocks s) (hnodup : hs.Nodup)
    (hzero : ∀ h ∈ hs, ∃ block, s.blocks.get? h = some block ∧ block.refCnt = 0) :
    view.Agrees (hs.foldl evict s) g ∧ Sized numBlocks (hs.foldl evict s) ∧
      (hs.foldl evict s).blocks.size + hs.length = s.blocks.size ∧
      ∀ k ∈ (hs.foldl evict s).blocks.keys, k ∈ s.blocks.keys := by
  induction hs generalizing s with
  | nil => exact ⟨ha, hI, rfl, fun _ hk => hk⟩
  | cons h hs ih =>
    obtain ⟨hout, hnodup⟩ := nodup_cons.mp hnodup
    obtain ⟨⟨block, hblock, hz⟩, hzero⟩ := forall_mem_cons.mp hzero
    have hone : s.evict h = { s with backend := s.backend.free block, blocks := s.blocks.erase h } := by
      unfold evict
      rw [hblock]
    have ha₁ : view.Agrees (s.evict h) g := by
      rw [hone]
      exact (removes_erase hblock).agrees ha fun hc => hc.evict hz
    have hzero₁ : ∀ k ∈ hs, ∃ block, (s.evict h).blocks.get? k = some block ∧ block.refCnt = 0 := by
      intro k hk
      have hne : k ≠ h := fun heq => hout (heq ▸ hk)
      rw [hone]
      simpa only [get?_erase_of_ne _ hne] using hzero k hk
    obtain ⟨ha', hI', hsize, hkeys⟩ := ih ha₁ (by rw [hone]; exact hI) hnodup hzero₁
    have hlen := (entries_perm_erase hblock).length_eq
    refine ⟨ha', hI', ?_, fun k hk => ?_⟩
    · rw [hone] at hsize
      rw [foldl_cons, hone]
      simp only [length_cons, Dict.size] at hlen hsize ⊢
      omega
    · have hin := hkeys k hk
      rw [hone] at hin
      exact (mem_keys_erase.mp hin).2

/-! ## Stores -/

theorem entries_setBlock {e : H × CPUBlockStatus} (he : e.1 ∉ (view.entries s).map Prod.fst) :
    (view.entries (s.setBlock e.1 e.2)).Perm (e :: view.entries s) := by
  have hset := Dict.entries_set_perm s.blocks e.1 e.2
  rwa [Dict.erase_of_not_mem he] at hset

theorem storeBlocks_ok {toStore toEvict : List H} (ha : view.Agrees (toEvict.foldl evict s) g)
    (hI : Sized numBlocks (toEvict.foldl evict s)) (hnodup : toStore.Nodup)
    (hfresh : ∀ h ∈ toStore, h ∉ (toEvict.foldl evict s).blocks.keys)
    (hroom : toStore.length ≤ (toEvict.foldl evict s).backend.getNumFreeBlocks) :
    ∃ ids s', storeBlocks toStore toEvict s = (.ok (some
        { blockHashesToStore := toStore, storeSpec := ids, blockHashesEvicted := toEvict }), s') ∧
      Sized numBlocks s' ∧ view.Agrees s' (g.store toStore ids) := by
  unfold storeBlocks
  rw [modify_bind, modify_bind]
  generalize toEvict.foldl evict s = s₁ at ha hI hfresh hroom
  obtain ⟨ids, b, hcall, hlen, hsize, hle, hids⟩ := CPUBackend.allocateBlocks_ok hroom
  have hzoom : ∀ s₂ : LRU H, s₂.backend = s₁.backend →
      (CPUBackend.allocateBlocks toStore.length).zoom LRU.backend (fun backend s => { s with backend }) s₂ =
        (.ok (ids.map fun id => { blockId := id }), { s₂ with backend := b }) := by
    intro s₂ hs₂
    unfold Call.zoom
    rw [hs₂, hcall]
  rw [bind_of_ok (hzoom { s₁ with events := noteEvent s₁.backend.blockSize true toEvict s₁.events } rfl),
    check_bind (by simpa using hlen), modify_bind]
  have hspec : (ids.map fun id => ({ blockId := id } : CPUBlockStatus)).map (·.blockId) = ids := by
    rw [List.map_map]
    exact map_id _
  rw [hspec]
  have hkeys := Consistent.map_fst_zip_ids hlen
  obtain ⟨hperm, hsame⟩ := inserts_of_turns (v := view)
    (m := { s₁ with backend := b, events := noteEvent s₁.backend.blockSize true toEvict s₁.events })
    entries_setBlock (fun _ _ => rfl) (hkeys.symm ▸ hnodup)
    fun e he => hfresh e.1 (hkeys ▸ mem_map.mpr ⟨e, he, rfl⟩)
  refine ⟨ids, _, rfl, (congrArg CPUBackend.numBlocks hsame).trans (hsize.trans hI), ?_⟩
  unfold View.Agrees
  rw [hsame]
  exact (Consistent.allocate ha hnodup hfresh hlen hle hids).perm hperm

theorem prepareStore_ok {hs : List H} (ha : view.Agrees s g) (hI : Sized numBlocks s) (hnodup : hs.Nodup) :
    ∃ out s', prepareStore hs s = (.ok out, s') ∧ Sized numBlocks s' ∧ match out with
      | none => view.Agrees s' g
      | some out => view.Agrees s' (g.store out.blockHashesToStore out.storeSpec) := by
  unfold prepareStore
  rw [get_bind]
  generalize htoStore : (hs.filter fun h => !s.blocks.contains h) = toStore
  have hnodup' : toStore.Nodup := htoStore ▸ hnodup.filter _
  have hfresh : ∀ h ∈ toStore, h ∉ s.blocks.keys := by
    intro h hh
    rw [← htoStore] at hh
    have hno := (mem_filter.mp hh).2
    rw [mem_keys_iff]
    simpa [Dict.contains] using hno
  split
  · next hevict =>
    cases hfind : findEvictions hs (toStore.length - s.backend.getNumFreeBlocks) s.blocks.entries with
    | none => exact ⟨none, s, rfl, hI, ha⟩
    | some toEvict =>
      obtain ⟨hlen, hsub, hzero⟩ := findEvictions_some hevict hfind
      obtain ⟨ha₁, hI₁, hsize, hkeys⟩ := evictions_agrees ha hI (hsub.nodup s.blocks.nodup) fun h hh => by
        obtain ⟨block, hin, hz⟩ := hzero h hh
        exact ⟨block, get?_eq_some_iff.mpr hin, hz⟩
      have hroom : toStore.length ≤ (toEvict.foldl evict s).backend.getNumFreeBlocks := by
        have hbefore := Consistent.numFree ha
        have hafter := Consistent.numFree ha₁
        have hsame : (view.backend (toEvict.foldl evict s)).numBlocks = (view.backend s).numBlocks :=
          hI₁.trans hI.symm
        simp only [Dict.size] at hsize
        simp only [view] at hbefore hafter hsame
        omega
      obtain ⟨ids, s', hcall, hI', ha'⟩ := storeBlocks_ok ha₁ hI₁ hnodup'
        (fun h hh hin => hfresh h hh (hkeys h hin)) hroom
      exact ⟨_, s', hcall, hI', ha'⟩
  · next hfits =>
    obtain ⟨ids, s', hcall, hI', ha'⟩ := @storeBlocks_ok _ _ s g numBlocks toStore [] ha hI hnodup' hfresh
      (by change toStore.length ≤ s.backend.getNumFreeBlocks; omega)
    exact ⟨_, s', hcall, hI', ha'⟩

theorem markStored_turn {s : LRU H} (hI : Sized numBlocks s) (hblock : s.blocks.get? h = some block)
    (hready : block.isReady = false) : ∃ s', markStored h s = (.ok (some h), s') ∧
      Changes view h block { block with refCnt := 0 } s s' ∧ Sized numBlocks s' := by
  refine ⟨_, ?_, changes_setBlock hblock, hI⟩
  unfold markStored
  rw [bind_of_ok (blockOf_eq hblock), hready]
  rfl

theorem lawful : Lawful manager view (Sized (H := H) numBlocks) where
  touch hs ha hI := touch_agrees hs ha hI
  prepareLoad ha hI hnodup hready := by
    refine loads_of_turns (fun hI hblock hready => ?_) ha hI hnodup hready
    refine ⟨_, ?_, changes_setBlock hblock, hI⟩
    rw [bind_of_ok (blockOf_eq hblock), check_bind hready]
    rfl
  completeLoad ha hI hnodup hin := by
    refine unloads_of_turns (fun hI hblock hpos => ?_) (fun hblock hpos => ?_) ha hI hnodup hin
    · refine ⟨_, ?_, changes_setBlock hblock, hI⟩
      rw [bind_of_ok (blockOf_eq hblock), check_bind (by simpa using hpos)]
      rfl
    · refine ⟨.assertionError "block.ref_cnt > 0", ?_⟩
      rw [bind_of_ok (blockOf_eq hblock), check_bind_error (by simpa using hpos)]
  prepareStore ha hI hnodup := prepareStore_ok ha hI hnodup
  completeStore {m g hs} success ha hI hnodup hin := by
    change ∃ m', completeStore hs success m = (.ok (), m') ∧ _
    unfold completeStore
    cases success with
    | true =>
      obtain ⟨m', hloop, ha', hI'⟩ := stored_of_turns markStored_turn ha hI hnodup hin
      rw [if_pos rfl, bind_of_ok hloop]
      exact ⟨_, rfl, ha', hI'⟩
    | false =>
      refine failed_of_turns (fun hI hblock hready => ?_) ha hI hnodup hin
      refine ⟨_, ?_, removes_erase hblock, hI⟩
      unfold dropFailed
      rw [bind_of_ok (blockOf_eq hblock), hready]
      rfl

end LRU
end Vllm.Offload
