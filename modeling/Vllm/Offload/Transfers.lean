import Vllm.Base.Run
import Vllm.Offload.Managers

/-! The transfers of a manager of offloaded blocks, and what they ask of it. A transfer is a hash with
the block id that the manager gave out for it. The blocks of a manager are listed as entries; their
order, and for the adaptive manager the list they are in, does not matter here. -/

namespace Vllm.Offload
open Base List

variable {H : Type} [DecidableEq H]

abbrev Entries (H : Type) := List (H × CPUBlockStatus)

structure Transfers (H : Type) where
  storing : List (H × Nat) := []
  loading : List (H × Nat) := []

namespace Transfers

def keys (ts : List (H × Nat)) : List H := ts.map Prod.fst

def numLoads (g : Transfers H) (h : H) : Nat := (keys g.loading).count h

def store (g : Transfers H) (hs : List H) (ids : List Nat) : Transfers H :=
  { g with storing := g.storing ++ hs.zip ids }

def stored (g : Transfers H) (hs : List H) : Transfers H :=
  { g with storing := g.storing.filter (·.1 ∉ hs) }

def load (g : Transfers H) (hs : List H) (ids : List Nat) : Transfers H :=
  { g with loading := g.loading ++ hs.zip ids }

def unloadOne (g : Transfers H) (h : H) : Transfers H :=
  { g with loading := g.loading.eraseP (·.1 = h) }

def unload (g : Transfers H) (hs : List H) : Transfers H := hs.foldl unloadOne g

end Transfers

/-! ## Reference counts -/

/-- The reference count of a block says what is done with it: `-1` while it is stored, then the
number of its loads, which fits the field up to the load that makes it look unready. -/
def Tracks (g : Transfers H) (h : H) (refCnt : Int) : Prop :=
  if h ∈ Transfers.keys g.storing then refCnt = -1 ∧ g.numLoads h = 0
  else refCnt = toInt32 (g.numLoads h) ∧ g.numLoads h ≤ 2 ^ 31

variable {g : Transfers H} {h : H} {n : Int}

theorem tracks_of_loads (hstoring : h ∉ Transfers.keys g.storing) (hn : n = toInt32 (g.numLoads h))
    (hle : g.numLoads h ≤ 2 ^ 31) : Tracks g h n := by
  rw [Tracks, if_neg hstoring]
  exact ⟨hn, hle⟩

theorem toInt32_of_lt {n : Nat} (h : n < 2 ^ 31) : toInt32 n = n := by
  unfold toInt32
  rw [Int.bmod_def]
  omega

theorem toInt32_top : toInt32 (2 ^ 31 : Nat) = -(2 ^ 31) := by decide

theorem numLoads_of_zero (ht : Tracks g h 0) : h ∉ Transfers.keys g.storing ∧ g.numLoads h = 0 := by
  unfold Tracks at ht
  split at ht
  · omega
  · next hstoring =>
    refine ⟨hstoring, ?_⟩
    rcases Nat.lt_or_ge (g.numLoads h) (2 ^ 31) with hlt | hge
    · rw [toInt32_of_lt hlt] at ht
      omega
    · rw [Nat.le_antisymm ht.2 hge, toInt32_top] at ht
      omega

theorem numLoads_of_nonneg (ht : Tracks g h n) (hn : 0 ≤ n) :
    h ∉ Transfers.keys g.storing ∧ n = g.numLoads h ∧ g.numLoads h < 2 ^ 31 := by
  unfold Tracks at ht
  split at ht
  · omega
  · next hstoring =>
    rcases Nat.lt_or_ge (g.numLoads h) (2 ^ 31) with hlt | hge
    · rw [toInt32_of_lt hlt] at ht
      exact ⟨hstoring, ht.1, hlt⟩
    · rw [Nat.le_antisymm ht.2 hge, toInt32_top] at ht
      omega

structure Transfers.SameAt (h : H) (g g' : Transfers H) : Prop where
  storing : h ∈ keys g'.storing ↔ h ∈ keys g.storing
  loads : g'.numLoads h = g.numLoads h

theorem Tracks.same {g' : Transfers H} (ht : Tracks g h n) (hsame : Transfers.SameAt h g g') :
    Tracks g' h n := by
  unfold Tracks at ht ⊢
  simpa only [hsame.storing, hsame.loads] using ht

namespace Transfers
variable {g : Transfers H} {h k : H}

theorem mem_keys_stored {hs : List H} :
    k ∈ keys (g.stored hs).storing ↔ k ∉ hs ∧ k ∈ keys g.storing := by
  simp only [keys, stored, mem_map, mem_filter, decide_eq_true_eq]
  constructor
  · rintro ⟨x, ⟨hx, hout⟩, rfl⟩
    exact ⟨hout, x, hx, rfl⟩
  · rintro ⟨hout, x, hx, rfl⟩
    exact ⟨x, ⟨hx, hout⟩, rfl⟩

theorem sameAt_stored (hne : k ≠ h) : SameAt k g (g.stored [h]) :=
  ⟨by simp [mem_keys_stored, hne], rfl⟩

theorem numLoads_load {id : Nat} :
    (g.load [h] [id]).numLoads k = g.numLoads k + if k = h then 1 else 0 := by
  have hkeys : keys (g.load [h] [id]).loading = keys g.loading ++ [h] := map_append
  rw [numLoads, hkeys, numLoads]
  by_cases hk : k = h
  · simp [hk]
  · simp [hk, Ne.symm hk]

theorem sameAt_load {id : Nat} (hne : k ≠ h) : SameAt k g (g.load [h] [id]) :=
  ⟨Iff.rfl, by rw [numLoads_load, if_neg hne]; rfl⟩

theorem keys_unloadOne : keys (g.unloadOne h).loading = (keys g.loading).erase h := by
  unfold keys unloadOne
  induction g.loading with
  | nil => rfl
  | cons x xs ih =>
    by_cases hx : x.1 = h
    · rw [eraseP_cons_of_pos (by simpa using hx), map_cons, hx, erase_cons_head]
    · rw [eraseP_cons_of_neg (by simpa using hx), map_cons, map_cons, ih,
        erase_cons_tail (by simpa using hx)]

theorem numLoads_unloadOne :
    (g.unloadOne h).numLoads k = g.numLoads k - if k = h then 1 else 0 := by
  unfold numLoads
  rw [keys_unloadOne]
  by_cases hk : k = h
  · simp [hk]
  · simp [hk]

theorem sameAt_unloadOne (hne : k ≠ h) : SameAt k g (g.unloadOne h) :=
  ⟨Iff.rfl, by rw [numLoads_unloadOne, if_neg hne]; rfl⟩

end Transfers

/-! ## Allocation -/

theorem CPUBackend.popMany_perm {n : Nat} {ids : List Nat} (h : n ≤ ids.length) :
    ((popMany n ids).1 ++ (popMany n ids).2).Perm ids ∧ (popMany n ids).1.length = n := by
  induction n generalizing ids with
  | zero => exact ⟨.refl _, rfl⟩
  | succ n ih =>
    have hne : ids ≠ [] := by
      rintro rfl
      cases h
    have hlast := getLast?_eq_getLast_of_ne_nil hne
    obtain ⟨hperm, hlen⟩ := @ih ids.dropLast (by rw [length_dropLast]; omega)
    unfold popMany
    simp only [hlast]
    refine ⟨?_, congrArg (· + 1) hlen⟩
    have hback : (ids.getLast hne :: ids.dropLast).Perm ids := by
      conv_rhs => rw [← dropLast_append_getLast hne]
      exact (perm_append_singleton _ _).symm
    exact (hperm.cons _).trans hback

theorem CPUBackend.allocateBlocks_ok {n : Nat} {b : CPUBackend} (h : n ≤ b.getNumFreeBlocks) :
    ∃ ids b', allocateBlocks n b = (.ok (ids.map fun id => { blockId := id }), b') ∧
      ids.length = n ∧ b'.numBlocks = b.numBlocks ∧ b.numAllocatedBlocks ≤ b'.numAllocatedBlocks ∧
      (ids ++ b'.allocatedBlocksFreeList).Perm (b.allocatedBlocksFreeList ++
        List.range' b.numAllocatedBlocks (b'.numAllocatedBlocks - b.numAllocatedBlocks)) := by
  unfold getNumFreeBlocks at h
  generalize hfresh : min n (b.numBlocks - b.numAllocatedBlocks) = fresh
  have henough : n - fresh ≤ b.allocatedBlocksFreeList.length := by omega
  obtain ⟨hperm, hlen⟩ := popMany_perm henough
  refine ⟨List.range' b.numAllocatedBlocks fresh ++ (popMany (n - fresh) b.allocatedBlocksFreeList).1,
    { b with
      numAllocatedBlocks := b.numAllocatedBlocks + fresh
      allocatedBlocksFreeList := (popMany (n - fresh) b.allocatedBlocksFreeList).2
      allocated_le := by have := b.allocated_le; omega }, ?_, ?_, rfl, Nat.le_add_right _ _, ?_⟩
  · unfold allocateBlocks
    rw [Call.get_bind]
    subst hfresh
    rw [Call.check_bind (by simpa using henough)]
    rfl
  · rw [length_append, length_range', hlen]
    omega
  · rw [Nat.add_sub_cancel_left, append_assoc]
    exact perm_append_comm.trans (hperm.append_right _)

/-! ## Consistent blocks -/

structure Consistent (es : Entries H) (b : CPUBackend) (g : Transfers H) : Prop where
  keys : (es.map Prod.fst).Nodup
  ids : (es.map (·.2.blockId) ++ b.allocatedBlocksFreeList).Perm (List.range b.numAllocatedBlocks)
  tracks : ∀ e ∈ es, Tracks g e.1 e.2.refCnt
  resident : ∀ x ∈ g.storing ++ g.loading, ∃ block, (x.1, block) ∈ es ∧ block.blockId = x.2
  storing : (Transfers.keys g.storing).Nodup

namespace Consistent
variable {es es' : Entries H} {b : CPUBackend} {g : Transfers H} {h : H} {block : CPUBlockStatus}

section
variable (hc : Consistent es b g)
include hc

theorem perm (hes : es'.Perm es) : Consistent es' b g where
  keys := (hes.map _).nodup_iff.mpr hc.keys
  ids := ((hes.map _).append_right _).trans hc.ids
  tracks e he := hc.tracks e (hes.subset he)
  resident x hx := by
    obtain ⟨block, hin, hid⟩ := hc.resident x hx
    exact ⟨block, hes.symm.subset hin, hid⟩
  storing := hc.storing

theorem numFree : es.length + b.getNumFreeBlocks = b.numBlocks := by
  have hlen := hc.ids.length_eq
  have hle := b.allocated_le
  rw [length_append, length_map, length_range] at hlen
  unfold CPUBackend.getNumFreeBlocks
  omega

theorem blockId_lt {e : H × CPUBlockStatus} (he : e ∈ es) : e.2.blockId < b.numBlocks := by
  have hin : e.2.blockId ∈ List.range b.numAllocatedBlocks :=
    hc.ids.subset (mem_append_left _ (mem_map.mpr ⟨e, he, rfl⟩))
  exact (mem_range.mp hin).trans_le b.allocated_le

end

section
variable (hc : Consistent ((h, block) :: es) b g)
include hc

theorem resident_rest {x : H × Nat} (hx : x ∈ g.storing ++ g.loading) (hne : x.1 ≠ h) :
    ∃ block, (x.1, block) ∈ es ∧ block.blockId = x.2 := by
  obtain ⟨block', hin, hid⟩ := hc.resident x hx
  rcases mem_cons.mp hin with heq | hin
  · exact absurd (Prod.mk.inj heq).1 hne
  · exact ⟨block', hin, hid⟩

theorem not_mem_rest : h ∉ es.map Prod.fst :=
  (nodup_cons.mp hc.keys).1

theorem tracks_head : Tracks g h block.refCnt := hc.tracks (h, block) mem_cons_self

theorem numLoads_of_storing (hin : h ∈ Transfers.keys g.storing) : g.numLoads h = 0 := by
  have htracks := hc.tracks_head
  rw [Tracks, if_pos hin] at htracks
  exact htracks.2

theorem drop {g' : Transfers H}
    (hstoring : g'.storing.Sublist g.storing) (hloading : g'.loading = g.loading)
    (hout : h ∉ Transfers.keys (g'.storing ++ g'.loading))
    (hsame : ∀ k, k ≠ h → Transfers.SameAt k g g') : Consistent es (b.free block) g' where
  keys := (nodup_cons.mp hc.keys).2
  ids := by
    have hids := hc.ids
    refine List.Perm.trans ?_ hids
    rw [CPUBackend.free, ← append_assoc]
    exact perm_append_singleton _ _
  tracks e he := by
    have hne : e.1 ≠ h := fun heq => hc.not_mem_rest (heq ▸ mem_map.mpr ⟨e, he, rfl⟩)
    exact (hc.tracks e (mem_cons_of_mem _ he)).same (hsame _ hne)
  resident x hx := by
    have hne : x.1 ≠ h := fun heq => hout (heq ▸ mem_map.mpr ⟨x, hx, rfl⟩)
    rw [hloading] at hx
    exact hc.resident_rest ((hstoring.append_right _).subset hx) hne
  storing := hc.storing.sublist (hstoring.map _)

theorem evict (hzero : block.refCnt = 0) : Consistent es (b.free block) g := by
  have htracks := hc.tracks_head
  rw [hzero] at htracks
  obtain ⟨hstoring, hloads⟩ := numLoads_of_zero htracks
  refine hc.drop (List.Sublist.refl _) rfl ?_ fun k _ => ⟨Iff.rfl, rfl⟩
  rw [Transfers.keys, map_append, mem_append, not_or]
  exact ⟨hstoring, count_eq_zero.mp hloads⟩

theorem failed (hin : h ∈ Transfers.keys g.storing) :
    Consistent es (b.free block) (g.stored [h]) := by
  refine hc.drop filter_sublist rfl ?_ fun k hne => Transfers.sameAt_stored hne
  rw [Transfers.keys, map_append, mem_append, not_or]
  exact ⟨fun hk => (Transfers.mem_keys_stored.mp hk).1 mem_cons_self,
    count_eq_zero.mp (hc.numLoads_of_storing hin)⟩

theorem change {g' : Transfers H} {n : Int}
    (htracks : Tracks g' h n) (hsame : ∀ k, k ≠ h → Transfers.SameAt k g g')
    (hold : ∀ x ∈ g'.storing ++ g'.loading, x ∈ g.storing ++ g.loading ∨ x = (h, block.blockId))
    (hstoring : (Transfers.keys g'.storing).Nodup) :
    Consistent ((h, { block with refCnt := n }) :: es) b g' where
  keys := hc.keys
  ids := hc.ids
  tracks e he := by
    rcases mem_cons.mp he with rfl | he
    · exact htracks
    · have hne : e.1 ≠ h := fun heq => hc.not_mem_rest (heq ▸ mem_map.mpr ⟨e, he, rfl⟩)
      exact (hc.tracks e (mem_cons_of_mem _ he)).same (hsame _ hne)
  resident x hx := by
    rcases hold x hx with hx | rfl
    · by_cases heq : x.1 = h
      · obtain ⟨block', hin, hid⟩ := hc.resident x hx
        rcases mem_cons.mp hin with hhead | hin
        · refine ⟨_, by rw [heq]; exact mem_cons_self, ?_⟩
          rw [← hid, (Prod.mk.inj hhead).2]
        · exact absurd (mem_map.mpr ⟨_, hin, heq⟩) hc.not_mem_rest
      · obtain ⟨block', hin, hid⟩ := hc.resident_rest hx heq
        exact ⟨block', mem_cons_of_mem _ hin, hid⟩
    · exact ⟨_, mem_cons_self, rfl⟩
  storing := hstoring

theorem load (hready : block.isReady = true) :
    Consistent ((h, { block with refCnt := toInt32 (block.refCnt + 1) }) :: es) b
      (g.load [h] [block.blockId]) := by
  obtain ⟨hstoring, hcnt, hlt⟩ :=
    numLoads_of_nonneg hc.tracks_head (by simpa [CPUBlockStatus.isReady] using hready)
  refine hc.change ?_ (fun k hne => Transfers.sameAt_load hne) (fun x hx => ?_) hc.storing
  · refine tracks_of_loads (g := g.load [h] [block.blockId]) hstoring ?_ ?_
    · rw [Transfers.numLoads_load, if_pos rfl, hcnt]
      rfl
    · rw [Transfers.numLoads_load, if_pos rfl]
      exact hlt
  · rw [Transfers.load, ← append_assoc, mem_append] at hx
    exact hx.imp_right mem_singleton.mp

theorem unload (hpos : 0 < block.refCnt) :
    Consistent ((h, { block with refCnt := toInt32 (block.refCnt - 1) }) :: es) b (g.unloadOne h) := by
  obtain ⟨hstoring, hcnt, hlt⟩ := numLoads_of_nonneg hc.tracks_head hpos.le
  refine hc.change ?_ (fun k hne => Transfers.sameAt_unloadOne hne) (fun x hx => ?_) hc.storing
  · have hloads := @Transfers.numLoads_unloadOne _ _ g h h
    rw [if_pos rfl] at hloads
    refine tracks_of_loads (g := g.unloadOne h) hstoring (congrArg toInt32 ?_) ?_
    · omega
    · omega
  · exact .inl ((eraseP_sublist.append_left _).subset hx)

theorem stored (hin : h ∈ Transfers.keys g.storing) :
    Consistent ((h, { block with refCnt := 0 }) :: es) b (g.stored [h]) := by
  refine hc.change ?_ (fun k hne => Transfers.sameAt_stored hne) (fun x hx => ?_)
    (hc.storing.sublist (filter_sublist.map _))
  · have hloads : (g.stored [h]).numLoads h = 0 := hc.numLoads_of_storing hin
    refine tracks_of_loads (fun hk => (Transfers.mem_keys_stored.mp hk).1 mem_cons_self) ?_ ?_
    · rw [hloads]
      rfl
    · rw [hloads]
      exact Nat.zero_le _
  · exact .inl ((filter_sublist.append_right _).subset hx)

end

omit [DecidableEq H] in
theorem map_fst_zip_ids {hs : List H} {ids : List Nat} (hlen : ids.length = hs.length) :
    (hs.zip (ids.map fun id => ({ blockId := id } : CPUBlockStatus))).map Prod.fst = hs :=
  map_fst_zip (by rw [length_map, hlen])

theorem allocate {hs : List H} {ids : List Nat} {b' : CPUBackend} (hc : Consistent es b g)
    (hnodup : hs.Nodup) (hfresh : ∀ h ∈ hs, h ∉ es.map Prod.fst) (hlen : ids.length = hs.length)
    (hle : b.numAllocatedBlocks ≤ b'.numAllocatedBlocks)
    (hids : (ids ++ b'.allocatedBlocksFreeList).Perm (b.allocatedBlocksFreeList ++
      List.range' b.numAllocatedBlocks (b'.numAllocatedBlocks - b.numAllocatedBlocks))) :
    Consistent (hs.zip (ids.map fun id => { blockId := id }) ++ es) b' (g.store hs ids) := by
  have hkeys := map_fst_zip_ids hlen
  have hstores : Transfers.keys (g.store hs ids).storing = Transfers.keys g.storing ++ hs := by
    unfold Transfers.keys Transfers.store
    rw [map_append, map_fst_zip (by rw [hlen])]
  -- a hash that is being stored has a block
  have hold : ∀ h ∈ Transfers.keys g.storing, h ∈ es.map Prod.fst := by
    intro h hin
    obtain ⟨x, hx, rfl⟩ := mem_map.mp hin
    obtain ⟨block, hin, -⟩ := hc.resident x (mem_append_left _ hx)
    exact mem_map.mpr ⟨_, hin, rfl⟩
  refine ⟨?_, ?_, fun e he => ?_, fun x hx => ?_, ?_⟩
  · rw [map_append, hkeys, nodup_append]
    refine ⟨hnodup, hc.keys, ?_⟩
    rintro h hin k hk rfl
    exact hfresh h hin hk
  · have hnew : (hs.zip (ids.map fun id => ({ blockId := id } : CPUBlockStatus))).map (·.2.blockId) =
        ids := by
      rw [show (fun e : H × CPUBlockStatus => e.2.blockId) = CPUBlockStatus.blockId ∘ Prod.snd from rfl,
        ← map_map, map_snd_zip (by rw [length_map, hlen]), map_map]
      exact map_id _
    have hrange : List.range b'.numAllocatedBlocks = List.range b.numAllocatedBlocks ++
        List.range' b.numAllocatedBlocks (b'.numAllocatedBlocks - b.numAllocatedBlocks) := by
      have happend := @range'_append_1 0 b.numAllocatedBlocks
        (b'.numAllocatedBlocks - b.numAllocatedBlocks)
      rw [Nat.zero_add, Nat.add_sub_cancel' hle] at happend
      rw [range_eq_range', range_eq_range', happend]
    have hswap : (ids ++ es.map (·.2.blockId) ++ b'.allocatedBlocksFreeList).Perm
        (es.map (·.2.blockId) ++ (ids ++ b'.allocatedBlocksFreeList)) := by
      rw [← append_assoc]
      exact perm_append_comm.append_right _
    rw [map_append, hnew, hrange]
    refine hswap.trans ((hids.append_left _).trans ?_)
    rw [← append_assoc]
    exact hc.ids.append_right _
  · rcases mem_append.mp he with hnew | hin
    · have hh : e.1 ∈ hs := hkeys ▸ mem_map.mpr ⟨e, hnew, rfl⟩
      have hcnt : e.2.refCnt = -1 := by
        obtain ⟨id, -, hid⟩ := mem_map.mp (of_mem_zip hnew).2
        rw [← hid]
      have hloads : g.numLoads e.1 = 0 := by
        refine count_eq_zero.mpr fun hin => ?_
        obtain ⟨x, hx, heq⟩ := mem_map.mp hin
        obtain ⟨block, hin, -⟩ := hc.resident x (mem_append_right _ hx)
        exact hfresh e.1 hh (heq ▸ mem_map.mpr ⟨_, hin, rfl⟩)
      rw [Tracks, if_pos (hstores ▸ mem_append_right _ hh)]
      exact ⟨hcnt, hloads⟩
    · have hh : e.1 ∉ hs := fun hh => hfresh e.1 hh (mem_map.mpr ⟨e, hin, rfl⟩)
      refine (hc.tracks e hin).same ⟨?_, rfl⟩
      rw [hstores, mem_append, or_iff_left hh]
  · have hcases : x ∈ g.storing ++ g.loading ∨ x ∈ hs.zip ids := by
      rcases mem_append.mp hx with hx | hx
      · exact (mem_append.mp hx).imp_left (mem_append_left _)
      · exact .inl (mem_append_right _ hx)
    rcases hcases with hx | hx
    · obtain ⟨block, hin, hid⟩ := hc.resident x hx
      exact ⟨block, mem_append_right _ hin, hid⟩
    · refine ⟨{ blockId := x.2 }, mem_append_left _ ?_, rfl⟩
      rw [zip_map_right]
      exact mem_map.mpr ⟨x, hx, rfl⟩
  · rw [hstores, nodup_append]
    refine ⟨hc.storing, hnodup, ?_⟩
    rintro h hin k hk rfl
    exact hfresh h hk (hold h hin)

end Consistent
end Vllm.Offload
