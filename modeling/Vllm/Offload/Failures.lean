import Vllm.Offload.Arc

/-! A store that failed. `LRUOffloadingManager` gives up the blocks that are not ready and no others;
`ARCOffloadingManager` takes every block of the call out of its lists and frees those that are not
ready, so a ready block is lost. -/

namespace Vllm.Offload
open Base LRU ARC List

variable {H M : Type} [DecidableEq H]

def Stays (hs : List H) (e : H × CPUBlockStatus) : Bool := decide (e.1 ∉ hs) || e.2.isReady

/-- The blocks of `hs` that are not ready are gone and their ids are free; the others are left. -/
structure DropsUnready (v : View H M) (hs : List H) (m m' : M) : Prop where
  entries : (v.entries m').Perm ((v.entries m).filter (Stays hs))
  free : ∃ ids, (v.backend m').allocatedBlocksFreeList =
      (v.backend m).allocatedBlocksFreeList ++ ids ∧
    ids.Perm (((v.entries m).filter fun e => !Stays hs e).map (·.2.blockId))
  allocated : (v.backend m').numAllocatedBlocks = (v.backend m).numAllocatedBlocks

/-- Every id that was allocated is free or has a block. -/
def KeepsIds (v : View H M) (m : M) : Prop :=
  ((v.entries m).map (·.2.blockId) ++ (v.backend m).allocatedBlocksFreeList).Perm
    (List.range (v.backend m).numAllocatedBlocks)

section
variable {v : View H M} {m m₁ m' : M} {hs : List H} {h : H} {block : CPUBlockStatus}

theorem DropsUnready.keepsIds (hd : DropsUnready v hs m m') (hk : KeepsIds v m) :
    KeepsIds v m' := by
  obtain ⟨ids, hfree, hids⟩ := hd.free
  unfold KeepsIds
  rw [hd.allocated, hfree]
  have hsplit := (filter_append_perm (Stays hs) (v.entries m)).map (·.2.blockId)
  rw [map_append] at hsplit
  refine ((hd.entries.map _).append (hids.append_left _)).trans (Perm.trans ?_ hk)
  exact (perm_append_comm.append_left _).trans
    ((Perm.of_eq (append_assoc ..).symm).trans (hsplit.append_right _))

theorem stays_cons {e : H × CPUBlockStatus} (he : e.1 = h → e.2.isReady = true) :
    Stays (h :: hs) e = Stays hs e := by
  unfold Stays
  by_cases heq : e.1 = h
  · rw [he heq, Bool.or_true, Bool.or_true]
  · simp [heq]

theorem DropsUnready.cons_ready (hkeys : ((v.entries m).map Prod.fst).Nodup)
    (hblock : (h, block) ∈ v.entries m) (hready : block.isReady = true)
    (hd : DropsUnready v hs m m') : DropsUnready v (h :: hs) m m' := by
  have hsame : ∀ e ∈ v.entries m, Stays (h :: hs) e = Stays hs e := by
    intro e he
    apply stays_cons
    intro heq
    rw [inj_on_of_nodup_map hkeys he hblock heq]
    exact hready
  obtain ⟨ids, hfree, hids⟩ := hd.free
  refine ⟨?_, ⟨ids, hfree, ?_⟩, hd.allocated⟩
  · rw [filter_congr hsame]
    exact hd.entries
  · rw [filter_congr fun e he => congrArg (!·) (hsame e he)]
    exact hids

theorem DropsUnready.cons_unready (hkeys : ((v.entries m).map Prod.fst).Nodup)
    (hrm : Removes v h block m m₁) (hready : block.isReady = false)
    (hd : DropsUnready v hs m₁ m') : DropsUnready v (h :: hs) m m' := by
  have hout : h ∉ (v.entries m₁).map Prod.fst :=
    (nodup_cons.mp ((hrm.rest.map Prod.fst).nodup_iff.mp hkeys)).1
  have hsame : ∀ e ∈ v.entries m₁, Stays (h :: hs) e = Stays hs e := fun e he =>
    stays_cons fun heq => absurd (mem_map.mpr ⟨e, he, heq⟩) hout
  have hhead : Stays (h :: hs) (h, block) = false := by simp [Stays, hready]
  obtain ⟨ids, hfree, hids⟩ := hd.free
  refine ⟨?_, ⟨block.blockId :: ids, ?_, ?_⟩, ?_⟩
  · have hrest := hrm.rest.filter (Stays (h :: hs))
    rw [filter_cons_of_neg (by rw [hhead]; exact Bool.false_ne_true), filter_congr hsame] at hrest
    exact hd.entries.trans hrest.symm
  · rw [hfree, hrm.backend, CPUBackend.free, append_assoc, singleton_append]
  · have hrest := (hrm.rest.filter fun e => !Stays (h :: hs) e).map (·.2.blockId)
    rw [filter_cons_of_pos (by rw [hhead]; rfl),
      filter_congr fun e he => congrArg (!·) (hsame e he)] at hrest
    exact (hids.cons _).trans hrest.symm
  · rw [hd.allocated, hrm.backend, CPUBackend.free]

theorem rest_of_perm {es es' : Entries H} (hrest : es.Perm ((h, block) :: es'))
    (hkeys : (es.map Prod.fst).Nodup) (hnodup : (h :: hs).Nodup)
    (hin : ∀ k ∈ h :: hs, k ∈ es.map Prod.fst) :
    h ∉ es'.map Prod.fst ∧ (es'.map Prod.fst).Nodup ∧ ∀ k ∈ hs, k ∈ es'.map Prod.fst := by
  have hperm := hrest.map Prod.fst
  obtain ⟨hgone, hkeys'⟩ := nodup_cons.mp (hperm.nodup_iff.mp hkeys)
  refine ⟨hgone, hkeys', fun k hk => ?_⟩
  have hk' := mem_cons.mp (hperm.subset (hin k (mem_cons_of_mem _ hk)))
  exact hk'.resolve_left fun (heq : k = h) => (nodup_cons.mp hnodup).1 (heq ▸ hk)

theorem dropsUnready_of_turns {I : M → Prop} {f : H → Call PyError M Unit}
    (hturn : ∀ {h m block}, I m → v.block m h = some block → (h, block) ∈ v.entries m → h ∈ hs →
      ∃ m₁, f h m = (.ok (), m₁) ∧ I m₁ ∧
        (block.isReady = true ∧ m₁ = m ∨ block.isReady = false ∧ Removes v h block m m₁))
    (hI : I m) (hkeys : ((v.entries m).map Prod.fst).Nodup) (hnodup : hs.Nodup)
    (hin : ∀ h ∈ hs, h ∈ (v.entries m).map Prod.fst) :
    ∃ m', Call.forEach hs f m = (.ok (), m') ∧ DropsUnready v hs m m' := by
  induction hs generalizing m with
  | nil =>
    refine ⟨m, rfl, ?_, ⟨[], (append_nil _).symm, ?_⟩, rfl⟩
    · rw [filter_eq_self.mpr fun e _ => by simp [Stays]]
    · rw [filter_eq_nil_iff.mpr fun e _ => by simp [Stays]]
      exact .refl _
  | cons h hs ih =>
    have hnodup' := (nodup_cons.mp hnodup).2
    obtain ⟨⟨_, block⟩, hblock, rfl⟩ := mem_map.mp (hin h mem_cons_self)
    have hturn' := fun {k m b} hI hb he hk => @hturn k m b hI hb he (mem_cons_of_mem _ hk)
    obtain ⟨m₁, hone, hI₁, hcase⟩ :=
      hturn hI ((Dict.lookup_eq_some_iff hkeys).mpr hblock) hblock mem_cons_self
    rw [Call.forEach, Call.bind_of_ok hone]
    rcases hcase with ⟨hready, rfl⟩ | ⟨hready, hrm⟩
    · obtain ⟨m', hloop, hd⟩ :=
        ih hturn' hI hkeys hnodup' fun k hk => hin k (mem_cons_of_mem _ hk)
      exact ⟨m', hloop, hd.cons_ready hkeys hblock hready⟩
    · obtain ⟨-, hkeys₁, hin₁⟩ := rest_of_perm hrm.rest hkeys hnodup hin
      obtain ⟨m', hloop, hd⟩ := ih hturn' hI₁ hkeys₁ hnodup' hin₁
      exact ⟨m', hloop, hd.cons_unready hkeys hrm hready⟩

end

theorem LRU.dropFailed_turn {s : LRU H} {h : H} {block : CPUBlockStatus}
    (hblock : s.blocks.get? h = some block) : ∃ s', LRU.dropFailed h s = (.ok (), s') ∧
      (block.isReady = true ∧ s' = s ∨ block.isReady = false ∧ Removes LRU.view h block s s') := by
  unfold LRU.dropFailed
  rw [Call.bind_of_ok (blockOf_eq hblock)]
  cases hready : block.isReady with
  | true => exact ⟨s, rfl, .inl ⟨rfl, rfl⟩⟩
  | false => exact ⟨_, rfl, .inr ⟨rfl, removes_erase hblock⟩⟩

theorem ARC.dropFailed_loop {capacity : Nat} {s : ARC H} {hs : List H}
    (hb : ARC.Balanced capacity s) (hkeys : ((ARC.view.entries s).map Prod.fst).Nodup)
    (hnodup : hs.Nodup) (hin : ∀ h ∈ hs, h ∈ (ARC.view.entries s).map Prod.fst) :
    ∃ s', ARC.completeStore hs false s = (.ok (), s') ∧
      ∀ k ∈ (ARC.view.entries s').map Prod.fst, k ∈ (ARC.view.entries s).map Prod.fst ∧ k ∉ hs := by
  induction hs generalizing s with
  | nil => exact ⟨s, rfl, fun k hk => ⟨hk, not_mem_nil⟩⟩
  | cons h hs ih =>
    obtain ⟨⟨_, block⟩, hblock, rfl⟩ := mem_map.mp (hin h mem_cons_self)
    obtain ⟨hrest, -, hb₁⟩ := dropFailed_rest hb ((Dict.lookup_eq_some_iff hkeys).mpr hblock)
    obtain ⟨hgone, hkeys₁, hin₁⟩ := rest_of_perm hrest hkeys hnodup hin
    obtain ⟨s', hloop, hleft⟩ := ih hb₁ hkeys₁ (nodup_cons.mp hnodup).2 hin₁
    have hperm := hrest.map Prod.fst
    refine ⟨s', hloop, fun k hk => ⟨hperm.symm.subset (mem_cons_of_mem _ (hleft k hk).1), ?_⟩⟩
    rw [mem_cons, not_or]
    exact ⟨by rintro rfl; exact hgone (hleft _ hk).1, (hleft k hk).2⟩

/-- A failed store does what it is for with the first manager; with the adaptive one it does exactly
if no block that it names is ready. -/
theorem failed_store_iff (blockSize numBlocks : Nat) (enableEvents : Bool) (ops : Rounding numBlocks) :
    (∀ t, Run (ManagerOp.next (LRU.manager (H := H)) LRU.view) (fun op t => op.Follows LRU.view t)
      { manager := LRU.new { blockSize, numBlocks } enableEvents } t →
        ∀ hs : List H, hs.Nodup → (∀ h ∈ hs, h ∈ (LRU.view.entries t.manager).map Prod.fst) →
        ∃ s', LRU.completeStore hs false t.manager = (.ok (), s') ∧
          DropsUnready LRU.view hs t.manager s' ∧ KeepsIds LRU.view s') ∧
    ∀ t, Run (ManagerOp.next (ARC.manager (H := H) ops) ARC.view) (fun op t => op.Follows ARC.view t)
      { manager := ARC.new { blockSize, numBlocks } enableEvents } t →
        ∀ hs : List H, hs.Nodup → (∀ h ∈ hs, h ∈ (ARC.view.entries t.manager).map Prod.fst) →
        ∃ s', ARC.completeStore hs false t.manager = (.ok (), s') ∧
          (DropsUnready ARC.view hs t.manager s' ∧ KeepsIds ARC.view s' ↔
            ∀ e ∈ ARC.view.entries t.manager, e.1 ∈ hs → e.2.isReady = false) := by
  constructor
  · intro t run hs hnodup hin
    obtain ⟨ha, -⟩ := agrees_of_run run
    obtain ⟨s', hloop, hd⟩ := dropsUnready_of_turns (I := fun _ => True)
      (fun _ hblock _ _ => by
        obtain ⟨s', hone, hcase⟩ := dropFailed_turn hblock
        exact ⟨s', hone, trivial, hcase⟩) trivial ha.keys hnodup hin
    exact ⟨s', hloop, hd, hd.keepsIds ha.ids⟩
  · intro t run hs hnodup hin
    obtain ⟨ha, hb⟩ := agrees_of_run run
    obtain ⟨s', hloop, hgone⟩ := dropFailed_loop hb ha.keys hnodup hin
    refine ⟨s', hloop, fun ⟨hd, _⟩ e he heh => ?_, fun hun => ?_⟩
    · by_contra hready
      have hleft := hd.entries.symm.subset (mem_filter.mpr ⟨he, by simp [Stays, Bool.eq_true_of_not_eq_false hready]⟩)
      exact (hgone e.1 (mem_map.mpr ⟨e, hleft, rfl⟩)).2 heh
    · obtain ⟨s₂, hloop₂, hd⟩ := dropsUnready_of_turns (v := ARC.view)
        (I := fun s => ARC.Balanced numBlocks s ∧ ∀ e ∈ ARC.view.entries s, e.1 ∈ hs → e.2.isReady = false)
        (fun {h s block} hI hblock he hh => by
          obtain ⟨hrest, hback, hb₁⟩ := dropFailed_rest hI.1 hblock
          have hready := hI.2 _ he hh
          rw [hready] at hback
          exact ⟨s.dropFailed h, rfl, ⟨hb₁, fun e he => hI.2 e (hrest.symm.subset (mem_cons_of_mem _ he))⟩,
            .inr ⟨hready, hrest, hback⟩⟩)
        ⟨hb, hun⟩ ha.keys hnodup hin
      obtain rfl : s₂ = s' := congrArg Prod.snd (hloop₂.symm.trans hloop)
      exact ⟨hd, hd.keepsIds ha.ids⟩

def halfStored : Managed Nat (ARC Nat) := afterArc 2 [.prepareStore [1, 2], .completeStore [1] true]

theorem run_halfStored : Run (ManagerOp.next (ARC.manager (exactRounding 2)) ARC.view)
    (fun op t => op.Follows ARC.view t) { manager := ARC.new { blockSize := 16, numBlocks := 2 } }
      halfStored :=
  .of_allowed (by decide +kernel)

theorem failed_store_iff_unready : ∃ s', ARC.completeStore [2] false halfStored.manager = (.ok (), s') ∧
    DropsUnready ARC.view [2] halfStored.manager s' ∧ KeepsIds ARC.view s' := by
  obtain ⟨s', hcall, hiff⟩ := (failed_store_iff 16 2 false (exactRounding 2)).2 _ run_halfStored [2]
    (by decide) (by decide +kernel)
  exact ⟨s', hcall, hiff.mpr (by decide +kernel)⟩

theorem ready_block_lost : Run (ManagerOp.next (ARC.manager (exactRounding 2)) ARC.view)
      (fun op t => op.Follows ARC.view t) { manager := ARC.new { blockSize := 16, numBlocks := 2 } }
      halfStored ∧
    (ARC.completeStore [1] false halfStored.manager).2.t1.keys = [2] ∧
    ¬ KeepsIds ARC.view (ARC.completeStore [1] false halfStored.manager).2 := by
  refine ⟨run_halfStored, by decide +kernel, ?_⟩
  unfold KeepsIds
  decide +kernel

end Vllm.Offload

/-! ## Refused stores

`LRUOffloadingManager` refuses a store if the blocks that are free or may be evicted do not suffice.
`ARCOffloadingManager` looks at T1 only while T1 is not shorter than its target, so it can refuse a
store although there are blocks that it may evict. -/

namespace Vllm.Offload
open Base Call List

variable {H M : Type} [DecidableEq H] {hs : List H}

def Evictable (hs : List H) (e : H × CPUBlockStatus) : Bool := e.2.refCnt = 0 ∧ e.1 ∉ hs

def View.numNew (v : View H M) (hs : List H) (m : M) : Nat := hs.countP fun h => (v.block m h).isNone

def View.TooMany (v : View H M) (hs : List H) (m : M) : Prop :=
  (v.backend m).getNumFreeBlocks + (v.entries m).countP (Evictable hs) < v.numNew hs m

theorem LRU.findEvictions_eq_none {n : Nat} {es : Entries H} (hn : 0 < n) :
    LRU.findEvictions hs n es = none ↔ es.countP (Evictable hs) < n := by
  induction es generalizing n with
  | nil => simpa [LRU.findEvictions] using hn
  | cons e es ih =>
    unfold LRU.findEvictions
    split
    · next hfree =>
      rw [countP_cons_of_pos (by simpa [Evictable] using hfree)]
      split
      · simp only [reduceCtorEq, false_iff]
        omega
      · rw [Option.map_eq_none_iff, ih (by omega)]
        omega
    · next hkept =>
      rw [countP_cons_of_neg (by simpa [Evictable] using hkept)]
      exact ih hn

theorem LRU.prepareStore_eq_none {s : LRU H} :
    (∃ s', LRU.prepareStore hs s = (.ok none, s')) ↔ LRU.view.TooMany hs s := by
  have hstore : ∀ toStore toEvict s', LRU.storeBlocks toStore toEvict s ≠ (.ok none, s') := by
    simp [LRU.storeBlocks]
  have hnew : (hs.filter fun h => !s.blocks.contains h).length = LRU.view.numNew hs s := by
    rw [← countP_eq_length_filter]
    exact countP_congr fun h _ => by simp [Dict.contains, View.block, LRU.view, Dict.get?]
  change _ ↔ s.backend.getNumFreeBlocks + s.blocks.entries.countP (Evictable hs) < _
  unfold LRU.prepareStore
  rw [get_bind, ← hnew]
  generalize (hs.filter fun h => !s.blocks.contains h) = toStore
  split
  · next hneed =>
    have hnone : LRU.findEvictions hs _ s.blocks.entries = none ↔ _ := findEvictions_eq_none hneed
    rw [Nat.lt_sub_iff_add_lt, Nat.add_comm] at hnone
    rw [← hnone]
    cases LRU.findEvictions hs (toStore.length - s.backend.getNumFreeBlocks) s.blocks.entries with
    | none => exact ⟨fun _ => rfl, fun _ => ⟨s, rfl⟩⟩
    | some toEvict => simp [hstore]
  · simp only [hstore, exists_false, false_iff]
    omega

namespace ARC
variable {s : ARC H}

/-- How many blocks the loop of evictions can take: those of T1 until T1 is shorter than the target,
and those of T2. -/
def reach (hs : List H) (s : ARC H) : Nat :=
  min (s.t1.entries.countP (Evictable hs)) (s.t1.size + 1 - truncate s.targetT1Size).toNat +
    s.t2.entries.countP (Evictable hs)

theorem countP_of_findEviction {d : Dict H CPUBlockStatus} {e : H × CPUBlockStatus}
    (hfind : findEviction hs d.entries = some e) :
    d.entries.countP (Evictable hs) = (d.erase e.1).entries.countP (Evictable hs) + 1 := by
  have hperm := Dict.entries_perm_erase (findEviction_some hfind).1
  have hfree : Evictable hs e = true := find?_some hfind
  rw [hperm.countP_eq, countP_cons_of_pos hfree]

theorem countP_of_none {es : Entries H} (hfind : findEviction hs es = none) :
    es.countP (Evictable hs) = 0 := countP_eq_zero.mpr (find?_eq_none.mp hfind)

theorem Turn.reach_eq {r : Option (H × ARC H)} (hturn : Turn hs s r) :
    reach hs s = r.elim 0 fun e => reach hs e.2 + 1 := by
  unfold reach
  cases hturn with
  | t1 hlong hfind =>
    have hcount := countP_of_findEviction hfind
    have hsize := (Dict.entries_perm_erase (findEviction_some hfind).1).length_eq
    simp only [Option.elim_some, evictT1, Dict.size, length_cons] at hcount hsize hlong ⊢
    omega
  | t2 hskip hfind =>
    have hcount := countP_of_findEviction hfind
    simp only [Option.elim_some, evictT2] at hcount ⊢
    omega
  | stuck hskip hfind =>
    have hcount := countP_of_none hfind
    have hout := (lt_or_ge _ _).imp_right fun hlong => countP_of_none (hskip hlong)
    simp only [Option.elim_none]
    omega

theorem evictLoop_eq_none {n : Nat} :
    (∃ s', evictLoop hs n s = (.ok none, s')) ↔ reach hs s < n := by
  induction n generalizing s with
  | zero => simp [evictLoop]
  | succ n ih =>
    rw [evictLoop, get_bind, (evictOne_turn (s := s)).reach_eq]
    cases evictOne hs s with
    | none => exact ⟨fun _ => Nat.succ_pos n, fun _ => ⟨s, rfl⟩⟩
    | some e =>
      dsimp only
      rw [Option.elim_some, Nat.succ_lt_succ_iff, ← ih]
      simp [bind_eq_ok]

theorem prepareStore_eq_none : (∃ s', prepareStore hs s = (.ok none, s')) ↔
    s.backend.getNumFreeBlocks + reach hs s < view.numNew hs s := by
  have hstore : ∀ toStore toEvict (s s' : ARC H), storeBlocks toStore toEvict s ≠ (.ok none, s') := by
    simp [storeBlocks]
  have hnew : (hs.filter fun h => !s.t1.contains h && !s.t2.contains h).length =
      view.numNew hs s := by
    rw [← countP_eq_length_filter]
    exact countP_congr fun h _ => by simp [Dict.contains, block_eq, ARC.get?]
  unfold prepareStore
  rw [get_bind, ← hnew, Nat.add_comm, ← Nat.lt_sub_iff_add_lt, ← evictLoop_eq_none]
  generalize (hs.filter fun h => !s.t1.contains h && !s.t2.contains h) = toStore
  split
  · next hnone => simp [isEmpty_iff.mp hnone, evictLoop]
  · simp only [bind_eq_ok]
    constructor
    · rintro ⟨s', evicted, s₁, hloop, h⟩
      cases evicted with
      | none => exact ⟨s₁, hloop⟩
      | some toEvict => exact absurd h (hstore _ _ _ _)
    · exact fun ⟨s', hloop⟩ => ⟨s', none, s', hloop, rfl⟩

theorem reach_le : reach hs s ≤ (view.entries s).countP (Evictable hs) := by
  change _ ≤ (s.t1.entries ++ s.t2.entries).countP _
  rw [countP_append]
  exact Nat.add_le_add_right (min_le_left _ _) _

end ARC

/-- The first manager refuses a store exactly if it is too large. The adaptive one does too, unless
the store is not too large but needs more blocks than its loop of evictions can take. -/
theorem refused_iff (hs : List H) :
    (∀ s : LRU H, (∃ s', LRU.prepareStore hs s = (.ok none, s')) ↔ LRU.view.TooMany hs s) ∧
    ∀ s : ARC H, ((∃ s', ARC.prepareStore hs s = (.ok none, s')) ↔ ARC.view.TooMany hs s) ↔
      (ARC.view.TooMany hs s ∨
        ARC.view.numNew hs s ≤ s.backend.getNumFreeBlocks + ARC.reach hs s) := by
  refine ⟨fun s => LRU.prepareStore_eq_none, fun s => ?_⟩
  have hle : ARC.reach hs s ≤ _ := ARC.reach_le
  rw [ARC.prepareStore_eq_none]
  change (_ ↔ s.backend.getNumFreeBlocks + _ < _) ↔ s.backend.getNumFreeBlocks + _ < _ ∨ _
  omega

/-- T1 has the block of 3, which may go, and is shorter than the target; that of 2 is being loaded. -/
def skipsT1 : List (ManagerOp Nat) :=
  [.prepareStore [1, 2], .completeStore [1, 2] true, .prepareStore [3], .completeStore [3] true,
    .touch [1], .touch [1], .touch [2], .prepareLoad [2]]

theorem refused_beside_evictable :
    Run (ManagerOp.next (ARC.manager (exactRounding 2)) ARC.view) (fun op t => op.Follows ARC.view t)
      { manager := ARC.new { blockSize := 16, numBlocks := 2 } } (afterArc 2 skipsT1) ∧
    (ARC.prepareStore [4] (afterArc 2 skipsT1).manager).1 = .ok none ∧
    ¬ARC.view.TooMany [4] (afterArc 2 skipsT1).manager := by
  refine ⟨.of_allowed (by decide +kernel), by decide +kernel, ?_⟩
  unfold View.TooMany
  decide +kernel

end Vllm.Offload
