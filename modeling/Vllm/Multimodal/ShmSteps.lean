import Vllm.Multimodal.ShmLayout

/-! What each operation on the store does to the objects in it: which ones there are, how often the
writer has used them and how often they were read. -/

namespace Vllm.Multimodal
open Base Dict Call ShmConfig

variable {K V U : Type} [DecidableEq K] {cfg : ShmConfig V} {st : ShmStore K V U}

theorem Freed.refl (h : Sound cfg st) : Freed cfg st st [] := by
  refine ⟨h, by simp, fun k => ?_, by simp, rfl, rfl, by simp, le_rfl⟩
  cases st.keyIndex.get? k <;> simp [Option.filter]

variable {st' : ShmStore K V U} {i a : Nat} {k : K}

theorem Freed.reads {ids : List Nat} (h : Freed cfg st st' ids) (hi : i ∉ ids) :
    cfg.reads st' i = cfg.reads st i :=
  reads_congr h.memory (by rw [h.metadata, if_neg hi])

/-! ## A use by the writer -/

structure UsedOnce (cfg : ShmConfig V) (st st' : ShmStore K V U) (i : Nat) : Prop where
  sound : Sound cfg st'
  metadata : st'.metadata = st.metadata
  keys : st'.keyIndex = st.keyIndex
  memory : st'.memory = st.memory
  updates : st'.p0Cache = st.p0Cache
  uses : ∀ j, st'.uses j = st.uses j + if j = i then 1 else 0

theorem incrementWriterFlag_spec (h : Sound cfg st) (hi : i ∈ st.metadata.keys) :
    ∃ st', (incrementWriterFlag i : ShmCall K V U Unit) st = (.ok (), st') ∧
      UsedOnce cfg st st' i := by
  refine ⟨_, rfl, ⟨{ h.ring with }, h.index,
    h.owned, fun j => ?_⟩, rfl, rfl, rfl, rfl, fun j => ?_⟩
  · change j ∈ st.metadata.keys ↔ j ∈ (st.writerFlag.set i _).keys
    rw [mem_keys_set, ← h.flags]
    exact ⟨.inr, fun hj => hj.elim (fun e => e ▸ hi) id⟩
  · change ((st.writerFlag.set i _).get? j).getD 0 = _
    rw [get?_set, ShmStore.uses]
    by_cases he : j = i <;> simp [he]

theorem touchKey_spec (h : Sound cfg st) (k : K) :
    ∃ st', (touchKey k : ShmCall K V U Unit) st = (.ok (), st') ∧
      match st.keyIndex.get? k with
      | none => st' = st
      | some (_, i) => UsedOnce cfg st st' i := by
  rw [touchKey, get_bind]
  cases hk : st.keyIndex.get? k with
  | none => exact ⟨st, rfl, rfl⟩
  | some e =>
    have hlive := mem_keys_of_get? ((h.index k e.1 e.2).mp hk).2
    exact incrementWriterFlag_spec h hlive

theorem getCached_spec (h : Sound cfg st) (hk : st.keyIndex.get? k = some (a, i)) :
    ∃ st', (getCached k : ShmCall K V U _) st = (.ok (a, i), st') ∧ UsedOnce cfg st st' i := by
  obtain ⟨st', hrun, hst'⟩ := incrementWriterFlag_spec h
    (mem_keys_of_get? ((h.index k a i).mp hk).2)
  refine ⟨st', ?_, hst'⟩
  rw [getCached, get_bind, hk]
  exact bind_of_ok hrun

/-! ## A new object -/

structure Stored (cfg : ShmConfig V) (st st' : ShmStore K V U) (k : K) (a i : Nat) : Prop where
  sound : Sound cfg st'
  fresh : i ∉ st.metadata.keys
  metadata : ∀ j, st'.metadata.get? j = if j = i then some a else st.metadata.get? j
  keys : ∀ k', st'.keyIndex.get? k' = if k' = k then some (a, i) else st.keyIndex.get? k'
  uses : ∀ j, st'.uses j = if j = i then 1 else st.uses j
  reads : ∀ j, cfg.reads st' j = if j = i then 0 else cfg.reads st j

structure Allocated (cfg : ShmConfig V) (st st' : ShmStore K V U) (a i : Nat) : Prop where
  ring : Ring cfg st'
  fresh : i ∉ st.metadata.keys
  metadata : ∀ j, st'.metadata.get? j = if j = i then some a else st.metadata.get? j
  reads : ∀ j, cfg.reads st' j = if j = i then 0 else cfg.reads st j
  keyIndex : st'.keyIndex = st.keyIndex
  idIndex : st'.idIndex = st.idIndex
  writerFlag : st'.writerFlag = st.writerFlag
  updates : st'.p0Cache = st.p0Cache

section
variable (h : Ring cfg st) (hids : st.metadata.size < idMax)
include h hids

omit [DecidableEq K] in
theorem Ring.placeChunk {size : Nat} (value : V) (hend : st.dataBufferEnd ≤ a) (hpos : 0 < size)
    (hroom : a + size ≤ cfg.dataBufferSize + st.dataBufferStart) :
    Allocated cfg st (cfg.placeChunk st a size value) a st.monotonicIdEnd := by
  have hmod : st.monotonicIdEnd % idMax = st.monotonicIdEnd := by
    rw [h.end_eq, Nat.mod_mod]
  have hfresh : st.monotonicIdEnd ∉ st.metadata.keys := by
    rw [h.ids, h.end_eq]
    exact next_not_mem_idsFrom hids
  -- the chunks there are lie at other indices
  have hother : ∀ v, st.dataBufferStart ≤ v → v < st.dataBufferEnd →
      v % cfg.dataBufferSize ≠ a % cfg.dataBufferSize := fun v hlo hlt =>
    index_ne (by omega) (by omega)
  have hentries : (st.metadata.set st.monotonicIdEnd a).entries =
      st.metadata.entries ++ [(st.monotonicIdEnd, a)] := if_neg hfresh
  have hsize : (st.metadata.set st.monotonicIdEnd a).size = st.metadata.size + 1 := by
    rw [Dict.size, hentries, List.length_append, Dict.size]
    rfl
  refine ⟨⟨?_, ?_, ?_, h.start_lt, ?_⟩, hfresh, fun j => ?_, fun j => ?_, rfl, rfl, rfl, rfl⟩
  · change Laid _ _ (a + size) _ (st.metadata.set (st.monotonicIdEnd % idMax) a).entries
    rw [hmod, hentries]
    have hold : Laid cfg.dataBufferSize (cfg.placeChunk st a size value).memory st.dataBufferEnd
        st.dataBufferStart st.metadata.entries :=
      h.laid.congr fun v chunk hlo hlt hchunk => ⟨chunk, by
        rw [← hchunk]
        exact if_neg (hother v hlo hlt), rfl, rfl⟩
    exact hold.append ⟨st.monotonicIdEnd, size, 0, value⟩ hend rfl (if_pos rfl) hpos
  · change a + size ≤ st.dataBufferStart + cfg.dataBufferSize
    omega
  · change (st.metadata.set (st.monotonicIdEnd % idMax) a).keys = idsFrom _
      (st.metadata.set (st.monotonicIdEnd % idMax) a).size
    rw [hmod, hsize, idsFrom_succ, keys_set, if_neg hfresh, h.ids, h.end_eq]
    rfl
  · change (st.monotonicIdEnd + 1) % idMax =
      (st.monotonicIdStart + (st.metadata.set (st.monotonicIdEnd % idMax) a).size) % idMax
    rw [hmod, hsize, h.end_eq, Nat.mod_add_mod, Nat.add_assoc]
  · change (st.metadata.set (st.monotonicIdEnd % idMax) a).get? j = _
    rw [hmod, get?_set]
  · have hget : (cfg.placeChunk st a size value).metadata.get? j =
        if j = st.monotonicIdEnd then some a else st.metadata.get? j := by
      change (st.metadata.set (st.monotonicIdEnd % idMax) a).get? j = _
      rw [hmod, get?_set]
    rw [ShmConfig.reads, hget]
    split
    · simp [accessBuf, ShmConfig.placeChunk]
    · rw [ShmConfig.reads]
      cases hj : st.metadata.get? j with
      | none => rfl
      | some b =>
        obtain ⟨v, chunk, hlo, hlt, haddr, -⟩ := h.laid.find (get?_eq_some_iff.mp hj)
        have hne : b % cfg.dataBufferSize ≠ a % cfg.dataBufferSize := haddr ▸ hother v hlo hlt
        simp [accessBuf, ShmConfig.placeChunk, hne]

omit [DecidableEq K] in
theorem allocateBuf_spec (size : Nat) (v : V) :
    match (cfg.allocateBuf size v : ShmCall K V U _) st with
    | (.ok (a, i), st') => Allocated cfg st st' a i
    | (.error e, st') => (∃ msg, e = .memoryError msg) ∧ st' = st := by
  have hend : st.dataBufferEnd ≤ cfg.bufferEndReset st (size + mdSize) := by
    rw [bufferEndReset]
    split
    · have : st.dataBufferEnd < st.dataBufferEnd / cfg.dataBufferSize * cfg.dataBufferSize +
          cfg.dataBufferSize := Nat.lt_div_mul_add cfg.buffer_pos
      rw [Nat.add_mul, Nat.one_mul]
      omega
    · exact le_rfl
  rw [allocateBuf]
  by_cases hroom : cfg.bufferEndReset st (size + mdSize) + (size + mdSize) >
      cfg.dataBufferSize + st.dataBufferStart
  · rw [if_pos hroom]
    exact ⟨⟨_, rfl⟩, rfl⟩
  · rw [if_neg hroom]
    have hpos : 0 < mdSize := by decide
    exact h.placeChunk hids v hend (by omega) (by omega)

end

theorem allocateOrFree_spec (h : Sound cfg st) (hids : st.metadata.size < idMax) (size : Nat)
    (v : V) :
    match (cfg.allocateOrFree size v : ShmCall K V U _) st with
    | (.ok (a, i), st') => ∃ ids st₁, Freed cfg st st₁ ids ∧ Allocated cfg st₁ st' a i
    | (.error e, st') => (∃ msg, e = .memoryError msg) ∧ ∃ ids, Freed cfg st st' ids := by
  have hfirst := allocateBuf_spec h.ring hids size v
  rw [allocateOrFree]
  rcases hrun : (cfg.allocateBuf size v : ShmCall K V U _) st with ⟨(e | ⟨a, i⟩), st'⟩
  · rw [hrun] at hfirst
    obtain ⟨⟨msg, rfl⟩, rfl⟩ := hfirst
    obtain ⟨ids, hfreed⟩ := h.freeUnused
    have hagain := allocateBuf_spec hfreed.sound.ring (hfreed.size.trans_lt hids) size v
    change match (cfg.allocateBuf size v : ShmCall K V U _) (cfg.freeUnused st') with
      | (.ok (a, i), st₂) => ∃ ids st₁, Freed cfg st' st₁ ids ∧ Allocated cfg st₁ st₂ a i
      | (.error e, st₂) => (∃ msg, e = .memoryError msg) ∧ ∃ ids, Freed cfg st' st₂ ids
    rcases hrun' : (cfg.allocateBuf size v : ShmCall K V U _) (cfg.freeUnused st') with
      ⟨(e | ⟨a, i⟩), st₂⟩
    · rw [hrun'] at hagain
      exact ⟨hagain.1, ids, hagain.2 ▸ hfreed⟩
    · rw [hrun'] at hagain
      exact ⟨ids, _, hfreed, hagain⟩
  · rw [hrun] at hfirst
    exact ⟨[], st, Freed.refl h, hfirst⟩

theorem Allocated.stored (h : Sound cfg st) (hal : Allocated cfg st st' a i)
    (hk : k ∉ st.keyIndex.keys) :
    Stored cfg st { st' with
      writerFlag := st'.writerFlag.set i ((st'.writerFlag.get? i).getD 0 + 1)
      keyIndex := st'.keyIndex.set k (a, i)
      idIndex := st'.idIndex.set i k } k a i := by
  have hflag : st.writerFlag.get? i = none :=
    get?_eq_none_iff.mpr fun hi => hal.fresh ((h.flags i).mpr hi)
  have hlive : ∀ j, j ∈ st'.metadata.keys ↔ j = i ∨ j ∈ st.metadata.keys := fun j => by
    rw [mem_keys_iff, hal.metadata, mem_keys_iff]
    by_cases he : j = i <;> simp [he]
  refine ⟨⟨{ hal.ring with },
    fun k' a' j => ?_, fun j => ?_, fun j => ?_⟩, hal.fresh, hal.metadata, fun k' => ?_, fun j => ?_,
    hal.reads⟩
  · change (st'.keyIndex.set k (a, i)).get? k' = _ ↔
      (st'.idIndex.set i k).get? j = _ ∧ st'.metadata.get? j = _
    rw [get?_set, get?_set, hal.metadata, hal.keyIndex, hal.idIndex]
    by_cases hk' : k' = k
    · subst hk'
      by_cases hj : j = i
      · simp [hj]
      · have hnone : ¬(st.idIndex.get? j = some k' ∧ st.metadata.get? j = some a') := fun hc =>
          hk (mem_keys_of_get? ((h.index k' a' j).mpr hc))
        simp [hj, hnone, Ne.symm hj]
    · by_cases hj : j = i
      · have hold : st.keyIndex.get? k' ≠ some (a', i) := fun hc =>
          hal.fresh (mem_keys_of_get? ((h.index k' a' i).mp hc).2)
        simp [hk', hj, hold, Ne.symm hk']
      · simpa [hk', hj] using h.index k' a' j
  · change j ∈ st'.metadata.keys ↔ j ∈ (st'.idIndex.set i k).keys
    rw [hlive, mem_keys_set, hal.idIndex, h.owned]
  · change j ∈ st'.metadata.keys ↔ j ∈ (st'.writerFlag.set i _).keys
    rw [hlive, mem_keys_set, hal.writerFlag, h.flags]
  · change (st'.keyIndex.set k (a, i)).get? k' = _
    rw [get?_set, hal.keyIndex]
  · change ((st'.writerFlag.set i _).get? j).getD 0 = _
    rw [get?_set, hal.writerFlag, hflag, ShmStore.uses]
    by_cases he : j = i <;> simp [he]

theorem put_spec [ToString K] (h : Sound cfg st) (hids : st.metadata.size < idMax)
    (hk : k ∉ st.keyIndex.keys) (v : V) :
    match cfg.put k v st with
    | (.ok (a, i), st') => ∃ ids st₁, Freed cfg st st₁ ids ∧ Stored cfg st₁ st' k a i ∧
        st'.p0Cache = st₁.p0Cache
    | (.error e, st') =>
        ((∃ msg, e = .memoryError msg) ∨ ∃ msg, e = .raised (.valueError msg)) ∧
        ∃ ids, Freed cfg st st' ids := by
  have hnew : st.keyIndex.contains k = false := by
    rw [Dict.contains, get?_eq_none_iff.mpr hk]
    rfl
  rw [put, get_bind, check_bind (by rw [hnew]; rfl)]
  by_cases hsize : flagBytes + cfg.serializedSize v ≤ cfg.maxObjectSize
  · rw [check_bind (decide_eq_true hsize)]
    have halloc := allocateOrFree_spec h hids (flagBytes + cfg.serializedSize v) v
    rcases hrun : (cfg.allocateOrFree (flagBytes + cfg.serializedSize v) v : ShmCall K V U _) st with
      ⟨(e | ⟨a, i⟩), st'⟩
    · rw [hrun] at halloc
      rw [bind_of_error hrun]
      exact ⟨.inl halloc.1, halloc.2⟩
    · rw [hrun] at halloc
      obtain ⟨ids, st₁, hfreed, hal⟩ := halloc
      rw [bind_of_ok hrun]
      refine ⟨ids, st₁, hfreed, hal.stored hfreed.sound fun hmem => hk ?_, hal.updates⟩
      obtain ⟨e, he⟩ := exists_of_mem_keys hmem
      rw [hfreed.keys] at he
      exact mem_keys_of_get? (Option.filter_eq_some_iff.mp he).1
  · rw [check_bind_error (decide_eq_false hsize)]
    exact ⟨.inr ⟨_, rfl⟩, [], Freed.refl h⟩

def Known (st : ShmStore K V U) : Prop := ∀ k ∈ st.keyIndex.keys, k ∈ st.p0Cache.keys

theorem Freed.known {ids : List Nat} (h : Freed cfg st st' ids) (hknown : Known st) :
    Known st' := by
  intro k hk
  rw [h.updates]
  refine hknown k ?_
  obtain ⟨e, he⟩ := exists_of_mem_keys hk
  rw [h.keys] at he
  exact mem_keys_of_get? (Option.filter_eq_some_iff.mp he).1

theorem boundItems_eq (st : ShmStore K V U) : ∃ p0Cache, boundItems st = { st with p0Cache } ∧
    ∀ k ∈ st.keyIndex.keys, k ∈ st.p0Cache.keys → k ∈ p0Cache.keys := by
  rw [boundItems]
  split
  · refine ⟨_, rfl, fun k hk hin => ?_⟩
    rw [mem_keys_iff, get?_foldl_erase, if_neg fun hmem => ?_]
    · exact mem_keys_iff.mp hin
    · have hnot := (List.mem_filter.mp hmem).2
      rw [Dict.contains, mem_keys_iff.mp hk] at hnot
      cases hnot
  · exact ⟨_, rfl, fun k _ hin => hin⟩

theorem storeOrKeep_spec [ToString K] (h : Sound cfg st) (hknown : Known st)
    (hids : st.metadata.size < idMax) (hk : k ∉ st.keyIndex.keys) (v : V) (updates : List U) :
    ∃ d st' ids st₁, cfg.storeOrKeep v updates k st = (.ok (d, updates), st') ∧ Known st' ∧
      Freed cfg st st₁ ids ∧
      match d with
      | .address a i => Stored cfg st₁ st' k a i
      | .value _ => st' = st₁ := by
  have hput := put_spec h hids hk v
  rw [storeOrKeep]
  rcases hrun : cfg.put k v st with ⟨(e | ⟨a, i⟩), st'⟩
  · rw [hrun] at hput
    obtain ⟨hkind, ids, hfreed⟩ := hput
    refine ⟨.value v, st', ids, st', ?_, hfreed.known hknown, hfreed, rfl⟩
    rcases hkind with ⟨msg, rfl⟩ | ⟨msg, rfl⟩ <;> rfl
  · rw [hrun] at hput
    obtain ⟨ids, st₁, hfreed, hst, hupd⟩ := hput
    obtain ⟨p0Cache, hbound, hkeep⟩ := boundItems_eq st'
    refine ⟨.address a i, _, ids, st₁, rfl, fun k' hk' => ?_, hfreed, ?_⟩
    · rw [hbound] at hk' ⊢
      refine mem_keys_set.mpr (or_iff_not_imp_left.mpr fun hne => hkeep k' hk' ?_)
      rw [hupd]
      refine hfreed.known hknown k' ?_
      have hkeys := mem_keys_iff.mp hk'
      rw [hst.keys, if_neg hne] at hkeys
      exact mem_keys_iff.mpr hkeys
    · rw [hbound]
      have hs := hst.sound
      exact ⟨⟨{ hs.ring with }, hs.index,
        hs.owned, hs.flags⟩, hst.fresh, hst.metadata, hst.keys, hst.uses, hst.reads⟩

theorem shmGetAndUpdateItem_cached [ToString K] (h : Sound cfg st) (hknown : Known st)
    (hk : st.keyIndex.get? k = some (a, i)) (mmItem : Option (V × List U)) :
    ∃ updates st', cfg.shmGetAndUpdateItem mmItem k st = (.ok (.address a i, updates), st') ∧
      UsedOnce cfg st st' i := by
  obtain ⟨st', hrun, hst'⟩ := getCached_spec h hk
  obtain ⟨updates, hupd⟩ := Option.isSome_iff_exists.mp (mem_keys_iff.mp
    (hknown k (mem_keys_of_get? hk)))
  have hin : st.keyIndex.contains k = true := by
    rw [Dict.contains, hk]
    rfl
  refine ⟨updates, st', ?_, hst'⟩
  unfold shmGetAndUpdateItem
  rw [get_bind, if_pos hin, bind_of_ok hrun, hupd]
  rfl

theorem shmGetAndUpdateItem_uncached [ToString K] (hk : k ∉ st.keyIndex.keys) (v : V)
    (updates : List U) :
    cfg.shmGetAndUpdateItem (some (v, updates)) k st = cfg.storeOrKeep v updates k st := by
  have hnew : ¬st.keyIndex.contains k = true := by
    rw [Dict.contains, get?_eq_none_iff.mpr hk]
    simp
  rw [shmGetAndUpdateItem, get_bind, if_neg hnew]

/-! ## A use by a reader -/

structure Counted (cfg : ShmConfig V) (st st' : ShmStore K V U) (i d : Nat) : Prop where
  sound : Sound cfg st'
  metadata : st'.metadata = st.metadata
  keys : st'.keyIndex = st.keyIndex
  flags : st'.writerFlag = st.writerFlag
  updates : st'.p0Cache = st.p0Cache
  reads : ∀ j, j ∈ st.metadata.keys → cfg.reads st' j = cfg.reads st j + if j = i then d else 0

theorem Counted.refl (h : Sound cfg st) (i : Nat) : Counted cfg st st i 0 :=
  ⟨h, rfl, rfl, rfl, rfl, fun j _ => by simp⟩

section
variable (h : Sound cfg st) (hi : st.metadata.get? i = some a) (hroom : cfg.reads st i + 1 < 2 ^ 31)
include h hi hroom

theorem incrementReaderFlag_spec :
    ∃ st', (cfg.incrementReaderFlag a (cfg.reads st i) : ShmCall K V U Unit) st = (.ok (), st') ∧
      Counted cfg st st' i 1 := by
  rw [incrementReaderFlag, check_bind (decide_eq_true hroom)]
  refine ⟨_, rfl, ⟨⟨?_, h.ring.turn, h.ring.ids, h.ring.start_lt, h.ring.end_eq⟩, h.index, h.owned,
    h.flags⟩, rfl, rfl, rfl, rfl, fun j hj => ?_⟩
  · refine h.ring.laid.congr fun v chunk _ _ hchunk => ?_
    by_cases hv : v % cfg.dataBufferSize = a % cfg.dataBufferSize
    · exact ⟨{ chunk with readerCount := cfg.reads st i + 1 }, by simp [hv ▸ hchunk, hv], rfl, rfl⟩
    · exact ⟨chunk, by simp [hv, hchunk], rfl, rfl⟩
  · obtain ⟨b, hb⟩ := exists_of_mem_keys hj
    obtain ⟨chunk, hchunk, -, hreads⟩ := h.ring.chunk hb
    rw [accessBuf] at hchunk
    have hsame : b % cfg.dataBufferSize = a % cfg.dataBufferSize ↔ j = i :=
      ⟨fun he => h.ring.index_inj hb hi he, fun he => by
        rw [he, hi] at hb
        rw [Option.some.inj hb]⟩
    rw [hreads, ShmConfig.reads, hb]
    by_cases he : j = i
    · have hba := hsame.mpr he
      subst he
      rw [hba] at hchunk
      simp [accessBuf, hba, hchunk, hreads]
    · have hba : b % cfg.dataBufferSize ≠ a % cfg.dataBufferSize := fun hc => he (hsame.mp hc)
      simp [accessBuf, hba, hchunk, he]

theorem touchAddress_spec :
    ∃ st', (cfg.touchAddress a : ShmCall K V U Unit) st = (.ok (), st') ∧
      Counted cfg st st' i (if cfg.nReaders ≤ cfg.reads st i then 1 else 0) := by
  obtain ⟨chunk, hchunk, -, hreads⟩ := h.ring.chunk hi
  rw [touchAddress, get_bind, hchunk]
  by_cases hn : cfg.nReaders ≤ cfg.reads st i
  · obtain ⟨st', hrun, hst'⟩ := incrementReaderFlag_spec h hi hroom
    refine ⟨st', ?_, by rwa [if_pos hn]⟩
    rw [hreads] at hrun hn
    rw [← hrun]
    exact congrFun (if_pos hn) st
  · refine ⟨st, ?_, by rw [if_neg hn]; exact Counted.refl h i⟩
    rw [hreads] at hn
    exact congrFun (if_neg hn) st

theorem getObject_spec :
    ∃ v st', (cfg.getObject a i : ShmCall K V U V) st = (.ok v, st') ∧ Counted cfg st st' i 1 := by
  obtain ⟨chunk, hchunk, hid, hreads⟩ := h.ring.chunk hi
  obtain ⟨st', hrun, hst'⟩ := incrementReaderFlag_spec h hi hroom
  refine ⟨chunk.value, st', ?_, hst'⟩
  rw [hreads] at hrun
  rw [getObject, get_bind, hchunk]
  change (Call.check (chunk.id == i) _ >>= _) st = _
  rw [check_bind (by simpa using hid), bind_of_ok hrun]
  rfl

end

end Vllm.Multimodal
