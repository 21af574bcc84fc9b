import Vllm.Multimodal.ShmStore

/-! The chunks of the ring buffer do not get in each other's way: an address that the writer has not
freed leads to the chunk with its id. -/

set_option linter.unusedSectionVars false

namespace Vllm.Multimodal
open Base Dict List ShmConfig

variable {K V U : Type} [DecidableEq K]

/-! ## Positions -/

/-- The chunks `es` (ids with their addresses) lie one after the other from `lo` to `stop`. An address
is a position up to multiples of the buffer's size. -/
def Laid (size : Nat) (memory : Nat → Option (Chunk V)) (stop : Nat) :
    (lo : Nat) → (es : List (Nat × Nat)) → Prop
  | lo, [] => lo ≤ stop
  | lo, (id, address) :: es => ∃ v chunk, lo ≤ v ∧ address % size = v % size ∧
      memory (v % size) = some chunk ∧ chunk.id = id ∧ 0 < chunk.size ∧
      Laid size memory stop (v + chunk.size) es

section
variable {size stop lo lo' : Nat} {memory memory' : Nat → Option (Chunk V)} {es : List (Nat × Nat)}

section
variable (h : Laid size memory stop lo es)
include h

theorem Laid.le_stop : lo ≤ stop := by
  induction es generalizing lo with
  | nil => exact h
  | cons e es ih =>
    obtain ⟨v, chunk, hlo, -, -, -, -, hrest⟩ := h
    have := ih hrest
    omega

theorem Laid.find {id address : Nat} (hmem : (id, address) ∈ es) :
    ∃ v chunk, lo ≤ v ∧ v < stop ∧ address % size = v % size ∧ memory (v % size) = some chunk ∧
      chunk.id = id := by
  induction es generalizing lo with
  | nil => cases hmem
  | cons e es ih =>
    obtain ⟨v, chunk, hlo, haddr, hchunk, hid, hpos, hrest⟩ := h
    rcases mem_cons.mp hmem with rfl | hmem
    · have := hrest.le_stop
      exact ⟨v, chunk, hlo, by omega, haddr, hchunk, hid⟩
    · obtain ⟨v', chunk', hlo', hprops⟩ := ih hrest hmem
      exact ⟨v', chunk', by omega, hprops⟩

theorem Laid.congr (hmem : ∀ v chunk, lo ≤ v → v < stop → memory (v % size) = some chunk →
      ∃ chunk', memory' (v % size) = some chunk' ∧ chunk'.id = chunk.id ∧ chunk'.size = chunk.size) :
    Laid size memory' stop lo es := by
  induction es generalizing lo with
  | nil => exact h
  | cons e es ih =>
    obtain ⟨v, chunk, hlo, haddr, hchunk, hid, hpos, hrest⟩ := h
    have hstop := hrest.le_stop
    obtain ⟨chunk', hchunk', hid', hsize'⟩ := hmem v chunk hlo (by omega) hchunk
    refine ⟨v, chunk', hlo, haddr, hchunk', hid'.trans hid, by omega, ?_⟩
    rw [hsize']
    exact ih hrest fun v' c hv => hmem v' c (by omega)

theorem Laid.append {v : Nat} (chunk : Chunk V) {address : Nat}
    (hv : stop ≤ v) (haddr : address % size = v % size) (hchunk : memory (v % size) = some chunk)
    (hpos : 0 < chunk.size) :
    Laid size memory (v + chunk.size) lo (es ++ [(chunk.id, address)]) := by
  induction es generalizing lo with
  | nil =>
    have hlo : lo ≤ stop := h
    exact ⟨v, chunk, hlo.trans hv, haddr, hchunk, rfl, hpos, le_rfl⟩
  | cons e es ih =>
    obtain ⟨v', chunk', hlo, haddr', hchunk', hid, hpos', hrest⟩ := h
    exact ⟨v', chunk', hlo, haddr', hchunk', hid, hpos', ih hrest⟩

theorem Laid.shift (hlo : size ≤ lo) : Laid size memory (stop - size) (lo - size) es := by
  induction es generalizing lo with
  | nil =>
    have : lo ≤ stop := h
    exact Nat.sub_le_sub_right this size
  | cons e es ih =>
    obtain ⟨v, chunk, hv, haddr, hchunk, hid, hpos, hrest⟩ := h
    have hmod : (v - size) % size = v % size := by
      rw [← Nat.mod_eq_sub_mod (hlo.trans hv)]
    refine ⟨v - size, chunk, by omega, by rw [hmod, haddr], by rw [hmod, hchunk], hid, hpos, ?_⟩
    have := ih hrest (by omega)
    rwa [show v + chunk.size - size = v - size + chunk.size by omega] at this

end

end

theorem index_ne {size v v' : Nat} (hlt : v < v') (hturn : v' < v + size) : v % size ≠ v' % size := by
  intro he
  have hzero : (v' - v) % size = 0 := Nat.sub_mod_eq_zero_of_mod_eq he.symm
  rw [Nat.mod_eq_of_lt (by omega)] at hzero
  omega

/-! ## Ids -/

def idsFrom (start len : Nat) : List Nat := (List.range len).map fun i => (start + i) % idMax

theorem idsFrom_succ (start len : Nat) :
    idsFrom start (len + 1) = idsFrom start len ++ [(start + len) % idMax] := by
  simp [idsFrom, range_succ]

theorem idsFrom_cons {start : Nat} (hstart : start < idMax) (len : Nat) :
    idsFrom start (len + 1) = start :: idsFrom ((start + 1) % idMax) len := by
  rw [idsFrom, range_succ_eq_map, map_cons, List.map_map]
  congr 1
  · exact Nat.mod_eq_of_lt hstart
  · refine map_congr_left fun i _ => ?_
    simp only [Function.comp_apply, Nat.mod_add_mod]
    congr 1
    omega

theorem next_not_mem_idsFrom {start len : Nat} (hlen : len < idMax) :
    (start + len) % idMax ∉ idsFrom start len := by
  intro hmem
  obtain ⟨i, hi, he⟩ := mem_map.mp hmem
  rw [mem_range] at hi
  exact index_ne (by omega) (by omega) he

/-! ## The store -/

def ShmStore.uses (st : ShmStore K V U) (id : Nat) : Nat := (st.writerFlag.get? id).getD 0

def ShmConfig.reads (cfg : ShmConfig V) (st : ShmStore K V U) (id : Nat) : Nat :=
  ((st.metadata.get? id).bind fun a => cfg.accessBuf st a).elim 0 Chunk.readerCount

structure Ring (cfg : ShmConfig V) (st : ShmStore K V U) : Prop where
  laid : Laid cfg.dataBufferSize st.memory st.dataBufferEnd st.dataBufferStart st.metadata.entries
  turn : st.dataBufferEnd ≤ st.dataBufferStart + cfg.dataBufferSize
  ids : st.metadata.keys = idsFrom st.monotonicIdStart st.metadata.size
  start_lt : st.monotonicIdStart < idMax
  end_eq : st.monotonicIdEnd = (st.monotonicIdStart + st.metadata.size) % idMax

structure Sound (cfg : ShmConfig V) (st : ShmStore K V U) : Prop where
  ring : Ring cfg st
  index : ∀ k a i, st.keyIndex.get? k = some (a, i) ↔
    st.idIndex.get? i = some k ∧ st.metadata.get? i = some a
  owned : ∀ i, i ∈ st.metadata.keys ↔ i ∈ st.idIndex.keys
  flags : ∀ i, i ∈ st.metadata.keys ↔ i ∈ st.writerFlag.keys

variable {cfg : ShmConfig V} {st : ShmStore K V U}

theorem Ring.chunk (h : Ring cfg st) {i a : Nat} (hi : st.metadata.get? i = some a) :
    ∃ chunk, cfg.accessBuf st a = some chunk ∧ chunk.id = i ∧ cfg.reads st i = chunk.readerCount := by
  obtain ⟨v, chunk, -, -, haddr, hchunk, hid⟩ := h.laid.find (get?_eq_some_iff.mp hi)
  have hacc : cfg.accessBuf st a = some chunk := by rw [accessBuf, haddr, hchunk]
  exact ⟨chunk, hacc, hid, by simp [reads, hi, hacc]⟩

theorem Ring.index_inj (h : Ring cfg st) {i j a b : Nat} (hi : st.metadata.get? i = some a)
    (hj : st.metadata.get? j = some b) (he : a % cfg.dataBufferSize = b % cfg.dataBufferSize) :
    i = j := by
  obtain ⟨_, chunk, -, -, haddr, hchunk, hid⟩ := h.laid.find (get?_eq_some_iff.mp hi)
  obtain ⟨_, chunk', -, -, haddr', hchunk', hid'⟩ := h.laid.find (get?_eq_some_iff.mp hj)
  rw [← haddr, he, haddr', hchunk'] at hchunk
  obtain rfl := Option.some.inj hchunk
  exact hid.symm.trans hid'

/-! ## Freeing -/

theorem reads_congr {st' : ShmStore K V U} {i : Nat} (hmem : st'.memory = st.memory)
    (hget : st'.metadata.get? i = st.metadata.get? i) : cfg.reads st' i = cfg.reads st i := by
  simp only [reads, accessBuf, hget, hmem]

theorem Ring.entries_eq (h : Ring cfg st) {a : Nat} (ha : st.metadata.get? st.monotonicIdStart = some a) :
    ∃ rest, st.metadata.entries = (st.monotonicIdStart, a) :: rest ∧
      (st.metadata.erase st.monotonicIdStart).entries = rest ∧
      rest.map Prod.fst = idsFrom ((st.monotonicIdStart + 1) % idMax) rest.length := by
  have hids := h.ids
  rw [Dict.keys, Dict.size] at hids
  cases hentries : st.metadata.entries with
  | nil =>
    have := get?_eq_some_iff.mp ha
    rw [hentries] at this
    cases this
  | cons e rest =>
    rw [hentries, map_cons, length_cons, idsFrom_cons h.start_lt] at hids
    obtain ⟨hhead, htail⟩ := List.cons.inj hids
    have hnd := st.metadata.nodup
    rw [hentries, map_cons, nodup_cons, hhead] at hnd
    have hea : e.2 = a := by
      have hmem : (e.1, e.2) ∈ st.metadata.entries := by rw [hentries]; exact mem_cons_self
      have := get?_eq_some_iff.mpr hmem
      rw [hhead, ha] at this
      exact (Option.some.inj this).symm
    refine ⟨rest, ?_, ?_, htail⟩
    · rw [← hhead, ← hea]
    · change st.metadata.entries.filter (fun e => e.1 ≠ st.monotonicIdStart) = rest
      rw [hentries, filter_cons_of_neg (by simp [hhead]), filter_eq_self]
      intro e' he' 
      simpa using fun hc => hnd.1 (mem_map.mpr ⟨e', he', hc⟩)

theorem Ring.freeFirst (h : Ring cfg st) {a : Nat}
    (ha : st.metadata.get? st.monotonicIdStart = some a) : Ring cfg (cfg.freeFirst st) := by
  obtain ⟨rest, hentries, herase, hkeys⟩ := h.entries_eq ha
  have hlaid := h.laid
  rw [hentries] at hlaid
  obtain ⟨v, chunk, hv, -, -, -, hpos, hrest⟩ := hlaid
  have hsize : (st.metadata.erase st.monotonicIdStart).size = rest.length := by
    rw [Dict.size, herase]
  have hsize' : st.metadata.size = rest.length + 1 := by rw [Dict.size, hentries, length_cons]
  have hend : st.monotonicIdEnd = ((st.monotonicIdStart + 1) % idMax + rest.length) % idMax := by
    rw [h.end_eq, Nat.mod_add_mod]
    congr 1
    omega
  have hids : (st.metadata.erase st.monotonicIdStart).keys =
      idsFrom ((st.monotonicIdStart + 1) % idMax) (st.metadata.erase st.monotonicIdStart).size := by
    rw [Dict.keys, hsize, herase, hkeys]
  have hlt : (st.monotonicIdStart + 1) % idMax < idMax := Nat.mod_lt _ (by decide)
  rw [ShmConfig.freeFirst]
  cases hnext : (st.metadata.erase st.monotonicIdStart).get? ((st.monotonicIdStart + 1) % idMax) with
  | none =>
    have hnil : rest = [] := by
      cases rest with
      | nil => rfl
      | cons e rest =>
        rw [length_cons, idsFrom_cons hlt] at hkeys
        have hmem : (st.monotonicIdStart + 1) % idMax ∈
            (st.metadata.erase st.monotonicIdStart).keys := by
          rw [Dict.keys, herase, map_cons, (List.cons.inj hkeys).1]
          exact mem_cons_self
        exact absurd hmem (get?_eq_none_iff.mp hnext)
    refine ⟨?_, Nat.zero_le _, hids, hlt, ?_⟩
    · rw [herase, hnil]
      exact Nat.zero_le _
    · rw [hend, hsize]
  | some b =>
    cases rest with
    | nil =>
      have := get?_eq_some_iff.mp hnext
      rw [herase] at this
      cases this
    | cons e rest =>
      obtain ⟨i, b'⟩ := e
      have hkeys' := hkeys
      rw [length_cons, idsFrom_cons hlt] at hkeys'
      have hb : b' = b := by
        have hmem : (i, b') ∈ (st.metadata.erase st.monotonicIdStart).entries := by
          rw [herase]
          exact mem_cons_self
        have hi : i = (st.monotonicIdStart + 1) % idMax := (List.cons.inj hkeys').1
        have := get?_eq_some_iff.mpr hmem
        rw [hi, hnext] at this
        exact (Option.some.inj this).symm
      obtain ⟨v', chunk', hv', haddr, hrest'⟩ := hrest
      have hstop : v' < st.dataBufferEnd := by
        have := hrest'.2.2.2.le_stop
        omega
      -- the next chunk is less than a turn away
      have hmove : st.dataBufferStart +
          (((b : Int) - st.dataBufferStart) % cfg.dataBufferSize).toNat = v' := by
        have hmod : ((b : Int) - st.dataBufferStart) % cfg.dataBufferSize =
            ((v' - st.dataBufferStart : Nat) : Int) := by
          have hbv : ((b : Int)) % cfg.dataBufferSize = (v' : Int) % cfg.dataBufferSize := by
            rw [← hb]
            exact_mod_cast haddr
          rw [Int.sub_emod, hbv, ← Int.sub_emod]
          have hturn := h.turn
          have : (v' : Int) - st.dataBufferStart = ((v' - st.dataBufferStart : Nat) : Int) := by
            omega
          rw [this]
          exact_mod_cast Nat.mod_eq_of_lt (by omega)
        omega
      have hturn := h.turn
      refine ⟨?_, ?_, hids, hlt, ?_⟩
      · rw [herase]
        simp only [hmove]
        exact ⟨v', chunk', le_rfl, haddr, hrest'⟩
      · simp only [hmove]
        omega
      · rw [hend, hsize]

structure SameTables (st st' : ShmStore K V U) : Prop where
  memory : st'.memory = st.memory
  keyIndex : st'.keyIndex = st.keyIndex
  idIndex : st'.idIndex = st.idIndex
  writerFlag : st'.writerFlag = st.writerFlag
  p0Cache : st'.p0Cache = st.p0Cache

theorem SameTables.refl (st : ShmStore K V U) : SameTables st st := ⟨rfl, rfl, rfl, rfl, rfl⟩

theorem SameTables.trans {st₁ st₂ : ShmStore K V U} (h : SameTables st st₁) (h' : SameTables st₁ st₂) :
    SameTables st st₂ :=
  ⟨h'.memory.trans h.memory, h'.keyIndex.trans h.keyIndex, h'.idIndex.trans h.idIndex,
    h'.writerFlag.trans h.writerFlag, h'.p0Cache.trans h.p0Cache⟩

theorem freeFirst_tables (cfg : ShmConfig V) (st : ShmStore K V U) : SameTables st (cfg.freeFirst st) ∧
    (cfg.freeFirst st).metadata = st.metadata.erase st.monotonicIdStart := by
  rw [ShmConfig.freeFirst]
  split <;> exact ⟨⟨rfl, rfl, rfl, rfl, rfl⟩, rfl⟩

structure Unlinked (cfg : ShmConfig V) (st st' : ShmStore K V U) (ids : List Nat) : Prop where
  ring : Ring cfg st'
  tables : SameTables st st'
  metadata : ∀ i, st'.metadata.get? i = if i ∈ ids then none else st.metadata.get? i
  free : ∀ i ∈ ids, i ∈ st.metadata.keys ∧ st.uses i * cfg.nReaders ≤ cfg.reads st i

theorem Ring.freeLoop (h : Ring cfg st) (nbytes turns freedBytes : Nat) :
    Unlinked cfg st (cfg.freeLoop nbytes turns freedBytes st).2
      (cfg.freeLoop nbytes turns freedBytes st).1 := by
  have hnone : ∀ {st : ShmStore K V U}, Ring cfg st → Unlinked cfg st st [] := fun h =>
    ⟨h, SameTables.refl _, by simp, by simp⟩
  induction turns generalizing st freedBytes with
  | zero => exact hnone h
  | succ turns ih =>
    rw [freeLoop]
    cases hfirst : st.metadata.get? st.monotonicIdStart with
    | none => exact hnone h
    | some a =>
      simp only
      split
      · obtain ⟨chunk, hchunk, -, hreads⟩ := h.chunk hfirst
        rw [hchunk]
        simp only
        split
        · next hfree =>
          have hrest := ih (h.freeFirst hfirst) (freedBytes + chunk.size)
          obtain ⟨htables, hmeta⟩ := freeFirst_tables cfg st
          refine ⟨hrest.ring, htables.trans hrest.tables, fun i => ?_, fun i hi => ?_⟩
          · rw [hrest.metadata, hmeta, get?_erase]
            by_cases he : i = st.monotonicIdStart <;> simp [he]
          · rcases mem_cons.mp hi with rfl | hi
            · refine ⟨mem_keys_of_get? hfirst, ?_⟩
              rw [hreads]
              exact of_decide_eq_true hfree
            · obtain ⟨hin, hle⟩ := hrest.free i hi
              rw [hmeta, mem_keys_erase] at hin
              have hget : (cfg.freeFirst st).metadata.get? i = st.metadata.get? i := by
                rw [hmeta]
                exact get?_erase_of_ne _ hin.1
              rw [reads_congr htables.memory hget, ShmStore.uses, htables.writerFlag] at hle
              exact ⟨hin.2, hle⟩
        · exact hnone h
      · exact hnone h

theorem Ring.wrapAround (h : Ring cfg st) : Ring cfg (cfg.wrapAround st) ∧
    SameTables st (cfg.wrapAround st) ∧ (cfg.wrapAround st).metadata = st.metadata := by
  rw [ShmConfig.wrapAround]
  split
  · next hge =>
    refine ⟨⟨h.laid.shift hge, ?_, h.ids, h.start_lt, h.end_eq⟩, ⟨rfl, rfl, rfl, rfl, rfl⟩, rfl⟩
    have := h.turn
    simp only
    omega
  · exact ⟨h, SameTables.refl st, rfl⟩

/-! ### The tables -/

structure Paired (st : ShmStore K V U) : Prop where
  of_key : ∀ k a i, st.keyIndex.get? k = some (a, i) → st.idIndex.get? i = some k
  of_id : ∀ k i, st.idIndex.get? i = some k → ∃ a, st.keyIndex.get? k = some (a, i)

structure Forgotten (cfg : ShmConfig V) (st st' : ShmStore K V U) (ids : List Nat) : Prop where
  paired : Paired st'
  keys : ∀ k, st'.keyIndex.get? k = (st.keyIndex.get? k).filter fun e => e.2 ∉ ids
  names : ∀ i, st'.idIndex.get? i = if i ∈ ids then none else st.idIndex.get? i
  flags : ∀ i, st'.writerFlag.get? i =
    if i ∈ ids ∧ i ∈ st.idIndex.keys then none else st.writerFlag.get? i
  memory : st'.memory = st.memory
  metadata : st'.metadata = st.metadata
  updates : st'.p0Cache = st.p0Cache
  ring : Ring cfg st → Ring cfg st'

theorem Paired.forget (h : Paired st) (i : Nat) : Forgotten cfg st (ShmConfig.forget st i) [i] := by
  rw [ShmConfig.forget]
  cases hi : st.idIndex.get? i with
  | none =>
    have hkeys : ∀ k, st.keyIndex.get? k = (st.keyIndex.get? k).filter fun e => e.2 ∉ [i] := by
      intro k
      cases hk : st.keyIndex.get? k with
      | none => rfl
      | some e =>
        have hne : e.2 ≠ i := fun he => by
          have := h.of_key k e.1 e.2 hk
          rw [he, hi] at this
          cases this
        simp [Option.filter, hne]
    have hnot : i ∉ st.idIndex.keys := get?_eq_none_iff.mp hi
    refine ⟨h, hkeys, fun j => ?_, fun j => ?_, rfl, rfl, rfl, id⟩
    · by_cases he : j = i <;> simp [he, hi]
    · by_cases he : j = i <;> simp [he, hnot]
  | some key =>
    obtain ⟨a, ha⟩ := h.of_id key i hi
    -- another key has another id
    have hkey : ∀ k e, st.keyIndex.get? k = some e → (k = key ↔ e.2 = i) := fun k e hk => by
      have hid := h.of_key k e.1 e.2 hk
      constructor
      · rintro rfl
        rw [ha] at hk
        cases hk
        rfl
      · intro he
        rw [he, hi] at hid
        exact (Option.some.inj hid).symm
    have hin : i ∈ st.idIndex.keys := mem_keys_of_get? hi
    refine ⟨⟨fun k a' j hk => ?_, fun k j hj => ?_⟩, fun k => ?_, fun j => ?_, fun j => ?_, rfl, rfl,
      rfl, fun hr => { hr with }⟩
    · change (st.keyIndex.erase key).get? k = _ at hk
      change (st.idIndex.erase i).get? j = _
      rw [get?_erase] at hk ⊢
      split at hk
      · cases hk
      · next hne =>
        rw [if_neg fun he => hne ((hkey k _ hk).mpr he)]
        exact h.of_key k a' j hk
    · change (st.idIndex.erase i).get? j = _ at hj
      change ∃ a, (st.keyIndex.erase key).get? k = _
      rw [get?_erase] at hj
      split at hj
      · cases hj
      · next hne =>
        obtain ⟨a', ha'⟩ := h.of_id k j hj
        refine ⟨a', ?_⟩
        rw [get?_erase, if_neg fun he => hne ((hkey k _ ha').mp he)]
        exact ha'
    · change (st.keyIndex.erase key).get? k = _
      rw [get?_erase]
      cases hk : st.keyIndex.get? k with
      | none => simp
      | some e =>
        by_cases he : k = key
        · simp [he, Option.filter, (hkey k e hk).mp he]
        · have hne : e.2 ≠ i := fun hc => he ((hkey k e hk).mpr hc)
          simp [he, Option.filter, hne]
    · change (st.idIndex.erase i).get? j = _
      rw [get?_erase]
      by_cases he : j = i <;> simp [he]
    · change (st.writerFlag.erase i).get? j = _
      rw [get?_erase]
      by_cases he : j = i <;> simp [he, hin]

theorem Paired.forgetAll (h : Paired st) (ids : List Nat) :
    Forgotten cfg st (ids.foldl ShmConfig.forget st) ids := by
  induction ids generalizing st with
  | nil =>
    refine ⟨h, fun k => ?_, by simp, by simp, rfl, rfl, rfl, id⟩
    cases hk : st.keyIndex.get? k <;> simp [hk, Option.filter]
  | cons i ids ih =>
    have h₁ : Forgotten cfg st (ShmConfig.forget st i) [i] := h.forget i
    have h₂ := ih h₁.paired
    refine ⟨h₂.paired, fun k => ?_, fun j => ?_, fun j => ?_, h₂.memory.trans h₁.memory,
      h₂.metadata.trans h₁.metadata, h₂.updates.trans h₁.updates, fun hr => h₂.ring (h₁.ring hr)⟩
    · rw [foldl_cons, h₂.keys, h₁.keys, Option.filter_filter]
      congr 1
      funext e
      by_cases he : e.2 = i <;> simp [he]
    · rw [foldl_cons, h₂.names, h₁.names]
      by_cases he : j = i <;> simp [he]
    · have hin : j ∈ (ShmConfig.forget st i).idIndex.keys ↔ j ≠ i ∧ j ∈ st.idIndex.keys := by
        rw [mem_keys_iff, h₁.names, mem_keys_iff]
        by_cases he : j = i <;> simp [he]
      rw [foldl_cons, h₂.flags, h₁.flags]
      simp only [hin]
      by_cases he : j = i
      · simp [he]
      · simp [he]

structure Freed (cfg : ShmConfig V) (st st' : ShmStore K V U) (ids : List Nat) : Prop where
  sound : Sound cfg st'
  metadata : ∀ i, st'.metadata.get? i = if i ∈ ids then none else st.metadata.get? i
  keys : ∀ k, st'.keyIndex.get? k = (st.keyIndex.get? k).filter fun e => e.2 ∉ ids
  flags : ∀ i, i ∉ ids → st'.uses i = st.uses i
  memory : st'.memory = st.memory
  updates : st'.p0Cache = st.p0Cache
  free : ∀ i ∈ ids, i ∈ st.metadata.keys ∧ st.uses i * cfg.nReaders ≤ cfg.reads st i
  size : st'.metadata.size ≤ st.metadata.size

theorem Sound.paired (h : Sound cfg st) : Paired st :=
  ⟨fun k a i hk => ((h.index k a i).mp hk).1, fun k i hi => by
    obtain ⟨a, ha⟩ := Option.isSome_iff_exists.mp (mem_keys_iff.mp
      ((h.owned i).mpr (mem_keys_of_get? hi)))
    exact ⟨a, (h.index k a i).mpr ⟨hi, ha⟩⟩⟩

theorem Sound.freeUnused (h : Sound cfg st) : ∃ ids, Freed cfg st (cfg.freeUnused st) ids := by
  have hloop := h.ring.freeLoop (2 * cfg.maxObjectSize) st.metadata.size 0
  rw [ShmConfig.freeUnused]
  rcases hrun : cfg.freeLoop (2 * cfg.maxObjectSize) st.metadata.size 0 st with ⟨ids, st₁⟩
  rw [hrun] at hloop
  obtain ⟨hring, htables, hmeta⟩ := hloop.ring.wrapAround
  have hsame := hloop.tables.trans htables
  have hpaired : Paired (cfg.wrapAround st₁) :=
    ⟨by rw [hsame.keyIndex, hsame.idIndex]; exact h.paired.of_key,
      by rw [hsame.keyIndex, hsame.idIndex]; exact h.paired.of_id⟩
  have hgone : Forgotten cfg (cfg.wrapAround st₁) (ids.foldl ShmConfig.forget (cfg.wrapAround st₁))
      ids := hpaired.forgetAll ids
  set st₂ := ids.foldl ShmConfig.forget (cfg.wrapAround st₁)
  have hmetadata : ∀ i, st₂.metadata.get? i = if i ∈ ids then none else st.metadata.get? i :=
    fun i => by rw [hgone.metadata, hmeta, hloop.metadata]
  have hnames : ∀ i, st₂.idIndex.get? i = if i ∈ ids then none else st.idIndex.get? i := fun i => by
    rw [hgone.names, hsame.idIndex]
  have hkeys : ∀ k, st₂.keyIndex.get? k = (st.keyIndex.get? k).filter fun e => e.2 ∉ ids :=
    fun k => by rw [hgone.keys, hsame.keyIndex]
  have hflags : ∀ i, st₂.writerFlag.get? i = if i ∈ ids then none else st.writerFlag.get? i := by
    intro i
    rw [hgone.flags, hsame.idIndex, hsame.writerFlag]
    by_cases hi : i ∈ ids
    · have := (h.owned i).mp (hloop.free i hi).1
      simp [this]
    · simp [hi]
  have hmem : ∀ {W : Type} {d d' : Dict Nat W} {i : Nat},
      d'.get? i = (if i ∈ ids then none else d.get? i) → (i ∈ d'.keys ↔ i ∉ ids ∧ i ∈ d.keys) := by
    intro W d d' i he
    rw [mem_keys_iff, he, mem_keys_iff]
    by_cases hi : i ∈ ids <;> simp [hi]
  have hsize : st₂.metadata.size ≤ st.metadata.size := by
    rw [← length_keys, ← length_keys]
    exact (subperm_of_subset st₂.metadata.keys_nodup fun i hi =>
      ((hmem (hmetadata i)).mp hi).2).length_le
  refine ⟨ids, ⟨hgone.ring hring, fun k a i => ?_, fun i => ?_, fun i => ?_⟩, hmetadata, hkeys,
    fun i hi => ?_, hgone.memory.trans hsame.memory, hgone.updates.trans hsame.p0Cache, hloop.free,
    hsize⟩
  · rw [hkeys, hnames, hmetadata]
    rw [Option.filter_eq_some_iff, h.index]
    by_cases hi : i ∈ ids <;> simp [hi]
  · rw [hmem (hmetadata i), hmem (hnames i), h.owned]
  · rw [hmem (hmetadata i), hmem (hflags i), h.flags]
  · rw [ShmStore.uses, hflags, if_neg hi, ShmStore.uses]

end Vllm.Multimodal
