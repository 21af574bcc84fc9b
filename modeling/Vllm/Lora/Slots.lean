import Vllm.Lora.Manager
import Vllm.Base.SlotTable
import Vllm.Base.Run

/-! The active adapters are the ones in the slots, each in one of them and with its own weights. -/

namespace Vllm.Lora
open Base SlotTable Dict Call LruCache LoraConfig List AdapterLruCache LoraManager

variable {W : Type} {cfg : LoraConfig} {st : LoraManager W}

/-! ## The invariant -/

structure Slotted (cfg : LoraConfig) (st : LoraManager W) : Prop where
  length : st.loraIndexToId.length = cfg.maxLoras
  active_iff : ∀ id, id ∈ st.active.data.keys ↔ some id ∈ st.loraIndexToId
  once : SlotTable.Once st.loraIndexToId
  settled : st.active.Settled

structure Held (cfg : LoraConfig) (st : LoraManager W) : Prop extends Slotted cfg st where
  registered : ∀ id ∈ st.active.data.keys, id ∈ st.registered.data.keys
  named : ∀ id lora, st.registered.data.get? id = some lora → lora.id = id
  weights : ∀ (i : Nat) id lora, st.loraIndexToId[i]? = some (some id) →
    st.registered.data.get? id = some lora →
    ∀ name ∈ cfg.modules, st.buffers i name = cfg.getLoraLayerWeights lora name
  kept : st.registered.Settled
  room : st.registered.data.size ≤ cfg.maxCpuLoras

/-! ## Removals -/

def LoraManager.dropActive (st : LoraManager W) (id : Int) : LoraManager W :=
  { st with
    active := st.active.erase id
    loraIndexToId := clear st.loraIndexToId id }

def LoraManager.dropAdapter (st : LoraManager W) (id : Int) : LoraManager W :=
  { st.dropActive id with registered := st.registered.erase id }

theorem deactivateSlot_eq (id : Int) (st : LoraManager W) : deactivateSlot id st =
    { st with loraIndexToId := clear st.loraIndexToId id } := by
  rw [deactivateSlot, clear]
  cases st.loraIndexToId.findIdx? (· == some id) <;> rfl

variable {id : Int} {V : Type} {ids : List Int} {table : List (Option Int)}
  {requests : List (LoraRequest × Except PyError (Dict String W))} {mapping : LoraMapping}

section
variable (h : Slotted cfg st)
include h

theorem Slotted.drop_inactive (hid : id ∉ st.active.data.keys) : st.dropActive id = st := by
  rw [dropActive, h.settled.erase_of_not_mem hid,
    clear_of_not_mem fun hc => hid ((h.active_iff id).mpr hc)]

theorem Slotted.pop_active (id : Int) : cfg.activeAdapters.pop id st = st.dropActive id := by
  rw [pop]
  by_cases hid : id ∈ st.active.data.keys
  · refine (if_pos (mem_keys_iff.mp hid)).trans ?_
    exact deactivateSlot_eq id _
  · rw [h.drop_inactive hid]
    exact if_neg fun hc => hid (mem_keys_iff.mpr hc)

theorem Slotted.deactivate (id : Int) : cfg.deactivateAdapter id st = st.dropActive id := by
  rw [deactivateAdapter]
  by_cases hid : id ∈ st.active.data.keys
  · refine (if_pos (mem_keys_iff.mp hid)).trans ?_
    rw [deactivateSlot_eq]
    refine (if_pos (mem_keys_iff.mp hid)).trans ?_
    change deactivateSlot id _ = _
    rw [deactivateSlot_eq]
    simp only [activeAdapters, h.once.clear_clear, dropActive]
  · rw [h.drop_inactive hid]
    exact if_neg fun hc => hid (mem_keys_iff.mpr hc)

theorem Slotted.dropActive (id : Int) : Slotted cfg (st.dropActive id) where
  length := (length_clear _ _).trans h.length
  active_iff := fun id' => by
    change id' ∈ (st.active.data.erase id).keys ↔ some id' ∈ clear st.loraIndexToId id
    rw [mem_keys_erase, h.once.mem_clear, h.active_iff]
  once := h.once.clear id
  settled := h.settled.erase id

end

section
variable (h : Held cfg st) (id : Int)
include h

theorem Held.dropActive : Held cfg (st.dropActive id) where
  toSlotted := h.toSlotted.dropActive id
  registered := fun id' hid' => h.registered id' (mem_keys_erase.mp hid').2
  named := h.named
  weights := fun i id' lora hi => by
    change (clear st.loraIndexToId id)[i]? = _ at hi
    rw [h.once.getElem?_clear] at hi
    split at hi
    · cases hi
    · exact h.weights i id' lora hi
  kept := h.kept
  room := h.room

theorem Held.pop_registered : cfg.registeredAdapters.pop id st = st.dropAdapter id := by
  rw [pop]
  by_cases hid : id ∈ st.registered.data.keys
  · refine (if_pos (mem_keys_iff.mp hid)).trans ?_
    have hs : Slotted cfg { st with registered := st.registered.erase id } :=
      { h with }
    exact hs.deactivate id
  · have hact : id ∉ st.active.data.keys := fun hc => hid (h.registered id hc)
    have hsame : st.dropAdapter id = st := by
      rw [LoraManager.dropAdapter, h.drop_inactive hact, h.kept.erase_of_not_mem hid]
    rw [hsame]
    exact if_neg fun hc => hid (mem_keys_iff.mpr hc)

theorem Held.dropAdapter : Held cfg (st.dropAdapter id) where
  toSlotted :=
    have hs := h.toSlotted.dropActive id
    { hs with }
  registered := fun id' hid' => by
    obtain ⟨hne, hin⟩ := mem_keys_erase.mp hid'
    exact mem_keys_erase.mpr ⟨hne, h.registered id' hin⟩
  named := fun id' lora hid' => by
    change (st.registered.data.erase id).get? id' = _ at hid'
    rw [get?_erase] at hid'
    split at hid'
    · cases hid'
    · exact h.named id' lora hid'
  weights := fun i id' lora hi hid' => by
    change (st.registered.data.erase id).get? id' = _ at hid'
    rw [get?_erase] at hid'
    split at hid'
    · cases hid'
    · exact (h.dropActive id).weights i id' lora hi hid'
  kept := h.kept.erase id
  room := by
    refine le_trans ?_ h.room
    change (st.registered.data.erase id).size ≤ st.registered.data.size
    rw [← length_keys, keys_erase, ← length_keys]
    exact length_filter_le _ _

theorem Held.removeAdapter : ∃ b, cfg.removeAdapter id st = (.ok b, st.dropAdapter id) := by
  rw [LoraConfig.removeAdapter, modify_bind, get_bind, h.deactivate]
  have h₁ := h.dropActive id
  have hdrop : (st.dropActive id).dropAdapter id = st.dropAdapter id := by
    have hout : id ∉ (st.dropActive id).active.data.keys := fun hc =>
      (mem_keys_erase.mp hc).1 rfl
    rw [LoraManager.dropAdapter, (h.toSlotted.dropActive id).drop_inactive hout]
    rfl
  by_cases hid : (st.dropActive id).registered.data.contains id = true
  · rw [if_pos hid]
    refine ⟨true, ?_⟩
    rw [← hdrop, ← h₁.pop_registered]
    rfl
  · rw [if_neg hid]
    refine ⟨false, ?_⟩
    rw [← hdrop, ← h₁.pop_registered]
    exact congrArg (Prod.mk (Except.ok false)) (if_neg hid).symm

end

theorem Settled.head? {c : LruCache Int V} (h : c.Settled) (hpos : 0 < c.data.size) :
    ∃ k, c.order.head? = some k := by
  cases horder : c.order with
  | nil =>
    have := h.length_order
    rw [horder, length_nil] at this
    omega
  | cons k ks => exact ⟨k, rfl⟩

theorem AdapterLruCache.removeOldest_eq {σ : Type} {c : AdapterLruCache σ V} {s : σ} {k : Int}
    (hpos : 0 < (c.get s).data.size) (hk : (c.get s).order.head? = some k) :
    c.removeOldest s = (.ok (), c.pop k s) := by
  rw [removeOldest, get_bind, if_neg (by omega), popitem,
    get_bind, hk]
  rfl

theorem Held.removeOldest_active (h : Held cfg st) (hpos : 0 < st.active.data.size) :
    ∃ k, st.active.order.head? = some k ∧
      cfg.activeAdapters.removeOldest st = (.ok (), st.dropActive k) := by
  obtain ⟨k, hk⟩ := Settled.head? h.settled hpos
  refine ⟨k, hk, ?_⟩
  rw [← h.pop_active]
  exact removeOldest_eq hpos hk

theorem Held.removeOldestAdapter (h : Held cfg st) (hpos : 0 < st.registered.data.size) :
    ∃ k, st.registered.order.head? = some k ∧
      cfg.removeOldestAdapter st = (.ok true, st.dropAdapter k) := by
  obtain ⟨k, hk⟩ := Settled.head? h.kept hpos
  refine ⟨k, hk, ?_⟩
  have hrun : cfg.registeredAdapters.removeOldest st = (.ok (), st.dropAdapter k) := by
    rw [← h.pop_registered]
    exact removeOldest_eq hpos hk
  rw [LoraConfig.removeOldestAdapter, get_bind, if_pos hpos, bind_of_ok hrun]
  rfl

/-! ## A new adapter -/

theorem AdapterLruCache.setItem_eq {σ : Type} {c : AdapterLruCache σ V} {s : σ}
    (hroom : (c.get s).data.size + 1 ≤ c.capacity) (key : Int) (value : V) :
    c.setItem key value s = (.ok (), c.set ((c.get s).insert key value) s) := by
  have hmake : ∀ keys, c.makeRoom keys s = (.ok (), s) := fun keys => by
    cases keys with
    | nil =>
      rw [makeRoom, get_bind, decide_eq_true hroom]
      rfl
    | cons key keys =>
      rw [makeRoom, get_bind, if_pos hroom]
      rfl
  have hwhen : ∀ b keys, Call.when b (c.makeRoom keys) s = (.ok (), s) := fun b keys => by
    cases b with
    | false => rfl
    | true => exact hmake keys
  rw [setItem, check_bind (decide_eq_true (by omega)), get_bind,
    bind_of_ok (hwhen _ _)]
  rfl

theorem Held.registerAdapter (h : Held cfg st) {lora : LoraModel W}
    (hnew : lora.id ∉ st.registered.data.keys)
    (hroom : st.registered.data.size + 1 ≤ cfg.maxCpuLoras) :
    cfg.registerAdapter lora st =
        (.ok true, { st with registered := st.registered.insert lora.id lora }) ∧
      Held cfg { st with registered := st.registered.insert lora.id lora } := by
  have hnone := get?_eq_none_iff.mpr hnew
  have hget : ∀ id, (st.registered.insert lora.id lora).data.get? id =
      if id = lora.id then some lora else st.registered.data.get? id := fun id =>
    get?_set _ _ id _
  constructor
  · have hnot : ¬st.registered.data.contains lora.id = true := fun hc =>
      hnew (mem_keys_iff.mpr hc)
    have hrun : cfg.registeredAdapters.setItem lora.id lora st =
        (.ok (), { st with registered := st.registered.insert lora.id lora }) :=
      setItem_eq hroom _ _
    rw [LoraConfig.registerAdapter, get_bind, if_neg hnot, bind_of_ok hrun]
    rfl
  · refine ⟨{ h with }, fun id hid => ?_, fun id m hm => ?_,
      fun i id m hi hm => ?_, h.kept.insert _ _, ?_⟩
    · exact mem_keys_set.mpr (.inr (h.registered id hid))
    · rw [hget] at hm
      split at hm
      · next he =>
        cases hm
        exact he.symm
      · exact h.named id m hm
    · have hne : id ≠ lora.id := fun he =>
        hnew (he ▸ h.registered id ((h.active_iff id).mpr (mem_of_getElem? hi)))
      rw [hget, if_neg hne] at hm
      exact h.weights i id m hi hm
    · change (st.registered.data.set lora.id lora).size ≤ _
      rw [size_set_of_none hnone]
      exact hroom

/-! ## Activation -/

def SameMapping (st st' : LoraManager W) : Prop :=
  st'.lastMapping = st.lastMapping ∧ st'.metadata = st.metadata

theorem SameMapping.trans {st₁ st₂ : LoraManager W} (h : SameMapping st st₁)
    (h' : SameMapping st₁ st₂) : SameMapping st st₂ :=
  ⟨h'.1.trans h.1, h'.2.trans h.2⟩

structure Served (cfg : LoraConfig) (ids : List Int) (st : LoraManager W) : Prop where
  held : Held cfg st
  active : ids <:+ st.active.order
  registered : ids <:+ st.registered.order

section
variable (h : Held cfg st)
include h

theorem Held.touch_active (hid : id ∈ st.active.data.keys) :
    Held cfg { st with active := st.active.touch id } :=
  ⟨⟨h.length, h.active_iff, h.once, h.settled.touch hid⟩, h.registered, h.named, h.weights, h.kept,
    h.room⟩

theorem Held.touch_registered (hid : id ∈ st.registered.data.keys) :
    Held cfg { st with registered := st.registered.touch id } :=
  ⟨{ h with }, h.registered, h.named, h.weights, h.kept.touch hid, h.room⟩

theorem Held.activateInFreeSlot (hid : id ∉ st.active.data.keys)
    {lora : LoraModel W} (hlora : st.registered.data.get? id = some lora)
    (hroom : st.active.data.size < cfg.maxLoras) :
    ∃ st', cfg.activateInFreeSlot id st = (.ok true, st') ∧ Held cfg st' ∧ SameMapping st st' ∧
      st'.active = st.active.insert id () ∧ st'.registered = st.registered.touch id := by
  have hnot : ¬st.active.data.contains id = true := fun hc => hid (mem_keys_iff.mpr hc)
  have hheld : ∀ a, some a ∈ st.loraIndexToId → a ∈ st.active.data.keys := fun a =>
    (h.active_iff a).mpr
  obtain ⟨index, hindex⟩ := h.once.exists_free hheld (by rw [length_keys, h.length]; exact hroom)
  have hfree := getElem?_of_findIdx? hindex
  have hlt : index < st.loraIndexToId.length := (List.getElem?_eq_some_iff.mp hfree).1
  have hout : some id ∉ st.loraIndexToId := fun hc => hid ((h.active_iff id).mpr hc)
  have hset : cfg.activeAdapters.setItem id () st =
      (.ok (), { st with active := st.active.insert id () }) :=
    setItem_eq (c := cfg.activeAdapters) (s := st) hroom id ()
  have hgetAdapter : getAdapter id { st with active := st.active.insert id () } = (.ok (some lora),
      { st with active := st.active.insert id (), registered := st.registered.touch id }) := by
    rw [getAdapter, get_bind, hlora]
    rfl
  have hrun : cfg.activateInFreeSlot id st = (.ok true, cfg.loadWeights lora index
      { st with
        active := st.active.insert id ()
        registered := st.registered.touch id
        loraIndexToId := st.loraIndexToId.set index (some lora.id) }) := by
    rw [LoraConfig.activateInFreeSlot, get_bind, if_neg hnot, hindex]
    change (cfg.activeAdapters.setItem id () >>= _) st = _
    rw [bind_of_ok hset, bind_of_ok hgetAdapter]
    rfl
  refine ⟨_, hrun, ?_, ⟨rfl, rfl⟩, rfl, rfl⟩
  have hname := h.named id lora hlora
  have hget : ∀ j : Nat, (st.loraIndexToId.set index (some lora.id))[j]? =
      if j = index then some (some id) else st.loraIndexToId[j]? := fun j => by
    rw [getElem?_set, hname]
    by_cases hj : index = j
    · simp [hj, hj ▸ hlt]
    · simp [hj, Ne.symm hj]
  refine ⟨⟨?_, fun id' => ?_, ?_, h.settled.insert id ()⟩, fun id' hid' => ?_, h.named,
    fun i id' m hi hm name hin => ?_, h.kept.touch (mem_keys_of_get? hlora), h.room⟩
  · change (st.loraIndexToId.set index (some lora.id)).length = _
    rw [length_set]
    exact h.length
  · change id' ∈ (st.active.data.set id ()).keys ↔ some id' ∈ st.loraIndexToId.set index (some lora.id)
    rw [mem_keys_set, h.active_iff, mem_iff_getElem?, mem_iff_getElem?]
    simp only [hget]
    constructor
    · rintro (rfl | ⟨j, hj⟩)
      · exact ⟨index, if_pos rfl⟩
      · refine ⟨j, ?_⟩
        rw [if_neg fun he : j = index => by rw [he, hfree] at hj; cases hj]
        exact hj
    · rintro ⟨j, hj⟩
      split at hj
      · exact .inl (Option.some.inj (Option.some.inj hj)).symm
      · exact .inr ⟨j, hj⟩
  · change SlotTable.Once (st.loraIndexToId.set index (some lora.id))
    rw [hname]
    exact h.once.set hout index
  · rcases mem_keys_set.mp hid' with rfl | hid'
    · exact mem_keys_of_get? hlora
    · exact h.registered id' hid'
  · change (st.loraIndexToId.set index (some lora.id))[i]? = _ at hi
    change (if i = index ∧ name ∈ cfg.modules then _ else _) = _
    rw [hget] at hi
    split at hi
    · next he =>
      cases hi
      obtain rfl : lora = m := Option.some.inj (hlora.symm.trans hm)
      exact if_pos ⟨he, hin⟩
    · next he =>
      rw [if_neg fun hc => he hc.1]
      exact h.weights i id' m hi hm name hin

theorem Held.active_le : st.active.data.size ≤ cfg.maxLoras := by
  have hsub : List.Subperm (st.active.data.keys.map some) st.loraIndexToId := by
    refine subperm_of_subset (st.active.data.keys_nodup.map (Option.some_injective Int))
      fun x hx => ?_
    obtain ⟨id, hid, rfl⟩ := mem_map.mp hx
    exact (h.active_iff id).mp hid
  have hle := hsub.length_le
  rwa [length_map, length_keys, h.length] at hle

theorem Held.freeSlot (hactive : ids <:+ st.active.order) (hlen : ids.length < cfg.maxLoras) :
    ∃ st', Call.when (decide (st.active.data.size ≥ cfg.maxLoras)) cfg.activeAdapters.removeOldest st =
        (.ok (), st') ∧ Held cfg st' ∧ ids <:+ st'.active.order ∧ st'.registered = st.registered ∧
      (∀ id ∈ st'.active.data.keys, id ∈ st.active.data.keys) ∧
      st'.active.data.size < cfg.maxLoras ∧ SameMapping st st' := by
  have hpos := cfg.loras_pos
  by_cases hfull : st.active.data.size ≥ cfg.maxLoras
  · obtain ⟨k, hk, hrun⟩ := h.removeOldest_active (by omega)
    have hlast : k ∉ ids := head_not_mem st.active.nodup hactive
      (by rw [h.settled.length_order]; omega) hk
    obtain ⟨v, hv⟩ := Option.isSome_iff_exists.mp (mem_keys_iff.mp
      (h.settled k (mem_of_head? hk)))
    have hsize : (st.dropActive k).active.data.size + 1 = st.active.data.size := size_erase hv
    have hle := h.active_le
    refine ⟨st.dropActive k, ?_, h.dropActive k, suffix_erase hactive hlast, rfl,
      fun id hid => (mem_keys_erase.mp hid).2, by omega, ⟨rfl, rfl⟩⟩
    rw [decide_eq_true hfull]
    exact hrun
  · refine ⟨st, ?_, h, hactive, rfl, fun _ hid => hid, by omega, ⟨rfl, rfl⟩⟩
    rw [decide_eq_false hfull]
    rfl

end

theorem Served.freeRoom (h : Served cfg ids st) (hlen : ids.length < cfg.maxLoras) :
    ∃ st', Call.when (decide (st.registered.data.size + 1 > cfg.maxCpuLoras))
        (cfg.removeOldestAdapter >>= fun _ => pure ()) st = (.ok (), st') ∧ Served cfg ids st' ∧
      (∀ id ∈ st'.registered.data.keys, id ∈ st.registered.data.keys) ∧
      st'.registered.data.size + 1 ≤ cfg.maxCpuLoras ∧ SameMapping st st' := by
  have hpos := cfg.loras_pos
  have hmax := cfg.loras_le
  by_cases hfull : st.registered.data.size + 1 > cfg.maxCpuLoras
  · obtain ⟨k, hk, hrun⟩ := h.held.removeOldestAdapter (by omega)
    have hlast : k ∉ ids := head_not_mem st.registered.nodup h.registered
      (by rw [h.held.kept.length_order]; omega) hk
    obtain ⟨v, hv⟩ := Option.isSome_iff_exists.mp (mem_keys_iff.mp
      (h.held.kept k (mem_of_head? hk)))
    have hsize : (st.dropAdapter k).registered.data.size + 1 = st.registered.data.size :=
      size_erase hv
    have hle := h.held.room
    refine ⟨st.dropAdapter k, ?_, ⟨h.held.dropAdapter k, suffix_erase h.active hlast,
      suffix_erase h.registered hlast⟩, fun id hid => (mem_keys_erase.mp hid).2, by omega,
      ⟨rfl, rfl⟩⟩
    rw [decide_eq_true hfull]
    exact bind_of_ok hrun
  · refine ⟨st, ?_, h, fun _ hid => hid, by omega, ⟨rfl, rfl⟩⟩
    rw [decide_eq_false hfull]
    rfl

theorem activateAdapter_active (hid : id ∈ st.active.data.keys) :
    cfg.activateAdapter id st = (.ok false, { st with active := st.active.touch id }) := by
  have hin : st.active.data.contains id = true := mem_keys_iff.mp hid
  have hrun : cfg.activateInFreeSlot id st = (.ok false, st) := by
    rw [LoraConfig.activateInFreeSlot, get_bind, if_pos hin]
    rfl
  rw [activateAdapter, get_bind, hin]
  exact bind_of_ok hrun

theorem activateAdapter_spec (h : Held cfg st) (hactive : ids <:+ st.active.order)
    (hregistered : ids ++ [id] <:+ st.registered.order) (hid : id ∉ ids)
    (hlen : ids.length < cfg.maxLoras) :
    ∃ b st', cfg.activateAdapter id st = (.ok b, st') ∧ Served cfg (ids ++ [id]) st' ∧
      SameMapping st st' := by
  have hkey : id ∈ st.registered.data.keys := h.kept id (hregistered.subset (by simp))
  by_cases hin : id ∈ st.active.data.keys
  · exact ⟨false, _, activateAdapter_active hin, ⟨h.touch_active hin, suffix_moveToEnd hactive hid,
      hregistered⟩, ⟨rfl, rfl⟩⟩
  · have hnot : st.active.data.contains id = false := by
      rw [Dict.contains, get?_eq_none_iff.mpr hin]
      rfl
    obtain ⟨st₁, hrun₁, h₁, hactive₁, hreg₁, hsub₁, hroom₁, hsame₁⟩ := h.freeSlot hactive hlen
    have hout₁ : id ∉ st₁.active.data.keys := fun hc => hin (hsub₁ id hc)
    obtain ⟨lora, hlora⟩ := exists_of_mem_keys hkey
    obtain ⟨st₂, hrun₂, h₂, hsame₂, hactive₂, hreg₂⟩ :=
      h₁.activateInFreeSlot hout₁ (hreg₁ ▸ hlora) hroom₁
    rw [activateAdapter, get_bind, hnot, Bool.not_false, Bool.true_and, bind_of_ok hrun₁,
      bind_of_ok hrun₂]
    have hnow : id ∈ st₂.active.data.keys := by
      rw [hactive₂]
      exact mem_keys_set.mpr (.inl rfl)
    refine ⟨true, _, rfl, ⟨h₂.touch_active hnow, ?_, ?_⟩, hsame₁.trans hsame₂⟩
    · change ids ++ [id] <:+ moveToEnd st₂.active.order id
      have hlast : ids ++ [id] <:+ st₂.active.order := by
        rw [hactive₂]
        exact suffix_moveToEnd hactive₁ hid
      rw [moveToEnd_last st₂.active.nodup hlast]
      exact hlast
    · change ids ++ [id] <:+ st₂.registered.order
      rw [hreg₂, hreg₁]
      change ids ++ [id] <:+ moveToEnd st.registered.order id
      rw [moveToEnd_last st.registered.nodup hregistered]
      exact hregistered

theorem Served.takeIn (h : Served cfg ids st) (lora : LoraModel W) (hid : lora.id ∉ ids)
    (hlen : ids.length < cfg.maxLoras) :
    ∃ st', cfg.takeIn lora st = (.ok true, st') ∧ Held cfg st' ∧ ids <:+ st'.active.order ∧
      ids ++ [lora.id] <:+ st'.registered.order ∧ SameMapping st st' := by
  obtain ⟨b, hremove⟩ := h.held.removeAdapter lora.id
  have hout₁ : lora.id ∉ (st.dropAdapter lora.id).registered.data.keys := fun hc =>
    (mem_keys_erase.mp hc).1 rfl
  rw [LoraConfig.takeIn, bind_of_ok hremove, get_bind]
  have hserved₁ : Served cfg ids (st.dropAdapter lora.id) :=
    ⟨h.held.dropAdapter lora.id, suffix_erase h.active hid, suffix_erase h.registered hid⟩
  obtain ⟨st₂, hrun₂, h₂, hsub₂, hroom₂, hsame₂⟩ := hserved₁.freeRoom hlen
  obtain ⟨hrun₃, h₃⟩ := h₂.held.registerAdapter (fun hc => hout₁ (hsub₂ _ hc)) hroom₂
  exact ⟨_, (bind_of_ok hrun₂).trans hrun₃, h₃, h₂.active, suffix_moveToEnd h₂.registered hid,
    hsame₂⟩

/-! ## `add_adapter` -/

theorem loadOrTouch_registered {r : LoraRequest} (hin : r.loraIntId ∈ st.registered.data.keys)
    (hload : r.loadInplace = false) (loaded : Except PyError (Dict String W)) :
    cfg.loadOrTouch r loaded st =
      (.ok true, { st with registered := st.registered.touch r.loraIntId }) := by
  obtain ⟨lora, hlora⟩ := exists_of_mem_keys hin
  have hcontains : st.registered.data.contains r.loraIntId = true := mem_keys_iff.mp hin
  have hget : (getAdapter r.loraIntId : LoraCall W _) st =
      (.ok (some lora), { st with registered := st.registered.touch r.loraIntId }) := by
    rw [getAdapter, get_bind, hlora]
    rfl
  unfold loadOrTouch
  rw [get_bind, if_neg (by rw [hcontains, hload]; decide), bind_of_ok hget]
  rfl

theorem addAdapter_spec (st : LoraManager W) (r : LoraRequest)
    (loaded : Except PyError (Dict String W)) (hid : r.loraIntId ∉ ids)
    (hlen : ids.length < cfg.maxLoras) :
    Triple (fun s => Served cfg ids s ∧ SameMapping st s) (cfg.addAdapter r loaded)
      (fun _ s => Served cfg (ids ++ [r.loraIntId]) s ∧ SameMapping st s)
      fun _ s => Held cfg s ∧ SameMapping st s ∧ ∃ e, loaded = .error e := by
  have hfirst : Triple (fun s => Served cfg ids s ∧ SameMapping st s) (cfg.loadOrTouch r loaded)
      (fun _ s => Held cfg s ∧ ids <:+ s.active.order ∧
        ids ++ [r.loraIntId] <:+ s.registered.order ∧ SameMapping st s)
      fun _ s => Held cfg s ∧ SameMapping st s ∧ ∃ e, loaded = .error e := by
    refine .of_forall fun s₀ ⟨h, hsame⟩ => ?_
    by_cases hload : (!s₀.registered.data.contains r.loraIntId || r.loadInplace) = true
    · refine .bind_get ?_
      rw [if_pos hload]
      cases loaded with
      | error e => exact .of_error rfl ⟨h.held, hsame, e, rfl⟩
      | ok loras =>
        obtain ⟨s₁, hrun, hheld, hactive, hregistered, hsame₁⟩ := h.takeIn ⟨r.loraIntId, loras⟩ hid hlen
        exact .of_ok hrun ⟨hheld, hactive, hregistered, hsame.trans hsame₁⟩
    · rw [Bool.or_eq_true, not_or, Bool.not_eq_true', Bool.not_eq_false, Bool.not_eq_true] at hload
      have hkey : r.loraIntId ∈ s₀.registered.data.keys := mem_keys_iff.mpr hload.1
      exact .of_ok (loadOrTouch_registered hkey hload.2 loaded)
        ⟨h.held.touch_registered hkey, h.active, suffix_moveToEnd h.registered hid, hsame⟩
  refine hfirst.bind fun b => .of_forall fun s₁ ⟨hheld, hactive, hregistered, hsame⟩ => ?_
  obtain ⟨b', s₂, hrun, hserved, hsame'⟩ := activateAdapter_spec hheld hactive hregistered hid hlen
  exact .bind_run hrun (.of_ok rfl ⟨hserved, hsame.trans hsame'⟩)

theorem addAdapter_active (st : LoraManager W) {r : LoraRequest} (hload : r.loadInplace = false)
    (loaded : Except PyError (Dict String W)) (hin : some r.loraIntId ∈ table) :
    Triple (fun s => Held cfg s ∧ SameMapping st s ∧ s.loraIndexToId = table) (cfg.addAdapter r loaded)
      (fun _ s => Held cfg s ∧ SameMapping st s ∧ s.loraIndexToId = table) fun _ _ => False := by
  refine .of_forall fun s₀ ⟨h, hsame, htable⟩ => ?_
  have hactive : r.loraIntId ∈ s₀.active.data.keys := (h.active_iff _).mpr (htable ▸ hin)
  have hkey := h.registered _ hactive
  exact .bind_run (loadOrTouch_registered hkey hload loaded)
    (.bind_run (activateAdapter_active hactive)
      (.of_ok rfl ⟨(h.touch_registered hkey).touch_active hactive, hsame, htable⟩))

/-! ## `_apply_adapters` -/

theorem lorasMap_keys (requests : List (LoraRequest × Except PyError (Dict String W))) (id : Int) :
    id ∈ (lorasMap requests).keys ↔ ∃ r ∈ requests, r.1.loraIntId = id := by
  have hfold : ∀ (d : Dict Int (LoraRequest × Except PyError (Dict String W))),
      id ∈ (requests.foldl (fun d r => d.set r.1.loraIntId r) d).keys ↔
        id ∈ d.keys ∨ ∃ r ∈ requests, r.1.loraIntId = id := by
    induction requests with
    | nil => simp
    | cons r requests ih =>
      intro d
      rw [foldl_cons, ih, mem_keys_set]
      grind
  rw [lorasMap, hfold]
  simp [Dict.keys]

theorem lorasMap_entries {e : Int × LoraRequest × Except PyError (Dict String W)}
    (he : e ∈ (lorasMap requests).entries) : e.2 ∈ requests ∧ e.2.1.loraIntId = e.1 := by
  have hfold : ∀ (rs : List (LoraRequest × Except PyError (Dict String W)))
      (d : Dict Int (LoraRequest × Except PyError (Dict String W))),
      (∀ r ∈ rs, r ∈ requests) →
      (∀ k v, d.get? k = some v → v ∈ requests ∧ v.1.loraIntId = k) →
      ∀ k v, (rs.foldl (fun d r => d.set r.1.loraIntId r) d).get? k = some v →
        v ∈ requests ∧ v.1.loraIntId = k := by
    intro rs
    induction rs with
    | nil => exact fun d _ hd => hd
    | cons r rs ih =>
      intro d hrs hd
      refine ih _ (fun r' hr' => hrs r' (mem_cons_of_mem _ hr')) fun k v hk => ?_
      rw [get?_set] at hk
      split at hk
      · next heq =>
        cases hk
        exact ⟨hrs r mem_cons_self, heq.symm⟩
      · exact hd k v hk
  exact hfold requests ∅ (fun _ hr => hr) (by simp) e.1 e.2 (get?_eq_some_iff.mpr he)

theorem addEach_spec (st : LoraManager W)
    {es : List (Int × LoraRequest × Except PyError (Dict String W))} (hes : ∀ e ∈ es, e.2.1.loraIntId = e.1) (hnodup : (es.map Prod.fst).Nodup)
    (hlen : es.length ≤ cfg.maxLoras) :
    Triple (fun s => Served cfg [] s ∧ SameMapping st s)
      (Call.forEach es fun (_, r, loaded) => cfg.addAdapter r loaded >>= fun _ => pure ())
      (fun _ s => Served cfg (es.map Prod.fst) s ∧ SameMapping st s)
      fun _ s => Held cfg s ∧ SameMapping st s ∧ ∃ e ∈ es, ∃ err, e.2.2 = .error err := by
  refine .forEach (I := fun pre _ s => Served cfg (pre.map Prod.fst) s ∧ SameMapping st s) [] es
    fun pre e post he => ?_
  obtain rfl : es = pre ++ e :: post := he
  have hid : e.2.1.loraIntId = e.1 := hes e (by simp)
  rw [map_append, map_cons] at hnodup
  rw [length_append, length_cons] at hlen
  have hnew : e.2.1.loraIntId ∉ pre.map Prod.fst := fun hc =>
    (nodup_append.mp hnodup).2.2 _ hc _ mem_cons_self hid
  have hroom : (pre.map Prod.fst).length < cfg.maxLoras := by
    rw [length_map]
    omega
  have hadd := addAdapter_spec st e.2.1 e.2.2 hnew hroom
  refine (hadd.mapError fun _ _ h => ?_).bind fun _ => .pure _ fun s h => ?_
  · exact ⟨h.1, h.2.1, e, by simp, h.2.2⟩
  · rw [map_append, map_singleton, ← hid]
    exact h

theorem lorasMap_size (requests : List (LoraRequest × Except PyError (Dict String W))) :
    (lorasMap requests).size = (requests.map fun r => r.1.loraIntId).dedup.length := by
  rw [← length_keys]
  refine ((perm_ext_iff_of_nodup (lorasMap requests).keys_nodup (nodup_dedup _)).mpr
    fun id => ?_).length_eq
  rw [lorasMap_keys, mem_dedup, mem_map]

theorem applyAdapters_spec (st : LoraManager W)
    (requests : List (LoraRequest × Except PyError (Dict String W))) :
    Triple (fun s => Held cfg s ∧ SameMapping st s) (cfg.applyAdapters requests)
      (fun _ s => Held cfg s ∧ SameMapping st s ∧ ∀ r ∈ requests, r.1.loraIntId ∈ s.active.data.keys)
      fun _ s => Held cfg s ∧ SameMapping st s ∧
        (cfg.maxLoras < (lorasMap requests).size ∨ ∃ r ∈ requests, ∃ err, r.2 = .error err) := by
  refine .of_forall fun s₀ ⟨h, hsame⟩ => .bind_check (fun hsize => ?_) fun hsize => ?_
  · have hserved : Served cfg [] s₀ := ⟨h, nil_suffix, nil_suffix⟩
    refine (addEach_spec st (fun e he => (lorasMap_entries he).2) (lorasMap requests).keys_nodup
      (of_decide_eq_true hsize)).weaken (fun s hs => by rw [hs]; exact ⟨hserved, hsame⟩)
      (fun _ s hs => ?_) fun _ s ⟨hheld, hsame', e, he, herr⟩ => ?_
    · refine ⟨hs.1.held, hs.2, fun r hr => hs.1.held.settled _ (hs.1.active.subset ?_)⟩
      exact (lorasMap_keys requests _).mpr ⟨r, hr, rfl⟩
    · exact ⟨hheld, hsame', .inr ⟨e.2, (lorasMap_entries he).1, herr⟩⟩
  · exact ⟨h, hsame, .inl (Nat.lt_of_not_le (of_decide_eq_false hsize))⟩

theorem applyAdapters_active (st : LoraManager W)
    (hactive : ∀ r ∈ requests, some r.1.loraIntId ∈ table ∧ r.1.loadInplace = false) :
    Triple (fun s => Held cfg s ∧ SameMapping st s ∧ s.loraIndexToId = table)
      (cfg.applyAdapters requests) (fun _ s => s.loraIndexToId = table) fun _ _ => True := by
  refine .bind (Q := fun _ s => Held cfg s ∧ SameMapping st s ∧ s.loraIndexToId = table)
    (.check (fun _ hs _ => hs) fun _ _ _ => trivial) fun _ => ?_
  refine .weaken (E := fun _ _ => False) (.forEach_inv (lorasMap requests).entries fun e he => ?_)
    (fun _ hs => hs) (fun _ _ hs => hs.2.2) fun _ _ _ => trivial
  obtain ⟨hin, hload⟩ := hactive e.2 (lorasMap_entries he).1
  exact (addAdapter_active st hload e.2.2 hin).bind fun _ => .skip

/-! ## The mapping -/

theorem mapM_ok {α β ε : Type} {f : α → Except ε β} {xs : List α} {ys : List β}
    (h : xs.mapM f = .ok ys) {p : Nat} {x : α} (hx : xs[p]? = some x) :
    ∃ y, ys[p]? = some y ∧ f x = .ok y := by
  induction xs generalizing ys p with
  | nil => cases hx
  | cons x' xs ih =>
    rw [mapM_cons] at h
    obtain ⟨y, hf, h⟩ := except_bind_eq_ok.mp h
    obtain ⟨ys', hrest, h⟩ := except_bind_eq_ok.mp h
    cases h
    cases p with
    | zero =>
      obtain rfl : x' = x := by simpa using hx
      exact ⟨y, rfl, hf⟩
    | succ p => exact ih hrest (by simpa using hx)

theorem slotOf_ok {x y : Int} (h : slotOf table x = .ok y) (hx : 0 < x) :
    ∃ slot : Nat, y = slot ∧ table[slot]? = some (some x) := by
  rw [slotOf, if_pos hx] at h
  cases hf : table.findIdx? (· == some x) with
  | none =>
    rw [hf] at h
    cases h
  | some i =>
    rw [hf] at h
    exact ⟨i, (Except.ok.inj h).symm, getElem?_of_findIdx? hf⟩

def LoraManager.Maps (cfg : LoraConfig) (st : LoraManager W) (mapping : LoraMapping) : Prop :=
  ∀ wrapper, cfg.targetWrapper mapping.type = some wrapper →
    ∀ (p : Nat) (x : Int), mapping.indexMapping[p]? = some x → 0 < x →
      ∃ slot : Nat, (st.metadata wrapper).tokenLoraIndices[p]? = some (slot : Int) ∧
        st.loraIndexToId[slot]? = some (some x)

theorem convertMapping_ok {indices : PunicaMetadata}
    (h : cfg.convertMapping mapping table = .ok indices) :
    mapping.indexMapping.mapM (slotOf table) = .ok indices.tokenLoraIndices := by
  obtain ⟨ps, -, h⟩ := except_bind_eq_ok.mp h
  obtain ⟨is, hi, h⟩ := except_bind_eq_ok.mp h
  cases h
  exact hi

theorem updateMetadata_maps {st' : LoraManager W}
    (h : cfg.updateMetadata mapping st = (.ok (), st')) :
    st'.Maps cfg mapping ∧ st'.loraIndexToId = st.loraIndexToId := by
  rw [updateMetadata] at h
  cases hw : cfg.targetWrapper mapping.type with
  | none =>
    rw [hw] at h
    cases h
  | some wrapper =>
    rw [hw] at h
    change (Call.get >>= _) st = _ at h
    rw [get_bind] at h
    cases hc : cfg.convertMapping mapping st.loraIndexToId with
    | error e =>
      rw [hc] at h
      cases h
    | ok indices =>
      rw [hc] at h
      cases h
      refine ⟨fun w hw' p x hx hpos => ?_, rfl⟩
      obtain rfl : wrapper = w := Option.some.inj (hw.symm.trans hw')
      obtain ⟨y, hy, hfound⟩ := mapM_ok (convertMapping_ok hc) hx
      obtain ⟨slot, rfl, hslot⟩ := slotOf_ok hfound hpos
      exact ⟨slot, by simpa using hy, hslot⟩

theorem mapM_returns {α β ε : Type} {f : α → Except ε β} {xs : List α}
    (h : ∀ x ∈ xs, ∃ y, f x = .ok y) : ∃ ys, xs.mapM f = .ok ys := by
  induction xs with
  | nil => exact ⟨[], rfl⟩
  | cons x xs ih =>
    obtain ⟨y, hy⟩ := h x mem_cons_self
    obtain ⟨ys, hys⟩ := ih fun x' hx' => h x' (mem_cons_of_mem _ hx')
    refine ⟨y :: ys, ?_⟩
    rw [mapM_cons, hy, hys]
    rfl

def LoraMapping.Among (mapping : LoraMapping) (ids : List Int) : Prop :=
  (∀ x ∈ mapping.indexMapping, 0 < x → x ∈ ids) ∧ ∀ x ∈ mapping.promptMapping, 0 < x → x ∈ ids

theorem updateMetadata_returns (h : Held cfg st) (hactive : mapping.Among st.active.data.keys)
    (hwrapper : cfg.targetWrapper mapping.type ≠ none) :
    ∃ st', cfg.updateMetadata mapping st = (.ok (), st') := by
  have hslot : ∀ x, (0 < x → x ∈ st.active.data.keys) →
      ∃ y, slotOf st.loraIndexToId x = .ok y := by
    intro x hx
    rw [slotOf]
    by_cases hpos : x > 0
    · rw [if_pos hpos]
      cases hf : st.loraIndexToId.findIdx? (· == some x) with
      | some i => exact ⟨i, rfl⟩
      | none => exact absurd ((h.active_iff x).mp (hx hpos)) (findIdx?_eq_none_iff.mp hf)
    · rw [if_neg hpos]
      exact ⟨_, rfl⟩
  obtain ⟨is, his⟩ := mapM_returns fun x hx => hslot x (hactive.1 x hx)
  obtain ⟨ps, hps⟩ := mapM_returns fun x hx => hslot x (hactive.2 x hx)
  obtain ⟨wrapper, hw⟩ := Option.ne_none_iff_exists'.mp hwrapper
  have hconvert : ∃ indices, cfg.convertMapping mapping st.loraIndexToId = .ok indices := by
    rw [convertMapping, hps, his]
    exact ⟨_, rfl⟩
  obtain ⟨indices, hindices⟩ := hconvert
  rw [updateMetadata, hw]
  change ∃ st', (Call.get >>= _) st = (.ok (), st')
  rw [get_bind, hindices]
  exact ⟨_, rfl⟩

theorem Held.withMapping (h : Held cfg st) (lastMapping : Option LoraMapping)
    (metadata : Wrapper → PunicaMetadata) : Held cfg { st with lastMapping, metadata } :=
  ⟨{ h with }, h.registered, h.named, h.weights, h.kept, h.room⟩

theorem updateMetadata_held (mapping : LoraMapping) :
    Triple (Held cfg) (cfg.updateMetadata mapping : LoraCall W Unit) (fun _ => Held cfg)
      fun _ => Held cfg := by
  unfold updateMetadata
  cases cfg.targetWrapper mapping.type with
  | none => exact .raise fun _ h => h
  | some wrapper =>
    refine .of_forall fun s₀ h => .bind_get ?_
    cases cfg.convertMapping mapping s₀.loraIndexToId with
    | error e => exact .of_error rfl h
    | ok indices => exact .of_ok rfl (h.withMapping _ _)

/-! ## Runs -/

theorem setActiveAdapters_held (requests : List (LoraRequest × Except PyError (Dict String W)))
    (mapping : Option LoraMapping) :
    Triple (Held cfg) (cfg.setActiveAdapters requests mapping) (fun _ => Held cfg)
      fun _ => Held cfg := by
  refine .bind (Q := fun _ => Held cfg) (.of_forall fun s₀ h => ?_) fun _ => ?_
  · exact (applyAdapters_spec s₀ requests).weaken (fun s hs => hs.symm ▸ ⟨h, rfl, rfl⟩)
      (fun _ _ hs => hs.1) fun _ _ hs => hs.1
  cases mapping with
  | none => exact .skip
  | some mapping =>
    refine .of_forall fun s₀ h => .bind_get (.ite (fun _ => ?_) fun _ => .of_ok rfl h)
    exact ((updateMetadata_held mapping).bind fun _ => .modify fun _ h => h.withMapping _ _).pre
      fun s hs => hs ▸ h

theorem Held.step (h : Held cfg st) (op : LoraOp W) : Held cfg (op.next cfg st) := by
  cases op with
  | add r loaded =>
    have hadd : Triple (· = st) (cfg.addAdapter r loaded) (fun _ => Held cfg)
        fun _ => Held cfg :=
      (addAdapter_spec st r loaded not_mem_nil cfg.loras_pos).weaken
        (fun s hs => hs.symm ▸ ⟨⟨h, nil_suffix, nil_suffix⟩, rfl, rfl⟩)
        (fun _ _ hs => hs.1.held) fun _ _ hs => hs.1
    exact Triple.snd (P := fun s => s = st) (hadd.bind fun _ => .skip) rfl
  | remove id =>
    obtain ⟨b, hrun⟩ := h.removeAdapter id
    change Held cfg ((cfg.removeAdapter id >>= fun _ => pure ()) st).2
    rw [bind_of_ok hrun]
    exact h.dropAdapter id
  | setActive requests mapping => exact (setActiveAdapters_held requests mapping).snd h

theorem held_init : Held cfg (init cfg : LoraManager W) := by
  have hempty : ∀ (i : Nat) id,
      (init cfg : LoraManager W).loraIndexToId[i]? ≠ some (some id) := fun i id hi =>
    absurd (mem_of_getElem? hi) (by simp [init])
  refine ⟨⟨length_replicate, fun id => ?_, fun i j id hi _ => absurd hi (hempty i id),
    fun k hk => (not_mem_nil hk).elim⟩, fun id hid => (not_mem_nil hid).elim,
    fun id lora hid => (nomatch hid), fun i id lora hi => absurd hi (hempty i id),
    fun k hk => (not_mem_nil hk).elim, Nat.zero_le _⟩
  exact ⟨fun hid => (not_mem_nil hid).elim, fun hid => by simp [init] at hid⟩

theorem setActiveAdapters_maps (h : Held cfg st) {st' : LoraManager W}
    (hrun : cfg.setActiveAdapters requests (some mapping) st = (.ok (), st'))
    (hsame : st.lastMapping = some mapping → ∀ r ∈ requests, r.1.loraIntId ∈ st.active.data.keys ∧ r.1.loadInplace = false)
    :
    st'.Maps cfg mapping ↔ (st.lastMapping = some mapping → st.Maps cfg mapping) := by
  rw [setActiveAdapters] at hrun
  obtain ⟨_, st₁, happly, hset⟩ := bind_eq_ok.mp hrun
  have hmapping : SameMapping st st₁ := ((applyAdapters_spec st requests).ok ⟨h, rfl, rfl⟩ happly).2.1
  change cfg.setAdapterMapping mapping st₁ = _ at hset
  rw [setAdapterMapping, get_bind, hmapping.1] at hset
  by_cases hlast : st.lastMapping = some mapping
  · rw [decide_eq_false (not_not.mpr hlast)] at hset
    obtain rfl : st₁ = st' := congrArg Prod.snd hset
    have htable : st₁.loraIndexToId = st.loraIndexToId :=
      (applyAdapters_active st fun r hr => (hsame hlast r hr).imp_left (h.active_iff _).mp).ok
        ⟨h, ⟨rfl, rfl⟩, rfl⟩ happly
    simp only [hlast, true_imp_iff, LoraManager.Maps, hmapping.2, htable]
  · rw [decide_eq_true hlast] at hset
    change (cfg.updateMetadata mapping >>= _) st₁ = _ at hset
    obtain ⟨_, st₂, hupdate, hend⟩ := bind_eq_ok.mp hset
    obtain ⟨hmaps, -⟩ := updateMetadata_maps hupdate
    obtain rfl : { st₂ with lastMapping := some mapping } = st' := congrArg Prod.snd hend
    exact ⟨fun _ hc => absurd hc hlast, fun _ => hmaps⟩

/-- In every state the slots hold the active adapters, each once and with its registered weights. A
call with a new mapping leaves each token the slot of its adapter; a call with the last mapping again,
for adapters that are active, does if and only if the slots are still those of the mapping. A call for
adapters that can be loaded and fit into the slots returns. -/
theorem slots_of_run (run : Run (LoraOp.next cfg) (fun _ _ => True) (init cfg) st) :
    Held cfg st ∧
      (∀ (requests : List (LoraRequest × Except PyError (Dict String W))) mapping st',
        cfg.setActiveAdapters requests (some mapping) st = (.ok (), st') →
        (st.lastMapping = some mapping →
          ∀ r ∈ requests, r.1.loraIntId ∈ st.active.data.keys ∧ r.1.loadInplace = false) →
        (st'.Maps cfg mapping ↔ (st.lastMapping = some mapping → st.Maps cfg mapping))) ∧
      ∀ (requests : List (LoraRequest × Except PyError (Dict String W))) mapping,
        (requests.map fun r => r.1.loraIntId).dedup.length ≤ cfg.maxLoras →
        (∀ r ∈ requests, ∃ loras, r.2 = .ok loras) →
        mapping.Among (requests.map fun r => r.1.loraIntId) →
        cfg.targetWrapper mapping.type ≠ none →
        ∃ st', cfg.setActiveAdapters requests (some mapping) st = (.ok (), st') := by
  have h : Held cfg st := run.inv held_init fun op st h _ => h.step op
  refine ⟨h, fun requests mapping st' hrun hsame => setActiveAdapters_maps h hrun hsame, ?_⟩
  intro requests mapping hlen hloads hamong hwrapper
  rw [← lorasMap_size] at hlen
  rcases hrun₁ : cfg.applyAdapters requests st with ⟨e | u, st₁⟩
  · obtain ⟨-, -, hbig | ⟨r, hr, err, herr⟩⟩ := (applyAdapters_spec st requests).error ⟨h, rfl, rfl⟩ hrun₁
    · omega
    · obtain ⟨loras, hloras⟩ := hloads r hr
      cases hloras.symm.trans herr
  · obtain ⟨h₁, -, hactive⟩ := (applyAdapters_spec st requests).ok ⟨h, rfl, rfl⟩ hrun₁
    have hin : ∀ x ∈ requests.map fun r => r.1.loraIntId, x ∈ st₁.active.data.keys := fun x hx => by
      obtain ⟨r, hr, rfl⟩ := mem_map.mp hx
      exact hactive r hr
    have hamong₁ : mapping.Among st₁.active.data.keys :=
      ⟨fun x hx hpos => hin x (hamong.1 x hx hpos), fun x hx hpos => hin x (hamong.2 x hx hpos)⟩
    rw [setActiveAdapters, bind_of_ok hrun₁]
    change ∃ st', cfg.setAdapterMapping mapping st₁ = (.ok (), st')
    rw [setAdapterMapping, get_bind]
    by_cases hlast : st₁.lastMapping ≠ some mapping
    · obtain ⟨st₂, hrun₂⟩ := updateMetadata_returns h₁ hamong₁ hwrapper
      rw [decide_eq_true hlast]
      exact ⟨_, bind_of_ok hrun₂⟩
    · rw [decide_eq_false hlast]
      exact ⟨st₁, rfl⟩

def twoSlots : LoraConfig where
  maxLoras := 2
  maxCpuLoras := 2
  modules := ["proj"]
  isPoolingModel := false
  vocabSize := 10
  mmMapping := none
  supportsTowerConnectorLora := false
  countsConnectorTokens := false
  loras_pos := by decide
  loras_le := by decide

def adapter (n : Nat) : LoraRequest × Except PyError (Dict String Nat) :=
  (⟨n + 1, false, by omega⟩, .ok ((∅ : Dict String Nat).set "proj" n))

def tokens (ids : List Int) : LoraMapping := ⟨ids, ids, true, .language⟩

def afterCalls (ops : List (LoraOp Nat)) : LoraManager Nat :=
  ops.foldl (fun st op => op.next twoSlots st) (init twoSlots)

theorem slots_of_run_next :
    (afterCalls [.setActive [adapter 0, adapter 1] (some (tokens [1, 2])),
        .remove 1]).loraIndexToId = [none, some 2] ∧
      ∃ st', twoSlots.setActiveAdapters [adapter 2, adapter 1] (some (tokens [3, 0, 2]))
          (afterCalls [.setActive [adapter 0, adapter 1] (some (tokens [1, 2])), .remove 1]) =
        (.ok (), st') ∧ st'.Maps twoSlots (tokens [3, 0, 2]) := by
  have hrun : Run (LoraOp.next twoSlots) (fun _ _ => True) (init twoSlots)
      (afterCalls [.setActive [adapter 0, adapter 1] (some (tokens [1, 2])), .remove 1]) :=
    .of_allowed ⟨trivial, trivial, trivial⟩
  obtain ⟨-, hmaps, hreturns⟩ := slots_of_run hrun
  have hamong : (tokens [3, 0, 2]).Among ([adapter 2, adapter 1].map fun r => r.1.loraIntId) := by
    constructor <;> decide
  have hloads : ∀ r ∈ [adapter 2, adapter 1], ∃ loras, r.2 = .ok loras := by
    intro r hr
    simp only [mem_cons, not_mem_nil, or_false] at hr
    rcases hr with rfl | rfl
    · exact ⟨_, rfl⟩
    · exact ⟨_, rfl⟩
  obtain ⟨st', hst'⟩ := hreturns _ _ (by decide) hloads hamong (by decide)
  have hnew : (afterCalls [.setActive [adapter 0, adapter 1] (some (tokens [1, 2])),
      .remove 1]).lastMapping ≠ some (tokens [3, 0, 2]) := by decide
  exact ⟨by decide, st', hst', (hmaps _ _ _ hst' fun hc => absurd hc hnew).mpr fun hc =>
    absurd hc hnew⟩

/-! ### A stale slot -/

/-- Adapter 1 is used in slot 0. Adapters 2 and 3 are added, the second of them in place of adapter 1.
Then adapter 1 is used again, with the mapping it was used with before: it comes into slot 1, and its
token keeps slot 0, where adapter 3 is. -/
theorem stale_slot_after_eviction :
    let st := afterCalls [.setActive [adapter 0] (some (tokens [1])),
      .add (adapter 1).1 (adapter 1).2, .add (adapter 2).1 (adapter 2).2]
    let (result, st') := twoSlots.setActiveAdapters [adapter 0] (some (tokens [1])) st
    result.isOk = true ∧ st'.loraIndexToId = [some 3, some 1] ∧
      (st'.metadata .language).tokenLoraIndices = [0] := by
  decide

end Vllm.Lora
