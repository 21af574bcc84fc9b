import Vllm.Base.Run
import Vllm.Multimodal.Caches

/-! The caches of the frontend and of the engine have the same keys in the same order of use, as long
as both walk the items of a request in the same order and every request that changes the one reaches
the other. -/

set_option linter.unusedSectionVars false

namespace Vllm.Multimodal
open Base LruCache Dict Call List MmConfig

variable {K V U : Type} [DecidableEq K] [ToString K]

/-! ## One item -/

section
variable {W W' I I' O O' : Type} {size : W → Nat} {size' : W' → Nat} {capacity : Nat}
  {found : W → O} {store : I → W} {fresh : I → O} {found' : W' → O'} {store' : I' → W'}
  {fresh' : I' → O'} {c c₁ : LruCache K W} {c' : LruCache K W'} {k : K}

theorem get?_of_map_eq (hm : c.map size = c'.map size') :
    (c.data.get? k).map size = (c'.data.get? k).map size' := by
  rw [← get?_map, ← get?_map]
  exact congrArg (fun d => d.data.get? k) hm

variable {v : W}

theorem storeItem_eq_ok (hrun : storeItem size capacity k v c = (.ok (), c₁)) :
    c.put size capacity k v = .ok c₁ := by
  rw [storeItem] at hrun
  cases hp : c.put size capacity k v with
  | error e =>
    rw [hp] at hrun
    cases e <;> cases hrun
  | ok d =>
    rw [hp] at hrun
    cases hrun
    rfl

theorem storeItem_mirror {v' : W'} (hm : c.map size = c'.map size')
    (hv : size v = size' v') (hrun : storeItem size capacity k v c = (.ok (), c₁)) :
    ∃ c₁', storeItem size' capacity k v' c' = (.ok (), c₁') ∧ c₁.map size = c₁'.map size' := by
  have hput := put_map size capacity c k v
  rw [hm, hv, put_map, storeItem_eq_ok hrun] at hput
  simp only [storeItem]
  cases hp' : c'.put size' capacity k v' with
  | error e =>
    rw [hp'] at hput
    cases hput
  | ok d' =>
    rw [hp'] at hput
    exact ⟨d', rfl, (Except.ok.inj hput).symm⟩

variable {item : Option I}

theorem getAndUpdateItem_found {w : W} (h : c.data.get? k = some w) :
    getAndUpdateItem size capacity found store fresh item k c = (.ok (found w), c.touch k) := by
  simp [getAndUpdateItem, h]

theorem getAndUpdateItem_missing {x : I} (h : c.data.get? k = none) :
    getAndUpdateItem size capacity found store fresh (some x) k c =
      ((storeItem size capacity k (store x) >>= fun _ => pure (fresh x)) : Call _ _ _) c := by
  simp [getAndUpdateItem, run_bind, Call.get, h]

theorem getAndUpdateItem_mirror {item' : Option I'} {o : O} (hm : c.map size = c'.map size')
    (hitem : c.data.get? k = none → ∀ x, item = some x →
      ∃ x', item' = some x' ∧ size (store x) = size' (store' x'))
    (hrun : getAndUpdateItem size capacity found store fresh item k c = (.ok o, c₁)) :
    ∃ o' c₁', getAndUpdateItem size' capacity found' store' fresh' item' k c' = (.ok o', c₁') ∧
      c₁.map size = c₁'.map size' := by
  have hget := get?_of_map_eq (k := k) hm
  cases hc : c.data.get? k with
  | some w =>
    rw [hc] at hget
    obtain ⟨w', hw', -⟩ := Option.map_eq_some_iff.mp hget.symm
    rw [getAndUpdateItem_found hc] at hrun
    obtain rfl := (Prod.mk.inj hrun).2
    refine ⟨_, _, getAndUpdateItem_found hw', ?_⟩
    rw [map_touch, hm, map_touch]
  | none =>
    rw [hc] at hget
    have hc' : c'.data.get? k = none := Option.map_eq_none_iff.mp hget.symm
    cases item with
    | none =>
      simp [getAndUpdateItem, run_bind, Call.get, hc, Call.raise] at hrun
    | some x =>
      obtain ⟨x', rfl, hsize⟩ := hitem hc x rfl
      rw [getAndUpdateItem_missing hc, bind_eq_ok] at hrun
      obtain ⟨_, d, hstore, hret⟩ := hrun
      obtain ⟨d', hstore', hd⟩ := storeItem_mirror hm hsize hstore
      obtain rfl := (Prod.mk.inj hret).2
      exact ⟨_, d', (getAndUpdateItem_missing hc').trans (bind_of_ok hstore'), hd⟩

end

/-! ## One request -/

theorem touch_forEach {ε W X : Type} (xs : List X) (f : X → K) (c : LruCache K W) :
    (Call.forEach xs (fun x => Call.modify fun c => c.touch (f x)) : Call ε _ _) c =
      (.ok (), c.touchAll (xs.map f)) := by
  induction xs generalizing c with
  | nil => rfl
  | cons x xs ih => exact ih (c.touch (f x))

variable {cfg : MmConfig V U}

def MmConfig.mergeItem (cfg : MmConfig V U) (isCached : K → Bool) (f : FlatItem K V U) :
    Call Fault (SenderCache K U) (Option V × List U) := do
  let mmItem := if isCached f.item.mmHash then none else f.item.data
  let (kwargs, updates) ← cfg.senderGetAndUpdateItem mmItem f.item.mmHash
  return (kwargs, updates.map fun u => cfg.recompute u f.idx)

theorem mergeMmKwargs_eq (r : MmRequest K V U) (isCached : K → Bool) (c : SenderCache K U) :
    cfg.mergeMmKwargs r isCached c =
      Call.mapEach r.flatItems (cfg.mergeItem isCached) (c.touchAll r.hashes) := by
  have htouch : Call.forEach r.hashes (fun h => Call.modify fun c => c.touch h) c =
      (.ok (ε := Fault) (), c.touchAll r.hashes) := by
    have := touch_forEach (ε := Fault) r.hashes id c
    rwa [map_id] at this
  exact bind_of_ok htouch

variable {c c₁ c₀ : SenderCache K U} {kwargs : List (Option V × List U)} {r : MmRequest K V U}

theorem cachedApplyHfProcessor_run (hgiven : r.getCacheMissingItems (isCachedItem c) = .ok ()) :
    cfg.cachedApplyHfProcessor r c =
      Call.mapEach r.flatItems (cfg.mergeItem (isCachedItem c)) (c.touchAll r.hashes) := by
  rw [cachedApplyHfProcessor, get_bind, hgiven]
  exact mergeMmKwargs_eq r _ c

theorem cachedApplyHfProcessor_eq_ok (hrun : cfg.cachedApplyHfProcessor r c = (.ok kwargs, c₁)) :
    Call.mapEach r.flatItems (cfg.mergeItem (isCachedItem c)) (c.touchAll r.hashes) =
      (.ok kwargs, c₁) := by
  cases hgiven : r.getCacheMissingItems (isCachedItem c) with
  | error e =>
    rw [cachedApplyHfProcessor, get_bind, hgiven] at hrun
    cases hrun
  | ok u => rwa [cachedApplyHfProcessor_run hgiven] at hrun

variable {isCached : K → Bool}

theorem mergeItem_mirror (fs : List (FlatItem K V U)) {d : ReceiverCache K V}
    (hm : c.map Metadata.itemSize = d.map cfg.itemSize)
    (hrun : Call.mapEach fs (cfg.mergeItem isCached) c = (.ok kwargs, c₁)) :
    ∃ vs d₁, Call.mapEach (fs.zip kwargs) (fun fk : FlatItem K V U × Option V × List U =>
        cfg.receiverGetAndUpdateItem fk.2.1 fk.1.item.mmHash) d = (.ok vs, d₁) ∧
      c₁.map Metadata.itemSize = d₁.map cfg.itemSize ∧ kwargs.length = fs.length := by
  induction fs generalizing c d kwargs with
  | nil =>
    cases hrun
    exact ⟨[], d, rfl, hm, rfl⟩
  | cons f fs ih =>
    simp only [Call.mapEach, bind_eq_ok, pure_eq_ok] at hrun
    obtain ⟨kw, c₂, hitem, kws, c₃, hrest, rfl, rfl⟩ := hrun
    rw [mergeItem, bind_eq_ok] at hitem
    obtain ⟨⟨data, updates⟩, c₄, hget, hret⟩ := hitem
    cases hret
    have hstep : ∃ v d₂, cfg.receiverGetAndUpdateItem data f.item.mmHash d = (.ok v, d₂) ∧
        c₂.map Metadata.itemSize = d₂.map cfg.itemSize := by
      refine getAndUpdateItem_mirror hm (fun hmiss x hx => ?_) hget
      -- the frontend stored the item, so its data goes along
      rw [senderGetAndUpdateItem, hx, getAndUpdateItem_missing hmiss, bind_eq_ok] at hget
      obtain ⟨_, _, _, hret⟩ := hget
      cases hret
      exact ⟨x.1, rfl, rfl⟩
    obtain ⟨v, d₂, hv, hm₂⟩ := hstep
    obtain ⟨vs, d₁, hvs, hm₁, hlen⟩ := ih hm₂ hrest
    refine ⟨v :: vs, d₁, ?_, hm₁, by simp [hlen]⟩
    rw [zip_cons_cons, Call.mapEach, bind_eq_ok]
    refine ⟨v, d₂, hv, ?_⟩
    rw [bind_eq_ok]
    exact ⟨vs, d₁, hvs, rfl⟩

/-! ## The frontend gets through -/

def MmConfig.cost (cfg : MmConfig V U) (c : SenderCache K U) (r : MmRequest K V U) (k : K) : Nat :=
  match c.data.get? k with
  | some m => m.itemSize
  | none =>
    match r.flatItems.find? fun f => f.item.mmHash = k with
    | some f => f.item.data.elim 0 fun d => cfg.itemSize d.1
    | none => 0

variable {pre post : List (FlatItem K V U)} {f : FlatItem K V U}

theorem MmConfig.cost_of_first (cfg : MmConfig V U) {d : V × List U}
    (hflat : r.flatItems = pre ++ f :: post) (hmiss : c.data.get? f.item.mmHash = none)
    (hfirst : ∀ g ∈ pre, g.item.mmHash ≠ f.item.mmHash) (hd : f.item.data = some d) :
    cfg.cost c r f.item.mmHash = cfg.itemSize d.1 := by
  have hpre : pre.find? (fun g => g.item.mmHash = f.item.mmHash) = none :=
    find?_eq_none.mpr fun g hg he => hfirst g hg (of_decide_eq_true he)
  rw [cost, hmiss, hflat, find?_append, hpre]
  simp [hd]

def MmConfig.Fits (cfg : MmConfig V U) (c : SenderCache K U) (r : MmRequest K V U) : Prop :=
  (r.hashes.dedup.map (cfg.cost c r)).sum ≤ cfg.cacheCapacity

instance (cfg : MmConfig V U) (c : SenderCache K U) (r : MmRequest K V U) :
    Decidable (cfg.Fits c r) :=
  inferInstanceAs (Decidable (_ ≤ _))

def MmRequest.InOrder (r : MmRequest K V U) : Prop :=
  r.flatItems.Pairwise fun f g => f.item.offset ≤ g.item.offset

instance (r : MmRequest K V U) : Decidable r.InOrder :=
  inferInstanceAs (Decidable (List.Pairwise _ _))

theorem mergeItem_serving (hfit : cfg.Fits c₀ r)
    (hgiven : r.getCacheMissingItems (isCachedItem c₀) = .ok ()) (pre post : List (FlatItem K V U))
    (hflat : r.flatItems = pre ++ post) (h : c.Serving Metadata.itemSize r.hashes (cfg.cost c₀ r))
    (hstored : ∀ k ∈ r.hashes, k ∈ c.data.keys ↔ k ∈ c₀.data.keys ∨ k ∈ pre.map fun f => f.item.mmHash)
    :
    ∃ kwargs c₁, Call.mapEach post (cfg.mergeItem (isCachedItem c₀)) c =
        (.ok kwargs, c₁) ∧ c₁.Settled := by
  induction post generalizing pre c with
  | nil =>
    refine ⟨[], c, rfl, h.settled fun k hk => (hstored k hk).mpr (.inr ?_)⟩
    rw [append_nil] at hflat
    rwa [MmRequest.hashes, hflat] at hk
  | cons f post ih =>
    have hk : f.item.mmHash ∈ r.hashes := mem_map.mpr ⟨f, by simp [hflat], rfl⟩
    have hmem : ∀ k, k ∈ (pre ++ [f]).map (fun f => f.item.mmHash) ↔
        k = f.item.mmHash ∨ k ∈ pre.map fun f => f.item.mmHash := fun k => by
      simp [or_comm, eq_comm]
    have hstep : ∃ kw c₂, cfg.mergeItem (isCachedItem c₀) f c = (.ok kw, c₂) ∧
        c₂.Serving Metadata.itemSize r.hashes (cfg.cost c₀ r) ∧
        ∀ k ∈ r.hashes, k ∈ c₂.data.keys ↔ k = f.item.mmHash ∨ k ∈ c.data.keys := by
      cases hget : c.data.get? f.item.mmHash with
      | some m =>
        refine ⟨_, _, bind_of_ok (getAndUpdateItem_found hget), h.touch hk, fun k _ => ?_⟩
        have hin := mem_keys_of_get? hget
        exact ⟨.inr, fun hor => hor.elim (fun e => e ▸ hin) id⟩
      | none =>
        have hnot : f.item.mmHash ∉ c.data.keys := get?_eq_none_iff.mp hget
        rw [hstored _ hk, not_or] at hnot
        have hmiss : c₀.data.get? f.item.mmHash = none := get?_eq_none_iff.mpr hnot.1
        have hcached : isCachedItem c₀ f.item.mmHash = false := by
          rw [isCachedItem, Dict.contains, hmiss]
          rfl
        obtain ⟨d, hd⟩ := MmRequest.getCacheMissingItems_ok hgiven (by simp [hflat]) hcached
        have hcost := cfg.cost_of_first hflat hmiss
          (fun g hg he => hnot.2 (mem_map.mpr ⟨g, hg, he⟩)) hd
        obtain ⟨c₂, hput, hc₂, hdata⟩ := h.put (v := ⟨cfg.itemSize d.1, d.2⟩) hfit hk hget hcost.symm
        have hstore : storeItem Metadata.itemSize cfg.cacheCapacity f.item.mmHash
            (⟨cfg.itemSize d.1, d.2⟩ : Metadata U) c = (.ok (), c₂) := by
          simp only [storeItem, hput]
        have hitem : (if isCachedItem c₀ f.item.mmHash then none else f.item.data) = some d := by
          simp [isCachedItem, Dict.contains, hmiss, hd]
        have hcall : cfg.senderGetAndUpdateItem
            (if isCachedItem c₀ f.item.mmHash then none else f.item.data) f.item.mmHash c =
            (.ok (some d.1, d.2), c₂) := by
          rw [hitem]
          exact (getAndUpdateItem_missing hget).trans (bind_of_ok hstore)
        refine ⟨_, c₂, bind_of_ok hcall, hc₂, fun k hkr => ?_⟩
        · rw [mem_keys_iff, hdata k hkr, mem_keys_iff]
          by_cases he : k = f.item.mmHash <;> simp [he]
    obtain ⟨kw, c₂, hrun, hc₂, hkeys⟩ := hstep
    obtain ⟨kwargs, c₁, hrest, hdone⟩ := ih (pre ++ [f]) (by simp [hflat]) hc₂ fun k hkr => by
      rw [hkeys k hkr, hstored k hkr, hmem]
      tauto
    exact ⟨kw :: kwargs, c₁, (bind_of_ok hrun).trans (bind_of_ok hrest), hdone⟩

theorem cachedApplyHfProcessor_returns (h : c.Settled) (hfit : cfg.Fits c r)
    (hgiven : r.getCacheMissingItems (isCachedItem c) = .ok ()) :
    ∃ kwargs c₁, cfg.cachedApplyHfProcessor r c = (.ok kwargs, c₁) ∧ c₁.Settled := by
  have hcost : ∀ k ∈ r.hashes, ∀ m, c.data.get? k = some m → m.itemSize = cfg.cost c r k := by
    intro k _ m hm
    rw [cost, hm]
  obtain ⟨kwargs, c₁, hrun, hc₁⟩ := mergeItem_serving hfit hgiven [] r.flatItems rfl
    (h.serving hcost) fun k _ => by simp [data_touchAll]
  exact ⟨kwargs, c₁, (cachedApplyHfProcessor_run hgiven).trans hrun, hc₁⟩

/-- A walk that got past `pre`. An item that is not stored stands before all the items passed, so it
stops the eviction from reaching them. -/
structure Passed (cfg : MmConfig V U) (c₀ : SenderCache K U) (r : MmRequest K V U)
    (pre : List (FlatItem K V U)) (c : SenderCache K U) : Prop where
  listed : ∀ k ∈ r.hashes, k ∉ c₀.data.keys → k ∈ c.order
  stored : ∀ f ∈ pre, f.item.mmHash ∈ c.data.keys
  fresh : ∀ k ∈ r.hashes, k ∈ c.data.keys →
    k ∈ c₀.data.keys ∨ k ∈ pre.map fun f => f.item.mmHash
  costs : ∀ k ∈ r.hashes, ∀ m, c.data.get? k = some m → m.itemSize = cfg.cost c₀ r k
  before : c.order.Pairwise fun a b => b ∈ r.hashes → b ∉ c.data.keys →
    a ∉ pre.map fun f => f.item.mmHash
  room : c.data.sum Metadata.itemSize ≤ cfg.cacheCapacity

variable {c₂ : SenderCache K U} {kw : Option V × List U}

theorem mergeItem_ok (hflat : r.flatItems = pre ++ f :: post) (h : Passed cfg c₀ r pre c)
    (hrun : cfg.mergeItem (isCachedItem c₀) f c = (.ok kw, c₂)) :
    ∃ gone rest m, c.order = gone ++ rest ∧ c₂.order = LruCache.moveToEnd rest f.item.mmHash ∧
      m.itemSize = cfg.cost c₀ r f.item.mmHash ∧
      (∀ k, c₂.data.get? k =
        if k = f.item.mmHash then some m else if k ∈ gone then none else c.data.get? k) ∧
      (∀ k ∈ gone, k ∈ c.data.keys ∧ f.item.mmHash ∉ c.data.keys ∧ f.item.mmHash ∉ c₀.data.keys) ∧
      c₂.data.sum Metadata.itemSize ≤ cfg.cacheCapacity := by
  have hk : f.item.mmHash ∈ r.hashes := mem_map.mpr ⟨f, by simp [hflat], rfl⟩
  rw [mergeItem, bind_eq_ok] at hrun
  obtain ⟨_, c₄, hget, hret⟩ := hrun
  cases hret
  cases hstored : c.data.get? f.item.mmHash with
  | some m =>
    rw [senderGetAndUpdateItem, getAndUpdateItem_found hstored] at hget
    cases hget
    refine ⟨[], c.order, m, rfl, rfl, h.costs _ hk m hstored, fun k => ?_, by simp, h.room⟩
    change c.data.get? k = _
    by_cases he : k = f.item.mmHash <;> simp [he, hstored]
  | none =>
    have hnot : f.item.mmHash ∉ c.data.keys := get?_eq_none_iff.mp hstored
    -- the item was not cached before the request, or the assertion fails
    cases hitem : (if isCachedItem c₀ f.item.mmHash then none else f.item.data) with
    | none =>
      rw [hitem] at hget
      simp [senderGetAndUpdateItem, getAndUpdateItem, run_bind, Call.get, hstored,
        Call.raise] at hget
    | some d =>
      have hmiss : c₀.data.get? f.item.mmHash = none := by
        by_contra hne
        have : isCachedItem c₀ f.item.mmHash = true := Option.isSome_iff_ne_none.mpr hne
        rw [if_pos this] at hitem
        cases hitem
      have hd : f.item.data = some d := by
        simpa [isCachedItem, Dict.contains, hmiss] using hitem
      have hcost := cfg.cost_of_first hflat hmiss (fun g hg he => hnot (he ▸ h.stored g hg)) hd
      rw [hitem, senderGetAndUpdateItem, getAndUpdateItem_missing hstored, bind_eq_ok] at hget
      obtain ⟨_, c₅, hstore, hret⟩ := hget
      cases hret
      obtain ⟨gone, rest, horder, hnew, hgone, hdata, hroom⟩ :=
        put_ok hstored (storeItem_eq_ok hstore)
      exact ⟨gone, rest, _, horder, hnew, hcost.symm, hdata,
        fun k hg => ⟨hgone k hg, hnot, get?_eq_none_iff.mp hmiss⟩, hroom⟩

theorem Passed.step {c₀ c : SenderCache K U} {r : MmRequest K V U}
    (hflat : r.flatItems = pre ++ f :: post) (h : Passed cfg c₀ r pre c)
    (hrun : cfg.mergeItem (isCachedItem c₀) f c = (.ok kw, c₂)) :
    Passed cfg c₀ r (pre ++ [f]) c₂ := by
  obtain ⟨gone, rest, m, horder, hnew, hm, hdata, hgone, hroom⟩ := mergeItem_ok hflat h hrun
  have hk : f.item.mmHash ∈ r.hashes := mem_map.mpr ⟨f, by simp [hflat], rfl⟩
  have hkeys : ∀ k, k ∈ c₂.data.keys ↔ k = f.item.mmHash ∨ k ∉ gone ∧ k ∈ c.data.keys := fun k => by
    rw [mem_keys_iff, hdata, mem_keys_iff]
    by_cases he : k = f.item.mmHash <;> by_cases hg : k ∈ gone <;> simp [he, hg]
  have hpair := h.before
  have hnd := c.nodup
  rw [horder, pairwise_append] at hpair
  rw [horder] at hnd
  have hnd' := nodup_append.mp hnd
  -- nothing that was passed is evicted
  have hkept : ∀ k ∈ gone, k ∉ pre.map fun f => f.item.mmHash := fun k hg => by
    obtain ⟨-, hghost, hnew⟩ := hgone k hg
    have hin := h.listed _ hk hnew
    rw [horder, mem_append] at hin
    exact hpair.2.2 k hg _ (hin.resolve_left fun hc => hghost (hgone _ hc).1) hk hghost
  refine ⟨fun k hkr hk₀ => ?_, fun g hg => ?_, fun k hkr hin => ?_, fun k hkr m' hm' => ?_, ?_, hroom⟩
  · rw [hnew, mem_moveToEnd]
    have hin := h.listed k hkr hk₀
    rw [horder, mem_append] at hin
    exact .inr (hin.resolve_left fun hg => hkept k hg ((h.fresh k hkr (hgone k hg).1).resolve_left hk₀))
  · rw [hkeys]
    rcases mem_append.mp hg with hg | hg
    · exact .inr ⟨fun hc => hkept _ hc (mem_map.mpr ⟨g, hg, rfl⟩), h.stored g hg⟩
    · exact .inl (by rw [mem_singleton.mp hg])
  · rw [map_append, mem_append]
    rcases (hkeys k).mp hin with rfl | hin
    · exact .inr (.inr (by simp))
    · exact (h.fresh k hkr hin.2).imp_right .inl
  · rw [hdata] at hm'
    split at hm'
    · next he =>
      cases hm'
      rw [he, hm]
    · split at hm'
      · cases hm'
      · exact h.costs k hkr m' hm'
  · rw [hnew, LruCache.moveToEnd, pairwise_append]
    refine ⟨(hpair.2.1.sublist erase_sublist).imp_of_mem fun {a b} ha hb hab hbr hbn hc => ?_,
      pairwise_singleton _ _, fun a _ b hb _ hbn => ?_⟩
    · have haf : a ≠ f.item.mmHash := (hnd'.2.1.mem_erase_iff.mp ha).1
      have hbd : b ∉ c.data.keys := fun hbd => hbn ((hkeys b).mpr (.inr ⟨fun hg =>
        hnd'.2.2 b hg b (mem_of_mem_erase hb) rfl, hbd⟩))
      rw [map_append, mem_append] at hc
      rcases hc with hc | hc
      · exact hab hbr hbd hc
      · exact haf (by simpa using hc)
    · rw [mem_singleton.mp hb] at hbn
      exact absurd ((hkeys _).mpr (.inl rfl)) hbn

theorem Passed.run (pre post : List (FlatItem K V U)) (hflat : r.flatItems = pre ++ post)
    (h : Passed cfg c₀ r pre c)
    (hrun : Call.mapEach post (cfg.mergeItem (isCachedItem c₀)) c = (.ok kwargs, c₁)) :
    Passed cfg c₀ r r.flatItems c₁ := by
  induction post generalizing pre c kwargs with
  | nil =>
    cases hrun
    rwa [hflat, append_nil]
  | cons f post ih =>
    simp only [Call.mapEach, bind_eq_ok] at hrun
    obtain ⟨kw, c₂, hitem, kws, c₃, hrest, rfl, rfl⟩ := hrun
    exact ih (pre ++ [f]) (by simp [hflat]) (h.step hflat hitem) hrest

theorem cachedApplyHfProcessor_fits (hroom : c.data.sum Metadata.itemSize ≤ cfg.cacheCapacity)
    (hrun : cfg.cachedApplyHfProcessor r c = (.ok kwargs, c₁)) :
    cfg.Fits c r ∧ c₁.data.sum Metadata.itemSize ≤ cfg.cacheCapacity := by
  have hrun := cachedApplyHfProcessor_eq_ok hrun
  have hstart : Passed cfg c r [] (c.touchAll r.hashes) := by
    have hdata := data_touchAll c r.hashes
    refine ⟨fun k hk _ => ?_, by simp, fun k _ hin => .inl (hdata ▸ hin), fun k _ m hm => ?_,
      pairwise_of_forall (by simp), hdata ▸ hroom⟩
    · rw [order_touchAll]
      exact mem_append_right _ (mem_dedup.mpr hk)
    · rw [hdata] at hm
      rw [cost, hm]
  have hend := hstart.run [] r.flatItems rfl hrun
  refine ⟨(sum_map_le (nodup_dedup _) fun k hk => ?_).trans hend.room, hend.room⟩
  rw [mem_dedup] at hk
  obtain ⟨f, hf, rfl⟩ := mem_map.mp hk
  obtain ⟨m, hm⟩ := exists_of_mem_keys (hend.stored f hf)
  exact ⟨m, hm, hend.costs _ hk m hm⟩

structure MmRequest.MostRecent (r : MmRequest K V U) (c : SenderCache K U) : Prop where
  cached : ∀ k ∈ r.hashes, k ∈ c.data.keys
  recent : r.hashes.dedup <:+ c.order

theorem mergeItem_of_cached (fs : List (FlatItem K V U))
    (h : ∀ f ∈ fs, f.item.mmHash ∈ c.data.keys) :
    ∃ kwargs, Call.mapEach fs (cfg.mergeItem isCached) c =
      (.ok kwargs, c.touchAll (fs.map fun f => f.item.mmHash)) := by
  induction fs generalizing c with
  | nil => exact ⟨[], rfl⟩
  | cons f fs ih =>
    obtain ⟨m, hm⟩ := exists_of_mem_keys (h f mem_cons_self)
    obtain ⟨kwargs, hrun⟩ := ih (c := c.touch f.item.mmHash) fun g hg =>
      h g (mem_cons_of_mem _ hg)
    have hitem : cfg.mergeItem isCached f c = (.ok _, c.touch f.item.mmHash) :=
      bind_of_ok (getAndUpdateItem_found hm)
    exact ⟨_, (bind_of_ok hitem).trans (bind_of_ok hrun)⟩

theorem cachedApplyHfProcessor_of_mostRecent (h : r.MostRecent c) :
    ∃ kwargs, cfg.cachedApplyHfProcessor r c = (.ok kwargs, c) := by
  have hself : c.touchAll r.hashes = c := touchAll_eq_self h.recent
  obtain ⟨kwargs, hrun⟩ : ∃ kwargs, Call.mapEach r.flatItems (cfg.mergeItem (isCachedItem c)) c =
      (.ok kwargs, c.touchAll r.hashes) :=
    mergeItem_of_cached r.flatItems fun f hf => h.cached _ (mem_map.mpr ⟨f, hf, rfl⟩)
  have hgiven : r.getCacheMissingItems (isCachedItem c) = .ok () := by
    have hnone : r.flatItems.find?
        (fun f => !isCachedItem c f.item.mmHash && f.item.data.isNone) = none := by
      refine find?_eq_none.mpr fun f hf => ?_
      have : isCachedItem c f.item.mmHash = true :=
        mem_keys_iff.mp (h.cached _ (mem_map.mpr ⟨f, hf, rfl⟩))
      simp [this]
    rw [MmRequest.getCacheMissingItems, hnone]
  exact ⟨kwargs, (cachedApplyHfProcessor_run hgiven).trans (hself.symm ▸ hrun)⟩

/-! ## Both processes -/

structure Mirrored (cfg : MmConfig V U) (st : MmCaches K V U) : Prop where
  shape : st.sender.map Metadata.itemSize = st.receiver.map cfg.itemSize
  settled : st.sender.Settled
  room : st.sender.data.sum Metadata.itemSize ≤ cfg.cacheCapacity

variable {st : MmCaches K V U}

theorem Mirrored.order (h : Mirrored cfg st) : st.sender.order = st.receiver.order :=
  congrArg LruCache.order h.shape

theorem Mirrored.keys (h : Mirrored cfg st) : st.sender.data.keys = st.receiver.data.keys := by
  have := congrArg (fun c => c.data.keys) h.shape
  simpa [LruCache.map] using this

theorem features_of_inOrder (h : r.InOrder) (hlen : kwargs.length = r.flatItems.length) :
    features r kwargs = (r.flatItems.zip kwargs).map fun (f, data, _) =>
      { data, modality := f.modality, mmHash := f.item.mmHash, offset := f.item.offset } := by
  refine List.Pairwise.insertionSort_eq (pairwise_map.mpr ?_)
  have hfst : (r.flatItems.zip kwargs).map Prod.fst = r.flatItems := map_fst_zip hlen.ge
  rw [MmRequest.InOrder, ← hfst, pairwise_map] at h
  exact h

theorem getAndUpdateFeatures_mirror (h : Mirrored cfg st) (hr : r.InOrder)
    (hrun : cfg.cachedApplyHfProcessor r st.sender = (.ok kwargs, c₁)) (hset : c₁.Settled) :
    ∃ vs d₁, cfg.getAndUpdateFeatures (features r kwargs) st.receiver = (.ok vs, d₁) ∧
      Mirrored cfg ⟨c₁, d₁⟩ := by
  have hroom := (cachedApplyHfProcessor_fits h.room hrun).2
  have hrun := cachedApplyHfProcessor_eq_ok hrun
  have htouched : (st.sender.touchAll r.hashes).map Metadata.itemSize =
      (st.receiver.touchAll r.hashes).map cfg.itemSize := by
    rw [map_touchAll, h.shape, map_touchAll]
  obtain ⟨vs, d₁, hvs, hm, hlen⟩ := mergeItem_mirror r.flatItems htouched hrun
  refine ⟨vs, d₁, ?_, hm, hset, hroom⟩
  have hkeys : (features r kwargs).map Feature.mmHash = r.hashes := by
    have hfst : (r.flatItems.zip kwargs).map Prod.fst = r.flatItems := map_fst_zip hlen.ge
    calc (features r kwargs).map Feature.mmHash
        = ((r.flatItems.zip kwargs).map Prod.fst).map fun f => f.item.mmHash := by
          rw [features_of_inOrder hr hlen, map_map, map_map]
          rfl
      _ = r.hashes := by rw [hfst, MmRequest.hashes]
  have htouch := touch_forEach (ε := Fault) (features r kwargs) Feature.mmHash st.receiver
  rw [hkeys] at htouch
  refine (bind_of_ok htouch).trans ?_
  rw [features_of_inOrder hr hlen, mapEach_map]
  exact hvs

/-- A request that the frontend's validation refuses is one that changes nothing. -/
def MmRequest.RefusedQuietly (cfg : MmConfig V U) (r : MmRequest K V U) (c : SenderCache K U) :
    Prop :=
  cfg.validateModelInputs r ≠ .ok () → r.MostRecent c

theorem processRequest_mirrored (h : Mirrored cfg st) (hr : r.InOrder) (hfit : cfg.Fits st.sender r)
    (hquiet : r.RefusedQuietly cfg st.sender) :
    Mirrored cfg (cfg.processRequest r st).2 ∧
      (r.getCacheMissingItems (isCachedItem st.sender) = .ok () → cfg.validateModelInputs r = .ok () →
        ∃ vs, (cfg.processRequest r st).1 = .ok vs) := by
  cases hgiven : r.getCacheMissingItems (isCachedItem st.sender) with
  | error e =>
    -- refused before anything is touched
    have hrender : cfg.cachedApplyHfProcessor r st.sender = (.error (.raised e), st.sender) := by
      rw [cachedApplyHfProcessor, get_bind, hgiven]
      rfl
    have hrun : cfg.processRequest r st = (.error (.raised e), st) := by
      rw [processRequest, run_bind, Call.zoom, hrender]
    rw [hrun]
    exact ⟨h, fun hc => by cases hc⟩
  | ok u =>
    obtain ⟨kwargs, c₁, hrender, hset⟩ := cachedApplyHfProcessor_returns h.settled hfit hgiven
    cases hvalid : cfg.validateModelInputs r with
    | error e =>
      have hrun : cfg.processRequest r st = (.error (.raised e), { st with sender := c₁ }) := by
        rw [processRequest, run_bind, Call.zoom, hrender]
        simp only [hvalid]
        rfl
      have hrecent : r.MostRecent st.sender := hquiet fun hc => by
        rw [hvalid] at hc
        cases hc
      obtain ⟨kwargs', hsame⟩ : ∃ kwargs, cfg.cachedApplyHfProcessor r st.sender =
          (.ok kwargs, st.sender) := cachedApplyHfProcessor_of_mostRecent hrecent
      rw [hrender] at hsame
      have hc₁ : c₁ = st.sender := (Prod.mk.inj hsame).2
      rw [hrun, hc₁]
      exact ⟨h, fun _ hc => by cases hc⟩
    | ok u =>
      obtain ⟨vs, d₁, hfeatures, hm⟩ := getAndUpdateFeatures_mirror h hr hrender hset
      have hrun : cfg.processRequest r st = (.ok vs, ⟨c₁, d₁⟩) := by
        rw [processRequest, run_bind, Call.zoom, hrender]
        simp only [hvalid]
        rw [Call.zoom, hfeatures]
      rw [hrun]
      exact ⟨hm, fun _ _ => ⟨vs, rfl⟩⟩

theorem fits_of_processed (h : Mirrored cfg st) {vs : List V}
    (hrun : (cfg.processRequest r st).1 = .ok vs) : cfg.Fits st.sender r := by
  rcases hrender : cfg.cachedApplyHfProcessor r st.sender with ⟨e | kwargs, c₁⟩
  · rw [processRequest, run_bind, Call.zoom, hrender] at hrun
    cases hrun
  · exact (cachedApplyHfProcessor_fits h.room hrender).1

/-! ## Runs -/

theorem mirrored_empty : Mirrored cfg (⟨∅, ∅⟩ : MmCaches K V U) :=
  ⟨rfl, fun _ hk => (by cases hk), Nat.zero_le _⟩

def MmRequest.Sent (cfg : MmConfig V U) (r : MmRequest K V U) : Prop :=
  cfg.validateModelInputs r = .ok ()

instance (cfg : MmConfig V U) (r : MmRequest K V U) : Decidable (r.Sent cfg) :=
  inferInstanceAs (Decidable (_ = _))

/-- Requests whose items are in the prompt in the order of the frontend's walk, and fit into the
cache: after each of them the caches have the same keys in the same eviction order, and the engine
finds every item left out. -/
theorem mirror_of_run (run : Run (fun r st => (cfg.processRequest r st).2)
      (fun (r : MmRequest K V U) st => r.Sent cfg ∧ r.InOrder ∧ cfg.Fits st.sender r) ⟨∅, ∅⟩ st) :
    st.sender.order = st.receiver.order ∧ st.sender.data.keys = st.receiver.data.keys ∧
      ∀ r : MmRequest K V U, r.Sent cfg → r.InOrder →
        r.getCacheMissingItems (isCachedItem st.sender) = .ok () →
        ((∃ vs, (cfg.processRequest r st).1 = .ok vs) ↔ cfg.Fits st.sender r) := by
  have h : Mirrored cfg st := run.inv mirrored_empty fun r st h ⟨hsent, hr, hfit⟩ =>
    (processRequest_mirrored h hr hfit fun hc => absurd hsent hc).1
  refine ⟨h.order, h.keys, fun r hsent hr hgiven => ⟨fun ⟨vs, hvs⟩ => fits_of_processed h hvs,
    fun hfit => (processRequest_mirrored h hr hfit fun hc => absurd hsent hc).2 hgiven hsent⟩⟩

def smallCache : MmConfig Nat Unit where
  itemSize := id
  cacheCapacity := 2
  recompute := fun u _ => u
  skipPromptLengthCheck := false
  supportsMmInputs := true
  runnerGenerates := true
  maxModelLen := 4
  mmEncoderCacheSize := 8
  maxTokenId := none
  vocabSize := 10

def afterRequests (rs : List (MmRequest Nat Nat Unit)) : MmCaches Nat Nat Unit :=
  rs.foldl (fun st r => (smallCache.processRequest r st).2) ⟨∅, ∅⟩

theorem mirror_of_run_images :
    (afterRequests [images [1, 2] [7, 7], images [3] [7]]).sender.order = [2, 3] ∧
      ∃ vs, (smallCache.processRequest (images [2, 4, 2] [7, 7, 7])
        (afterRequests [images [1, 2] [7, 7], images [3] [7]])).1 = .ok vs := by
  have hops : Run.Allowed (fun r st => (smallCache.processRequest r st).2)
      (fun (r : MmRequest Nat Nat Unit) st => r.Sent smallCache ∧ r.InOrder ∧
        smallCache.Fits st.sender r) [images [1, 2] [7, 7], images [3] [7]] ⟨∅, ∅⟩ := by
    decide
  exact ⟨by decide, ((mirror_of_run (.of_allowed hops)).2.2 _ (by decide) (by decide)
    (by decide)).mpr (by decide)⟩

-- a prompt with more than the cache holds keeps the frontend busy for ever
example : (smallCache.processRequest (images [1, 2, 3] [7, 7, 7]) ⟨∅, ∅⟩).1 =
    .error .neverReturns := by
  decide

/-! ### Two modalities -/

def imageAfterAudio : MmRequest Nat Nat Unit where
  items := ((∅ : Dict String _).set "image" [⟨1, some (1, []), 1, 1⟩]).set "audio"
    [⟨2, some (1, []), 0, 1⟩]
  encoderPrompt := none
  promptTokenIds := [7, 7]

/-- The frontend uses the image first and the engine the clip, so the next item displaces another
one on each side, and the engine misses the clip. -/
theorem mirror_lost_on_two_modalities :
    (afterRequests [imageAfterAudio]).sender.order = [1, 2] ∧
      (afterRequests [imageAfterAudio]).receiver.order = [2, 1] ∧
      (smallCache.processRequest (images [2] [7])
        (afterRequests [imageAfterAudio, images [3] [7]])).1 = .error (expectedCached 2) := by
  decide

theorem served_of_run (run : Run (fun r st => (cfg.processRequest r st).2)
      (fun (r : MmRequest K V U) st => r.InOrder ∧ cfg.Fits st.sender r ∧
        r.RefusedQuietly cfg st.sender) ⟨∅, ∅⟩ st) :
    (∀ k ∈ st.sender.data.keys, k ∈ st.receiver.data.keys) ∧
      ∀ r : MmRequest K V U, r.Sent cfg → r.InOrder → cfg.Fits st.sender r →
        r.getCacheMissingItems (isCachedItem st.sender) = .ok () →
        ∃ vs, (cfg.processRequest r st).1 = .ok vs := by
  have h : Mirrored cfg st := run.inv mirrored_empty fun r st h ⟨hr, hfit, hquiet⟩ =>
    (processRequest_mirrored h hr hfit hquiet).1
  exact ⟨fun k hk => h.keys ▸ hk, fun r hsent hr hfit hgiven =>
    (processRequest_mirrored h hr hfit fun hc => absurd hsent hc).2 hgiven hsent⟩

theorem served_of_run_repeated :
    smallCache.validateModelInputs (images [1] [7, 7, 7, 7]) ≠ .ok () ∧
      ∃ vs, (smallCache.processRequest (images [1, 2] [7, 7])
        (afterRequests [images [1] [7], images [1] [7, 7, 7, 7]])).1 = .ok vs := by
  have hrefused : (images [1] [7, 7, 7, 7]).MostRecent (afterRequests [images [1] [7]]).sender :=
    ⟨by decide, by decide⟩
  have hops : Run.Allowed (fun r st => (smallCache.processRequest r st).2)
      (fun (r : MmRequest Nat Nat Unit) st => r.InOrder ∧ smallCache.Fits st.sender r ∧
        r.RefusedQuietly smallCache st.sender) [images [1] [7], images [1] [7, 7, 7, 7]] ⟨∅, ∅⟩ := by
    exact ⟨⟨by decide, by decide, fun hc => absurd (by decide) hc⟩,
      ⟨by decide, by decide, fun _ => hrefused⟩, trivial⟩
  exact ⟨by decide, (served_of_run (.of_allowed hops)).2 _ (by decide) (by decide) (by decide)
    (by decide)⟩

/-! ### A refused request -/

/-- The request is too long, but its item stays in the frontend's cache; the next request with that
item leaves its data out. -/
theorem unserved_after_refusal :
    smallCache.validateModelInputs (images [1] [7, 7, 7, 7]) ≠ .ok () ∧
      smallCache.validateModelInputs (images [1] [7]) = .ok () ∧
      (smallCache.processRequest (images [1] [7]) (afterRequests [images [1] [7, 7, 7, 7]])).1 =
        .error (expectedCached 1) := by
  decide

end Vllm.Multimodal
