import Vllm.Core.KvErrors
import Vllm.Sched.EncoderRuns

/-! The books of the encoder cache. The free slots are those that no entry takes, the freeable ones
those that no entry with a reference takes, and what `can_allocate` promises to the items of a
request is still there when they are allocated. -/

set_option linter.unusedSectionVars false

namespace Vllm
open Base Dict Call Relation List

namespace EncoderCacheManager
variable {size : String → Nat} {m m' : EncoderCacheManager} {requestId : String}
  {f : MultiModalFeatureSpec} {fs : List MultiModalFeatureSpec}

structure Accounted (size : String → Nat) (m : EncoderCacheManager) : Prop where
  free : m.numFreeSlots = m.cacheSize - m.cached.weight size
  freeable : m.numFreeableSlots = m.numFreeSlots + m.freeable.sum id
  sizes : ∀ h n, m.freeable.get? h = some n → n = size h
  keys : ∀ h, h ∈ m.freeable.keys ↔ m.cached.get? h = some []
  nonneg : 0 ≤ m.numFreeSlots

theorem accounted_new (size : String → Nat) (cacheSize : Nat) : (new cacheSize).Accounted size where
  free := by simp [new, Dict.weight]
  freeable := by simp [new, Dict.sum]
  sizes _ _ h := nomatch h
  keys _ := ⟨(nomatch ·), (nomatch ·)⟩
  nonneg := Int.natCast_nonneg _

theorem accounted_reset (size : String → Nat) (m : EncoderCacheManager) : m.reset.Accounted size :=
  accounted_new size m.cacheSize

section
variable (h : m.Accounted size)
include h

theorem Accounted.freeable_weight :
    m.numFreeableSlots = m.numFreeSlots + m.freeable.weight size := by
  rw [h.freeable, sum_eq_weight (f := id) h.sizes]

theorem Accounted.cached_of_freeable :
    ∀ hash ∈ m.freeable.keys, hash ∈ m.cached.keys := fun hash hin =>
  mem_keys_of_get? ((h.keys hash).mp hin)

theorem Accounted.bounds :
    0 ≤ m.numFreeSlots ∧ m.numFreeSlots ≤ m.numFreeableSlots ∧
      m.numFreeableSlots ≤ m.cacheSize := by
  have hle := weight_le h.cached_of_freeable size
  have hfree := h.free
  have hfreeable := h.freeable_weight
  refine ⟨h.nonneg, ?_, ?_⟩ <;> omega

end

def totalEmbeds (fs : List MultiModalFeatureSpec) : Nat := (fs.map (·.numEmbeds)).sum

structure Room (fs : List MultiModalFeatureSpec) (m : EncoderCacheManager) : Prop where
  nodup : (fs.map (·.identifier)).Nodup
  fresh : ∀ f ∈ fs, f.identifier ∉ m.cached.keys
  fits : totalEmbeds fs ≤ m.numFreeSlots

theorem Room.mono (h : Room fs m) (hkeys : ∀ hash ∈ m'.cached.keys, hash ∈ m.cached.keys)
    (hfree : m.numFreeSlots ≤ m'.numFreeSlots) : Room fs m' where
  nodup := h.nodup
  fresh f hf hin := h.fresh f hf (hkeys _ hin)
  fits := h.fits.trans hfree

/-! ## Looking up, evicting and allocating -/

variable {hash : String} {n : Nat}

theorem Accounted.takeFreeable (h : m.Accounted size) (hn : m.freeable.get? hash = some n)
    (refs : List String) (hrefs : refs ≠ []) :
    Accounted size { m with
      freeable := m.freeable.erase hash
      numFreeableSlots := m.numFreeableSlots - n
      cached := m.cached.set hash refs } := by
  have hin : hash ∈ m.freeable.keys := mem_keys_of_get? hn
  refine ⟨?_, ?_, fun k v hv => ?_, fun k => ?_, h.nonneg⟩
  · rw [weight_set_of_mem (h.cached_of_freeable hash hin)]
    exact h.free
  · have hsum := sum_erase m.freeable id hash
    have hfreeable := h.freeable
    rw [hn, Option.elim_some, id_eq] at hsum
    dsimp only
    omega
  · rw [get?_erase] at hv
    split at hv
    · cases hv
    · exact h.sizes k v hv
  · rw [mem_keys_erase, get?_set]
    by_cases heq : k = hash
    · simp [heq, hrefs]
    · simpa [heq] using h.keys k

theorem Accounted.addRef (h : m.Accounted size) {refs refs' : List String}
    (hget : m.cached.get? hash = some refs) (hrefs : refs ≠ []) (hrefs' : refs' ≠ []) :
    Accounted size { m with cached := m.cached.set hash refs' } := by
  refine ⟨?_, h.freeable, h.sizes, fun k => ?_, h.nonneg⟩
  · rw [weight_set_of_mem (mem_keys_of_get? hget)]
    exact h.free
  · rw [get?_set, h.keys k]
    by_cases heq : k = hash
    · simp [heq, hget, hrefs, hrefs']
    · simp [heq]

theorem checkAndUpdateCache_accounted (requestId : String) (f : MultiModalFeatureSpec)
    (h : m.Accounted size) : ∃ b m', checkAndUpdateCache requestId f m = (.ok b, m') ∧ m'.Accounted size ∧
      m'.numFreeSlots = m.numFreeSlots := by
  unfold checkAndUpdateCache
  rw [get_bind]
  cases hget : m.cached.get? f.identifier with
  | none => exact ⟨false, m, rfl, h, rfl⟩
  | some refs =>
    have hne : refs.insert requestId ≠ [] := ne_nil_of_mem mem_insert_self
    by_cases hnil : refs = []
    · obtain ⟨n, hn⟩ := Option.isSome_iff_exists.mp
        (mem_keys_iff.mp ((h.keys f.identifier).mpr (hnil ▸ hget)))
      have htake : takeFreeable f.identifier refs m = (.ok (), { m with
          freeable := m.freeable.erase f.identifier
          numFreeableSlots := m.numFreeableSlots - n }) := by
        unfold takeFreeable
        rw [if_pos hnil, get_bind, hn]
        rfl
      refine ⟨true, _, ?_, h.takeFreeable hn (refs.insert requestId) hne, rfl⟩
      dsimp only
      rw [bind_of_ok htake, modify_bind]
      simp only [addRef, hget, Option.getD_some]
      rfl
    · have htake : takeFreeable f.identifier refs m = (.ok (), m) := by
        unfold takeFreeable
        rw [if_neg hnil]
        rfl
      refine ⟨true, _, ?_, h.addRef hget hnil hne, rfl⟩
      dsimp only
      rw [bind_of_ok htake, modify_bind]
      simp only [addRef, hget]
      rfl

theorem Accounted.evictOne (h : m.Accounted size) (hn : m.freeable.get? hash = some n) :
    (m.evictOne hash n).Accounted size := by
  have hin : hash ∈ m.freeable.keys := mem_keys_of_get? hn
  have hsize : n = size hash := h.sizes hash n hn
  refine ⟨?_, ?_, fun k v hv => ?_, fun k => ?_, ?_⟩
  · have hweight := weight_erase (h.cached_of_freeable hash hin) size
    have hfree := h.free
    dsimp only [EncoderCacheManager.evictOne]
    omega
  · have hsum := sum_erase m.freeable id hash
    have hfreeable := h.freeable
    rw [hn, Option.elim_some, id_eq] at hsum
    dsimp only [EncoderCacheManager.evictOne]
    omega
  · dsimp only [EncoderCacheManager.evictOne] at hv
    rw [get?_erase] at hv
    split at hv
    · cases hv
    · exact h.sizes k v hv
  · dsimp only [EncoderCacheManager.evictOne]
    rw [mem_keys_erase, get?_erase]
    by_cases heq : k = hash
    · simp [heq]
    · simpa [heq] using h.keys k
  · have hpos := h.nonneg
    dsimp only [EncoderCacheManager.evictOne]
    omega

theorem freeable_evictOne {entries : List (String × Nat)}
    (h : m.freeable.entries = (hash, n) :: entries) :
    (m.evictOne hash n).freeable.entries = entries := by
  have hnodup := m.freeable.nodup
  rw [h, map_cons, nodup_cons] at hnodup
  change m.freeable.entries.filter (fun e => e.1 ≠ hash) = entries
  rw [h, filter_cons_of_neg (by simp)]
  refine filter_eq_self.mpr fun e he => ?_
  simpa using fun heq => hnodup.1 (mem_map.mpr ⟨e, he, heq⟩)

theorem evictLoop_accounted {numEmbeds : Int} {entries : List (String × Nat)}
    (h : m.Accounted size) (hentries : m.freeable.entries = entries)
    (hroom : numEmbeds ≤ m.numFreeableSlots) :
    ∃ m', evictLoop numEmbeds entries m = (.ok (), m') ∧ m'.Accounted size ∧
      m.numFreeSlots ≤ m'.numFreeSlots ∧ numEmbeds ≤ m'.numFreeSlots := by
  induction entries generalizing m with
  | nil =>
    have hsum : m.freeable.sum id = 0 := by rw [Dict.sum, hentries]; rfl
    have hfits : ¬numEmbeds > m.numFreeSlots := by
      have hfreeable := h.freeable
      omega
    refine ⟨m, ?_, h, Int.le_refl _, Int.not_lt.mp hfits⟩
    rw [evictLoop, get_bind, if_neg hfits]
    rfl
  | cons e entries ih =>
    obtain ⟨hash, n⟩ := e
    rw [evictLoop, get_bind]
    split
    · have hn : m.freeable.get? hash = some n :=
        get?_eq_some_iff.mpr (hentries ▸ mem_cons_self)
      obtain ⟨m', hloop, hm', hle, hfits⟩ := ih (h.evictOne hn) (freeable_evictOne hentries) hroom
      refine ⟨m', hloop, hm', ?_, hfits⟩
      have hmore : m.numFreeSlots ≤ (m.evictOne hash n).numFreeSlots := by
        dsimp only [EncoderCacheManager.evictOne]
        omega
      exact hmore.trans hle
    · next hfits => exact ⟨m, rfl, h, Int.le_refl _, Int.not_lt.mp hfits⟩

theorem canAllocate_accounted (f : MultiModalFeatureSpec) (budget scheduled : Int)
    (h : m.Accounted size) : ∃ b m', canAllocate f budget scheduled m = (.ok b, m') ∧ m'.Accounted size ∧
      m.numFreeSlots ≤ m'.numFreeSlots ∧
      (b = true → f.numEmbeds + scheduled ≤ m'.numFreeSlots) := by
  unfold canAllocate
  rw [get_bind]
  split
  · exact ⟨false, m, rfl, h, Int.le_refl _, nofun⟩
  dsimp only
  split
  · next hfits => exact ⟨true, m, rfl, h, Int.le_refl _, fun _ => hfits⟩
  split
  · exact ⟨false, m, rfl, h, Int.le_refl _, nofun⟩
  · next hroom =>
    obtain ⟨m', hloop, hm', hle, hfits⟩ := evictLoop_accounted h rfl (Int.not_lt.mp hroom)
    refine ⟨true, m', ?_, hm', hle, fun _ => hfits⟩
    rw [bind_of_ok hloop]
    rfl

theorem allocate_accounted (requestId : String) (h : m.Accounted size) (hroom : Room fs m)
    (hsize : ∀ f ∈ fs, f.numEmbeds = size f.identifier) :
    ∃ m', Call.forEach fs (allocate requestId) m = (.ok (), m') ∧ m'.Accounted size := by
  induction fs generalizing m with
  | nil => exact ⟨m, rfl, h⟩
  | cons f fs ih =>
    have hfits := hroom.fits
    have hnodup := hroom.nodup
    have hbounds := h.bounds
    have hnew : f.identifier ∉ m.cached.keys := hroom.fresh f mem_cons_self
    rw [totalEmbeds, map_cons, sum_cons] at hfits
    rw [map_cons, nodup_cons] at hnodup
    have hnone : m.cached.get? f.identifier = none := get?_eq_none_iff.mpr hnew
    obtain ⟨m₁, hm₁⟩ : ∃ m₁, m₁ = { m with
        cached := m.cached.set f.identifier [requestId]
        numFreeSlots := m.numFreeSlots - f.numEmbeds
        numFreeableSlots := m.numFreeableSlots - f.numEmbeds } := ⟨_, rfl⟩
    have hone : allocate requestId f m = (.ok (), m₁) := by
      unfold allocate
      rw [get_bind, check_bind (by simpa using by omega),
        check_bind (by simpa using by omega), hm₁]
      simp only [Call.modify, addRef, hnone]
      rfl
    have haccounted : m₁.Accounted size := by
      subst hm₁
      refine ⟨?_, ?_, h.sizes, fun k => ?_, ?_⟩
      · have hfree := h.free
        have hsz := hsize f mem_cons_self
        dsimp only
        rw [weight_set_of_not_mem hnew]
        omega
      · have hfreeable := h.freeable
        dsimp only
        omega
      · rw [h.keys k, get?_set]
        by_cases heq : k = f.identifier
        · simp [heq, hnone]
        · simp [heq]
      · dsimp only
        omega
    have hroom₁ : Room fs m₁ := by
      subst hm₁
      refine ⟨hnodup.2, fun g hg hin => ?_, ?_⟩
      · rcases mem_keys_set.mp hin with heq | hin
        · exact hnodup.1 (heq ▸ mem_map.mpr ⟨g, hg, rfl⟩)
        · exact hroom.fresh g (mem_cons_of_mem _ hg) hin
      · dsimp only [totalEmbeds]
        omega
    obtain ⟨m', hrest, hm'⟩ := ih haccounted hroom₁ fun g hg => hsize g (mem_cons_of_mem _ hg)
    refine ⟨m', ?_, hm'⟩
    rw [Call.forEach, bind_of_ok hone]
    exact hrest

/-! ## References -/

theorem Accounted.freeEncoderInput (h : m.Accounted size) (hsize : f.numEmbeds = size f.identifier) :
    (freeEncoderInput requestId m f).Accounted size := by
  unfold EncoderCacheManager.freeEncoderInput
  cases hrefs : (m.cached.get? f.identifier).getD [] with
  | nil => exact h
  | cons ref refs =>
    have hget := eq_some_of_getD_cons hrefs
    have hnot : f.identifier ∉ m.freeable.keys := fun hin =>
      nomatch hget.symm.trans ((h.keys f.identifier).mp hin)
    dsimp only
    split
    · next hnil =>
      refine ⟨?_, ?_, fun k v hv => ?_, fun k => ?_, h.nonneg⟩
      · rw [weight_set_of_mem (mem_keys_of_get? hget)]
        exact h.free
      · have hsum := sum_set m.freeable id f.identifier f.numEmbeds
        have hfreeable := h.freeable
        rw [get?_eq_none_iff.mpr hnot, Option.elim_none, id_eq] at hsum
        dsimp only
        omega
      · rw [get?_set] at hv
        split at hv
        · next heq =>
          cases hv
          rw [heq, hsize]
        · exact h.sizes k v hv
      · rw [mem_keys_set, get?_set]
        by_cases heq : k = f.identifier
        · simp [heq, hnil]
        · simpa [heq] using h.keys k
    · next hne => exact h.addRef hget (cons_ne_nil _ _) hne

theorem numFreeSlots_freeEncoderInput :
    (freeEncoderInput requestId m f).numFreeSlots = m.numFreeSlots := by
  unfold EncoderCacheManager.freeEncoderInput
  split
  · rfl
  · dsimp only
    split <;> rfl

section
variable (h : m.Accounted size) (hsize : ∀ f ∈ fs, f.numEmbeds = size f.identifier)
include h hsize

theorem Accounted.foldl :
    (fs.foldl (EncoderCacheManager.freeEncoderInput requestId) m).Accounted size := by
  induction fs generalizing m with
  | nil => exact h
  | cons f fs ih =>
    exact ih (h.freeEncoderInput (hsize f mem_cons_self)) fun g hg =>
      hsize g (mem_cons_of_mem _ hg)

theorem Accounted.freeAll : (m.free requestId fs).Accounted size :=
  h.foldl fun f hf => hsize f (mem_filter.mp hf).1

end

theorem numFreeSlots_free : (m.free requestId fs).numFreeSlots = m.numFreeSlots := by
  unfold free
  generalize m.getCachedInputs fs = gs
  induction gs generalizing m with
  | nil => rfl
  | cons g gs ih => exact ih.trans numFreeSlots_freeEncoderInput

end EncoderCacheManager

namespace SchedConfig
open EncoderCacheManager
variable {D : Type} [DecidableEq D] {cfg : SchedConfig D} {size : String → Nat} {requestId : String}
  {c : Int} {m m' : EncoderCacheManager} {t t' : EncoderTrial} {r : SchedRequest D}

/-! ## The items of a request -/

structure Promised (features : List MultiModalFeatureSpec) (m : EncoderCacheManager)
    (t : EncoderTrial) : Prop where
  room : Room (t.inputs.filterMap (features[·]?)) m
  hashes : ∀ f ∈ t.inputs.filterMap (features[·]?), f.identifier ∈ t.mmHashesToSchedule
  total : t.numEmbedsToSchedule = totalEmbeds (t.inputs.filterMap (features[·]?))

variable {features : List MultiModalFeatureSpec}

theorem Promised.mono (h : Promised features m t)
    (hkeys : ∀ hash ∈ m'.cached.keys, hash ∈ m.cached.keys)
    (hfree : m.numFreeSlots ≤ m'.numFreeSlots) : Promised features m' t :=
  ⟨h.room.mono hkeys hfree, h.hashes, h.total⟩

theorem Promised.add {f : MultiModalFeatureSpec} {i : Nat} (h : Promised features m t)
    (hi : features[i]? = some f) (hnew : f.identifier ∉ t.mmHashesToSchedule)
    (hfresh : f.identifier ∉ m.cached.keys)
    (hfits : f.numEmbeds + t.numEmbedsToSchedule ≤ m.numFreeSlots) :
    Promised features m (t.add i f) := by
  have hitems : (t.add i f).inputs.filterMap (features[·]?) =
      t.inputs.filterMap (features[·]?) ++ [f] := by
    simp [EncoderTrial.add, hi]
  have htotal : (t.add i f).numEmbedsToSchedule =
      totalEmbeds ((t.add i f).inputs.filterMap (features[·]?)) := by
    rw [hitems, totalEmbeds, map_append, sum_append, Int.natCast_add]
    simp only [EncoderTrial.add, h.total, totalEmbeds, map_cons, map_nil, sum_cons,
      sum_nil, Nat.add_zero]
  refine ⟨⟨?_, ?_, ?_⟩, ?_, htotal⟩
  · rw [hitems, map_append, nodup_append]
    refine ⟨h.room.nodup, nodup_singleton _, ?_⟩
    intro a ha b hb heq
    obtain ⟨g, hg, rfl⟩ := mem_map.mp ha
    rw [map_singleton, mem_singleton] at hb
    exact hnew (hb ▸ heq ▸ h.hashes g hg)
  · intro g hg
    rw [hitems] at hg
    rcases mem_append.mp hg with hg | hg
    · exact h.room.fresh g hg
    · rwa [mem_singleton.mp hg]
  · rw [← htotal]
    change t.numEmbedsToSchedule + f.numEmbeds ≤ _
    omega
  · intro g hg
    rw [hitems] at hg
    rcases mem_append.mp hg with hg | hg
    · exact mem_cons_of_mem _ (h.hashes g hg)
    · rw [mem_singleton.mp hg]
      exact mem_cons_self

theorem encoderLoop_accounted (cfg : SchedConfig D) (requestId : String) (c : Int)
    {fs : List (MultiModalFeatureSpec × Nat)} (hfs : ∀ e ∈ fs, features[e.2]? = some e.1)
    (h : m.Accounted size) (hp : Promised features m t) :
    ∃ t' m', cfg.encoderLoop requestId c fs t m = (.ok t', m') ∧ m'.Accounted size ∧
      Promised features m' t' := by
  induction fs generalizing t m with
  | nil => exact ⟨t, m, rfl, h, hp⟩
  | cons e fs ih =>
    obtain ⟨f, i⟩ := e
    have hi : features[i]? = some f := hfs (f, i) mem_cons_self
    have hrest : ∀ e ∈ fs, features[e.2]? = some e.1 := fun e he => hfs e (mem_cons_of_mem _ he)
    unfold encoderLoop
    split
    · exact ⟨t, m, rfl, h, hp⟩
    split
    · exact ih hrest h hp
    split
    · exact ih hrest h hp
    next hnew =>
    obtain ⟨cached, m₁, hlook, h₁, hfree₁⟩ :=
      checkAndUpdateCache_accounted requestId f h
    have hp₁ : Promised features m₁ t :=
      hp.mono (spares_checkAndUpdateCache hlook).keys (Int.le_of_eq hfree₁.symm)
    rw [bind_of_ok hlook]
    split
    · exact ih hrest h₁ hp₁
    next hcached =>
    split
    · exact ⟨_, m₁, rfl, h₁, hp₁.room, hp₁.hashes, hp₁.total⟩
    obtain ⟨fits, m₂, hfits, h₂, hfree₂, hroom⟩ :=
      canAllocate_accounted f t.encoderComputeBudget t.numEmbedsToSchedule h₁
    have hp₂ : Promised features m₂ t := hp₁.mono (spares_canAllocate hfits).keys hfree₂
    rw [bind_of_ok hfits]
    split
    · exact ⟨_, m₂, rfl, h₂, hp₂.room, hp₂.hashes, hp₂.total⟩
    next hyes =>
    split
    · exact ih hrest h₂ hp₂
    · have hfresh : f.identifier ∉ m₁.cached.keys := by
        rcases checkAndUpdateCache_eq_ok hlook with ⟨-, rfl, hf⟩ | ⟨htrue, -⟩
        · exact hf
        · exact absurd htrue hcached
      refine ih hrest h₂ (hp₂.add hi hnew (fun hin => ?_) (hroom (by simpa using hyes)))
      exact hfresh ((spares_canAllocate hfits).keys _ hin)

theorem tryScheduleEncoderInputs_accounted (cfg : SchedConfig D) (r : SchedRequest D)
    (c n b : Int) {s : Scheduler D} (h : s.encoder.Accounted size) :
    ∃ t encoder, cfg.tryScheduleEncoderInputs r c n b s = (.ok t, { s with encoder }) ∧
      encoder.Accounted size ∧ Promised r.mmFeatures encoder t := by
  have hnone : ∀ n b : Int, Promised r.mmFeatures s.encoder { numNewTokens := n, encoderComputeBudget := b } :=
    fun _ _ => ⟨⟨nodup_nil, nofun, h.nonneg⟩, nofun, rfl⟩
  unfold tryScheduleEncoderInputs
  split
  · exact ⟨_, s.encoder, rfl, h, hnone n b⟩
  · obtain ⟨t, encoder, hloop, haccounted, hpromised⟩ := encoderLoop_accounted cfg
      r.requestId c (fun e he => mem_zipIdx_iff_getElem?.mp he) h (hnone n b)
    exact ⟨t, encoder, onEncoder_eq_ok.mpr ⟨encoder, hloop, rfl⟩, haccounted, hpromised⟩

end SchedConfig
end Vllm
