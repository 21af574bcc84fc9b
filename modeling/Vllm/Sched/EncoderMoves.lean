import Vllm.Sched.Requests

/-! What the calls of the encoder cache do to its entries: an entry is added when it is scheduled,
stays as long as it has a reference, and is noted in `freed` when it is evicted. -/

set_option linter.unusedSectionVars false

namespace Vllm
open Base Dict Call Relation List

namespace EncoderCacheManager

def Idle (m : EncoderCacheManager) : Prop := ∀ h ∈ m.freeable.keys, m.cached.get? h = some []

def Referenced (m : EncoderCacheManager) (h : String) : Prop :=
  ∃ refs, m.cached.get? h = some refs ∧ refs ≠ []

def HasRef (m : EncoderCacheManager) (h requestId : String) : Prop :=
  ∃ refs, m.cached.get? h = some refs ∧ requestId ∈ refs

structure Shrinks (m m' : EncoderCacheManager) : Prop where
  keys : ∀ h ∈ m'.cached.keys, h ∈ m.cached.keys
  freed : ∀ h ∈ m'.cached.keys, h ∈ m'.freed → h ∈ m.freed
  idle : m.Idle → m'.Idle

structure Spares (m m' : EncoderCacheManager) : Prop extends Shrinks m m' where
  refs : m.Idle → ∀ h id, m.HasRef h id → m'.HasRef h id

variable {m m' : EncoderCacheManager} {h : String} {requestId : String} {f : MultiModalFeatureSpec}

theorem idle_new (cacheSize : Nat) : (new cacheSize).Idle := fun _ hin => nomatch hin

theorem Shrinks.refl (m : EncoderCacheManager) : Shrinks m m :=
  ⟨fun _ hin => hin, fun _ _ hin => hin, fun hidle => hidle⟩

variable {m₁ m₂ m₃ : EncoderCacheManager}

theorem Shrinks.trans (h₁ : Shrinks m₁ m₂) (h₂ : Shrinks m₂ m₃) : Shrinks m₁ m₃ where
  keys h hin := h₁.keys h (h₂.keys h hin)
  freed h hin hfreed := h₁.freed h (h₂.keys h hin) (h₂.freed h hin hfreed)
  idle hidle := h₂.idle (h₁.idle hidle)

theorem Spares.refl (m : EncoderCacheManager) : Spares m m :=
  ⟨.refl m, fun _ _ _ href => href⟩

theorem Spares.trans (h₁ : Spares m₁ m₂) (h₂ : Spares m₂ m₃) : Spares m₁ m₃ where
  toShrinks := h₁.toShrinks.trans h₂.toShrinks
  refs hidle h id href := h₂.refs (h₁.idle hidle) h id (h₁.refs hidle h id href)

theorem referenced_iff : m.Referenced h ↔ ∃ id, m.HasRef h id := by
  constructor
  · rintro ⟨refs, hrefs, hne⟩
    obtain ⟨id, hid⟩ := exists_mem_of_ne_nil refs hne
    exact ⟨id, refs, hrefs, hid⟩
  · rintro ⟨id, refs, hrefs, hid⟩
    exact ⟨refs, hrefs, ne_nil_of_mem hid⟩

theorem Idle.not_freeable (hidle : m.Idle) (href : m.Referenced h) : h ∉ m.freeable.keys := by
  intro hin
  obtain ⟨refs, hrefs, hne⟩ := href
  exact hne (Option.some.inj (hrefs.symm.trans (hidle h hin)))

/-! ## A look into the cache -/

variable {b : Bool}

theorem checkAndUpdateCache_eq_ok (hcall : checkAndUpdateCache requestId f m = (.ok b, m')) :
    (b = false ∧ m' = m ∧ f.identifier ∉ m.cached.keys) ∨
      (b = true ∧ ∃ refs, m.cached.get? f.identifier = some refs ∧
        m'.cached = m.cached.set f.identifier (refs.insert requestId) ∧ m'.freed = m.freed ∧
        m'.freeable = if refs = [] then m.freeable.erase f.identifier else m.freeable) := by
  rw [checkAndUpdateCache, get_bind] at hcall
  cases hget : m.cached.get? f.identifier with
  | none =>
    simp only [hget] at hcall
    obtain ⟨rfl, rfl⟩ := pure_eq_ok.mp hcall
    exact .inl ⟨rfl, rfl, get?_eq_none_iff.mp hget⟩
  | some refs =>
    simp only [hget, bind_eq_ok, modify_eq_ok, pure_eq_ok] at hcall
    obtain ⟨_, m₁, htake, _, _, rfl, rfl, rfl⟩ := hcall
    refine .inr ⟨rfl, refs, rfl, ?_⟩
    unfold takeFreeable at htake
    split at htake
    · next hnil =>
      rw [get_bind] at htake
      cases hfree : m.freeable.get? f.identifier with
      | none => simp only [hfree, raise_ne_ok] at htake
      | some n =>
        simp only [hfree, modify_eq_ok] at htake
        subst htake
        simp only [addRef, hget, hnil, if_true, Option.getD_some, and_self]
    · next hne =>
      obtain ⟨-, rfl⟩ := pure_eq_ok.mp htake
      simp only [addRef, hget, hne, if_false, Option.getD_some, and_self]

theorem not_mem_of_checkAndUpdateCache
    (hcall : checkAndUpdateCache requestId f m = (.ok false, m')) : f.identifier ∉ m.cached.keys := by
  rcases checkAndUpdateCache_eq_ok hcall with ⟨-, -, hno⟩ | ⟨htrue, -⟩
  · exact hno
  · cases htrue

theorem hasRef_checkAndUpdateCache (hcall : checkAndUpdateCache requestId f m = (.ok true, m')) :
    m'.HasRef f.identifier requestId := by
  rcases checkAndUpdateCache_eq_ok hcall with ⟨hfalse, -⟩ | ⟨-, refs, -, hcached, -⟩
  · cases hfalse
  · exact ⟨_, by rw [hcached]; exact get?_set_self _ _ _, mem_insert_self⟩

theorem spares_checkAndUpdateCache (hcall : checkAndUpdateCache requestId f m = (.ok b, m')) :
    Spares m m' := by
  rcases checkAndUpdateCache_eq_ok hcall with ⟨-, rfl, -⟩ | ⟨-, refs, hrefs, hcached, hfreed, hfree⟩
  · exact .refl _
  have hkeys : ∀ h, h ∈ m'.cached.keys ↔ h ∈ m.cached.keys := by
    intro h
    rw [hcached, mem_keys_set]
    exact ⟨fun hin => hin.elim (fun heq => heq ▸ mem_keys_of_get? hrefs) id, .inr⟩
  refine ⟨⟨fun h => (hkeys h).mp, fun h _ hin => hfreed ▸ hin, fun hidle h hin => ?_⟩,
    fun hidle h id href => ?_⟩
  · -- the entry itself is not in `freeable` any more
    have hother : h ∈ m.freeable.keys ∧ h ≠ f.identifier := by
      rw [hfree] at hin
      split at hin
      · exact ⟨(mem_keys_erase.mp hin).2, (mem_keys_erase.mp hin).1⟩
      · next hne =>
        refine ⟨hin, fun heq => ?_⟩
        exact hidle.not_freeable ⟨refs, heq ▸ hrefs, hne⟩ hin
    rw [hcached, get?_set_of_ne _ _ hother.2]
    exact hidle h hother.1
  · obtain ⟨refs', hrefs', hmem⟩ := href
    by_cases heq : h = f.identifier
    · subst heq
      obtain rfl := Option.some.inj (hrefs.symm.trans hrefs')
      exact ⟨_, by rw [hcached]; exact get?_set_self _ _ _, mem_insert_of_mem hmem⟩
    · exact ⟨refs', by rw [hcached, get?_set_of_ne _ _ heq, hrefs'], hmem⟩

/-! ## Evictions -/

theorem spares_evictOne {n : Nat} (hin : h ∈ m.freeable.keys) : Spares m (m.evictOne h n) := by
  refine ⟨⟨fun h' hin' => (mem_keys_erase.mp hin').2, fun h' hin' hfreed => ?_,
    fun hidle h' hin' => ?_⟩, fun hidle h' id href => ?_⟩
  · have hne : h' ≠ h := (mem_keys_erase.mp hin').1
    rcases mem_append.mp hfreed with hold | hnew
    · exact hold
    · exact absurd (mem_singleton.mp hnew) hne
  · obtain ⟨hne, hold⟩ := mem_keys_erase.mp hin'
    exact (get?_erase_of_ne _ hne).trans (hidle h' hold)
  · have hne : h' ≠ h := fun heq =>
      hidle.not_freeable (referenced_iff.mpr ⟨id, href⟩) (heq ▸ hin)
    obtain ⟨refs, hrefs, hmem⟩ := href
    exact ⟨refs, (get?_erase_of_ne _ hne).trans hrefs, hmem⟩

variable {u : Unit}

theorem spares_evictLoop {numEmbeds : Int} {entries : List (String × Nat)}
    (hnodup : (entries.map Prod.fst).Nodup) (hin : ∀ e ∈ entries, e.1 ∈ m.freeable.keys)
    (hcall : evictLoop numEmbeds entries m = (.ok u, m')) : Spares m m' := by
  induction entries generalizing m with
  | nil =>
    rw [evictLoop, get_bind] at hcall
    split at hcall
    · exact absurd hcall raise_ne_ok
    · obtain ⟨-, rfl⟩ := pure_eq_ok.mp hcall
      exact .refl _
  | cons e entries ih =>
    obtain ⟨hash, n⟩ := e
    rw [evictLoop, get_bind] at hcall
    split at hcall
    · simp only [bind_eq_ok, modify_eq_ok] at hcall
      obtain ⟨_, _, rfl, hcall⟩ := hcall
      rw [map_cons, nodup_cons] at hnodup
      refine (spares_evictOne (hin _ mem_cons_self)).trans (ih hnodup.2 (fun e he => ?_) hcall)
      have hne : e.1 ≠ hash := fun heq => hnodup.1 (heq ▸ mem_map.mpr ⟨e, he, rfl⟩)
      exact mem_keys_erase.mpr ⟨hne, hin e (mem_cons_of_mem _ he)⟩
    · obtain ⟨-, rfl⟩ := pure_eq_ok.mp hcall
      exact .refl _

theorem spares_canAllocate {budget scheduled : Int}
    (hcall : canAllocate f budget scheduled m = (.ok b, m')) : Spares m m' := by
  simp only [canAllocate, bind_eq_ok] at hcall
  obtain ⟨_, m, ⟨rfl, rfl⟩, hcall⟩ := hcall
  split at hcall
  · obtain ⟨-, rfl⟩ := pure_eq_ok.mp hcall
    exact .refl _
  split at hcall
  · obtain ⟨-, rfl⟩ := pure_eq_ok.mp hcall
    exact .refl _
  split at hcall
  · obtain ⟨-, rfl⟩ := pure_eq_ok.mp hcall
    exact .refl _
  · simp only [bind_eq_ok] at hcall
    obtain ⟨_, _, hloop, -, rfl⟩ := hcall
    exact spares_evictLoop m.freeable.nodup (fun e he => mem_map.mpr ⟨e, he, rfl⟩) hloop

/-! ## References -/

theorem eq_some_of_getD_cons {α : Type} {o : Option (List α)} {x : α} {xs : List α}
    (h : o.getD [] = x :: xs) : o = some (x :: xs) := by
  cases o with
  | none => cases h
  | some ys => exact congrArg some h

theorem shrinks_freeEncoderInput : Shrinks m (freeEncoderInput requestId m f) := by
  unfold freeEncoderInput
  cases hrefs : (m.cached.get? f.identifier).getD [] with
  | nil => exact .refl m
  | cons ref refs =>
    have hget := eq_some_of_getD_cons hrefs
    have hkeys : ∀ (value : List String) (h : String),
        h ∈ (m.cached.set f.identifier value).keys → h ∈ m.cached.keys := fun _ h hin =>
      (mem_keys_set.mp hin).elim (fun heq => heq ▸ mem_keys_of_get? hget) id
    have hidle : ∀ value : List String, m.Idle → ∀ h ∈ m.freeable.keys,
        (m.cached.set f.identifier value).get? h = some [] := fun _ hidle h hin => by
      have hne : h ≠ f.identifier := fun heq =>
        hidle.not_freeable ⟨_, heq ▸ hget, cons_ne_nil _ _⟩ hin
      rw [get?_set_of_ne _ _ hne]
      exact hidle h hin
    dsimp only
    split
    · next hnil =>
      refine ⟨hkeys _, fun _ _ hin => hin, fun hold h hin => ?_⟩
      rcases mem_keys_set.mp hin with rfl | hin
      · rw [hnil]
        exact get?_set_self _ _ _
      · exact hidle _ hold h hin
    · exact ⟨hkeys _, fun _ _ hin => hin, fun hold => hidle _ hold⟩

theorem shrinks_free (fs : List MultiModalFeatureSpec) : Shrinks m (m.free requestId fs) := by
  unfold free
  generalize m.getCachedInputs fs = gs
  induction gs generalizing m with
  | nil => exact .refl m
  | cons g gs ih => exact shrinks_freeEncoderInput.trans ih

variable {id : String}

theorem HasRef.freeEncoderInput (href : m.HasRef h id) (hne : id ≠ requestId) :
    (freeEncoderInput requestId m f).HasRef h id := by
  obtain ⟨refs, hrefs, hmem⟩ := href
  have hset : (m.cached.set f.identifier
      (((m.cached.get? f.identifier).getD []).erase requestId)).get? h = some refs ∨
        (m.cached.set f.identifier
          (((m.cached.get? f.identifier).getD []).erase requestId)).get? h =
            some (refs.erase requestId) := by
    by_cases heq : h = f.identifier
    · subst heq
      rw [hrefs]
      exact .inr (get?_set_self _ _ _)
    · exact .inl ((get?_set_of_ne _ _ heq).trans hrefs)
  have hkept : ∃ refs', (m.cached.set f.identifier
      (((m.cached.get? f.identifier).getD []).erase requestId)).get? h = some refs' ∧ id ∈ refs' :=
    hset.elim (fun hset => ⟨_, hset, hmem⟩)
      fun hset => ⟨_, hset, (mem_erase_of_ne hne).mpr hmem⟩
  unfold EncoderCacheManager.freeEncoderInput
  generalize (m.cached.get? f.identifier).getD [] = old at hkept
  cases old with
  | nil => exact ⟨refs, hrefs, hmem⟩
  | cons ref old =>
    dsimp only
    split <;> exact hkept

theorem HasRef.free (href : m.HasRef h id) (hne : id ≠ requestId)
    (fs : List MultiModalFeatureSpec) : (m.free requestId fs).HasRef h id := by
  unfold EncoderCacheManager.free
  generalize m.getCachedInputs fs = gs
  induction gs generalizing m with
  | nil => exact href
  | cons g gs ih => exact ih (href.freeEncoderInput hne)

structure Allocates (requestId : String) (fs : List MultiModalFeatureSpec) (m m' : EncoderCacheManager) :
    Prop where
  keys : ∀ h ∈ m'.cached.keys, h ∈ m.cached.keys ∨ ∃ f ∈ fs, f.identifier = h
  freed : m'.freed = m.freed
  idle : (∀ f ∈ fs, f.identifier ∉ m.freeable.keys) → m.Idle → m'.Idle
  refs : ∀ h id, m.HasRef h id → m'.HasRef h id
  own : ∀ f ∈ fs, m'.HasRef f.identifier requestId

theorem allocates_of_ok {fs : List MultiModalFeatureSpec}
    (hcall : Call.forEach fs (allocate requestId) m = (.ok u, m')) : Allocates requestId fs m m' := by
  induction fs generalizing m with
  | nil =>
    obtain ⟨-, rfl⟩ := pure_eq_ok.mp hcall
    exact ⟨fun _ hin => .inl hin, rfl, fun _ hidle => hidle, fun _ _ href => href,
      nofun⟩
  | cons f fs ih =>
    obtain ⟨_, m₁, hone, hrest⟩ := bind_eq_ok.mp hcall
    simp only [allocate, bind_eq_ok, check_eq_ok, modify_eq_ok] at hone
    obtain ⟨_, m, ⟨rfl, rfl⟩, _, _, ⟨-, rfl⟩, _, _, ⟨-, rfl⟩, rfl⟩ := hone
    have hnext := ih hrest
    refine ⟨fun h hin => ?_, hnext.freed, fun hfresh hidle => hnext.idle (fun g hg => ?_) fun h hin => ?_,
      fun h id href => hnext.refs h id ?_, fun g hg => ?_⟩
    · rcases hnext.keys h hin with hin | ⟨g, hg, rfl⟩
      · rcases mem_keys_set.mp hin with rfl | hin
        · exact .inr ⟨f, mem_cons_self, rfl⟩
        · exact .inl hin
      · exact .inr ⟨g, mem_cons_of_mem _ hg, rfl⟩
    · exact hfresh g (mem_cons_of_mem _ hg)
    · have hne : h ≠ f.identifier := fun heq => hfresh f mem_cons_self (heq ▸ hin)
      exact (get?_set_of_ne _ _ hne).trans (hidle h hin)
    · obtain ⟨refs, hrefs, hmem⟩ := href
      by_cases heq : h = f.identifier
      · subst heq
        refine ⟨_, get?_set_self _ _ _, ?_⟩
        rw [hrefs]
        exact mem_insert_of_mem hmem
      · exact ⟨refs, (get?_set_of_ne _ _ heq).trans hrefs, hmem⟩
    · rcases mem_cons.mp hg with rfl | hg
      · exact hnext.refs _ _ ⟨_, get?_set_self _ _ _, mem_insert_self⟩
      · exact hnext.own g hg

end EncoderCacheManager

namespace SchedConfig
open EncoderCacheManager
variable {D : Type} [DecidableEq D] {cfg : SchedConfig D} {requestId : String} {c : Int}
  {m m' : EncoderCacheManager} {t t' : EncoderTrial} {r : SchedRequest D}

/-! ## The items of a request -/

structure TrialOk (features : List MultiModalFeatureSpec) (m : EncoderCacheManager)
    (t : EncoderTrial) : Prop where
  hashes : ∀ i ∈ t.inputs, ∀ f, features[i]? = some f → f.identifier ∈ t.mmHashesToSchedule
  listed : ∀ h ∈ t.mmHashesToSchedule, ∃ i ∈ t.inputs, ∃ f, features[i]? = some f ∧ f.identifier = h
  fresh : ∀ h ∈ t.mmHashesToSchedule, h ∉ m.cached.keys

variable {features : List MultiModalFeatureSpec}

theorem TrialOk.shrinks (h : TrialOk features m t) (hshrinks : Shrinks m m') :
    TrialOk features m' t :=
  ⟨h.hashes, h.listed, fun hash hin hkey => h.fresh hash hin (hshrinks.keys hash hkey)⟩

theorem TrialOk.add {f : MultiModalFeatureSpec} {i : Nat} (h : TrialOk features m t)
    (hi : features[i]? = some f) (hf : f.identifier ∉ m.cached.keys) :
    TrialOk features m (t.add i f) := by
  refine ⟨fun j hj g hg => ?_, fun hash hin => ?_, fun hash hin => ?_⟩
  · rcases mem_append.mp hj with hj | hj
    · exact mem_cons_of_mem _ (h.hashes j hj g hg)
    · obtain rfl := mem_singleton.mp hj
      obtain rfl := Option.some.inj (hi.symm.trans hg)
      exact mem_cons_self
  · rcases mem_cons.mp hin with rfl | hin
    · exact ⟨i, mem_append_right _ mem_cons_self, f, hi, rfl⟩
    · obtain ⟨j, hj, g, hg⟩ := h.listed hash hin
      exact ⟨j, mem_append_left _ hj, g, hg⟩
  · rcases mem_cons.mp hin with rfl | hin
    · exact hf
    · exact h.fresh hash hin

variable {n b : Int}

theorem trialOk_start : TrialOk features m { numNewTokens := n, encoderComputeBudget := b } :=
  ⟨nofun, nofun, nofun⟩

theorem encoderLoop_spares {fs : List (MultiModalFeatureSpec × Nat)}
    (hfs : ∀ e ∈ fs, features[e.2]? = some e.1) (hok : TrialOk features m t)
    (h : cfg.encoderLoop requestId c fs t m = (.ok t', m')) :
    Spares m m' ∧ TrialOk features m' t' := by
  induction fs generalizing t m with
  | nil =>
    obtain ⟨rfl, rfl⟩ := pure_eq_ok.mp h
    exact ⟨.refl _, hok⟩
  | cons e fs ih =>
    obtain ⟨f, i⟩ := e
    have hi : features[i]? = some f := hfs (f, i) mem_cons_self
    have hrests : ∀ e ∈ fs, features[e.2]? = some e.1 := fun e he => hfs e (mem_cons_of_mem _ he)
    cases itemTurn_of_ok h with
    | later _ ht hm => exact ⟨hm ▸ .refl _, hm ▸ ht ▸ hok⟩
    | computed _ hrest | again _ hrest => exact ih hrests hok hrest
    | cached hlook hrest =>
      have hlooked := spares_checkAndUpdateCache hlook
      obtain ⟨hs, ht⟩ := ih hrests (hok.shrinks hlooked.toShrinks) hrest
      exact ⟨hlooked.trans hs, ht⟩
    | splits _ hlook _ ht hm =>
      subst ht hm
      have hlooked := spares_checkAndUpdateCache hlook
      have hok₁ := hok.shrinks hlooked.toShrinks
      exact ⟨hlooked, hok₁.hashes, hok₁.listed, hok₁.fresh⟩
    | full _ _ hlook hfits ht hm =>
      subst ht hm
      have hboth := (spares_checkAndUpdateCache hlook).trans (spares_canAllocate hfits)
      have hok₂ := hok.shrinks hboth.toShrinks
      exact ⟨hboth, hok₂.hashes, hok₂.listed, hok₂.fresh⟩
    | nothing _ _ hlook _ hfits _ hrest =>
      have hboth := (spares_checkAndUpdateCache hlook).trans (spares_canAllocate hfits)
      obtain ⟨hs, ht⟩ := ih hrests (hok.shrinks hboth.toShrinks) hrest
      exact ⟨hboth.trans hs, ht⟩
    | add _ hlook hfits hrest =>
      have hfitted := spares_canAllocate hfits
      have hboth := (spares_checkAndUpdateCache hlook).trans hfitted
      have hfresh : f.identifier ∉ m.cached.keys := not_mem_of_checkAndUpdateCache hlook
      have hok₂ := (hok.shrinks hboth.toShrinks).add hi fun hin => hfresh (hboth.keys _ hin)
      obtain ⟨hs, ht⟩ := ih hrests hok₂ hrest
      exact ⟨hboth.trans hs, ht⟩

variable {encoder : EncoderCacheManager}

theorem tryScheduleEncoderInputs_spares {s : Scheduler D}
    (h : cfg.tryScheduleEncoderInputs r c n b s = (.ok t, { s with encoder })) :
    Spares s.encoder encoder ∧ TrialOk r.mmFeatures encoder t := by
  unfold tryScheduleEncoderInputs at h
  split at h
  · obtain ⟨rfl, hs⟩ := pure_eq_ok.mp h
    obtain rfl : encoder = s.encoder := congrArg (·.encoder) hs
    exact ⟨.refl _, trialOk_start⟩
  · obtain ⟨encoder', hloop, hs⟩ := onEncoder_eq_ok.mp h
    obtain rfl : encoder = encoder' := congrArg (·.encoder) hs
    exact encoderLoop_spares (fun e he => mem_zipIdx_iff_getElem?.mp he) trialOk_start hloop

theorem EncoderAllocated.allocates (hok : TrialOk r.mmFeatures m t)
    (h : EncoderAllocated r t m encoder) :
    Allocates r.requestId (featuresOf r t.inputs) m encoder ∧ (m.Idle → encoder.Idle) := by
  have halloc := allocates_of_ok h
  refine ⟨halloc, fun hidle => halloc.idle (fun f hf hin => ?_) hidle⟩
  obtain ⟨i, hi, hget⟩ := mem_filterMap.mp hf
  exact hok.fresh _ (hok.hashes i hi f hget) (mem_keys_of_get? (hidle _ hin))

/-! ## Items that do not hold up a request -/

end SchedConfig
end Vllm
