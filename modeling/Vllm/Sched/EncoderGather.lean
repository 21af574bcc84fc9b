import Vllm.Sched.EncoderRuns

/-! What the runner looks up in its encoder cache in a step: `_gather_mm_embeddings` of
`gpu_model_runner.py`, for the model and, one position further on, for the drafter of EAGLE. -/

set_option linter.unusedSectionVars false

namespace Vllm
open Base Dict Call Relation SchedConfig EncoderCacheManager List MultiModalFeatureSpec

/-! ## The runner -/

namespace MultiModalFeatureSpec
variable (f : MultiModalFeatureSpec) (c n : Int)

def startIdx : Int := max (c - f.mmPosition.offset) 0

def endIdx : Int := min (c - f.mmPosition.offset + n) f.mmPosition.length

structure Wanted : Prop where
  before : f.mmPosition.offset < c + n
  notDone : c < f.mmPosition.offset + f.mmPosition.length
  nonempty : f.startIdx c < f.endIdx c n
  embeds : (f.mmPosition.getEmbedsIndicesInRange (f.startIdx c) (f.endIdx c n)).1 ≠
    (f.mmPosition.getEmbedsIndicesInRange (f.startIdx c) (f.endIdx c n)).2

end MultiModalFeatureSpec

/-- The hashes that the loop over the items of a request looks up, for `numScheduledTokens` tokens
from `numComputedTokens` on. A failed `assert start_idx < end_idx` ends it. -/
def gatherMmEmbeddings (numComputedTokens numScheduledTokens : Int) :
    List MultiModalFeatureSpec → List String
  | [] => []
  | f :: fs =>
    if f.mmPosition.offset ≥ numComputedTokens + numScheduledTokens then []
    else if f.mmPosition.offset + f.mmPosition.length ≤ numComputedTokens then
      gatherMmEmbeddings numComputedTokens numScheduledTokens fs
    else
      let startIdx := f.startIdx numComputedTokens
      let endIdx := f.endIdx numComputedTokens numScheduledTokens
      if startIdx < endIdx then
        let (first, last) := f.mmPosition.getEmbedsIndicesInRange startIdx endIdx
        if first = last then gatherMmEmbeddings numComputedTokens numScheduledTokens fs
        else f.identifier :: gatherMmEmbeddings numComputedTokens numScheduledTokens fs
      else []

variable {c n : Int}

theorem wanted_of_gather {fs : List MultiModalFeatureSpec} {h : String}
    (hin : h ∈ gatherMmEmbeddings c n fs) : ∃ f ∈ fs, f.identifier = h ∧ f.Wanted c n := by
  induction fs with
  | nil => cases hin
  | cons f fs ih =>
    have hrest : h ∈ gatherMmEmbeddings c n fs → ∃ g ∈ f :: fs, g.identifier = h ∧ g.Wanted c n := by
      intro hin
      obtain ⟨g, hg, hrest⟩ := ih hin
      exact ⟨g, mem_cons_of_mem _ hg, hrest⟩
    unfold gatherMmEmbeddings at hin
    dsimp only at hin
    split at hin
    · cases hin
    next hbefore =>
    split at hin
    · exact hrest hin
    next hdone =>
    split at hin
    · next hne =>
      split at hin
      · exact hrest hin
      · next hembeds =>
        rcases mem_cons.mp hin with rfl | hin
        · exact ⟨f, mem_cons_self, rfl, Int.not_le.mp hbefore, Int.not_le.mp hdone, hne, hembeds⟩
        · exact hrest hin
    · cases hin

/-! ## Embeddings in a range -/

namespace PlaceholderRange

def EmbedAt (p : PlaceholderRange) (j : Nat) : Prop :=
  match p.isEmbed with
  | none => True
  | some mask => mask[j]? = some true

theorem cumsumAt_ofNat (mask : List Bool) (i : Nat) : cumsumAt mask i = (mask.take (i + 1)).count true := by
  unfold cumsumAt
  congr 2

variable {a b : Nat}

theorem count_take_eq_iff {mask : List Bool} (hab : a ≤ b) :
    (mask.take a).count true = (mask.take b).count true ↔
      ∀ j, a ≤ j → j < b → mask[j]? ≠ some true := by
  have hsplit : mask.take b = mask.take a ++ (mask.drop a).take (b - a) := by
    rw [← take_add]
    congr 1
    omega
  rw [hsplit, count_append]
  constructor
  · intro hcount j haj hjb hmask
    have hzero : ((mask.drop a).take (b - a)).count true = 0 := by omega
    refine count_eq_zero.mp hzero (mem_of_getElem? (i := j - a) ?_)
    rw [getElem?_take_of_lt (by omega), getElem?_drop]
    rwa [show a + (j - a) = j by omega]
  · intro hnone
    have hzero : ((mask.drop a).take (b - a)).count true = 0 := by
      refine count_eq_zero.mpr fun hin => ?_
      obtain ⟨j, hj⟩ := mem_iff_getElem?.mp hin
      have hlt : j < b - a := by
        have hlen := (List.getElem?_eq_some_iff.mp hj).1
        rw [length_take] at hlen
        omega
      rw [getElem?_take_of_lt hlt, getElem?_drop] at hj
      exact hnone (a + j) (by omega) (by omega) hj
    omega

theorem getEmbedsIndicesInRange_eq_iff (p : PlaceholderRange) (hab : a < b) :
    (p.getEmbedsIndicesInRange a b).1 = (p.getEmbedsIndicesInRange a b).2 ↔
      ∀ j, a ≤ j → j < b → ¬p.EmbedAt j := by
  unfold getEmbedsIndicesInRange EmbedAt
  cases hmask : p.isEmbed with
  | none =>
    constructor
    · intro heq
      dsimp only at heq
      omega
    · exact fun hnone => absurd trivial (hnone a (Nat.le_refl a) hab)
  | some mask =>
    have hfirst : (if (a : Int) > 0 then (cumsumAt mask ((a : Int) - 1) : Int) else 0) =
        ((mask.take a).count true : Nat) := by
      split
      · rw [show (a : Int) - 1 = ((a - 1 : Nat) : Int) by omega, cumsumAt_ofNat,
          show a - 1 + 1 = a by omega]
      · rw [show a = 0 by omega]
        rfl
    have hlast : (cumsumAt mask ((b : Int) - 1) : Int) = ((mask.take b).count true : Nat) := by
      rw [show (b : Int) - 1 = ((b - 1 : Nat) : Int) by omega, cumsumAt_ofNat,
        show b - 1 + 1 = b by omega]
    dsimp only
    rw [hfirst, hlast, Int.ofNat_inj]
    exact count_take_eq_iff (Nat.le_of_lt hab)

end PlaceholderRange

/-! ## Scheduler and runner agree -/

theorem MultiModalFeatureSpec.Wanted.exists_embed {f : MultiModalFeatureSpec} (h : f.Wanted c n) :
    ∃ j : Nat, f.startIdx c ≤ j ∧ j < f.endIdx c n ∧ f.mmPosition.EmbedAt j := by
  have hstart : 0 ≤ f.startIdx c := by
    unfold startIdx
    omega
  have hlt := h.nonempty
  obtain ⟨a, ha⟩ := Int.eq_ofNat_of_zero_le hstart
  obtain ⟨b, hb⟩ := Int.eq_ofNat_of_zero_le (hstart.trans (Int.le_of_lt hlt))
  have hembeds := h.embeds
  rw [ha, hb] at hembeds hlt ⊢
  by_contra hnone
  refine hembeds ((f.mmPosition.getEmbedsIndicesInRange_eq_iff (by omega)).mpr fun j haj hjb hj => ?_)
  exact hnone ⟨j, by omega, by omega, hj⟩

namespace SchedConfig
variable {D : Type} [DecidableEq D] {cfg : SchedConfig D} {f : MultiModalFeatureSpec} {c n n' k : Int}

/-- The drafter's look one position ahead does not meet an embedding that the scheduler's count
misses: items are not cut, or the embeddings of the item come before its other positions. -/
def DraftsFit (cfg : SchedConfig D) (f : MultiModalFeatureSpec) : Prop :=
  cfg.kv.useEagle = true → match f.mmPosition.isEmbed with
    | none => cfg.disableChunkedMmInput = true
    | some mask => ∀ j < mask.length, mask[j + 1]? = some true → mask[j]? = some true

instance (f : MultiModalFeatureSpec) : Decidable (cfg.DraftsFit f) := by
  unfold DraftsFit
  cases f.mmPosition.isEmbed <;> infer_instance

theorem not_embedAt_of_zero (hzero : numEmbedsInRange f c n = 0) {j : Nat}
    (hj : max 0 (c - f.mmPosition.offset) ≤ j)
    (hj' : j < min (f.mmPosition.length : Int) (c + n - f.mmPosition.offset)) : ¬f.mmPosition.EmbedAt j := by
  obtain ⟨a, ha⟩ := Int.eq_ofNat_of_zero_le
    (show 0 ≤ max 0 (c - (f.mmPosition.offset : Int)) by omega)
  obtain ⟨b, hb⟩ := Int.eq_ofNat_of_zero_le
    (show 0 ≤ min (f.mmPosition.length : Int) (c + n - f.mmPosition.offset) by omega)
  have hab : a < b := by omega
  unfold numEmbedsInRange at hzero
  dsimp only at hzero
  rw [ha, hb] at hzero
  refine (f.mmPosition.getEmbedsIndicesInRange_eq_iff hab).mp (by omega) j ?_ ?_
  · omega
  · omega

/-- What the scheduler skips because it counts no embedding, neither the model nor the drafter looks
up. -/
theorem not_wanted_of_zero (hfit : cfg.DraftsFit f) (hk : 0 ≤ k) (hk' : k ≤ cfg.shiftComputedTokens)
    (hle : n' ≤ n) (hbefore : f.mmPosition.offset < c + n + cfg.shiftComputedTokens)
    (hsplit : cfg.splitsItem f c n = false) (hzero : numEmbedsInRange f c n = 0) :
    ¬f.Wanted (c + k) n' := by
  intro hwanted
  obtain ⟨j, hj, hj', hembed⟩ := hwanted.exists_embed
  have hnonempty := hwanted.nonempty
  unfold startIdx at hj hnonempty
  unfold endIdx at hj' hnonempty
  by_cases hin : c + n = f.mmPosition.offset
  · -- the item starts right after the tokens, where only the drafter looks
    have heagle : cfg.kv.useEagle = true := by
      by_contra hno
      unfold shiftComputedTokens at hk' hbefore
      rw [if_neg hno] at hk' hbefore
      omega
    have hfit := hfit heagle
    unfold PlaceholderRange.EmbedAt at hembed
    cases hmask : f.mmPosition.isEmbed with
    | none =>
      rw [hmask] at hfit
      unfold splitsItem at hsplit
      rw [hfit] at hsplit
      simp only [Bool.true_and, Bool.and_eq_false_iff, decide_eq_false_iff_not] at hsplit
      omega
    | some mask =>
      rw [hmask] at hembed
      unfold numEmbedsInRange PlaceholderRange.getEmbedsIndicesInRange at hzero
      simp only [hmask] at hzero
      rw [show max 0 (c - (f.mmPosition.offset : Int)) = 0 by omega,
        show min (f.mmPosition.length : Int) (c + n - f.mmPosition.offset) = 0 by omega] at hzero
      have htotal : cumsumAt mask (-1) = mask.count true := by
        unfold cumsumAt
        rw [take_of_length_le (by omega)]
      have hnone : mask.count true = 0 := by
        simp only [Int.zero_sub] at hzero
        omega
      exact count_eq_zero.mp hnone (mem_of_getElem? hembed)
  · have hshift : cfg.shiftComputedTokens ≤ 1 := by
      unfold shiftComputedTokens
      split <;> omega
    have hnot : ∀ i : Nat, max 0 (c - (f.mmPosition.offset : Int)) ≤ i →
        i < min (f.mmPosition.length : Int) (c + n - f.mmPosition.offset) → ¬f.mmPosition.EmbedAt i :=
      fun i hi hi' => not_embedAt_of_zero hzero hi hi'
    by_cases hlast : (j : Int) < c + n - f.mmPosition.offset
    · exact hnot j (by omega) (by omega) hembed
    · -- the position after the last token
      have heagle : cfg.kv.useEagle = true := by
        by_contra hno
        unfold shiftComputedTokens at hk'
        rw [if_neg hno] at hk'
        omega
      have hfit := hfit heagle
      have hprev := hnot (j - 1) (by omega) (by omega)
      unfold PlaceholderRange.EmbedAt at hembed hprev
      cases hmask : f.mmPosition.isEmbed with
      | none =>
        rw [hmask] at hprev
        exact hprev trivial
      | some mask =>
        rw [hmask] at hembed hprev hfit
        have hlen := (List.getElem?_eq_some_iff.mp hembed).1
        refine hprev (hfit (j - 1) (by omega) ?_)
        rwa [show j - 1 + 1 = j by omega]

/-! ## The items of a request -/

section
variable {requestId : String} {m m' : EncoderCacheManager} {t t' : EncoderTrial}

theorem pos_of_wanted (h : f.Wanted c n) : 0 < n := by
  have hnonempty := h.nonempty
  unfold startIdx endIdx at hnonempty
  omega

theorem not_wanted_of_late (hk : k ≤ cfg.shiftComputedTokens)
    (hlate : 0 < n → f.mmPosition.offset ≥ c + n + cfg.shiftComputedTokens) : ¬f.Wanted (c + k) n := by
  intro hwanted
  have hoffset := hlate (pos_of_wanted hwanted)
  have hbefore := hwanted.before
  omega

variable {fs : List (MultiModalFeatureSpec × Nat)}

theorem encoderLoop_hashes (h : cfg.encoderLoop requestId c fs t m = (.ok t', m')) :
    t.mmHashesToSchedule ⊆ t'.mmHashesToSchedule := by
  induction fs generalizing t m with
  | nil =>
    obtain ⟨rfl, -⟩ := pure_eq_ok.mp h
    exact List.Subset.refl _
  | cons e fs ih =>
    cases itemTurn_of_ok h with
    | later _ ht _ => exact ht ▸ List.Subset.refl _
    | computed _ hrest | again _ hrest | cached _ hrest | nothing _ _ _ _ _ _ hrest =>
      exact ih hrest
    | splits _ _ _ ht _ | full _ _ _ _ ht _ =>
      subst ht
      exact List.Subset.refl _
    | add _ _ _ hrest => exact List.Subset.trans (subset_cons_self _ _) (ih hrest)

theorem encoderLoop_covers
    (hsorted : fs.Pairwise fun a b => a.1.mmPosition.offset ≤ b.1.mmPosition.offset)
    (hfit : ∀ e ∈ fs, cfg.DraftsFit e.1) (hidle : m.Idle)
    {features : List MultiModalFeatureSpec} (hfs : ∀ e ∈ fs, features[e.2]? = some e.1)
    (hok : TrialOk features m t) (h : cfg.encoderLoop requestId c fs t m = (.ok t', m'))
    {e : MultiModalFeatureSpec × Nat} (he : e ∈ fs) (hk : 0 ≤ k) (hk' : k ≤ cfg.shiftComputedTokens)
    (hwanted : e.1.Wanted (c + k) t'.numNewTokens) :
    m'.HasRef e.1.identifier requestId ∨ e.1.identifier ∈ t'.mmHashesToSchedule := by
  induction fs generalizing t m with
  | nil => cases he
  | cons a fs ih =>
    obtain ⟨f, i⟩ := a
    obtain ⟨hfirst, hsorted⟩ := pairwise_cons.mp hsorted
    obtain ⟨hfit₀, hfit⟩ := forall_mem_cons.mp hfit
    obtain ⟨hi, hfs⟩ := forall_mem_cons.mp hfs
    -- the tokens stop before the item, and so before the others
    have hlate : (0 < t'.numNewTokens → (f.mmPosition.offset : Int) ≥
        c + t'.numNewTokens + cfg.shiftComputedTokens) → False := by
      intro hlate
      refine not_wanted_of_late hk' (fun hpos => ?_) hwanted
      rcases mem_cons.mp he with rfl | he
      · exact hlate hpos
      · have hle : f.mmPosition.offset ≤ e.1.mmPosition.offset := hfirst e he
        omega
    cases itemTurn_of_ok h with
    | later hoffset ht _ => exact (hlate fun _ => ht ▸ hoffset).elim
    | computed hend hrest =>
      rcases mem_cons.mp he with rfl | he
      · have hnotDone : c + k < f.mmPosition.offset + f.mmPosition.length := hwanted.notDone
        omega
      · exact ih hsorted hfit hidle hfs hok hrest he
    | again hhash hrest =>
      rcases mem_cons.mp he with rfl | he
      · exact .inr (encoderLoop_hashes hrest hhash)
      · exact ih hsorted hfit hidle hfs hok hrest he
    | cached hlook hrest =>
      have hlooked := spares_checkAndUpdateCache hlook
      have hok₁ := hok.shrinks hlooked.toShrinks
      rcases mem_cons.mp he with rfl | he
      · have href := hasRef_checkAndUpdateCache hlook
        exact .inl ((encoderLoop_spares hfs hok₁ hrest).1.refs (hlooked.idle hidle) _ _ href)
      · exact ih hsorted hfit (hlooked.idle hidle) hfs hok₁ hrest he
    | splits _ _ _ ht _ =>
      refine (hlate fun hpos => ?_).elim
      subst ht
      dsimp only at hpos ⊢
      omega
    | full _ _ _ _ ht _ =>
      refine (hlate fun hpos => ?_).elim
      subst ht
      dsimp only [tokensBefore] at hpos ⊢
      split at hpos
      · next hstarts =>
        omega
      · omega
    | nothing hoffset hend hlook hsplit hfits hzero hrest =>
      have hboth := (spares_checkAndUpdateCache hlook).trans (spares_canAllocate hfits)
      rcases mem_cons.mp he with rfl | he
      · have hle : t'.numNewTokens ≤ t.numNewTokens :=
          Fitted.le (encoderLoop_numNewTokens hrest) (pos_of_wanted hwanted).ne'
        exact absurd hwanted (not_wanted_of_zero hfit₀ hk hk' hle hoffset hsplit hzero)
      · exact ih hsorted hfit (hboth.idle hidle) hfs (hok.shrinks hboth.toShrinks) hrest he
    | add _ hlook hfits hrest =>
      have hboth := (spares_checkAndUpdateCache hlook).trans (spares_canAllocate hfits)
      rcases mem_cons.mp he with rfl | he
      · exact .inr (encoderLoop_hashes hrest mem_cons_self)
      · have hfresh : f.identifier ∉ m.cached.keys := not_mem_of_checkAndUpdateCache hlook
        have hok₂ := (hok.shrinks hboth.toShrinks).add hi fun hin => hfresh (hboth.keys _ hin)
        exact ih hsorted hfit (hboth.idle hidle) hfs hok₂ hrest he

def Covered (cfg : SchedConfig D) (m : EncoderCacheManager) (requestId : String)
    (fs : List MultiModalFeatureSpec) (c n : Int) : Prop :=
  ∀ f ∈ fs, ∀ k, 0 ≤ k → k ≤ cfg.shiftComputedTokens → f.Wanted (c + k) n →
    m.HasRef f.identifier requestId

theorem Covered.mono {fs : List MultiModalFeatureSpec} (h : Covered cfg m requestId fs c n)
    (hrefs : ∀ hash, m.HasRef hash requestId → m'.HasRef hash requestId) :
    Covered cfg m' requestId fs c n := fun f hf k hk hk' hwanted => hrefs _ (h f hf k hk hk' hwanted)

structure Pending (cfg : SchedConfig D) (m : EncoderCacheManager) (r : SchedRequest D) (c : Int)
    (t : EncoderTrial) : Prop where
  trial : TrialOk r.mmFeatures m t
  covers : ∀ f ∈ r.mmFeatures, ∀ k, 0 ≤ k → k ≤ cfg.shiftComputedTokens →
    f.Wanted (c + k) t.numNewTokens →
      m.HasRef f.identifier r.requestId ∨ f.identifier ∈ t.mmHashesToSchedule

structure Orderly (cfg : SchedConfig D) (fs : List MultiModalFeatureSpec) : Prop where
  sorted : fs.Pairwise fun f g => f.mmPosition.offset ≤ g.mmPosition.offset
  fits : ∀ f ∈ fs, cfg.DraftsFit f

instance (fs : List MultiModalFeatureSpec) : Decidable (cfg.Orderly fs) :=
  decidable_of_iff (fs.Pairwise (fun f g => f.mmPosition.offset ≤ g.mmPosition.offset) ∧
    ∀ f ∈ fs, cfg.DraftsFit f) ⟨fun h => ⟨h.1, h.2⟩, fun h => ⟨h.sorted, h.fits⟩⟩

variable {r : SchedRequest D} {encoder : EncoderCacheManager}

theorem pending_of_try {b : Int} {s : Scheduler D}
    (horder : cfg.Orderly r.mmFeatures) (hidle : s.encoder.Idle)
    (h : cfg.tryScheduleEncoderInputs r c n b s = (.ok t, { s with encoder })) :
    Pending cfg encoder r c t := by
  refine ⟨(tryScheduleEncoderInputs_spares h).2, fun f hf k hk hk' hwanted => ?_⟩
  unfold tryScheduleEncoderInputs at h
  split at h
  · next hskip =>
    obtain ⟨rfl, -⟩ := pure_eq_ok.mp h
    rcases hskip with hzero | hnone
    · exact absurd hzero (pos_of_wanted hwanted).ne'
    · have hpos := length_pos_of_mem hf
      simp only [SchedRequest.hasEncoderInputs, Bool.not_eq_true', decide_eq_false_iff_not] at hnone
      exact absurd hpos hnone
  · obtain ⟨encoder', hloop, hs⟩ := onEncoder_eq_ok.mp h
    obtain rfl : encoder = encoder' := congrArg (·.encoder) hs
    obtain ⟨i, hi⟩ := mem_iff_getElem?.mp hf
    have hitems : ∀ e ∈ r.mmFeatures.zipIdx, r.mmFeatures[e.2]? = some e.1 := fun e he =>
      mem_zipIdx_iff_getElem?.mp he
    have hsorted : r.mmFeatures.zipIdx.Pairwise
        fun a b => a.1.mmPosition.offset ≤ b.1.mmPosition.offset := by
      have hmap := horder.sorted
      rw [← zipIdx_map_fst 0 r.mmFeatures] at hmap
      exact (pairwise_map (f := Prod.fst)).mp hmap
    exact encoderLoop_covers hsorted (fun e he => horder.fits _ (mem_of_getElem? (hitems e he)))
      hidle hitems trialOk_start hloop (e := (f, i)) (mem_zipIdx_iff_getElem?.mpr hi) hk hk' hwanted

theorem Pending.allocated (h : Pending cfg m r c t) (halloc : EncoderAllocated r t m encoder) :
    Covered cfg encoder r.requestId r.mmFeatures c t.numNewTokens := by
  have hallocates := allocates_of_ok halloc
  intro f hf k hk hk' hwanted
  rcases h.covers f hf k hk hk' hwanted with href | hin
  · exact hallocates.refs _ _ href
  · obtain ⟨i, hi, g, hg, hid⟩ := h.trial.listed _ hin
    exact hid ▸ hallocates.own g (mem_filterMap.mpr ⟨i, hi, hg⟩)

end
end SchedConfig

/-! ## The step -/

section
variable {D : Type} [DecidableEq D] {cfg : SchedConfig D} {s : Scheduler D} {σ σ' : Step D}
  {r : SchedRequest D} {t : EncoderTrial}

def Held (cfg : SchedConfig D) (σ : Step D) : Prop :=
  ∀ id n r, σ.2.numScheduledTokens.get? id = some n → σ.1.requests.get? id = some r →
    Covered cfg σ.1.encoder id r.mmFeatures r.numComputedTokens n

theorem Held.same (h : Held cfg σ) (hnum : σ'.2.numScheduledTokens = σ.2.numScheduledTokens)
    (hreqs : ∀ id ∈ σ.2.numScheduledTokens.keys, σ'.1.requests.get? id = σ.1.requests.get? id)
    (hrefs : ∀ id ∈ σ.2.numScheduledTokens.keys, ∀ hash,
      σ.1.encoder.HasRef hash id → σ'.1.encoder.HasRef hash id) : Held cfg σ' := by
  intro id n r hn hr
  rw [hnum] at hn
  have hkey := mem_keys_of_get? hn
  exact (h id n r hn ((hreqs id hkey).symm.trans hr)).mono (hrefs id hkey)

theorem Held.join (h : Held cfg σ) {r' : SchedRequest D} {n : Int}
    (hnum : σ'.2.numScheduledTokens = σ.2.numScheduledTokens.set r.requestId n)
    (hreqs : σ'.1.requests = σ.1.requests.set r.requestId r')
    (hrefs : ∀ hash id, σ.1.encoder.HasRef hash id → σ'.1.encoder.HasRef hash id)
    (hnew : Covered cfg σ'.1.encoder r.requestId r'.mmFeatures r'.numComputedTokens n) :
    Held cfg σ' := by
  intro id n' r₁ hn hr
  rw [hnum, get?_set] at hn
  rw [hreqs, get?_set] at hr
  split at hn
  · next heq =>
    subst heq
    rw [if_pos rfl] at hr
    obtain rfl := Option.some.inj hn
    obtain rfl := Option.some.inj hr
    exact hnew
  · next hne =>
    rw [if_neg hne] at hr
    exact (h id n' r₁ hn hr).mono fun hash => hrefs hash id

def PendingAt (cfg : SchedConfig D) (σ : Step D) : Pc D → Prop
  | .visiting r t => Pending cfg σ.1.encoder r r.numComputedTokens t
  | _ => True

structure GatherInv (cfg : SchedConfig D) (s : Scheduler D) (σ : Step D) (pc : Pc D) : Prop where
  idle : σ.1.encoder.Idle
  held : Held cfg σ
  pending : PendingAt cfg σ pc
  leave : OnlyLeave s σ pc

theorem SchedConfig.LoopInv.not_scheduled {pc : Pc D} (h : LoopInv cfg s σ pc) {q : WaitingQueue}
    {id : String} {rest : List String} (hq : queue σ.1 q = id :: rest) :
    id ∉ σ.2.numScheduledTokens.keys := by
  have hmem : id ∈ σ.1.waiting ++ σ.1.skippedWaiting ++ σ.2.stepSkippedWaiting :=
    (@queue_perm _ _ cfg σ _ q rest σ.2.stepSkippedWaiting hq).subset mem_cons_self
  exact fun hin => h.queued.not_mem_run hmem (h.running _ ((h.keys id).mp hin))

variable {y : Step D × Pc D}

theorem SchedConfig.LoopMove.gatherInv {x : Step D × Pc D} (h : LoopMove cfg x y)
    (hpolicy : cfg.policy = .fcfs)
    (horder : ∀ id r, s.requests.get? id = some r → cfg.Orderly r.mmFeatures)
    (hloops : LoopInv cfg s x.1 x.2) (hinv : GatherInv cfg s x.1 x.2) : GatherInv cfg s y.1 y.2 := by
  have hleave := h.onlyLeave hinv.leave
  have hitems : ∀ {id r}, x.1.1.requests.get? id = some r → cfg.Orderly r.mmFeatures := by
    intro id r hr
    obtain ⟨r₀, hr₀, hfeatures⟩ := features_of_step hloops hr
    exact hfeatures ▸ horder id r₀ hr₀
  cases h with
  | passBy _ _ _ | giveUp _ | endRunning _ | startWaiting _ _ | noWaiting | leave | requeue =>
    exact ⟨hinv.idle, hinv.held, trivial, hleave⟩
  | visit _ _ hr _ ht =>
    have hspares := (tryScheduleEncoderInputs_spares ht).1
    refine ⟨hspares.idle hinv.idle, hinv.held.same rfl (fun _ _ => rfl) fun id _ hash =>
      hspares.refs hinv.idle hash id, ?_, hleave⟩
    exact pending_of_try (hitems hr) hinv.idle ht
  | @preempt σ r rv t kv₁ kv₂ v _ _ hv _ _ _ =>
    have hfresh : v ∉ σ.2.scheduledRunningReqs :=
      (hloops.withKv kv₁).victim_fresh hinv.leave (.inl hpolicy) hv
    have hout : v ∉ σ.2.numScheduledTokens.keys := fun hin =>
      hfresh (hloops.atPc.1.ids ▸ (hloops.keys v).mp hin)
    have hdrop : cfg.dropVictim (withKv σ kv₁) v =
        ({ (withKv σ kv₁).1 with running := σ.1.running.dropLast }, σ.2) := by
      unfold dropVictim
      rw [hpolicy]
      rfl
    have hencoder : (cfg.afterPreempt (withKv σ kv₁) v rv kv₂).1.encoder =
        σ.1.encoder.free v rv.mmFeatures := by
      unfold afterPreempt
      rw [hdrop]
      rfl
    have hrefs : ∀ id, id ≠ v → ∀ hash, σ.1.encoder.HasRef hash id →
        (cfg.afterPreempt (withKv σ kv₁) v rv kv₂).1.encoder.HasRef hash id := by
      intro id hne hash href
      rw [hencoder]
      exact href.free hne _
    have hshrinks : Shrinks σ.1.encoder (cfg.afterPreempt (withKv σ kv₁) v rv kv₂).1.encoder := by
      rw [hencoder]
      exact shrinks_free _
    refine ⟨hshrinks.idle hinv.idle, hinv.held.same ?_ (fun id hin => ?_) (fun id hin => ?_), ?_, hleave⟩
    · unfold afterPreempt
      rw [hdrop]
      rfl
    · unfold afterPreempt
      rw [hdrop]
      exact get?_set_of_ne _ _ fun heq => hout (heq ▸ hin)
    · exact hrefs id fun heq => hout (heq ▸ hin)
    · dsimp only
      split
      · trivial
      · next hne =>
        have hpending : Pending cfg σ.1.encoder r r.numComputedTokens t := hinv.pending
        refine ⟨hpending.trial.shrinks hshrinks, fun f hf k hk hk' hwanted => ?_⟩
        exact (hpending.covers f hf k hk hk' hwanted).imp_left (hrefs _ (Ne.symm hne) _)
  | @schedule σ r t kv blocks encoder _ _ henc =>
    have hpending : Pending cfg σ.1.encoder r r.numComputedTokens t := hinv.pending
    obtain ⟨halloc, hidle⟩ := EncoderAllocated.allocates hpending.trial henc
    refine ⟨hidle hinv.idle, hinv.held.join bookEncoder_numScheduledTokens rfl halloc.refs ?_, trivial,
      hleave⟩
    exact hpending.allocated henc
  | @checkLoras σ _ =>
    obtain ⟨loras, hloras⟩ := @withLoras_eq _ _ cfg σ
    rw [hloras] at hleave ⊢
    exact ⟨hinv.idle, hinv.held, trivial, hleave⟩
  | @promote σ id r hr hstatus =>
    obtain rfl := (hloops.known id r hr).1
    refine ⟨hinv.idle, hinv.held.same rfl (fun id hin => ?_) fun _ _ _ href => href, trivial, hleave⟩
    refine get?_set_of_ne _ _ fun heq => ?_
    subst heq
    have hrun := (hloops.queued.active _ _ hr).mp (hloops.running _ ((hloops.keys _).mp hin))
    rw [hstatus] at hrun
    cases hrun
  | @skip σ q id rest _ _ =>
    have hencoder : (cfg.skipped σ q id).1.encoder = σ.1.encoder := encoder_popQueue
    have hreqs : (cfg.skipped σ q id).1.requests = σ.1.requests := requests_popQueue
    refine ⟨hencoder ▸ hinv.idle, hinv.held.same rfl (fun _ _ => ?_) (fun _ _ _ href => ?_), trivial,
      hleave⟩
    · rw [hreqs]
    · rw [hencoder]
      exact href
  | refuse hq hr _ ht _ _ =>
    obtain rfl := (hloops.known _ _ hr).1
    have hspares := (tryScheduleEncoderInputs_spares ht).1
    refine ⟨(shrinks_free _).idle (hspares.idle hinv.idle),
      hinv.held.same rfl (fun _ _ => rfl) fun id hin hash href => ?_, trivial, hleave⟩
    refine (hspares.refs hinv.idle hash id href).free (fun heq => ?_) _
    exact hloops.not_scheduled hq (heq ▸ hin)
  | hold _ _ ht _ =>
    have hspares := (tryScheduleEncoderInputs_spares ht).1
    exact ⟨hspares.idle hinv.idle, hinv.held.same rfl (fun _ _ => rfl) fun id _ hash =>
      hspares.refs hinv.idle hash id, trivial, hleave⟩
  | @place σ q id rest r hits numLocal c t encoder₁ encoder₂ kv blocks _ _ hq hr hstatus _ _ _ ht _ _ henc
      _ =>
    have hspares := (tryScheduleEncoderInputs_spares ht).1
    have hpending := pending_of_try (hitems hr) hinv.idle ht
    obtain ⟨halloc, hidle⟩ := EncoderAllocated.allocates hpending.trial henc
    have hreqs : (cfg.admitted σ.1 q r c kv encoder₂).requests =
        σ.1.requests.set r.requestId { r with status := .running, numComputedTokens := c } := by
      change (cfg.popQueue q σ.1).requests.set _ _ = _
      rw [requests_popQueue]
    refine ⟨hidle (hspares.idle hinv.idle), ?_, trivial, hleave⟩
    refine hinv.held.join bookEncoder_numScheduledTokens hreqs
      (fun hash id href => halloc.refs hash id (hspares.refs hinv.idle hash id href)) ?_
    exact hpending.allocated henc

theorem gatherInv_of_moves (hq : s.Queues) (hidle : s.encoder.Idle) (hpolicy : cfg.policy = .fcfs)
    (horder : ∀ id r, s.requests.get? id = some r → cfg.Orderly r.mmFeatures)
    (hmoves : ReflTransGen (LoopMove cfg) (cfg.begin s, .running) y) : GatherInv cfg s y.1 y.2 := by
  have hboth : LoopInv cfg s y.1 y.2 ∧ GatherInv cfg s y.1 y.2 := by
    induction hmoves with
    | refl => exact ⟨hq.begin, hidle, fun _ _ _ hn => (nomatch hn), trivial, .refl _⟩
    | tail _ hmove ih => exact ⟨hmove.inv ih.1, hmove.gatherInv hpolicy horder ih.1 ih.2⟩
  exact hboth.2

end

/-! ## Runs -/

section
variable {D : Type} [DecidableEq D] {cfg : SchedConfig D} {s s' : Scheduler D} {out : SchedulerOutput}
  {runner : List String}

def SchedulerOutput.starts (out : SchedulerOutput) : List (String × Nat) :=
  out.scheduledNewReqs.map (fun e => (e.reqId, e.numComputedTokens)) ++
    out.scheduledCachedReqs.map fun e => (e.reqId, e.numComputedTokens)

def SchedulerOutput.lookups (out : SchedulerOutput) (s : Scheduler D) (shiftComputedTokens : Int) :
    List (String × String) :=
  out.starts.flatMap fun (reqId, numComputedTokens) =>
    match s.requests.get? reqId, out.numScheduledTokens.get? reqId with
    | some r, some numScheduledTokens =>
      (gatherMmEmbeddings (numComputedTokens + shiftComputedTokens) numScheduledTokens
        r.mmFeatures).map (reqId, ·)
    | _, _ => []

theorem exists_of_forall₂ {α β : Type} {R : α → β → Prop} {as : List α} {bs : List β}
    (h : List.Forall₂ R as bs) {b : β} (hb : b ∈ bs) : ∃ a, R a b := by
  induction h with
  | nil => cases hb
  | cons hR _ ih =>
    rcases mem_cons.mp hb with rfl | hb
    · exact ⟨_, hR⟩
    · exact ih hb

variable {σ : Step D} {id : String}

theorem SchedConfig.OutputOf.start (h : OutputOf cfg σ out) {c : Nat} (hin : (id, c) ∈ out.starts) :
    ∃ r, σ.1.requests.get? id = some r ∧ r.numComputedTokens = c := by
  rcases mem_append.mp hin with hin | hin
  · obtain ⟨e, he, heq⟩ := mem_map.mp hin
    obtain ⟨_, r, hr, rfl⟩ := exists_of_forall₂ h.newReqs he
    obtain ⟨rfl, rfl⟩ := Prod.mk.inj heq
    exact ⟨r, hr, rfl⟩
  · obtain ⟨runningReqs, resumedReqs, hcached, hrunning, hresumed⟩ := h.cachedReqs
    obtain ⟨e, he, heq⟩ := mem_map.mp hin
    rw [hcached] at he
    rcases mem_append.mp he with he | he
    · obtain ⟨_, r, hr, rfl⟩ := exists_of_forall₂ hrunning he
      obtain ⟨rfl, rfl⟩ := Prod.mk.inj heq
      exact ⟨r, hr, rfl⟩
    · obtain ⟨_, r, hr, -, rfl⟩ := exists_of_forall₂ hresumed he
      obtain ⟨rfl, rfl⟩ := Prod.mk.inj heq
      exact ⟨r, hr, rfl⟩

theorem Held.lookups (h : Held cfg σ) (hloops : LoopInv cfg s σ .done)
    (hout : OutputOf cfg σ out) {k : Int} (hk : 0 ≤ k) (hk' : k ≤ cfg.shiftComputedTokens)
    {hash : String} (hin : (id, hash) ∈ out.lookups s k) : σ.1.encoder.HasRef hash id := by
  obtain ⟨⟨reqId, c⟩, hstart, hin⟩ := mem_flatMap.mp hin
  dsimp only at hin
  split at hin
  · next r n hr hn =>
    obtain ⟨_, hgather, heq⟩ := mem_map.mp hin
    obtain ⟨rfl, rfl⟩ := Prod.mk.inj heq
    obtain ⟨f, hf, rfl, hwanted⟩ := wanted_of_gather hgather
    obtain ⟨r', hr', rfl⟩ := hout.start hstart
    obtain ⟨r₀, hr₀, hfeatures⟩ := features_of_step hloops hr'
    obtain rfl := Option.some.inj (hr.symm.trans hr₀)
    rw [hout.scheduled] at hn
    exact h _ n r' hn hr' f (hfeatures ▸ hf) k hk hk' hwanted
  · cases hin

def EngineOp.LooksFit (cfg : SchedConfig D) (op : EngineOp) (e : Engine D) : Prop :=
  match op with
  | .schedule => ∀ q ∈ e.sched.requests.entries, cfg.Orderly q.2.mmFeatures
  | _ => True

instance (op : EngineOp) (e : Engine D) : Decidable (op.LooksFit cfg e) := by
  rcases op <;> unfold EngineOp.LooksFit <;> infer_instance

theorem idle_of_schedule (hq : s.Queues) (hidle : s.encoder.Idle) (hpolicy : cfg.policy = .fcfs)
    (horder : ∀ id r, s.requests.get? id = some r → cfg.Orderly r.mmFeatures)
    (h : cfg.schedule s = (.ok out, s')) : s'.encoder.Idle := by
  obtain ⟨σ, hemitted, -, -, -⟩ := schedule_eq_ok hq h
  have hinv := gatherInv_of_moves hq hidle hpolicy horder hemitted.moves
  exact (shrinks_of_givesUp hemitted.advanced.encoder).idle hinv.idle

theorem EngineStep.idle {op : EngineOp} {e e' : Engine D} (h : EngineStep cfg op e e')
    (hq : e.sched.Queues) (hpolicy : cfg.policy = .fcfs) (hfit : op.LooksFit cfg e)
    (hidle : e.sched.encoder.Idle) : e'.sched.encoder.Idle := by
  by_cases hop : op = .schedule
  · subst hop
    cases h with
    | schedule h =>
      exact idle_of_schedule hq hidle hpolicy (fun id r hr => hfit (id, r) (get?_eq_some_iff.mp hr)) h
  · exact (h.shrinks hq hop).idle hidle

/-- In every run with first come, first served in which the items of the requests are in order and the
drafter's look one position ahead meets no other embedding, what a step looks up is in the cache of
the runner, and its request refers to it. -/
theorem lookups_of_run {t : Mirrors D} (hpolicy : cfg.policy = .fcfs)
    (run : Run (EngineOp.mirrorNext cfg) (fun op t => op.Returns cfg t.engine ∧
      op.NoSessionAway t.engine ∧ op.LooksFit cfg t.engine) { engine := cfg.start } t)
    (hfit : EngineOp.schedule.LooksFit cfg t.engine)
    (h : cfg.schedule t.engine.sched = (.ok out, s')) {k : Int} (hk : 0 ≤ k)
    (hk' : k ≤ cfg.shiftComputedTokens) :
    ∃ σ, Emitted cfg t.engine.sched σ out s' ∧ ∀ e ∈ out.lookups t.engine.sched k,
      σ.1.encoder.HasRef e.2 e.1 ∧ e.2 ∈ runnerCache t.engine.sched out t.runner := by
  have hinv : t.engine.sched.Queues ∧ t.Synced ∧ t.engine.sched.encoder.Idle :=
    run.inv (I := fun t => t.engine.sched.Queues ∧ t.Synced ∧ t.engine.sched.encoder.Idle)
      ⟨queues_init, fun _ hin => (nomatch hin), idle_new _⟩ fun op t ⟨hq, hsync, hidle⟩ hop => by
        have hstep := engineStep_of_returns hop.1
        have horder : op.Orderly cfg t.engine := by
          cases op <;> first | exact .inl hpolicy | trivial
        exact ⟨hstep.queues hop.2.1 hq, hstep.synced hq horder hsync, hstep.idle hq hpolicy hop.2.2 hidle⟩
  obtain ⟨hq, hsync, hidle⟩ := hinv
  obtain ⟨σ, hemitted, hloops, -, -⟩ := schedule_eq_ok hq h
  have hheld := (gatherInv_of_moves hq hidle hpolicy
    (fun id r hr => hfit (id, r) (get?_eq_some_iff.mp hr)) hemitted.moves).held
  have hmirrored := (encInv_of_moves hq (.inl hpolicy) hsync hemitted.moves).2.mirrored
  refine ⟨σ, hemitted, fun e he => ?_⟩
  obtain ⟨refs, hrefs, hmem⟩ := hheld.lookups hloops hemitted.output hk hk' he
  exact ⟨⟨refs, hrefs, hmem⟩,
    hmirrored.mem_runnerCache hemitted.output (mem_keys_of_get? hrefs)⟩

end

/-! ## An image right after the tokens of a step -/

def draftSched (chunk : Nat) (disableChunkedMmInput : Bool) : SchedConfig HashTerm :=
  let cfg := visionSched .fcfs
  { cfg with
    kv := { cfg.kv with useEagle := true }
    longPrefillTokenThreshold := chunk
    disableChunkedMmInput }

def nextImageRequest : SchedCoreRequest where
  requestId := "a"
  promptTokenIds := some [1, 2, 3, 4]
  mmFeatures := [{ identifier := "image", mmPosition := { offset := 2, length := 2 } }]

def draftMirrors (chunk : Nat) (disableChunkedMmInput : Bool) : Mirrors HashTerm :=
  afterMirror (draftSched chunk disableChunkedMmInput) [.addRequest nextImageRequest]

/-- With the whole prompt in a step, the image is there for the model and for the drafter. -/
theorem lookups_of_run_image :
    ∃ out s', (draftSched 4 true).schedule (draftMirrors 4 true).engine.sched = (.ok out, s') ∧
      out.lookups (draftMirrors 4 true).engine.sched 1 = [("a", "image")] ∧
        ∀ e ∈ out.lookups (draftMirrors 4 true).engine.sched 1,
          e.2 ∈ runnerCache (draftMirrors 4 true).engine.sched out (draftMirrors 4 true).runner := by
  have hmap : ((draftSched 4 true).schedule (draftMirrors 4 true).engine.sched).1.toOption.map
      (fun out => out.lookups (draftMirrors 4 true).engine.sched 1) = some [("a", "image")] := by
    decide +kernel
  obtain ⟨out, s', hok, hlookups⟩ := exists_of_map_eq hmap
  obtain ⟨σ, -, hall⟩ := @lookups_of_run _ _ (draftSched 4 true) _ _ (draftMirrors 4 true) rfl
    (.of_allowed (by decide +kernel)) (by decide +kernel) hok 1 (by decide) (by decide)
  exact ⟨out, s', hok, hlookups, fun e he => (hall e he).2⟩

/-- With two tokens in a step the scheduler does not count the image, which starts right after them,
but the drafter looks it up. -/
theorem missedImage :
    Run (EngineOp.mirrorNext (draftSched 2 false)) (fun op t => op.Returns (draftSched 2 false) t.engine ∧
        op.NoSessionAway t.engine) { engine := (draftSched 2 false).start } (draftMirrors 2 false) ∧
      ((draftSched 2 false).schedule (draftMirrors 2 false).engine.sched).1.toOption.map (fun out =>
        (out.lookups (draftMirrors 2 false).engine.sched 1,
          runnerCache (draftMirrors 2 false).engine.sched out (draftMirrors 2 false).runner)) =
        some ([("a", "image")], []) :=
  ⟨.of_allowed (by decide +kernel), by decide +kernel⟩

end Vllm
