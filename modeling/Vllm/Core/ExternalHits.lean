import Vllm.Core.ManagerRuns

/-! Hits and external tokens in a model with several groups. The groups of a new request are served
one after the other, so the blocks handed out for the external tokens of one group come off a queue
in which the hits of the later groups may still stand. -/

namespace Vllm
open Base
variable {D : Type} [DecidableEq D] {cfg : KVCacheConfig}

instance decidableHitsSurvive (t : Tables D) (id : String) (hits : List (List Nat))
    (total external : Nat) : ∀ gs free, Decidable (HitsSurvive t id hits total external gs free)
  | [], _ => isTrue trivial
  | (spec, g) :: gs, free => by
    have ih := decidableHitsSurvive t id hits total external gs
    unfold HitsSurvive
    infer_instance

instance (spec : KVCacheSpec) (hits : List Nat) (total external : Nat) :
    Decidable (HitsFit spec hits total external) := by
  unfold HitsFit
  infer_instance

def Admission.New (ad : Admission D) (s : KVState D) : Prop := ∀ g, s.2.blocks g ad.r.requestId = []

instance (ad : Admission D) (s : KVState D) : Decidable (ad.New s) :=
  decidable_of_iff (∀ e ∈ s.2.reqToBlocks.entries, e.1.2 = ad.r.requestId → e.2 = []) <| by
    constructor
    · intro h g
      cases hg : s.2.reqToBlocks.get? (g, ad.r.requestId) with
      | none => simp [Tables.blocks, hg]
      | some bs => simpa [Tables.blocks, hg] using h _ (Dict.get?_eq_some_iff.mp hg) rfl
    · rintro h ⟨⟨g, id⟩, bs⟩ he rfl
      simpa [Tables.blocks, Dict.get?_eq_some_iff.mpr he] using h g

/-- Of the hits that the lookup returns, none is handed out for an earlier group, and where blocks
for external tokens are counted from them they do not go beyond the tokens computed. -/
def Admission.Safe (cfg : KVCacheConfig) (ad : Admission D) (s : KVState D) : Prop :=
  ∀ hits n, (cfg.getComputedBlocks ad.r ad.skipReadingPrefixCache s).1 = .ok (hits, n) →
    (∀ e ∈ cfg.groups.zipIdx, HitsFit e.1 ((hits.getD []).getD e.2 [])
      (ad.r.numComputedTokens + n + ad.numExternalComputedTokens) ad.numExternalComputedTokens) ∧
    HitsSurvive s.2 ad.r.requestId (hits.getD [])
      (ad.r.numComputedTokens + n + ad.numExternalComputedTokens) ad.numExternalComputedTokens
      cfg.groups.zipIdx s.1.free

instance (ad : Admission D) (s : KVState D) : Decidable (ad.Safe cfg s) := by
  unfold Admission.Safe
  match (cfg.getComputedBlocks ad.r ad.skipReadingPrefixCache s).1 with
  | .error _ => exact isTrue fun _ _ h => by cases h
  | .ok (hits, n) =>
    exact decidable_of_iff _ ⟨fun h _ _ heq => by cases heq; exact h, fun h => h hits n rfl⟩

def KVOp.Safe (cfg : KVCacheConfig) (H : BlockHasher D) (s : KVState D) : KVOp D → Prop
  | arrive ad => ad.r.Made H ∧ ad.New s ∧ ad.Safe cfg s
  | _ => True

theorem Moves.trims_of_new {x : Scope D} {s t : KVState D} (h : Moves cfg x KVMove.Trims s t)
    (hnew : ∀ g, s.2.blocks g x.r.requestId = []) :
    (∀ g, t.2.blocks g x.r.requestId = []) ∧ t.1.free = s.1.free ∧
      t.2.numCachedBlock = s.2.numCachedBlock := by
  refine h.inv (I := fun t => (∀ g, t.2.blocks g x.r.requestId = []) ∧ t.1.free = s.1.free ∧
    t.2.numCachedBlock = s.2.numCachedBlock) ⟨hnew, rfl, rfl⟩ fun m t ht hok => ?_
  obtain ⟨hempty, hfree, hcached⟩ := ht
  cases m with
  | enter g id =>
    obtain ⟨-, rfl⟩ := hok
    refine ⟨fun g' => ?_, hfree, hcached⟩
    refine ((replaced_setBlocks t.2 g x.r.requestId _).blocks g' x.r.requestId).trans ?_
    split
    · exact hempty g
    · exact hempty g'
  | shrink g id lo hi =>
    obtain ⟨-, rfl, hle, hhi, -⟩ := hok
    rw [hempty g] at hhi
    have hlo : lo = 0 := by simp at hhi; omega
    have hhi0 : hi = 0 := by simpa using hhi
    subst hlo hhi0
    refine ⟨fun g' => ?_, ?_, hcached⟩
    · refine ((replaced_setBlocks t.2 g x.r.requestId _).blocks g' x.r.requestId).trans ?_
      rw [hempty g]
      split
      · rfl
      · exact hempty g'
    · simpa [KVMove.next, removed] using hfree
  | _ => exact hok.1.elim

theorem HitsSurvive.congr {t t' : Tables D} {id : String} {hits : List (List Nat)}
    {total external : Nat} {gs : List (KVCacheSpec × Nat)} {free : List Nat}
    (h : HitsSurvive t id hits total external gs free)
    (hcached : t'.numCachedBlock = t.numCachedBlock) :
    HitsSurvive t' id hits total external gs free := by
  induction gs generalizing free with
  | nil => trivial
  | cons e gs ih =>
    simp only [HitsSurvive] at h ⊢
    rw [hcached]
    split
    · next hc =>
      rw [if_pos hc] at h
      exact ih h
    · next hc =>
      rw [if_neg hc] at h
      exact ⟨h.1, ih h.2⟩

theorem Managed.admitOk {s : KVState D} (h : Managed cfg s) {ad : Admission D}
    (hnd : ad.r.blockHashes.Nodup) (hnew : ad.New s) (hsafe : ad.Safe cfg s) : AdmitOk cfg ad s := by
  intro hits n hcall
  obtain ⟨hfit, hsurv⟩ := hsafe hits n hcall
  have hl := lookedUp_of_call hcall
  refine ⟨⟨hfit, fun e he => h.hitsHold hnd hl (getElem?_of_mem_zipIdx he) _⟩, fun t ht => ?_⟩
  obtain ⟨-, hfree, hcached⟩ := ht.trims_of_new hnew
  rw [hfree]
  exact hsurv.congr hcached

def NoSharing (s : KVState D) : Prop :=
  (∀ g id g' id' b, b ∈ s.2.blocks g id → b ∈ s.2.blocks g' id' → b ≠ 0 → g = g') ∧
    ∀ g id, ∀ b ∈ s.2.blocks g id, b ≠ 0 → (s.2.blocks g id).count b = 1

theorem Managed.noSharing {s : KVState D} (h : Managed cfg s) : NoSharing s :=
  ⟨h.oneGroup, h.owned.once⟩

/-- After a successful admission every hit that is not before the window stands in the list of its
group and carries the hash it was looked up under. -/
theorem Managed.hits_of_admit {s s' : KVState D} (h : Managed cfg s) {ad : Admission D}
    (hok : AdmitOk cfg ad s) {hits : Option (List (List Nat))} {n : Nat}
    {res : Option (List (List Nat))}
    (hcall : (cfg.getComputedBlocks ad.r ad.skipReadingPrefixCache s).1 = .ok (hits, n))
    (harrive : cfg.arrive ad s = (.ok (some res), s')) {g : Nat} {spec : KVCacheSpec}
    (hg : cfg.groups[g]? = some spec) {i b : Nat} (hi : ((hits.getD []).getD g [])[i]? = some b)
    (h0 : b ≠ 0) (hskip : spec.numSkippedBlocks
      (ad.r.numComputedTokens + n + ad.numExternalComputedTokens) ≤ i) :
    (s'.2.blocks g ad.r.requestId)[i]? = some b ∧
      s'.1.hash b = some (cfg.blockKey spec ad.r.blockHashes i, g) := by
  obtain ⟨-, hits', n', hcall', t, u, hdone⟩ := (h.arrive hok).ok rfl harrive
  cases hcall.symm.trans hcall'
  have hin := (hdone.hits (spec, g) (List.mem_zipIdx_iff_getElem?.mpr hg)).moves hdone.commits
    (fun _ hm => .inr hm) (hdone.adds.owned (hdone.trims.owned h.owned))
  obtain ⟨j, rfl⟩ := Nat.exists_eq_add_of_le hskip
  have hkept : (keptHits spec ((hits.getD []).getD g [])
      (ad.r.numComputedTokens + n + ad.numExternalComputedTokens))[j]? = some b := by
    rw [keptHits, List.getElem?_drop]
    exact hi
  obtain ⟨hlist, hhash⟩ := hin j b hkept
  exact ⟨hlist, hhash h0⟩

theorem Managed.of_safe_run {H : BlockHasher D} (hinj : Function.Injective H.hashFunction)
    (hnone : ∀ a, H.hashFunction a ≠ H.noneHash) {s : KVState D}
    (run : Run (KVOp.next cfg) (fun op s => op.Safe cfg H s) cfg.init s) : Managed cfg s := by
  refine run.inv managed_init fun op s hs hsafe => hs.op ?_
  cases op with
  | arrive ad => exact hs.admitOk (hsafe.1.nodup_blockHashes hinj hnone) hsafe.2.1 hsafe.2.2
  | _ => trivial

/-- In a run of safe calls no non-null block is in the lists of two groups or twice in one list, and
an admission leaves every hit in its place under the hash it was looked up by. -/
theorem hits_of_safe_run {H : BlockHasher D} (hinj : Function.Injective H.hashFunction)
    (hnone : ∀ a, H.hashFunction a ≠ H.noneHash) {s : KVState D}
    (run : Run (KVOp.next cfg) (fun op s => op.Safe cfg H s) cfg.init s) :
    NoSharing s ∧ ∀ ad : Admission D, (KVOp.arrive ad).Safe cfg H s →
      ∀ hits n, (cfg.getComputedBlocks ad.r ad.skipReadingPrefixCache s).1 = .ok (hits, n) →
      ∀ res s', cfg.arrive ad s = (.ok (some res), s') → NoSharing s' ∧
        ∀ g spec, cfg.groups[g]? = some spec →
        ∀ i b : Nat, ((hits.getD []).getD g [])[i]? = some b → b ≠ 0 →
        spec.numSkippedBlocks (ad.r.numComputedTokens + n + ad.numExternalComputedTokens) ≤ i →
        (s'.2.blocks g ad.r.requestId)[i]? = some b ∧
          s'.1.hash b = some (cfg.blockKey spec ad.r.blockHashes i, g) := by
  have hm := Managed.of_safe_run hinj hnone run
  refine ⟨hm.noSharing, fun ad hsafe hits n hcall res s' harrive => ?_⟩
  have hok := hm.admitOk (hsafe.1.nodup_blockHashes hinj hnone) hsafe.2.1 hsafe.2.2
  refine ⟨((hm.arrive hok).ok rfl harrive).1.noSharing, fun g spec hg i b hi h0 hskip => ?_⟩
  exact hm.hits_of_admit hok hcall harrive hg hi h0 hskip

def twoFullGroups : KVCacheConfig where
  groups := [{ blockSize := 2, attention := .fullAttention, blockSize_pos := Nat.two_pos },
    { blockSize := 2, attention := .fullAttention, layout := 1, blockSize_pos := Nat.two_pos }]
  hashBlockSize := 2
  numBlocks := 11
  maxModelLen := 16
  hashBlockSize_pos := Nat.two_pos

def textRequest (id : String) (tokens : List Int) : Request HashTerm :=
  Request.updateBlockHashes (termHasher 2 Nat.two_pos)
    { requestId := id, promptTokenIds := some tokens, numPromptTokens := tokens.length
      allTokenIds := tokens }

theorem made_textRequest (id : String) (tokens : List Int) :
    (textRequest id tokens).Made (termHasher 2 (by decide)) :=
  .new (q := { requestId := id, promptTokenIds := some tokens }) rfl

/-- Request `a` is freed and its blocks are at the tail of the queue, so that the blocks for the
external tokens of `c` come off the head. -/
theorem hits_of_safe_run_external :
    let s := KVOp.next twoFullGroups (.free "a") (KVOp.next twoFullGroups
      (.arrive { r := textRequest "a" [1, 2, 3], numNewTokens := 3 }) twoFullGroups.init)
    let c := textRequest "c" [1, 2, 3, 4, 5, 6, 7, 8, 9]
    let s' := (twoFullGroups.arrive
      { r := c, numNewTokens := 1, numExternalComputedTokens := 6 } s).2
    s.1.free = [5, 6, 7, 8, 9, 10, 2, 1, 4, 3] ∧ NoSharing s ∧ NoSharing s' ∧
      (s'.2.blocks 1 "c")[0]? = some 3 ∧
      s'.1.hash 3 = some (twoFullGroups.blockKey
        { blockSize := 2, attention := .fullAttention, layout := 1 } c.blockHashes 0, 1) := by
  intro s c s'
  have hrun : Run (KVOp.next twoFullGroups)
      (fun op s => op.Safe twoFullGroups (termHasher 2 (by decide)) s) twoFullGroups.init s :=
    (Run.refl.step _ ⟨made_textRequest .., by decide +kernel, by decide +kernel⟩).step _ trivial
  obtain ⟨hs, harrive⟩ := hits_of_safe_run (termHasher_injective 2 (by decide))
    (fun _ => by simp [termHasher]) hrun
  have hc : (twoFullGroups.getComputedBlocks c false s).1 = .ok (some [[1], [3]], 2) := by
    decide +kernel
  obtain ⟨hs', hhits⟩ := harrive { r := c, numNewTokens := 1, numExternalComputedTokens := 6 }
    ⟨made_textRequest .., by decide +kernel, by decide +kernel⟩ _ _ hc
    (some [[2], [4]]) s' (Prod.ext (by decide +kernel) rfl)
  exact ⟨by decide +kernel, hs, hs', hhits 1 _ rfl 0 3 rfl (by decide) (by decide)⟩

/-- The blocks of `a` are at the head of the queue: those handed out for the external tokens of group
`0` include block `3`, the hit of group `1`. -/
theorem shared_block_of_external_hits :
    let s := [KVOp.arrive { r := textRequest "a" [1, 2, 3], numNewTokens := 3 },
      .arrive { r := textRequest "b" [7, 8, 9, 10, 11, 12], numNewTokens := 6 },
      .free "a", .free "b"].foldl (fun s op => op.next twoFullGroups s) twoFullGroups.init
    let c := textRequest "c" [1, 2, 3, 4, 5, 6, 7, 8, 9]
    let (res, s') := twoFullGroups.arrive
      { r := c, numNewTokens := 1, numExternalComputedTokens := 6 } s
    (twoFullGroups.getComputedBlocks c false s).1.toOption = some (some [[1], [3]], 2) ∧
      res.toOption.map (·.isSome) = some true ∧ s'.2.blocks 0 "c" = [1, 2, 4, 3, 10] ∧
      s'.2.blocks 1 "c" = [3, 7, 6, 5, 9] ∧ (s.1.hash 3).map (·.2) = some 1 ∧
      (s'.1.hash 3).map (·.2) = some 0 := by
  decide +kernel

end Vllm
