import Vllm.Offload.Transfers

/-! The protocol of the connector with a manager of offloaded blocks, and the loops that every manager
runs over the hashes of a call. A manager is seen through its blocks and its backend; `I` is what it
keeps beside them. -/

namespace Vllm.Offload
open Base Transfers Call List

variable {H M : Type} [DecidableEq H]

/-! ## Turns -/

structure View (H M : Type) where
  entries : M → Entries H
  backend : M → CPUBackend

def View.block (v : View H M) (m : M) (h : H) : Option CPUBlockStatus := (v.entries m).lookup h

def View.Agrees (v : View H M) (m : M) (g : Transfers H) : Prop := Consistent (v.entries m) (v.backend m) g

structure Changes (v : View H M) (h : H) (block block' : CPUBlockStatus) (m m' : M) : Prop where
  rest : ∃ es, (v.entries m).Perm ((h, block) :: es) ∧ (v.entries m').Perm ((h, block') :: es)
  backend : v.backend m' = v.backend m

structure Removes (v : View H M) (h : H) (block : CPUBlockStatus) (m m' : M) : Prop where
  rest : (v.entries m).Perm ((h, block) :: v.entries m')
  backend : v.backend m' = (v.backend m).free block

section
variable {v : View H M} {m m' : M} {g g' : Transfers H} {h k : H} {block block' : CPUBlockStatus}

theorem View.Agrees.block_eq_some_iff (ha : v.Agrees m g) :
    v.block m h = some block ↔ (h, block) ∈ v.entries m := Dict.lookup_eq_some_iff ha.keys

theorem View.Agrees.block_of_storing (ha : v.Agrees m g) (hin : h ∈ keys g.storing) :
    ∃ block, v.block m h = some block ∧ block.isReady = false := by
  obtain ⟨x, hx, rfl⟩ := mem_map.mp hin
  obtain ⟨block, hblock, -⟩ := ha.resident x (mem_append_left _ hx)
  have htracks : Tracks g x.1 block.refCnt := ha.tracks _ hblock
  rw [Tracks, if_pos hin] at htracks
  exact ⟨block, ha.block_eq_some_iff.mpr hblock, by simp [CPUBlockStatus.isReady, htracks.1]⟩

theorem View.Agrees.block_of_loading (ha : v.Agrees m g) (hin : h ∈ keys g.loading) :
    ∃ block, v.block m h = some block := by
  obtain ⟨x, hx, rfl⟩ := mem_map.mp hin
  obtain ⟨block, hblock, -⟩ := ha.resident x (mem_append_right _ hx)
  exact ⟨block, ha.block_eq_some_iff.mpr hblock⟩

section
variable (hch : Changes v h block block' m m') (ha : v.Agrees m g)
include hch ha

theorem Changes.block_of_ne (ha' : v.Agrees m' g') (hne : k ≠ h) : v.block m' k = v.block m k := by
  obtain ⟨es, hm, hm'⟩ := hch.rest
  apply Option.ext
  intro b
  rw [ha.block_eq_some_iff, ha'.block_eq_some_iff, hm.mem_iff, hm'.mem_iff]
  simp [hne]

theorem Changes.agrees (hstep : ∀ {es}, Consistent ((h, block) :: es) (v.backend m) g →
      Consistent ((h, block') :: es) (v.backend m) g') : v.Agrees m' g' := by
  obtain ⟨es, hm, hm'⟩ := hch.rest
  unfold View.Agrees
  rw [hch.backend]
  exact (hstep (Consistent.perm ha hm.symm)).perm hm'

end

theorem Removes.agrees (hrm : Removes v h block m m') (ha : v.Agrees m g)
    (hstep : ∀ {es}, Consistent ((h, block) :: es) (v.backend m) g →
      Consistent es ((v.backend m).free block) g') : v.Agrees m' g' := by
  unfold View.Agrees
  rw [hrm.backend]
  exact hstep (Consistent.perm ha hrm.rest.symm)

end

/-! ## Loops -/

section
variable {v : View H M} {I : M → Prop} {m : M} {g : Transfers H} {hs : List H}

theorem loads_of_turns {f : H → Call PyError M Nat}
    (hturn : ∀ {h m block}, I m → v.block m h = some block → block.isReady = true →
      ∃ m', f h m = (.ok block.blockId, m') ∧
        Changes v h block { block with refCnt := toInt32 (block.refCnt + 1) } m m' ∧ I m')
    (ha : v.Agrees m g) (hI : I m) (hnodup : hs.Nodup)
    (hready : ∀ h ∈ hs, ∃ block, v.block m h = some block ∧ block.isReady = true) :
    ∃ ids m', Call.mapEach hs f m = (.ok ids, m') ∧ v.Agrees m' (g.load hs ids) ∧ I m' := by
  induction hs generalizing m g with
  | nil => exact ⟨[], m, rfl, by simpa [load] using ha, hI⟩
  | cons h hs ih =>
    obtain ⟨hout, hnodup⟩ := nodup_cons.mp hnodup
    obtain ⟨⟨block, hblock, hr⟩, hready⟩ := forall_mem_cons.mp hready
    obtain ⟨m₁, hone, hch, hI₁⟩ := hturn hI hblock hr
    have ha₁ : v.Agrees m₁ (g.load [h] [block.blockId]) := hch.agrees ha fun hc => hc.load hr
    have hready₁ : ∀ k ∈ hs, ∃ block, v.block m₁ k = some block ∧ block.isReady = true := by
      intro k hk
      rw [hch.block_of_ne ha ha₁ fun heq => hout (heq ▸ hk)]
      exact hready k hk
    obtain ⟨ids, m', hrest, ha', hI'⟩ := ih ha₁ hI₁ hnodup hready₁
    refine ⟨block.blockId :: ids, m', ?_, ?_, hI'⟩
    · rw [Call.mapEach, bind_of_ok hone, bind_of_ok hrest]
      rfl
    · simpa [load] using ha'

theorem inserts_of_turns {f : M → H × CPUBlockStatus → M}
    (hturn : ∀ {m e}, e.1 ∉ (v.entries m).map Prod.fst → (v.entries (f m e)).Perm (e :: v.entries m))
    (hbackend : ∀ m e, v.backend (f m e) = v.backend m) {es : Entries H}
    (hnodup : (es.map Prod.fst).Nodup) (hfresh : ∀ e ∈ es, e.1 ∉ (v.entries m).map Prod.fst) :
    (v.entries (es.foldl f m)).Perm (es ++ v.entries m) ∧ v.backend (es.foldl f m) = v.backend m := by
  induction es generalizing m with
  | nil => exact ⟨.refl _, rfl⟩
  | cons e es ih =>
    obtain ⟨hout, hnodup⟩ := nodup_cons.mp hnodup
    obtain ⟨he, hfresh⟩ := forall_mem_cons.mp hfresh
    have hone := hturn he
    have hfresh₁ : ∀ x ∈ es, x.1 ∉ (v.entries (f m e)).map Prod.fst := by
      intro x hx hin
      rcases mem_cons.mp ((hone.map Prod.fst).subset hin) with heq | hin
      · exact hout (mem_map.mpr ⟨x, hx, heq⟩)
      · exact hfresh x hx hin
    obtain ⟨hperm, hsame⟩ := ih hnodup hfresh₁
    exact ⟨hperm.trans ((hone.append_left es).trans perm_middle), hsame.trans (hbackend m e)⟩

/-- The hashes whose load `complete_load` takes back: all of them, unless the count of one is not
positive and the call raises there. -/
def View.counted (v : View H M) (m : M) (hs : List H) : List H :=
  hs.takeWhile fun h => (v.block m h).any fun block => 0 < block.refCnt

theorem takeWhile_congr {α : Type} {p q : α → Bool} {xs : List α} (h : ∀ x ∈ xs, p x = q x) :
    xs.takeWhile p = xs.takeWhile q := by
  induction xs with
  | nil => rfl
  | cons x xs ih =>
    obtain ⟨hx, hxs⟩ := forall_mem_cons.mp h
    rw [takeWhile_cons, takeWhile_cons, hx, ih hxs]

theorem unloads_of_turns {f : H → Call PyError M Unit}
    (hturn : ∀ {h m block}, I m → v.block m h = some block → 0 < block.refCnt →
      ∃ m', f h m = (.ok (), m') ∧
        Changes v h block { block with refCnt := toInt32 (block.refCnt - 1) } m m' ∧ I m')
    (hraise : ∀ {h m block}, v.block m h = some block → ¬0 < block.refCnt → ∃ e, f h m = (.error e, m))
    (ha : v.Agrees m g) (hI : I m) (hnodup : hs.Nodup) (hin : ∀ h ∈ hs, ∃ block, v.block m h = some block) :
    v.Agrees (Call.forEach hs f m).2 (g.unload (v.counted m hs)) ∧ I (Call.forEach hs f m).2 := by
  induction hs generalizing m g with
  | nil => exact ⟨ha, hI⟩
  | cons h hs ih =>
    obtain ⟨hout, hnodup⟩ := nodup_cons.mp hnodup
    obtain ⟨⟨block, hblock⟩, hin⟩ := forall_mem_cons.mp hin
    unfold View.counted
    rw [takeWhile_cons, hblock]
    by_cases hpos : 0 < block.refCnt
    · obtain ⟨m₁, hone, hch, hI₁⟩ := hturn hI hblock hpos
      have ha₁ : v.Agrees m₁ (g.unloadOne h) := hch.agrees ha fun hc => hc.unload hpos
      have hsame : ∀ k ∈ hs, v.block m₁ k = v.block m k := fun k hk =>
        hch.block_of_ne ha ha₁ fun heq => hout (heq ▸ hk)
      have hcounted : v.counted m₁ hs = v.counted m hs :=
        takeWhile_congr fun k hk => by rw [hsame k hk]
      have hrest := ih ha₁ hI₁ hnodup fun k hk => hsame k hk ▸ hin k hk
      rw [hcounted] at hrest
      rw [Option.any_some, decide_eq_true hpos, Call.forEach, bind_of_ok hone]
      exact hrest
    · obtain ⟨e, hone⟩ := hraise hblock hpos
      rw [Option.any_some, decide_eq_false hpos, Call.forEach, run_bind, hone]
      exact ⟨ha, hI⟩

theorem Transfers.stored_cons {h : H} : g.stored (h :: hs) = (g.stored [h]).stored hs := by
  unfold stored
  simp [Bool.and_comm]

theorem mem_storing_of_cons {h : H} (hnodup : (h :: hs).Nodup)
    (hin : ∀ k ∈ h :: hs, k ∈ keys g.storing) :
    ∀ k ∈ hs, k ∈ keys (g.stored [h]).storing := by
  intro k hk
  refine mem_keys_stored.mpr ⟨?_, hin k (mem_cons_of_mem _ hk)⟩
  rw [mem_singleton]
  exact fun heq => (nodup_cons.mp hnodup).1 (heq ▸ hk)

theorem stored_of_turns {f : H → Call PyError M (Option H)}
    (hturn : ∀ {h m block}, I m → v.block m h = some block → block.isReady = false →
      ∃ m', f h m = (.ok (some h), m') ∧ Changes v h block { block with refCnt := 0 } m m' ∧ I m')
    (ha : v.Agrees m g) (hI : I m) (hnodup : hs.Nodup) (hin : ∀ h ∈ hs, h ∈ keys g.storing) :
    ∃ m', Call.mapEach hs f m = (.ok (hs.map some), m') ∧ v.Agrees m' (g.stored hs) ∧ I m' := by
  induction hs generalizing m g with
  | nil => exact ⟨m, rfl, by simpa [stored] using ha, hI⟩
  | cons h hs ih =>
    have hh := hin h mem_cons_self
    obtain ⟨block, hblock, hready⟩ := ha.block_of_storing hh
    obtain ⟨m₁, hone, hch, hI₁⟩ := hturn hI hblock hready
    have ha₁ : v.Agrees m₁ (g.stored [h]) := hch.agrees ha fun hc => hc.stored hh
    obtain ⟨m', hrest, ha', hI'⟩ := ih ha₁ hI₁ (nodup_cons.mp hnodup).2 (mem_storing_of_cons hnodup hin)
    rw [← stored_cons] at ha'
    refine ⟨m', ?_, ha', hI'⟩
    rw [Call.mapEach, bind_of_ok hone, bind_of_ok hrest]
    rfl

theorem failed_of_turns {f : H → Call PyError M Unit}
    (hturn : ∀ {h m block}, I m → v.block m h = some block → block.isReady = false →
      ∃ m', f h m = (.ok (), m') ∧ Removes v h block m m' ∧ I m')
    (ha : v.Agrees m g) (hI : I m) (hnodup : hs.Nodup) (hin : ∀ h ∈ hs, h ∈ keys g.storing) :
    ∃ m', Call.forEach hs f m = (.ok (), m') ∧ v.Agrees m' (g.stored hs) ∧ I m' := by
  induction hs generalizing m g with
  | nil => exact ⟨m, rfl, by simpa [stored] using ha, hI⟩
  | cons h hs ih =>
    have hh := hin h mem_cons_self
    obtain ⟨block, hblock, hready⟩ := ha.block_of_storing hh
    obtain ⟨m₁, hone, hrm, hI₁⟩ := hturn hI hblock hready
    have ha₁ : v.Agrees m₁ (g.stored [h]) := hrm.agrees ha fun hc => hc.failed hh
    obtain ⟨m', hrest, ha', hI'⟩ := ih ha₁ hI₁ (nodup_cons.mp hnodup).2 (mem_storing_of_cons hnodup hin)
    rw [← stored_cons] at ha'
    refine ⟨m', ?_, ha', hI'⟩
    rw [Call.forEach, bind_of_ok hone]
    exact hrest

end

/-! ## Runs -/

structure Managed (H M : Type) where
  manager : M
  transfers : Transfers H := {}

inductive ManagerOp (H : Type) where
  | lookup (hs : List H)
  | touch (hs : List H)
  | prepareLoad (hs : List H)
  | completeLoad (hs : List H)
  | prepareStore (hs : List H)
  | completeStore (hs : List H) (success : Bool)

namespace ManagerOp
variable (man : OffloadingManager H M) (v : View H M)

/-- A call of the connector. One that raises leaves what it has done. -/
def next : ManagerOp H → Managed H M → Managed H M
  | .lookup _, t => t
  | .touch hs, t => { t with manager := man.touch hs t.manager }
  | .prepareLoad hs, t =>
    match man.prepareLoad hs t.manager with
    | (.ok ids, m) => { manager := m, transfers := t.transfers.load hs ids }
    | (.error _, m) => { t with manager := m }
  | .completeLoad hs, t =>
    { manager := (man.completeLoad hs t.manager).2
      transfers := t.transfers.unload (v.counted t.manager hs) }
  | .prepareStore hs, t =>
    match man.prepareStore hs t.manager with
    | (.ok (some out), m) =>
      { manager := m, transfers := t.transfers.store out.blockHashesToStore out.storeSpec }
    | (.ok none, m) => { t with manager := m }
    | (.error _, m) => { t with manager := m }
  | .completeStore hs success, t =>
    { manager := (man.completeStore hs success t.manager).2, transfers := t.transfers.stored hs }

/-- The hashes of a call are distinct. Only ready blocks are loaded, only what is being loaded or
stored is completed. -/
def Follows : ManagerOp H → Managed H M → Prop
  | .lookup hs, _ | .touch hs, _ | .prepareStore hs, _ => hs.Nodup
  | .prepareLoad hs, t => hs.Nodup ∧ ∀ h ∈ hs, ∃ block ∈ v.block t.manager h, block.isReady = true
  | .completeLoad hs, t => hs.Nodup ∧ ∀ h ∈ hs, h ∈ keys t.transfers.loading
  | .completeStore hs _, t => hs.Nodup ∧ ∀ h ∈ hs, h ∈ keys t.transfers.storing

instance (op : ManagerOp H) (t : Managed H M) : Decidable (op.Follows v t) := by
  cases op <;> unfold Follows <;> infer_instance

end ManagerOp

/-- The calls of a manager keep `I` and agree with the transfers. All of them return, but for
`complete_load`. -/
structure Lawful (man : OffloadingManager H M) (v : View H M) (I : M → Prop) : Prop where
  touch : ∀ {m g} hs, v.Agrees m g → I m → v.Agrees (man.touch hs m) g ∧ I (man.touch hs m)
  prepareLoad : ∀ {m g hs}, v.Agrees m g → I m → hs.Nodup →
    (∀ h ∈ hs, ∃ block, v.block m h = some block ∧ block.isReady = true) →
    ∃ ids m', man.prepareLoad hs m = (.ok ids, m') ∧ v.Agrees m' (g.load hs ids) ∧ I m'
  completeLoad : ∀ {m g hs}, v.Agrees m g → I m → hs.Nodup → (∀ h ∈ hs, ∃ block, v.block m h = some block) →
    v.Agrees (man.completeLoad hs m).2 (g.unload (v.counted m hs)) ∧ I (man.completeLoad hs m).2
  prepareStore : ∀ {m g hs}, v.Agrees m g → I m → hs.Nodup →
    ∃ out m', man.prepareStore hs m = (.ok out, m') ∧ I m' ∧ match out with
      | none => v.Agrees m' g
      | some out => v.Agrees m' (g.store out.blockHashesToStore out.storeSpec)
  completeStore : ∀ {m g hs} success, v.Agrees m g → I m → hs.Nodup →
    (∀ h ∈ hs, h ∈ keys g.storing) →
    ∃ m', man.completeStore hs success m = (.ok (), m') ∧ v.Agrees m' (g.stored hs) ∧ I m'

section
variable {man : OffloadingManager H M} {v : View H M} {I : M → Prop}

theorem Lawful.next (hl : Lawful man v I) {op : ManagerOp H} {t : Managed H M} (hop : op.Follows v t)
    (ht : v.Agrees t.manager t.transfers ∧ I t.manager) :
    v.Agrees (op.next man v t).manager (op.next man v t).transfers ∧ I (op.next man v t).manager := by
  obtain ⟨ha, hI⟩ := ht
  cases op with
  | lookup hs => exact ⟨ha, hI⟩
  | touch hs => exact hl.touch hs ha hI
  | prepareLoad hs =>
    obtain ⟨ids, m', hcall, hrest⟩ := hl.prepareLoad ha hI hop.1 fun h hh => by
      obtain ⟨block, hblock, hready⟩ := hop.2 h hh
      exact ⟨block, hblock, hready⟩
    simp only [ManagerOp.next, hcall]
    exact hrest
  | completeLoad hs => exact hl.completeLoad ha hI hop.1 fun h hh => ha.block_of_loading (hop.2 h hh)
  | prepareStore hs =>
    obtain ⟨out, m', hcall, hI', hrest⟩ := hl.prepareStore ha hI hop
    simp only [ManagerOp.next, hcall]
    cases out with
    | none | some out => exact ⟨hrest, hI'⟩
  | completeStore hs success =>
    obtain ⟨m', hcall, hrest⟩ := hl.completeStore success ha hI hop.1 hop.2
    simp only [ManagerOp.next, hcall]
    exact hrest

theorem Lawful.run (hl : Lawful man v I) {m₀ : M} {t : Managed H M} (hempty : v.entries m₀ = [])
    (hfree : (v.backend m₀).allocatedBlocksFreeList = []) (hnone : (v.backend m₀).numAllocatedBlocks = 0)
    (hI : I m₀) (run : Run (ManagerOp.next man v) (fun op t => op.Follows v t) { manager := m₀ } t) :
    v.Agrees t.manager t.transfers ∧ I t.manager := by
  refine run.inv ⟨?_, hI⟩ fun op t ht hop => hl.next hop ht
  unfold View.Agrees
  rw [hempty]
  refine ⟨nodup_nil, ?_, nofun, nofun, nodup_nil⟩
  rw [hfree, hnone]
  exact .refl _

end
end Vllm.Offload
