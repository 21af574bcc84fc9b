import Vllm.Base.Call
import Mathlib.Data.Int.ModEq
import Mathlib.Data.List.Forall2
import Mathlib.Tactic.Linarith
import Mathlib.Tactic.Ring

/-! `make_local_attention_virtual_batches` of the attention backends' `utils.py`. The parts of a
request that lie in one attention chunk become batch items of their own. -/

namespace Vllm.LocalAttention
open Base List

/-! ## Vectors -/

def repeatEach {α : Type} (xs : List α) (counts : List Int) : List α :=
  (xs.zip counts).flatMap fun (x, n) => replicate n.toNat x

def cumsum (o : Int) (xs : List Int) : List Int := (xs.scanl (· + ·) o).tail

/-- `xs[mask] = vs` -/
def setWhere : List Bool → List Int → List Int → List Int
  | true :: mask, v :: vs, _ :: xs => v :: setWhere mask vs xs
  | false :: mask, vs, x :: xs => x :: setWhere mask vs xs
  | _, _, xs => xs

/-- `xs[indices] = vs` -/
def setAt (indices vs xs : List Int) : List Int :=
  (indices.zip vs).foldl (fun xs (i, v) => xs.set i.toNat v) xs

/-- `xs.view(n, -1)` for `n` rows of `k`. -/
def view {α : Type} (k : Nat) : Nat → List α → List (List α)
  | 0, _ => []
  | n + 1, xs => xs.take k :: view k n (xs.drop k)

def arangeTo (n : Int) : List Int := (range n.toNat).map fun i : Nat => (i : Int)

def cdiv (a b : Int) : Int := -(a.fdiv (-b))

/-! ## The virtual batches -/

structure CommonAttentionMetadata where
  queryStartLoc : List Int
  seqLens : List Int
  blockTable : List (List Int)
  numReqs : Nat
  numActualTokens : Nat
  maxQueryLen : Int
  maxSeqLen : Int
  numComputedTokens : List Int
  slotMapping : List Int
deriving DecidableEq, Repr

def makeLocalAttentionVirtualBatches (attnChunkSize blockSize : Int) (m : CommonAttentionMetadata) :
    Except PyError (CommonAttentionMetadata × (List (List Int) → List (List Int))) :=
  let qSeqlens := zipWith (· - ·) m.queryStartLoc.tail m.queryStartLoc.dropLast
  let qTokensInFirstBlock := zipWith (fun s q => min (attnChunkSize - (s - q).fmod attnChunkSize) q)
    m.seqLens qSeqlens
  let tokensInLastBlock := m.seqLens.map fun s => attnChunkSize + s.fmod (-attnChunkSize)
  let qRest := zipWith (· - ·) qSeqlens qTokensInFirstBlock
  let localBlocks := qRest.map fun n => 1 + cdiv n attnChunkSize
  let cuNumBlocks := cumsum 0 localBlocks
  match cuNumBlocks.getLast? with
  | none => .error .indexError
  | some virtualBatches =>
    let blockOffsets := repeatEach (zipWith (· - ·) cuNumBlocks localBlocks) localBlocks
    let arange := zipWith (· - ·) (arangeTo virtualBatches) blockOffsets
    let rarange := zipWith (fun n i => n - i - 1) (repeatEach localBlocks localBlocks) arange
    let firsts := setWhere (arange.map (· == 0)) qTokensInFirstBlock (repeatEach qRest localBlocks)
    let seqlensQLocal := zipWith (fun n i => if i > 0 then min (n - attnChunkSize * (i - 1))
      attnChunkSize else n) firsts arange
    let seqlensKLocal := setAt (cuNumBlocks.map (· - 1)) tokensInLastBlock
      (replicate virtualBatches.toNat attnChunkSize)
    let kSeqstartsAbsolute := zipWith (· - ·) (repeatEach m.seqLens localBlocks)
      (zipWith (fun i n => i * attnChunkSize + n) rarange (repeatEach tokensInLastBlock localBlocks))
    let blockStarts := kSeqstartsAbsolute.map (·.fdiv blockSize)
    if attnChunkSize.fmod blockSize ≠ 0 then
      .error (.assertionError
        s!"attn_chunk_size {attnChunkSize} is not divisible by block_size {blockSize}")
    else
      let pagesPerLocalBatch := attnChunkSize.fdiv blockSize
      let blockIndices := blockStarts.flatMap fun b => (arangeTo pagesPerLocalBatch).map fun i =>
        min (b + i) ((m.blockTable.headD []).length - 1 : Int)
      let batchIndices := repeatEach (arangeTo m.seqLens.length)
        (localBlocks.map (· * pagesPerLocalBatch))
      let makeBlockTable := fun table : List (List Int) =>
        let rows := batchIndices.map fun b => table.getD b.toNat []
        view pagesPerLocalBatch.toNat virtualBatches.toNat
          (zipWith (fun row i => row.getD i.toNat 0) rows blockIndices)
      .ok ({ m with
        queryStartLoc := 0 :: cumsum 0 seqlensQLocal
        seqLens := seqlensKLocal
        blockTable := makeBlockTable m.blockTable
        numReqs := seqlensKLocal.length
        maxQueryLen := seqlensQLocal.max?.getD 0
        maxSeqLen := seqlensKLocal.max?.getD 0
        numComputedTokens := zipWith (· - ·) seqlensKLocal seqlensQLocal }, makeBlockTable)

/-! ## Spans -/
section
variable {ρ α β : Type} (n : ρ → Nat)

def spans (R : List ρ) : List (ρ × Nat) := R.flatMap fun r => (range (n r)).map (r, ·)

@[simp] theorem spans_cons (r : ρ) (R : List ρ) :
    spans n (r :: R) = (range (n r)).map (r, ·) ++ spans n R := rfl

theorem sum_counts (R : List ρ) : (R.map fun r => (n r : Int)).sum = (spans n R).length := by
  induction R with
  | nil => rfl
  | cons r R ih => simp [ih]

theorem repeatEach_mul (f : ρ → α) (k : Nat) (R : List ρ) :
    repeatEach (R.map f) (R.map fun r => (n r : Int) * k) =
      (spans n R).flatMap fun x => replicate k (f x.1) := by
  induction R with
  | nil => rfl
  | cons r R ih =>
    have hrow : ∀ m, replicate (m * k) (f r) = (range m).flatMap fun _ => replicate k (f r) := by
      intro m
      induction m with
      | zero => simp
      | succ m ih =>
        rw [Nat.succ_mul, range_succ, flatMap_append, ← ih, replicate_add]
        simp
    change replicate ((n r : Int) * k).toNat (f r) ++ repeatEach (R.map f) _ = _
    rw [ih, spans_cons, flatMap_append, flatMap_map, ← hrow]
    rfl

theorem repeatEach_map (f : ρ → α) (R : List ρ) :
    repeatEach (R.map f) (R.map fun r => (n r : Int)) = (spans n R).map fun x => f x.1 := by
  simpa [← map_eq_flatMap] using repeatEach_mul n f 1 R

theorem cumsum_cons (o x : Int) (xs : List Int) :
    cumsum o (x :: xs) = (o + x) :: cumsum (o + x) xs := by
  cases xs <;> simp [cumsum]

theorem arange_eq (o : Int) (R : List ρ) :
    zipWith (· - ·) ((range (spans n R).length).map fun i : Nat => o + i)
        (repeatEach (zipWith (· - ·) (cumsum o (R.map fun r => (n r : Int)))
          (R.map fun r => (n r : Int))) (R.map fun r => (n r : Int))) =
      (spans n R).map fun x => (x.2 : Int) := by
  induction R generalizing o with
  | nil => rfl
  | cons r R ih =>
    rw [spans_cons, map_append, ← ih (o + n r)]
    simp only [map_cons, length_append, length_map, length_range, range_add, map_append, cumsum_cons,
      zipWith_cons_cons, map_map]
    change zipWith _ _ (replicate (n r) (o + n r - n r) ++ repeatEach _ _) = _
    rw [zipWith_append (by simp)]
    congr 1
    · have hoffsets : replicate (n r) (o + n r - n r) = (range (n r)).map fun _ => o := by simp
      rw [hoffsets, zipWith_map, zipWith_self]
      exact map_congr_left fun i _ => add_sub_cancel_left o _
    · congr 1
      exact map_congr_left fun i _ => by simp [Int.add_assoc]

theorem setWhere_skip (xs : List Int) (mask : List Bool) (vs ys : List Int) :
    setWhere (replicate xs.length false ++ mask) vs (xs ++ ys) = xs ++ setWhere mask vs ys := by
  induction xs with
  | nil => rfl
  | cons x xs ih => simp [replicate_succ, setWhere, ih]

theorem view_flatMap (l : List α) (g : α → List β) {k : Nat} (hk : ∀ x ∈ l, (g x).length = k) :
    view k l.length (l.flatMap g) = l.map g := by
  induction l with
  | nil => rfl
  | cons x l ih =>
    obtain ⟨rfl, hl⟩ := forall_mem_cons.mp hk
    simp [view, ih hl]

theorem cons_cumsum (o : Int) (xs : List Int) : o :: cumsum o xs = xs.scanl (· + ·) o := by
  cases xs <;> simp [cumsum]

theorem zipWith_flatMap {γ δ : Type} (l : List α) (f : β → γ → δ) {g : α → List β} {h : α → List γ}
    (hk : ∀ x ∈ l, (g x).length = (h x).length) :
    zipWith f (l.flatMap g) (l.flatMap h) = l.flatMap fun x => zipWith f (g x) (h x) := by
  induction l with
  | nil => rfl
  | cons x l ih =>
    obtain ⟨hx, hl⟩ := forall_mem_cons.mp hk
    simp only [flatMap_cons, zipWith_append hx, ih hl]

theorem rows_eq (R : List ρ) (f : ρ → List Int) (k : Nat) :
    (repeatEach ((range R.length).map fun i : Nat => (i : Int)) (R.map fun r => (n r : Int) * k)).map
        (fun b => (R.map f).getD b.toNat []) =
      (spans n R).flatMap fun x => (range k).map fun _ => f x.1 := by
  have hrows : ((range R.length).map fun i : Nat => (i : Int)).map
      (fun b => (R.map f).getD b.toNat []) = R.map f := by
    apply ext_getElem <;> simp +contextual
  have hrepeat : ∀ (xs counts : List Int) (T : Int → List Int),
      (repeatEach xs counts).map T = repeatEach (xs.map T) counts := by
    intro xs counts T
    simp [repeatEach, map_flatMap, zip_map_left, flatMap_map]
  rw [hrepeat, hrows, repeatEach_mul]
  simp

variable {n}

theorem setWhere_firsts {R : List ρ} (hn : ∀ r ∈ R, 0 < n r) (f : ρ → Int) (g : ρ × Nat → Int) :
    setWhere ((spans n R).map fun x => (x.2 : Int) == 0) (R.map f) ((spans n R).map g) =
      (spans n R).map fun x => if x.2 = 0 then f x.1 else g x := by
  induction R with
  | nil => rfl
  | cons r R ih =>
    obtain ⟨hr, hR⟩ := forall_mem_cons.mp hn
    obtain ⟨k, hk⟩ := Nat.exists_eq_add_one.mpr hr
    have hskip := setWhere_skip ((range k).map fun i => g (r, i + 1))
      ((spans n R).map fun x => (x.2 : Int) == 0) (R.map f) ((spans n R).map g)
    have hmask : ∀ i : Nat, ((i : Int) + 1 == 0) = false := fun i =>
      beq_eq_false_iff_ne.mpr (by omega)
    rw [ih hR] at hskip
    simpa [hk, range_succ_eq_map, setWhere, Function.comp_def, hmask] using hskip

theorem setAt_lasts {R : List ρ} (hn : ∀ r ∈ R, 0 < n r) (f : ρ → Int) (c : Int) (pre : List Int) :
    setAt ((cumsum pre.length (R.map fun r => (n r : Int))).map (· - 1)) (R.map f)
        (pre ++ replicate (spans n R).length c) =
      pre ++ (spans n R).map fun x => if x.2 + 1 = n x.1 then f x.1 else c := by
  induction R generalizing pre with
  | nil => rfl
  | cons r R ih =>
    obtain ⟨hr, hR⟩ := forall_mem_cons.mp hn
    obtain ⟨k, hk⟩ := Nat.exists_eq_add_one.mpr hr
    have hset : (pre ++ replicate (k + 1 + (spans n R).length) c).set (pre.length + k) (f r) =
        pre ++ replicate k c ++ [f r] ++ replicate (spans n R).length c := by
      simp [replicate_add]
    have hlast : (range (k + 1)).map (fun i => if i + 1 = k + 1 then f r else c) =
        replicate k c ++ [f r] := by
      simp +contextual [range_succ, eq_replicate_iff, Nat.ne_of_lt]
    have hrest := ih hR (pre ++ replicate k c ++ [f r])
    have hlen : ((pre ++ replicate k c ++ [f r]).length : Int) = pre.length + n r := by simp [hk]
    have hidx : ((pre.length : Int) + n r - 1).toNat = pre.length + k := by omega
    rw [hlen] at hrest
    simp only [map_cons, cumsum_cons, spans_cons, length_append, length_map, length_range, map_append,
      map_map]
    change setAt _ _ (set _ _ _) = _
    rw [hidx, hk, hset, ← hk, hrest]
    simp only [append_assoc, append_cancel_left_eq]
    rw [← append_assoc, ← hlast, ← hk]
    rfl

theorem cdiv_spec {b : Int} (hb : 0 < b) (a : Int) : b * (cdiv a b - 1) < a ∧ a ≤ b * cdiv a b := by
  have h : cdiv a b = -(-a / b) := by
    rw [cdiv, ← Int.fdiv_eq_ediv_of_nonneg _ hb.le, ← Int.neg_fdiv_neg, neg_neg]
  have hdiv := Int.mul_ediv_add_emod (-a) b
  have hlo := Int.emod_nonneg (-a) hb.ne'
  have hhi := Int.emod_lt_of_pos (-a) hb
  rw [h]
  constructor <;> linarith

theorem cdiv_unique {a b k : Int} (hb : 0 < b) (hlt : b * (k - 1) < a) (hle : a ≤ b * k) :
    cdiv a b = k := by
  obtain ⟨hlt', hle'⟩ := cdiv_spec hb a
  apply le_antisymm
  · exact Int.le_of_sub_one_lt (lt_of_mul_lt_mul_left (hlt'.trans_le hle) hb.le)
  · exact Int.le_of_sub_one_lt (lt_of_mul_lt_mul_left (hlt.trans_le hle') hb.le)

end

/-! ## The spans of a request -/

structure Request where
  queryLen : Int
  seqLen : Int
  blocks : List Int

def slot (bs : Int) (row : List Int) (p : Int) : Int := row.getD (p / bs).toNat 0 * bs + p % bs

/-- The requests of the batch. -/
structure CommonAttentionMetadata.Lists (m : CommonAttentionMetadata) (R : List Request) : Prop where
  queryStartLoc : m.queryStartLoc = (R.map Request.queryLen).scanl (· + ·) 0
  seqLens : m.seqLens = R.map Request.seqLen
  blockTable : m.blockTable = R.map Request.blocks

namespace Request

/-- The slots that the query `j` attends to when the last query is aligned with the last key. -/
def attended (bs : Int) (r : Request) (j : Int) : List Int :=
  (arangeTo (r.seqLen - r.queryLen + j + 1)).map (slot bs r.blocks)

/-- The items cover the queries in order, each inside a chunk, and a query at the position `p`
attends to the slots of its chunk up to `p`. -/
structure Partition (C bs : Int) (r : Request) (items : List Request) : Prop where
  total : (items.map Request.queryLen).sum = r.queryLen
  item : ∀ i item, items[i]? = some item → 0 < item.queryLen ∧
    ∃ c, ∀ j, 0 ≤ j → j < item.queryLen →
    let p := r.seqLen - r.queryLen + ((items.take i).map Request.queryLen).sum + j
    p / C = c ∧ attended bs item j =
      (arangeTo (p - C * c + 1)).map fun k => slot bs r.blocks (C * c + k)

variable (C : Int) (r : Request)

def computed : Int := r.seqLen - r.queryLen

def firstLen : Int := min (C - r.computed.fmod C) r.queryLen

def lastLen : Int := C + r.seqLen.fmod (-C)

def numSpans : Nat := (1 + cdiv (r.queryLen - r.firstLen C) C).toNat

def chunkStart (i : Nat) : Int := C * (r.computed / C + i)

/-- Where the queries of the span `i` begin. -/
def bound (i : Nat) : Int := if i = 0 then r.computed else min (r.chunkStart C i) r.seqLen

def qLen (i : Nat) : Int :=
  if 0 < i then min (r.queryLen - r.firstLen C - C * (i - 1)) C else r.firstLen C

def kLen (i : Nat) : Int := if i + 1 = r.numSpans C then r.lastLen C else C

/-- The item of the span `i`. -/
def span (bs : Int) (i : Nat) : Request where
  queryLen := r.qLen C i
  seqLen := r.kLen C i
  blocks := (arangeTo (C.fdiv bs)).map fun j =>
    r.blocks.getD (min ((r.seqLen - ((r.numSpans C - i - 1) * C + r.lastLen C)).fdiv bs + j)
      (r.blocks.length - 1)).toNat 0

structure Ok : Prop where
  query_pos : 1 ≤ r.queryLen
  query_le : r.queryLen ≤ r.seqLen

variable {C r}

theorem chunkStart_eq (i : Nat) : r.chunkStart C i = r.chunkStart C 0 + C * i := by
  simp [chunkStart, mul_add]

theorem chunkStart_succ (i : Nat) : r.chunkStart C (i + 1) = r.chunkStart C i + C := by
  rw [chunkStart, chunkStart]
  push_cast
  ring

variable (hC : 0 < C)
include hC

theorem chunkStart_zero : r.computed.fmod C = r.computed - r.chunkStart C 0 ∧
    r.chunkStart C 0 ≤ r.computed ∧ r.computed < r.chunkStart C 0 + C := by
  have hstart : r.chunkStart C 0 = C * (r.computed / C) := by simp [chunkStart]
  have hdiv := Int.mul_ediv_add_emod r.computed C
  have hlo := Int.emod_nonneg r.computed hC.ne'
  have hhi := Int.emod_lt_of_pos r.computed hC
  rw [Int.fmod_eq_emod_of_nonneg _ hC.le]
  omega

variable (hr : r.Ok)
include hr

theorem numSpans_spec : 0 < r.numSpans C ∧
    (r.numSpans C : Int) = 1 + cdiv (r.queryLen - r.firstLen C) C ∧
    r.chunkStart C (r.numSpans C) < r.seqLen + C ∧ r.seqLen ≤ r.chunkStart C (r.numSpans C) := by
  obtain ⟨hq, hqs⟩ := hr
  obtain ⟨hmod, hlo, hhi⟩ := r.chunkStart_zero hC
  have hcomputed : r.computed = r.seqLen - r.queryLen := rfl
  have hfirst : r.firstLen C = min (C - r.computed.fmod C) r.queryLen := rfl
  obtain ⟨hdlo, hdhi⟩ := cdiv_spec hC (r.queryLen - r.firstLen C)
  rw [numSpans]
  generalize cdiv (r.queryLen - r.firstLen C) C = d at *
  have hnonneg : 0 ≤ d := by
    by_contra hneg
    have hle := Int.mul_le_mul_of_nonneg_left (show d ≤ -1 by omega) hC.le
    omega
  rw [mul_sub, mul_one] at hdlo
  rw [chunkStart_eq, Int.toNat_of_nonneg (by omega), mul_add, mul_one]
  refine ⟨by omega, rfl, ?_, by omega⟩
  by_cases hle : C - r.computed.fmod C ≤ r.queryLen
  · omega
  · have hd0 : C * d ≤ 0 := by
      by_contra hpos
      have hle := Int.mul_le_mul_of_nonneg_left (show 1 ≤ d by nlinarith) hC.le
      omega
    omega

theorem chunkStart_lt {i : Nat} (hi : i < r.numSpans C) : r.chunkStart C i < r.seqLen := by
  obtain ⟨-, -, hlt, -⟩ := numSpans_spec hC hr
  have hmul := Int.mul_le_mul_of_nonneg_left (show (i : Int) + 1 ≤ r.numSpans C by omega) hC.le
  rw [mul_add, mul_one] at hmul
  rw [chunkStart_eq] at hlt ⊢
  omega

theorem bound_spec {i : Nat} (hi : i < r.numSpans C) :
    r.chunkStart C i ≤ r.bound C i ∧ r.bound C i < r.bound C (i + 1) ∧
      r.bound C (i + 1) ≤ r.chunkStart C i + C ∧ r.bound C (i + 1) ≤ r.seqLen := by
  obtain ⟨-, hlo, hhi⟩ := r.chunkStart_zero hC
  have hcomputed : r.computed = r.seqLen - r.queryLen := rfl
  have hlt := chunkStart_lt hC hr hi
  have hpos := hr.query_pos
  rw [bound, bound, if_neg i.succ_ne_zero, chunkStart_succ]
  split
  next h0 =>
    subst h0
    omega
  next => omega

theorem qLen_eq {i : Nat} (hi : i < r.numSpans C) :
    r.qLen C i = r.bound C (i + 1) - r.bound C i := by
  obtain ⟨hmod, -, -⟩ := r.chunkStart_zero hC
  have hcomputed : r.computed = r.seqLen - r.queryLen := rfl
  have hlt := chunkStart_lt hC hr hi
  rw [qLen, firstLen, bound, bound, if_neg i.succ_ne_zero, chunkStart_succ]
  split
  next h0 =>
    have hfull := Int.mul_le_mul_of_nonneg_left (show (1 : Int) ≤ i by omega) hC.le
    rw [mul_one] at hfull
    rw [chunkStart_eq] at hlt ⊢
    rw [if_neg h0.ne', mul_sub, mul_one]
    omega
  next h0 =>
    obtain rfl : i = 0 := by omega
    rw [if_pos rfl]
    omega

theorem lastLen_eq : r.lastLen C = r.seqLen + C - r.chunkStart C (r.numSpans C) := by
  obtain ⟨-, -, hlt, hle⟩ := numSpans_spec hC hr
  have hcdiv : cdiv r.seqLen C = r.computed / C + r.numSpans C := by
    apply cdiv_unique hC _ hle
    rw [mul_sub, mul_one]
    exact Int.sub_right_lt_of_lt_add hlt
  rw [lastLen, Int.fmod_def, chunkStart, ← hcdiv, cdiv]
  ring

theorem bound_last {i : Nat} (hi : i + 1 = r.numSpans C) : r.bound C (i + 1) = r.seqLen := by
  obtain ⟨-, -, -, hle⟩ := numSpans_spec hC hr
  rw [bound, if_neg i.succ_ne_zero, hi, min_eq_right hle]

theorem kLen_eq {i : Nat} (hi : i < r.numSpans C) :
    r.kLen C i = r.bound C (i + 1) - r.chunkStart C i := by
  rw [kLen]
  split
  next hlast =>
    rw [bound_last hC hr hlast, lastLen_eq hC hr, ← hlast, chunkStart_succ]
    ring
  next hlast =>
    have hlt := chunkStart_lt hC hr (show i + 1 < r.numSpans C by omega)
    rw [bound, if_neg i.succ_ne_zero, min_eq_left hlt.le, chunkStart_succ, add_sub_cancel_left]

theorem sum_qLen {i : Nat} (hi : i ≤ r.numSpans C) :
    ((range i).map (r.qLen C)).sum = r.bound C i - r.computed := by
  induction i with
  | zero => simp [bound]
  | succ i ih =>
    rw [range_succ, map_append, sum_append, ih (Nat.le_of_succ_le hi), map_singleton, sum_singleton,
      qLen_eq hC hr hi]
    ring

variable {bs : Int}

omit hC hr in
theorem slot_localRow {row : List Int} {n k p : Int} (hbs : 0 < bs) (hk : 0 ≤ k) (hkn : k < bs * n)
    (hlt : bs * p + k < bs * row.length) :
    slot bs ((arangeTo n).map fun j => row.getD (min (p + j) (row.length - 1)).toNat 0) k =
      slot bs row (bs * p + k) := by
  have hlo := Int.ediv_nonneg hk hbs.le
  have hhi : k / bs < n := Int.ediv_lt_of_lt_mul hbs (by rwa [mul_comm])
  have hend : p + k / bs < row.length := by
    have h := Int.ediv_lt_of_lt_mul hbs (mul_comm bs row.length ▸ hlt)
    rwa [add_comm, Int.add_mul_ediv_left _ _ hbs.ne', add_comm] at h
  have hmin : min (p + k / bs) (row.length - 1) = p + k / bs := by omega
  rw [slot, slot, add_comm (bs * p), Int.add_mul_ediv_left _ _ hbs.ne', Int.add_mul_emod_self_left,
    add_comm _ p, ← hmin]
  congr 2
  rw [arangeTo, map_map, getD_eq_getElem?_getD, getElem?_map, getElem?_range (by omega)]
  simp [hlo]

theorem kStart_eq (i : Nat) :
    r.seqLen - ((r.numSpans C - i - 1) * C + r.lastLen C) = r.chunkStart C i := by
  rw [lastLen_eq hC hr, chunkStart_eq, chunkStart_eq i]
  ring

theorem partition (hbs : 0 < bs) (hdvd : bs ∣ C) (hwide : r.seqLen ≤ bs * r.blocks.length) :
    Partition C bs r ((range (r.numSpans C)).map (r.span C bs)) := by
  have hsum : ∀ i ≤ r.numSpans C, (((range i).map (r.span C bs)).map queryLen).sum =
      r.bound C i - (r.seqLen - r.queryLen) := by
    intro i hi
    rw [map_map]
    exact sum_qLen hC hr hi
  refine ⟨?_, fun i item hitem => ?_⟩
  · obtain ⟨n, hn⟩ := Nat.exists_eq_add_one.mpr (numSpans_spec hC hr).1
    rw [hsum _ le_rfl, hn, bound_last hC hr hn.symm, sub_sub_cancel]
  · obtain ⟨hi, rfl⟩ : i < r.numSpans C ∧ r.span C bs i = item := by
      simpa [getElem?_map, Option.map_eq_some_iff, getElem?_range, getElem?_eq_some_iff] using hitem
    obtain ⟨hlo, hpos, hhi, hend⟩ := bound_spec hC hr hi
    have hq : (r.span C bs i).queryLen = r.bound C (i + 1) - r.bound C i := qLen_eq hC hr hi
    have hk : (r.span C bs i).seqLen = r.bound C (i + 1) - r.chunkStart C i := kLen_eq hC hr hi
    refine ⟨by omega, r.computed / C + i, fun j hj hjq => ?_⟩
    rw [← map_take, take_range, Nat.min_eq_left hi.le, hsum i hi.le]
    generalize hp : r.seqLen - r.queryLen + (r.bound C i - (r.seqLen - r.queryLen)) + j = p
    refine ⟨?_, ?_⟩
    · apply le_antisymm
      · apply Int.lt_add_one_iff.mp
        apply Int.ediv_lt_of_lt_mul hC
        rw [mul_comm, mul_add, mul_one, ← chunkStart]
        omega
      · apply Int.le_ediv_of_mul_le hC
        rw [mul_comm, ← chunkStart]
        omega
    · rw [← chunkStart]
      have hlen : (r.span C bs i).seqLen - (r.span C bs i).queryLen + j + 1 =
          p - r.chunkStart C i + 1 := by omega
      rw [attended, hlen]
      apply map_congr_left
      intro x hx
      obtain ⟨k, hlt, rfl⟩ := mem_map.mp hx
      rw [mem_range] at hlt
      obtain ⟨n, rfl⟩ := hdvd
      have hpages : (bs * n).fdiv bs = n := by
        rw [Int.fdiv_eq_ediv_of_nonneg _ hbs.le, Int.mul_ediv_cancel_left _ hbs.ne']
      have hpage : r.chunkStart (bs * n) i = bs * (r.chunkStart (bs * n) i).fdiv bs := by
        rw [chunkStart, mul_assoc, Int.fdiv_eq_ediv_of_nonneg _ hbs.le,
          Int.mul_ediv_cancel_left _ hbs.ne']
      rw [span, hpages, kStart_eq hC hr]
      nth_rewrite 2 [hpage]
      apply slot_localRow hbs k.cast_nonneg
      · omega
      · omega

end Request

/-! ## The vectors -/

theorem differences_scanl (o : Int) (xs : List Int) :
    zipWith (· - ·) (xs.scanl (· + ·) o).tail (xs.scanl (· + ·) o).dropLast = xs := by
  induction xs generalizing o with
  | nil => rfl
  | cons x xs ih =>
    have h := ih (o + x)
    cases xs <;> simp_all

theorem getLast?_cumsum (o : Int) {xs : List Int} (h : xs ≠ []) :
    (cumsum o xs).getLast? = some (o + xs.sum) := by
  induction xs generalizing o with
  | nil => exact absurd rfl h
  | cons x xs ih =>
    rw [cumsum_cons]
    by_cases hxs : xs = []
    · subst hxs
      simp [cumsum]
    · rw [getLast?_cons, ih _ hxs, sum_cons, add_assoc]
      rfl

section
variable {C bs : Int} {m : CommonAttentionMetadata} {R : List Request} {cols : Nat} (hC : 0 < C)
  (hbs : 0 < bs) (hdvd : bs ∣ C) (hm : m.Lists R) (hne : R ≠ []) (hok : ∀ r ∈ R, r.Ok)
  (hcols : ∀ r ∈ R, r.blocks.length = cols)
include hC hbs hdvd hm hne hok hcols

theorem make_eq :
    ∃ out mk, makeLocalAttentionVirtualBatches C bs m = .ok (out, mk) ∧
      out.blockTable = mk m.blockTable ∧
      out.Lists (R.flatMap fun r => (range (r.numSpans C)).map (r.span C bs)) := by
  have hqs : zipWith (· - ·) m.queryStartLoc.tail m.queryStartLoc.dropLast =
      R.map Request.queryLen := by
    rw [hm.queryStartLoc, differences_scanl]
  have hcounts : R.map (fun r => 1 + cdiv (r.queryLen - r.firstLen C) C) =
      R.map fun r => (r.numSpans C : Int) :=
    map_congr_left fun r hr => (Request.numSpans_spec hC (hok r hr)).2.1.symm
  have hpos : ∀ r ∈ R, 0 < r.numSpans C := fun r hr => (Request.numSpans_spec hC (hok r hr)).1
  have hlast := @getLast?_cumsum 0 (R.map fun r => (r.numSpans C : Int)) (by simpa using hne)
  rw [zero_add, sum_counts] at hlast
  have harange := arange_eq (Request.numSpans C) 0 R
  simp only [zero_add] at harange
  obtain ⟨k, hk⟩ : ∃ k : Nat, C.fdiv bs = k := by
    apply Int.eq_ofNat_of_zero_le
    rw [Int.fdiv_eq_ediv_of_nonneg _ hbs.le]
    exact Int.ediv_nonneg hC.le hbs.le
  have hspans : (R.flatMap fun r => (range (r.numSpans C)).map (r.span C bs)) =
      (spans (Request.numSpans C) R).map fun x => x.1.span C bs x.2 := by
    simp [spans, map_flatMap, Function.comp_def]
  simp only [Request.firstLen, Request.computed] at hcounts
  unfold makeLocalAttentionVirtualBatches
  simp only [hqs, hm.seqLens, zipWith_map, zipWith_self, map_map, Function.comp_def, hcounts,
    hlast, hk, arangeTo, Int.toNat_natCast, harange, repeatEach_map, setWhere_firsts hpos,
    hspans, length_map, hm.blockTable, flatMap_map]
  refine ⟨_, _, if_neg (by simpa using Int.fmod_eq_zero_of_dvd hdvd), rfl, ⟨?_, ?_, ?_⟩⟩
  · refine (cons_cumsum 0 _).trans (congrArg (scanl _ 0) ?_)
    rw [map_map]
    apply map_congr_left
    rintro ⟨r, i⟩ -
    change _ = r.qLen C i
    rw [Request.qLen, Request.firstLen]
    cases i <;> simp [Request.computed]
  · rw [map_map]
    exact setAt_lasts hpos (Request.lastLen C) C []
  · change view k _ _ = _
    rw [rows_eq, zipWith_flatMap _ _ (by simp), view_flatMap _ _ (by simp), map_map]
    apply map_congr_left
    rintro ⟨r, i⟩ hx
    obtain ⟨r', hr, hx⟩ := mem_flatMap.mp hx
    obtain ⟨i', -, hx⟩ := mem_map.mp hx
    cases hx
    have hwidth : ((R.map Request.blocks).headD []).length = r.blocks.length := by
      cases R with
      | nil => cases hr
      | cons r₀ R => exact (hcols r₀ mem_cons_self).trans (hcols r hr).symm
    change _ = map _ (arangeTo (C.fdiv bs))
    rw [zipWith_map, zipWith_self, hk, arangeTo, Int.toNat_natCast, map_map, hwidth]
    rfl

/-- The items of the new batch are those of its requests, one after the other, and those of a request
partition it. -/
theorem virtual_batches (hwide : ∀ r ∈ R, r.seqLen ≤ bs * cols) :
    ∃ out mk parts, makeLocalAttentionVirtualBatches C bs m = .ok (out, mk) ∧
      out.blockTable = mk m.blockTable ∧ out.Lists parts.flatten ∧
      Forall₂ (Request.Partition C bs) R parts := by
  obtain ⟨out, mk, hrun, htable, hlists⟩ := make_eq hC hbs hdvd hm hne hok hcols
  refine ⟨out, mk, R.map fun r => (range (r.numSpans C)).map (r.span C bs), hrun, htable, ?_, ?_⟩
  · rwa [← flatMap_def]
  · rw [forall₂_map_right_iff, forall₂_same]
    exact fun r hr => Request.partition hC (hok r hr) hbs hdvd (hcols r hr ▸ hwide r hr)

end

def oneRequest : CommonAttentionMetadata where
  queryStartLoc := [0, 4]
  seqLens := [6]
  blockTable := [[5, 6, 7]]
  numReqs := 1
  numActualTokens := 4
  maxQueryLen := 4
  maxSeqLen := 6
  numComputedTokens := [2]
  slotMapping := [12, 13, 14, 15]

theorem virtual_batches_oneRequest :
    ((makeLocalAttentionVirtualBatches 4 2 oneRequest).map fun out =>
      (out.1.queryStartLoc, out.1.seqLens, out.1.blockTable)).toOption =
        some ([0, 2, 4], [4, 2], [[5, 6], [7, 7]]) ∧
      ∃ out mk parts, makeLocalAttentionVirtualBatches 4 2 oneRequest = .ok (out, mk) ∧
        out.blockTable = mk oneRequest.blockTable ∧ out.Lists parts.flatten ∧
        Forall₂ (Request.Partition 4 2) [⟨4, 6, [5, 6, 7]⟩] parts := by
  refine ⟨by decide, @virtual_batches 4 2 oneRequest [⟨4, 6, [5, 6, 7]⟩] 3 (by decide) (by decide)
    (by decide) ⟨rfl, rfl, rfl⟩ (by simp) ?_ (by simp) (by simp)⟩
  simpa using (⟨by decide, by decide⟩ : Request.Ok ⟨4, 6, [5, 6, 7]⟩)

/-- A batch without requests has no last entry in `cu_num_blocks`. -/
theorem empty_batch_raises : ∃ m : CommonAttentionMetadata, m.Lists [] ∧
    makeLocalAttentionVirtualBatches 4 2 m = .error .indexError :=
  ⟨{ oneRequest with queryStartLoc := [0], seqLens := [], blockTable := [] }, ⟨rfl, rfl, rfl⟩, rfl⟩

end Vllm.LocalAttention
