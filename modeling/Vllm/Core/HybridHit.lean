import Mathlib.Order.Bounds.Basic
import Vllm.Core.CacheHit

/-! The longest hit of a hybrid model. Each manager returns the longest hit of its own groups below
a bound; the coordinator lowers the bound until all of them agree. -/

namespace Vllm
open Base List AttentionGroup

/-- What must be cached in a group of the spec to reuse `n` tokens. -/
def KVCacheSpec.HasHit (spec : KVCacheSpec) (cached : Nat → Prop) (n : Nat) : Prop :=
  match spec.attention with
  | .fullAttention => ∀ i < n / spec.blockSize, cached i
  | .slidingWindow window =>
    ∀ i < n / spec.blockSize, n / spec.blockSize -
      min (n / spec.blockSize) (cdiv (window - 1) spec.blockSize) ≤ i → cached i
  | .chunkedLocalAttention attentionChunkSize =>
    ∀ i < n / spec.blockSize, n / attentionChunkSize * attentionChunkSize / spec.blockSize ≤ i →
      cached i
  | .mamba _ => 0 < n / spec.blockSize → cached (n / spec.blockSize - 1)

def KVCacheSpec.Searchable (spec : KVCacheSpec) : Prop :=
  match spec.attention with
  | .fullAttention => True
  | .slidingWindow window => 2 ≤ window
  | .chunkedLocalAttention _ => False
  | .mamba _ => True

section
variable {lookup : Nat → Option Row} {width blockSize alignment : Nat} {rows : List Row}

theorem scanForward_length (n i : Nat) :
    (∀ j < (scanForward lookup n i).length, (lookup (i + j)).isSome) ∧
      ((scanForward lookup n i).length < n →
        lookup (i + (scanForward lookup n i).length) = none) := by
  induction n generalizing i with
  | zero => simp [scanForward]
  | succ n ih =>
    rw [scanForward]
    split
    · next row hrow =>
      obtain ⟨h1, h2⟩ := ih (i + 1)
      refine ⟨fun j hj => ?_, fun hlt => ?_⟩
      · cases j with
        | zero => simp [hrow]
        | succ j =>
          have := h1 j (by simpa using hj)
          rwa [Nat.add_right_comm, Nat.add_assoc] at this
      · have := h2 (by simpa using hlt)
        rwa [Nat.add_right_comm, Nat.add_assoc] at this
    · next hrow => simpa using hrow

def IsLongest (blockSize alignment bound : Nat) (has : Nat → Prop) (k : Nat) : Prop :=
  IsGreatest {m | m ≤ bound ∧ alignment ∣ m * blockSize ∧ has m} k

theorem fullAttentionHit_longest {numKeys maxLength : Nat} (hkeys : maxLength / blockSize ≤ numKeys) :
    IsLongest blockSize alignment (maxLength / blockSize) (fun m => ∀ i < m, (lookup i).isSome)
      (fullAttentionHit lookup numKeys blockSize maxLength alignment false).length := by
  have hlen : (fullAttentionHit lookup numKeys blockSize maxLength alignment false).length =
      alignedLength blockSize alignment
        (scanForward lookup (maxLength / blockSize) 0).length := by
    rw [fullAttentionHit, Nat.min_eq_left hkeys]
    exact length_popUnaligned _
  have hle := @length_scanForward_le lookup (maxLength / blockSize) 0
  obtain ⟨h1, h2⟩ := @scanForward_length lookup (maxLength / blockSize) 0
  rw [hlen]
  obtain ⟨a1, a2, a3⟩ := alignedLength_spec blockSize alignment
    (scanForward lookup (maxLength / blockSize) 0).length
  refine ⟨⟨a1.trans hle, a2, fun i hi => ?_⟩, fun m hm => ?_⟩
  · simpa using h1 i (lt_of_lt_of_le hi a1)
  · obtain ⟨hm1, hm2, hm3⟩ := hm
    refine a3 m (Nat.le_of_not_lt fun hlt => ?_) hm2
    have hnone := h2 (lt_of_lt_of_le hlt hm1)
    simp only [Nat.zero_add] at hnone
    have := hm3 _ hlt
    simp [hnone] at this

def WindowCached (lookup : Nat → Option Row) (contiguous m : Nat) : Prop :=
  ∀ i < m, m - contiguous ≤ i → (lookup i).isSome

/-- The search of the sliding window at block `i`, behind a run of `num` cached blocks that ends at
an aligned place, when no longer hit is possible. -/
structure SlidingAt (lookup : Nat → Option Row) (contiguous blockSize alignment bound i num : Nat) :
    Prop where
  le : i + num ≤ bound
  lt : num < contiguous
  aligned : num ≠ 0 → alignment ∣ (i + num) * blockSize
  run : ∀ j, i ≤ j → j < i + num → (lookup j).isSome
  above : ∀ m, i + num < m → m ≤ bound → alignment ∣ m * blockSize →
    ¬ WindowCached lookup contiguous m

namespace SlidingAt
variable {contiguous bound i num : Nat}

theorem start (hc : 0 < contiguous) :
    SlidingAt lookup contiguous blockSize alignment bound bound 0 :=
  ⟨le_refl _, hc, by simp, by omega, by omega⟩

theorem miss (h : SlidingAt lookup contiguous blockSize alignment bound (i + 1) num)
    (hi : lookup i = none) : SlidingAt lookup contiguous blockSize alignment bound i 0 := by
  have hle := h.le
  have hlt := h.lt
  refine ⟨by omega, by omega, by simp, by omega, fun m him hmb hma hw => ?_⟩
  by_cases hm : i + 1 + num < m
  · exact h.above m hm hmb hma hw
  · have := hw i him (by omega)
    simp [hi] at this

theorem skip (h : SlidingAt lookup contiguous blockSize alignment bound (i + 1) 0)
    (hi : ¬ alignment ∣ (i + 1) * blockSize) :
    SlidingAt lookup contiguous blockSize alignment bound i 0 := by
  have hle := h.le
  refine ⟨by omega, h.lt, by simp, by omega, fun m hm hmb hma => ?_⟩
  by_cases hm' : i + 1 + 0 < m
  · exact h.above m hm' hmb hma
  · obtain rfl : m = i + 1 := by omega
    exact absurd hma hi

section
variable (h : SlidingAt lookup contiguous blockSize alignment bound (i + 1) num)
include h

theorem aligned_end
    (hstart : ¬ (num = 0 ∧ blockSize ≠ alignment ∧ (i + 1) * blockSize % alignment ≠ 0)) :
    alignment ∣ (i + (num + 1)) * blockSize := dvd_of_start hstart h.aligned

theorem run_cons {row : Row}
    (hi : lookup i = some row) : ∀ j, i ≤ j → j < i + (num + 1) → (lookup j).isSome := by
  intro j hij hj
  rcases Nat.eq_or_lt_of_le hij with rfl | hij
  · simp [hi]
  · exact h.run j hij (by omega)

theorem hit {row : Row} (hi : lookup i = some row) (hend : alignment ∣ (i + (num + 1)) * blockSize)
    (hshort : num + 1 < contiguous) :
    SlidingAt lookup contiguous blockSize alignment bound i (num + 1) :=
  ⟨by have := h.le; omega, hshort, fun _ => hend, h.run_cons hi, fun m hm => h.above m (by omega)⟩

end

end SlidingAt

theorem slidingLoop_longest {contiguous i num bound : Nat} (hlen : rows.length = bound)
    (h : SlidingAt lookup contiguous blockSize alignment bound i num) :
    let result := slidingLoop lookup contiguous blockSize alignment i rows num
    IsLongest blockSize alignment bound (WindowCached lookup contiguous)
      (if result.2.2 then result.1 else result.1.take result.2.1).length := by
  induction i generalizing rows num with
  | zero =>
    obtain ⟨hle, hlt, hal, hrun, habove⟩ := h
    rw [Nat.zero_add] at hle hal
    simp only [slidingLoop, Bool.false_eq_true, if_false, length_take, hlen, Nat.min_eq_left hle]
    refine ⟨⟨hle, ?_, fun j hj _ => hrun j (Nat.zero_le j) (by omega)⟩, fun m hm => ?_⟩
    · by_cases h0 : num = 0
      · simp [h0]
      · exact hal h0
    · exact Nat.le_of_not_lt fun hlt' => habove m (by omega) hm.1 hm.2.1 hm.2.2
  | succ i ih =>
    have hle := h.le
    dsimp only
    rw [slidingLoop]
    split
    · next hnone => exact ih hlen (h.miss hnone)
    · next row hrow =>
      split
      · next hskip =>
        obtain ⟨rfl, -, hmod⟩ := hskip
        exact ih hlen (h.skip fun hma => hmod (Nat.mod_eq_zero_of_dvd hma))
      · next hstart =>
        have hend := h.aligned_end hstart
        split
        · next hmatch =>
          simp only [if_true, length_take, length_set, hlen]
          rw [Nat.min_eq_left (by omega)]
          refine ⟨⟨by omega, hend, fun j hj hw => h.run_cons hrow j (by omega) hj⟩, fun m hm => ?_⟩
          exact Nat.le_of_not_lt fun hlt' => h.above m (by omega) hm.1 hm.2.1 hm.2.2
        · next hshort => exact ih (by simpa using hlen) (h.hit hrow hend (by omega))

theorem scanned_longest {contiguous i num bound : Nat} (hlen : rows.length = bound)
    (h : SlidingAt lookup contiguous blockSize alignment bound i num) :
    IsLongest blockSize alignment bound (WindowCached lookup contiguous) (scanned blockSize alignment
      (slidingLoop lookup contiguous blockSize alignment i rows num)).length := by
  have hloop := slidingLoop_longest hlen h
  generalize slidingLoop lookup contiguous blockSize alignment i rows num = result at hloop ⊢
  obtain ⟨computed, num, found⟩ := result
  cases found with
  | true => exact hloop
  | false =>
    -- the run that reaches the first block is aligned already
    simp only [scanned, Bool.false_eq_true, if_false, length_popUnaligned] at hloop ⊢
    have hspec := alignedLength_spec blockSize alignment (computed.take num).length
    rwa [le_antisymm hspec.1 (hspec.2.2 _ (le_refl _) hloop.1.2.1)]

theorem slidingWindowHit_longest {numKeys window maxLength : Nat}
    (hkeys : maxLength / blockSize ≤ numKeys) (hpos : 0 < cdiv (window - 1) blockSize) :
    ∃ rows, slidingWindowHit lookup width numKeys blockSize window maxLength alignment false =
        .ok rows ∧
      IsLongest blockSize alignment (maxLength / blockSize)
        (WindowCached lookup (cdiv (window - 1) blockSize)) rows.length :=
  ⟨_, (slidingWindowHit_eq hkeys rfl).trans (if_neg (by simp)),
    scanned_longest (by simp) (SlidingAt.start hpos)⟩

theorem mambaLoop_longest (bound : Nat) :
    IsLongest blockSize alignment bound (fun m => 0 < m → (lookup (m - 1)).isSome)
      (mambaLoop lookup width blockSize alignment bound).length := by
  induction bound with
  | zero => exact ⟨by simp [mambaLoop], fun m hm => by simpa [mambaLoop] using hm.1⟩
  | succ i ih =>
    -- the hit does not end at block `i`
    have hbelow : ¬ (alignment ∣ (i + 1) * blockSize ∧ (lookup i).isSome) →
        IsLongest blockSize alignment (i + 1) (fun m => 0 < m → (lookup (m - 1)).isSome)
          (mambaLoop lookup width blockSize alignment i).length := by
      intro hno
      refine ⟨⟨ih.1.1.trans (Nat.le_succ i), ih.1.2⟩, fun m hm => ?_⟩
      rcases Nat.le_succ_iff.mp hm.1 with hle | rfl
      · exact ih.2 ⟨hle, hm.2⟩
      · exact absurd ⟨hm.2.1, hm.2.2 (Nat.succ_pos i)⟩ hno
    rw [mambaLoop]
    split
    · next hnone => exact hbelow (by simp [hnone])
    · next row hrow =>
      split
      · next hskip => exact hbelow fun h => hskip.2 (Nat.mod_eq_zero_of_dvd h.1)
      · next hend =>
        have hal := dvd_of_not_skipped hend
        simp only [length_append, length_replicate, length_cons, length_nil]
        exact ⟨⟨le_refl _, by simpa using hal, fun _ => by simp [hrow]⟩, fun m hm => hm.1⟩

end

/-! ## The bound the managers agree on -/

variable {spec : KVCacheSpec}

theorem findLongestCacheHit_longest {lookup : Nat → Option Row}
    {width numKeys maxLength alignment : Nat} (hspec : spec.Searchable)
    (hkeys : maxLength / spec.blockSize ≤ numKeys) (hdvd : spec.blockSize ∣ alignment) :
    ∃ rows, spec.findLongestCacheHit lookup width numKeys maxLength alignment false = .ok rows ∧
      IsGreatest {n | n ≤ maxLength ∧ alignment ∣ n ∧
        spec.HasHit (fun i => (lookup i).isSome) n} (rows.length * spec.blockSize) := by
  have hpos := spec.blockSize_pos
  -- from a number of blocks to a number of tokens
  have htokens : ∀ {has : Nat → Prop} {k : Nat},
      IsLongest spec.blockSize alignment (maxLength / spec.blockSize) has k →
      (∀ n, spec.HasHit (fun i => (lookup i).isSome) n ↔ has (n / spec.blockSize)) →
      IsGreatest {n | n ≤ maxLength ∧ alignment ∣ n ∧
        spec.HasHit (fun i => (lookup i).isSome) n} (k * spec.blockSize) := by
    intro has k hk hiff
    refine ⟨⟨?_, hk.1.2.1, ?_⟩, fun n hn => ?_⟩
    · exact (Nat.le_div_iff_mul_le hpos).mp hk.1.1
    · rw [hiff, Nat.mul_div_cancel _ hpos]
      exact hk.1.2.2
    · have hn' : n / spec.blockSize * spec.blockSize = n :=
        Nat.div_mul_cancel (Nat.dvd_trans hdvd hn.2.1)
      have hle : n / spec.blockSize ≤ k :=
        hk.2 ⟨Nat.div_le_div_right hn.1, hn'.symm ▸ hn.2.1, (hiff n).mp hn.2.2⟩
      calc n = n / spec.blockSize * spec.blockSize := hn'.symm
        _ ≤ k * spec.blockSize := Nat.mul_le_mul_right _ hle
  unfold KVCacheSpec.Searchable at hspec
  unfold KVCacheSpec.findLongestCacheHit
  rcases hatt : spec.attention with _ | window | chunk | num
  · exact ⟨_, rfl, htokens (fullAttentionHit_longest hkeys) fun n => by
      simp only [KVCacheSpec.HasHit, hatt]⟩
  · simp only [hatt] at hspec
    obtain ⟨rows, hrows, hlong⟩ := @slidingWindowHit_longest lookup width spec.blockSize alignment
      numKeys window maxLength hkeys (cdiv_pos (by omega) hpos)
    refine ⟨rows, hrows, htokens hlong fun n => ?_⟩
    simp only [KVCacheSpec.HasHit, hatt]
    refine forall_congr' fun i => imp_congr_right fun hi => imp_congr_left ?_
    omega
  · simp [hatt] at hspec
  · refine ⟨_, if_neg (Nat.not_lt.mpr hkeys), htokens (mambaLoop_longest _) fun n => ?_⟩
    simp only [KVCacheSpec.HasHit, hatt]

theorem HasHit_of_le (hfull : spec.isFullAttention = true) {cached : Nat → Prop} {m n : Nat}
    (hmn : m ≤ n) (h : spec.HasHit cached n) : spec.HasHit cached m := by
  have hatt : spec.attention = .fullAttention := by simpa [KVCacheSpec.isFullAttention] using hfull
  simp only [KVCacheSpec.HasHit, hatt] at h ⊢
  exact fun i hi => h i (lt_of_lt_of_le hi (Nat.div_le_div_right hmn))

section
variable {find : KVCacheSpec → List Nat → Nat → Except PyError (List Row)}
  {Hit : KVCacheSpec × List Nat → Nat → Prop} {alignment bound : Nat}

/-- What the search relies on: each lookup returns the longest hit of its groups that is not above
the length asked for, and full attention has every shorter hit as well. -/
structure LongestFind (find : KVCacheSpec → List Nat → Nat → Except PyError (List Row))
    (Hit : KVCacheSpec × List Nat → Nat → Prop) (alignment bound : Nat)
    (groups : List (KVCacheSpec × List Nat)) : Prop where
  longest : ∀ e ∈ groups, ∀ n ≤ bound, ∃ rows, find e.1 e.2 n = .ok rows ∧
    IsGreatest {m | m ≤ n ∧ alignment ∣ m ∧ Hit e m} (rows.length * e.1.blockSize)
  dvd : ∀ e ∈ groups, e.1.blockSize ∣ alignment
  down : ∀ e ∈ groups, e.1.isFullAttention = true → ∀ m n, m ≤ n → Hit e n → Hit e m

theorem LongestFind.tail {e : KVCacheSpec × List Nat} {groups : List (KVCacheSpec × List Nat)}
    (h : LongestFind find Hit alignment bound (e :: groups)) :
    LongestFind find Hit alignment bound groups :=
  ⟨fun e he => h.longest e (mem_cons_of_mem _ he),
    fun e he => h.dvd e (mem_cons_of_mem _ he),
    fun e he => h.down e (mem_cons_of_mem _ he)⟩

variable {n n' : Nat} {gs gs' : List AttentionGroup}

theorem LongestFind.head {g : AttentionGroup} {groups : List (KVCacheSpec × List Nat)}
    (h : LongestFind find Hit alignment bound (g.group :: groups)) (hn : n ≤ bound)
    {rows : List Row} (hrows : find g.spec g.groupIds n = .ok rows) :
    IsGreatest {m | m ≤ n ∧ alignment ∣ m ∧ Hit g.group m} (rows.length * g.spec.blockSize) := by
  obtain ⟨rows', hrows', hlong⟩ := h.longest g.group mem_cons_self n hn
  rw [group, hrows, Except.ok.injEq] at hrows'
  exact hrows' ▸ hlong

theorem hitPass_total (h : LongestFind find Hit alignment bound (gs.map group))
    (hn : n ≤ bound) : ∃ gs' n', hitPass find gs n = .ok (gs', n') := by
  induction gs generalizing n with
  | nil => exact ⟨[], n, rfl⟩
  | cons g gs ih =>
    rw [hitPass]
    split
    · obtain ⟨gs', n', hrest⟩ := ih h.tail ((Nat.div_mul_le_self n g.spec.blockSize).trans hn)
      exact ⟨g :: gs', n', by simp [hrest, bind, Except.bind, pure, Except.pure]⟩
    · obtain ⟨rows, hrows, hlong⟩ := h.longest g.group (by simp) n hn
      rw [group] at hrows
      obtain ⟨gs', n', hrest⟩ := ih h.tail (hlong.1.1.trans hn)
      rw [group] at hrest
      exact ⟨{ g with rows := some rows } :: gs', n', by
        simp [hrows, hrest, bind, Except.bind, pure, Except.pure]⟩

def AttentionGroup.Kept (Hit : KVCacheSpec × List Nat → Nat → Prop) (n : Nat)
    (g : AttentionGroup) : Prop :=
  ∀ rows, g.rows = some rows → n ≤ rows.length * g.spec.blockSize ∧
    Hit g.group (rows.length * g.spec.blockSize)

theorem HitPass.longest (h : HitPass find gs n gs' n')
    (hfind : LongestFind find Hit alignment bound (gs.map group)) (hn : n ≤ bound)
    (hkept : ∀ g ∈ gs, g.rows.isSome → alignment ∣ n ∧ (g.spec.isFullAttention → g.Kept Hit n)) :
    n' ≤ n ∧ (alignment ∣ n ∨ gs ≠ [] → alignment ∣ n') ∧
      (∀ m ≤ n, alignment ∣ m → (∀ g ∈ gs, Hit g.group m) → m ≤ n') ∧
      (n' = n → ∀ g ∈ gs, Hit g.group n) ∧
      ∀ g ∈ gs', ∃ rows, g.rows = some rows ∧ n' ≤ rows.length * g.spec.blockSize ∧
        Hit g.group (rows.length * g.spec.blockSize) ∧
        (g.spec.isFullAttention = false → rows.length * g.spec.blockSize ≤ n) := by
  induction h with
  | nil n => exact ⟨le_refl n, by simp, fun m hm _ _ => hm, by simp, by simp⟩
  | @keep g gs n gs' n' hfull hrows h ih =>
    obtain ⟨rows, hr⟩ := Option.isSome_iff_exists.mp hrows
    obtain ⟨hal, hk⟩ := hkept g (by simp) hrows
    obtain ⟨hle, hhit⟩ := hk hfull rows hr
    have heq : n / g.spec.blockSize * g.spec.blockSize = n :=
      Nat.div_mul_cancel (Nat.dvd_trans (hfind.dvd g.group (by simp)) hal)
    rw [heq] at ih
    obtain ⟨h1, h2, h3, h4, h5⟩ := ih hfind.tail hn fun g hg => hkept g (by simp [hg])
    refine ⟨h1, fun _ => h2 (.inl hal), fun m hm ha hall => ?_, fun he g' hg' => ?_,
      fun g' hg' => ?_⟩
    · exact h3 m hm ha fun g hg => hall g (by simp [hg])
    · rcases mem_cons.mp hg' with rfl | hg'
      · exact hfind.down _ (by simp) hfull _ _ hle hhit
      · exact h4 he g' hg'
    · rcases mem_cons.mp hg' with rfl | hg'
      · exact ⟨rows, hr, h1.trans hle, hhit, by simp [hfull]⟩
      · exact h5 g' hg'
  | @look g gs n gs' n' rows hnew hrows h ih =>
    have hlong := hfind.head hn hrows
    obtain ⟨hle, hal, hhit⟩ := hlong.1
    obtain ⟨h1, h2, h3, h4, h5⟩ := ih hfind.tail (hle.trans hn) fun g hg hs =>
      ⟨hal, fun hfull rows' hr => ⟨hle.trans ((hkept g (by simp [hg]) hs).2 hfull rows' hr).1,
        ((hkept g (by simp [hg]) hs).2 hfull rows' hr).2⟩⟩
    refine ⟨h1.trans hle, fun _ => h2 (.inl hal), fun m hm ha hall => ?_, fun he g' hg' => ?_,
      fun g' hg' => ?_⟩
    · exact h3 m (hlong.2 ⟨hm, ha, hall g (by simp)⟩) ha fun g hg => hall g (by simp [hg])
    · have heq : rows.length * g.spec.blockSize = n := le_antisymm hle (he ▸ h1)
      rcases mem_cons.mp hg' with rfl | hg'
      · exact heq ▸ hhit
      · exact heq ▸ h4 (he.trans heq.symm) g' hg'
    · rcases mem_cons.mp hg' with rfl | hg'
      · exact ⟨rows, rfl, h1, hhit, fun _ => hle⟩
      · obtain ⟨rows', hr, k1, k2, k3⟩ := h5 g' hg'
        exact ⟨rows', hr, k1, k2, fun hf => (k3 hf).trans hle⟩

theorem HitPass.getElem?_full (h : HitPass find gs n gs' n') (hrows : ∀ g ∈ gs, g.rows.isSome)
    {k : Nat} {g : AttentionGroup} (hk : gs'[k]? = some g) (hfull : g.spec.isFullAttention = true) :
    gs[k]? = some g := by
  induction h generalizing k with
  | nil => simp at hk
  | keep _ _ _ ih =>
    cases k with
    | zero => simpa using hk
    | succ k => simpa using ih (fun g hg => hrows g (by simp [hg])) (by simpa using hk)
  | look hnew _ _ ih =>
    cases k with
    | zero =>
      cases hk
      have := hrows _ mem_cons_self
      rw [hnew hfull] at this
      cases this
    | succ k => simpa using ih (fun g hg => hrows g (by simp [hg])) (by simpa using hk)

def FirstRows (Hit : KVCacheSpec × List Nat → Nat → Prop) (alignment bound : Nat)
    (gs : List AttentionGroup) : Prop :=
  ∀ k g, gs[k]? = some g → g.spec.isFullAttention = true → ∃ rows, g.rows = some rows ∧
    IsGreatest {m | m ≤ bound ∧ alignment ∣ m ∧
      ∀ e ∈ (gs.map group).take (k + 1), Hit e m} (rows.length * g.spec.blockSize)

abbrev FullFirst (gs : List AttentionGroup) : Prop :=
  gs.Pairwise fun g g' => g'.spec.isFullAttention = true → g.spec.isFullAttention = true

theorem HitPass.firstRows (h : HitPass find gs n gs' n')
    (hfind : LongestFind find Hit alignment bound (gs.map group)) (hn : n ≤ bound)
    (hrows : ∀ g ∈ gs, g.rows = none) (hsorted : FullFirst gs) :
    FirstRows Hit alignment n gs' := by
  induction h with
  | nil => simp [FirstRows]
  | keep _ hr => simp [hrows _ mem_cons_self] at hr
  | @look g gs n gs' n' rows hnew hfound h ih =>
    have hlong := hfind.head hn hfound
    obtain ⟨hle, hal, hhit⟩ := hlong.1
    obtain ⟨hfirst, hlater⟩ := pairwise_cons.mp hsorted
    have hih := ih hfind.tail (hle.trans hn) (fun g hg => hrows g (by simp [hg])) hlater
    intro k g' hk hfull
    cases k with
    | zero =>
      cases hk
      refine ⟨rows, rfl, ?_⟩
      simpa [group] using hlong
    | succ k =>
      obtain ⟨rows', hr, hgreat⟩ := hih k g' (by simpa using hk) hfull
      refine ⟨rows', hr, ?_⟩
      -- the head is full attention, so it has the shorter hit too
      obtain ⟨g₀, hg₀, hspec, -⟩ := exists_mem_of_group_eq h.group_eq (mem_of_getElem? hk)
      have hhead : g.spec.isFullAttention = true := hfirst g₀ hg₀ (hspec ▸ hfull)
      refine ⟨⟨hgreat.1.1.trans hle, hgreat.1.2.1, fun e he => ?_⟩, fun m hm => ?_⟩
      · rcases mem_cons.mp (by simpa using he) with rfl | he
        · exact hfind.down _ mem_cons_self hhead _ _ hgreat.1.1 hhit
        · exact hgreat.1.2.2 e he
      · obtain ⟨hm1, hm2, hm3⟩ := hm
        simp only [map_cons, take_succ_cons, mem_cons, forall_eq_or_imp] at hm3
        exact hgreat.2 ⟨hlong.2 ⟨hm1, hm2, hm3.1⟩, hm2, hm3.2⟩

/-- What the loop ends with: the longest common hit, the rows of exactly that length for every group
but full attention, and for full attention the rows of the first pass. -/
structure SearchEnd (Hit : KVCacheSpec × List Nat → Nat → Prop) (alignment bound : Nat)
    (groups : List (KVCacheSpec × List Nat)) (gs : List AttentionGroup) (n : Nat) : Prop where
  group_eq : gs.map group = groups
  greatest : IsGreatest {m | m ≤ bound ∧ alignment ∣ m ∧ ∀ e ∈ groups, Hit e m} n
  rows : ∀ g ∈ gs, ∃ rows, g.rows = some rows ∧ n ≤ rows.length * g.spec.blockSize ∧
    (g.spec.isFullAttention = false → rows.length * g.spec.blockSize = n)
  first : FirstRows Hit alignment bound gs

theorem SearchEnd.length_iff {groups : List (KVCacheSpec × List Nat)}
    (h : SearchEnd Hit alignment bound groups gs n) (hdvd : ∀ g ∈ gs, g.spec.blockSize ∣ n) :
    (∀ g ∈ truncateFirst n gs, (g.rows.getD []).length = n / g.spec.blockSize) ↔
      ∀ k g, 0 < k → gs[k]? = some g → g.spec.isFullAttention = true →
        IsGreatest {m | m ≤ bound ∧ alignment ∣ m ∧ ∀ e ∈ groups.take (k + 1), Hit e m} n := by
  have hlength : ∀ g : AttentionGroup, ∀ rows : List Row, rows.length * g.spec.blockSize = n →
      rows.length = n / g.spec.blockSize :=
    fun g rows he => by rw [← he, Nat.mul_div_cancel _ g.spec.blockSize_pos]
  obtain ⟨rfl, -, hrows, hfirst⟩ := h
  cases gs with
  | nil => simp [truncateFirst]
  | cons g₀ gs =>
    constructor
    · intro hall k g hk hg hfull
      obtain ⟨rows, hr, hgreat⟩ := hfirst k g hg hfull
      have hmem : g ∈ truncateFirst n (g₀ :: gs) := by
        obtain ⟨k, rfl⟩ := Nat.exists_eq_succ_of_ne_zero (Nat.pos_iff_ne_zero.mp hk)
        have : g ∈ gs := mem_of_getElem? (by simpa using hg)
        rw [truncateFirst]
        split <;> simp [this]
      have hlen := hall g hmem
      rw [hr, Option.getD_some] at hlen
      rwa [hlen, Nat.div_mul_cancel (hdvd g (mem_of_getElem? hg))] at hgreat
    · intro hall g hg
      have hlater : g ∈ gs → (g.rows.getD []).length = n / g.spec.blockSize := by
        intro hmem
        obtain ⟨rows, hr, -, hn⟩ := hrows g (by simp [hmem])
        rw [hr, Option.getD_some]
        cases hfull : g.spec.isFullAttention with
        | false => exact hlength g rows (hn hfull)
        | true =>
          obtain ⟨k, hk⟩ := mem_iff_getElem?.mp hmem
          obtain ⟨rows', hr', hgreat⟩ := hfirst (k + 1) g (by simpa using hk) hfull
          obtain rfl : rows' = rows := Option.some.inj (hr'.symm.trans hr)
          exact hlength g rows'
            (hgreat.unique (hall (k + 1) g (Nat.succ_pos k) (by simpa using hk) hfull))
      obtain ⟨rows, hr, hle, hn⟩ := hrows g₀ (by simp)
      rw [truncateFirst] at hg
      split at hg
      · rcases mem_cons.mp hg with rfl | hg
        · simp only [hr, Option.map_some, Option.getD_some, length_take]
          exact Nat.min_eq_left (Nat.div_le_of_le_mul (by rwa [Nat.mul_comm]))
        · exact hlater hg
      · next hnot =>
        rcases mem_cons.mp hg with rfl | hg
        · rw [hr, Option.getD_some]
          exact hlength g rows (hn (by simpa using hnot))
        · exact hlater hg

structure Searching (Hit : KVCacheSpec × List Nat → Nat → Prop) (alignment bound : Nat)
    (groups : List (KVCacheSpec × List Nat)) (gs : List AttentionGroup) (n : Nat) : Prop where
  group_eq : gs.map group = groups
  le : n ≤ bound
  dvd : alignment ∣ n
  below : ∀ m ≤ bound, alignment ∣ m → (∀ e ∈ groups, Hit e m) → m ≤ n
  rows : ∀ g ∈ gs, ∃ rows, g.rows = some rows ∧ n ≤ rows.length * g.spec.blockSize ∧
    Hit g.group (rows.length * g.spec.blockSize)
  first : FirstRows Hit alignment bound gs

/-- A pass takes the search one turn further, and ends it if the length stays. -/
theorem HitPass.next (h : HitPass find gs n gs' n')
    (hfind : LongestFind find Hit alignment bound (gs.map group)) (hn : n ≤ bound)
    (hkept : ∀ g ∈ gs, g.rows.isSome → alignment ∣ n ∧ (g.spec.isFullAttention → g.Kept Hit n))
    (hal : alignment ∣ n ∨ gs ≠ []) (hbelow : ∀ m ≤ bound, alignment ∣ m →
      (∀ e ∈ gs.map group, Hit e m) → m ≤ n)
    (hfirst : FirstRows Hit alignment bound gs') :
    n' ≤ n ∧ (n' = n → SearchEnd Hit alignment bound (gs.map group) gs' n) ∧
      Searching Hit alignment bound (gs.map group) gs' n' := by
  obtain ⟨h1, h2, h3, h4, h5⟩ := h.longest hfind hn hkept
  refine ⟨h1, fun he => ⟨h.group_eq, ⟨⟨hn, he ▸ h2 hal, fun e hmem => ?_⟩,
    fun m hm => hbelow m hm.1 hm.2.1 hm.2.2⟩, fun g hg => ?_, hfirst⟩,
    ⟨h.group_eq, h1.trans hn, h2 hal, fun m hm ha hall => ?_, fun g hg => ?_, hfirst⟩⟩
  · obtain ⟨g, hg, rfl⟩ := mem_map.mp hmem
    exact h4 he g hg
  · obtain ⟨rows, hr, k1, -, k3⟩ := h5 g hg
    exact ⟨rows, hr, he ▸ k1, fun hf => le_antisymm (k3 hf) (he ▸ k1)⟩
  · exact h3 m (hbelow m hm ha hall) ha fun g hg => hall _ (mem_map_of_mem hg)
  · obtain ⟨rows, hr, k1, k2, -⟩ := h5 g hg
    exact ⟨rows, hr, k1, k2⟩

variable {groups : List (KVCacheSpec × List Nat)}

section
variable (hfind : LongestFind find Hit alignment bound groups)
  (h : Searching Hit alignment bound groups gs n)
include hfind h

theorem Searching.pass (hpass : HitPass find gs n gs' n') :
    n' ≤ n ∧ (n' = n → SearchEnd Hit alignment bound groups gs' n) ∧
      Searching Hit alignment bound groups gs' n' := by
  obtain ⟨rfl, hle, hdvd, hbelow, hrows, hfirst⟩ := h
  have hsome : ∀ g ∈ gs, g.rows.isSome := fun g hg => by
    obtain ⟨rows, hr, -⟩ := hrows g hg
    simp [hr]
  refine hpass.next hfind hle (fun g hg _ => ⟨hdvd, fun _ rows hr => ?_⟩) (.inl hdvd) hbelow
    fun k g hk hfull => ?_
  · obtain ⟨rows', hr', k1, k2⟩ := hrows g hg
    obtain rfl : rows' = rows := Option.some.inj (hr'.symm.trans hr)
    exact ⟨k1, k2⟩
  · rw [hpass.group_eq]
    exact hfirst k g (hpass.getElem?_full hsome hk hfull) hfull

theorem hitLoop_searching :
    ∃ gs' n', hitLoop find false gs n = .ok (gs', n') ∧
      SearchEnd Hit alignment bound groups gs' n' := by
  induction n using Nat.strong_induction_on generalizing gs with
  | _ n ih =>
    obtain ⟨gs₁, n₁, hpass⟩ := hitPass_total (h.group_eq.symm ▸ hfind) h.le
    obtain ⟨h1, h2, h3⟩ := h.pass hfind (hitPass_ok hpass)
    rw [hitLoop, hpass]
    by_cases he : n₁ = n
    · exact ⟨gs₁, n, by simp [he], h2 he⟩
    · have hlt : n₁ < n := lt_of_le_of_ne h1 he
      obtain ⟨gs', n', hloop, hend⟩ := ih n₁ hlt h3
      exact ⟨gs', n', by simp [hlt, hloop], hend⟩

end

theorem HitPass.searching (h : HitPass find gs bound gs' n')
    (hfind : LongestFind find Hit alignment bound (gs.map group)) (hgs : gs ≠ [])
    (hrows : ∀ g ∈ gs, g.rows = none) (hsorted : FullFirst gs) :
    n' ≤ bound ∧
      (n' = bound → SearchEnd Hit alignment bound (gs.map group) gs' bound) ∧
      Searching Hit alignment bound (gs.map group) gs' n' := by
  refine h.next hfind (le_refl bound) (fun g hg hs => ?_) (.inr hgs) (fun m hm _ _ => hm)
    (h.firstRows hfind (le_refl bound) hrows hsorted)
  simp [hrows g hg] at hs

theorem HitPass.simpleHybrid {g₀ g₁ : AttentionGroup} (h : HitPass find [g₀, g₁] bound gs' n')
    (hfind : LongestFind find Hit alignment bound ([g₀, g₁].map group))
    (hrows : ∀ g ∈ [g₀, g₁], g.rows = none) (hfull : g₀.spec.isFullAttention = true)
    (hs : Searching Hit alignment bound ([g₀, g₁].map group) gs' n') :
    SearchEnd Hit alignment bound ([g₀, g₁].map group) gs' n' := by
  -- both groups are looked up, and the second lookup decides
  rcases h with _ | ⟨_, hr, _⟩ | ⟨_, hfind₀, h⟩
  · simp [hrows g₀ (by simp)] at hr
  rcases h with _ | ⟨_, hr, _⟩ | ⟨_, hfind₁, h⟩
  · simp [hrows g₁ (by simp)] at hr
  cases h
  next rows₀ rows₁ =>
  have hlong₀ := hfind.head (le_refl bound) hfind₀
  have hlong₁ := hfind.tail.head hlong₀.1.1 hfind₁
  refine ⟨hs.group_eq, ⟨⟨hs.le, hs.dvd, fun e he => ?_⟩, fun m hm => hs.below m hm.1 hm.2.1 hm.2.2⟩,
    fun g hg => ?_, hs.first⟩
  · simp only [map_cons, map_nil, mem_cons, not_mem_nil, or_false] at he
    rcases he with rfl | rfl
    · exact hfind.down _ (by simp) hfull _ _ hlong₁.1.1 hlong₀.1.2.2
    · exact hlong₁.1.2.2
  · obtain ⟨rows, hr, k1, -⟩ := hs.rows g hg
    refine ⟨rows, hr, k1, fun hf => ?_⟩
    simp only [mem_cons, not_mem_nil, or_false] at hg
    rcases hg with rfl | rfl
    · simp [hfull] at hf
    · cases hr
      rfl

theorem hitLoop_searchEnd
    (hfind : LongestFind find Hit alignment bound (gs.map group)) (hgs : gs ≠ [])
    (hrows : ∀ g ∈ gs, g.rows = none) (hsorted : FullFirst gs) :
    ∃ gs' n', hitLoop find (isSimpleHybrid gs) gs bound = .ok (gs', n') ∧
      SearchEnd Hit alignment bound (gs.map group) gs' n' := by
  obtain ⟨gs₁, n₁, hpass⟩ := hitPass_total hfind (le_refl bound)
  have hp := hitPass_ok hpass
  obtain ⟨h1, h2, h3⟩ := hp.searching hfind hgs hrows hsorted
  rw [hitLoop, hpass]
  by_cases he : n₁ = bound
  · exact ⟨gs₁, bound, by simp [he], h2 he⟩
  have hlt : ¬ n₁ ≥ bound := Nat.not_le.mpr (lt_of_le_of_ne h1 he)
  cases hsimple : isSimpleHybrid gs with
  | true =>
    simp only [isSimpleHybrid, Bool.and_eq_true, beq_iff_eq] at hsimple
    obtain ⟨g₀, g₁, rfl⟩ := length_eq_two.mp hsimple.1
    refine ⟨gs₁, n₁, by simp [hlt], hp.simpleHybrid hfind hrows ?_ h3⟩
    simpa using hsimple.2
  | false =>
    obtain ⟨gs', n', hloop, hend⟩ := hitLoop_searching hfind h3
    exact ⟨gs', n', by simp [hlt, hloop], hend⟩

end

/-! ## The attention groups -/

section
variable {groups : List KVCacheSpec}

theorem map_spec_addGroup (gs : List AttentionGroup) (spec : KVCacheSpec) (i : Nat) :
    (addGroup gs (spec, i)).map (·.spec) =
      if spec ∈ gs.map (·.spec) then gs.map (·.spec) else gs.map (·.spec) ++ [spec] := by
  induction gs with
  | nil => simp [addGroup]
  | cons g gs ih =>
    rw [addGroup]
    by_cases h : g.spec = spec
    · simp [h]
    · have h' : ¬ spec = g.spec := fun e => h e.symm
      simp only [if_neg h, map_cons, ih, mem_cons, h', false_or]
      split <;> simp

theorem nodup_attentionGroups (groups : List KVCacheSpec) :
    ((attentionGroups groups).map (·.spec)).Nodup := by
  rw [(attentionGroups_perm.map _).nodup_iff]
  refine foldlRecOn (b := []) (motive := fun gs => (gs.map (·.spec)).Nodup) groups.zipIdx addGroup
    nodup_nil fun gs h e _ => ?_
  rw [map_spec_addGroup]
  split
  · exact h
  · next hn =>
    refine nodup_append.mpr ⟨h, nodup_singleton _, ?_⟩
    rintro a ha b hb rfl
    rw [mem_singleton] at hb
    exact hn (hb ▸ ha)

theorem attentionGroups_sorted (groups : List KVCacheSpec) :
    (attentionGroups groups).Pairwise fun g g' => g'.spec.isFullAttention = true →
      g.spec.isFullAttention = true := by
  refine pairwise_append.mpr ⟨?_, ?_, ?_⟩
  · exact pairwise_of_forall_mem_list fun a ha _ _ _ => (mem_filter.mp ha).2
  · refine pairwise_of_forall_mem_list fun _ _ b hb hf => ?_
    simp [hf] at hb
  · intro a ha b _ _
    exact (mem_filter.mp ha).2

end

theorem hasHit_forall {ids : List Nat} {cached : Nat → Nat → Prop} {n : Nat} :
    spec.HasHit (fun i => ∀ g ∈ ids, cached g i) n ↔ ∀ g ∈ ids, spec.HasHit (cached g) n := by
  unfold KVCacheSpec.HasHit
  cases spec.attention with
  | fullAttention => exact ⟨fun h g hg i hi => h i hi g hg, fun h i hi g hg => h g hg i hi⟩
  | slidingWindow _ | chunkedLocalAttention _ =>
    exact ⟨fun h g hg i hi hw => h i hi hw g hg, fun h i hi hw g hg => h g hg i hi hw⟩
  | mamba _ => exact ⟨fun h g hg hn => h hn g hg, fun h hn g hg => h g hg hn⟩

namespace KVCacheConfig
variable {D : Type} [DecidableEq D] (cfg : KVCacheConfig) (p : BlockPool (BlockKey D))
  (blockHashes : List D)

def Cached (spec : KVCacheSpec) (g i : Nat) : Prop :=
  (p.cachedBlockHashToBlock.getOneBlock (cfg.blockKey spec blockHashes i, g)).isSome

def Reusable (among : Nat → Prop) (n : Nat) : Prop :=
  lcmBlockSize cfg.groups ∣ n ∧ ∀ g spec, among g → cfg.groups[g]? = some spec →
    spec.HasHit (cfg.Cached p blockHashes spec g) n

def LongestHit (among : Nat → Prop) (maxLength n : Nat) : Prop :=
  IsGreatest {m | m ≤ maxLength ∧ cfg.Reusable p blockHashes among m} n

variable {cfg p blockHashes}

theorem isSome_lookup {spec : KVCacheSpec} {ids : List Nat} {i : Nat} :
    (cfg.lookup p blockHashes spec ids i).isSome ↔ ∀ g ∈ ids, cfg.Cached p blockHashes spec g i :=
  getCachedBlock_isSome

variable (cfg p blockHashes) in
def SpecHit (e : KVCacheSpec × List Nat) (n : Nat) : Prop :=
  e.1.HasHit (fun i => (cfg.lookup p blockHashes e.1 e.2 i).isSome) n

variable {n maxLength : Nat}

theorem specHit_iff {e : KVCacheSpec × List Nat} :
    cfg.SpecHit p blockHashes e n ↔ ∀ g ∈ e.2, e.1.HasHit (cfg.Cached p blockHashes e.1 g) n := by
  unfold SpecHit
  simp only [isSome_lookup]
  exact hasHit_forall

theorem reusable_iff {as : List AttentionGroup} (has : ∀ a ∈ as, a ∈ attentionGroups cfg.groups) :
    cfg.Reusable p blockHashes (fun g => ∃ a ∈ as, g ∈ a.groupIds) n ↔
      lcmBlockSize cfg.groups ∣ n ∧ ∀ e ∈ as.map group, cfg.SpecHit p blockHashes e n := by
  refine and_congr_right fun _ => ?_
  simp only [forall_mem_map, specHit_iff, group]
  constructor
  · intro h a ha g hg
    exact h g a.spec ⟨a, ha, hg⟩ (exists_mem_attentionGroups.mp ⟨a, has a ha, rfl, hg⟩)
  · rintro h g spec ⟨a, ha, hg⟩ hspec
    have := exists_mem_attentionGroups.mp ⟨a, has a ha, rfl, hg⟩
    rw [hspec, Option.some.injEq] at this
    exact this ▸ h a ha g hg

theorem longestFind (hsearch : ∀ spec ∈ cfg.groups, spec.Searchable) (heagle : cfg.useEagle = false)
    (hcaching : cfg.enableCaching = true)
    (hcover : maxLength / cfg.hashBlockSize ≤ blockHashes.length) :
    LongestFind (cfg.findHit p blockHashes (lcmBlockSize cfg.groups)) (cfg.SpecHit p blockHashes)
      (lcmBlockSize cfg.groups) maxLength
      ((attentionGroups cfg.groups).map group) := by
  have hmem : ∀ a ∈ attentionGroups cfg.groups, a.spec ∈ cfg.groups := by
    intro a ha
    obtain ⟨g, hg⟩ := exists_mem_of_ne_nil _ (groupIds_ne_nil a ha)
    exact mem_of_getElem? (exists_mem_attentionGroups.mp ⟨a, ha, rfl, hg⟩)
  refine ⟨fun e he n hn => ?_, fun e he => ?_, fun e _ hfull m n hmn h => HasHit_of_le hfull hmn h⟩
  · obtain ⟨a, ha, rfl⟩ := mem_map.mp he
    obtain ⟨scale, hscale⟩ := cfg.hashBlockSize_dvd hcaching a.spec (hmem a ha)
    have hkeys : n / a.spec.blockSize ≤ cfg.numKeys a.spec blockHashes := by
      rw [numKeys, scaleFactor, hscale, Nat.mul_div_cancel_left _ cfg.hashBlockSize_pos,
        ← Nat.div_div_eq_div_mul]
      exact Nat.div_le_div_right ((Nat.div_le_div_right hn).trans hcover)
    simp only [findHit, heagle]
    exact findLongestCacheHit_longest (hsearch _ (hmem a ha)) hkeys (blockSize_dvd_lcmBlockSize ha)
  · obtain ⟨a, ha, rfl⟩ := mem_map.mp he
    exact blockSize_dvd_lcmBlockSize ha

/-- The lists of the KV cache groups have the final length exactly if the rows of the attention
groups have it. -/
theorem length_blocksOfGroup_iff {gs : List AttentionGroup}
    (h : gs.map group = (attentionGroups cfg.groups).map group) :
    (∀ g spec, cfg.groups[g]? = some spec → (blocksOfGroup gs g).length = n / spec.blockSize) ↔
      ∀ a ∈ gs, (a.rows.getD []).length = n / a.spec.blockSize := by
  constructor
  · intro hall a ha
    obtain ⟨a₀, ha₀, he1, -⟩ := exists_mem_of_group_eq h ha
    obtain ⟨g, hg⟩ := exists_mem_of_ne_nil _ (groupIds_ne_nil a₀ ha₀)
    have hspec := exists_mem_attentionGroups.mp ⟨a₀, ha₀, he1, hg⟩
    obtain ⟨a', ha', hs, -, hblocks⟩ := blocksOfGroup_eq h g a.spec hspec
    -- specs are distinct, so the group found is `a`
    have hnodup : (gs.map (·.spec)).Nodup := by
      have := congrArg (List.map Prod.fst) h
      simp only [List.map_map] at this
      change gs.map (·.spec) = (attentionGroups cfg.groups).map (·.spec) at this
      exact this ▸ nodup_attentionGroups cfg.groups
    obtain rfl := inj_on_of_nodup_map hnodup ha' ha hs
    simpa [hblocks] using hall g a'.spec hspec
  · intro hall g spec hspec
    obtain ⟨a, ha, rfl, -, hblocks⟩ := blocksOfGroup_eq h g spec hspec
    rw [hblocks, length_map]
    exact hall a ha

theorem longestHit_all_iff :
    cfg.LongestHit p blockHashes (fun _ => True) maxLength n ↔
      IsGreatest {m | m ≤ maxLength ∧ lcmBlockSize cfg.groups ∣ m ∧
        ∀ e ∈ (attentionGroups cfg.groups).map group, cfg.SpecHit p blockHashes e m} n := by
  have hall : ∀ m, cfg.Reusable p blockHashes (fun _ => True) m ↔ lcmBlockSize cfg.groups ∣ m ∧
      ∀ e ∈ (attentionGroups cfg.groups).map group,
        cfg.SpecHit p blockHashes e m := by
    intro m
    refine Iff.trans ?_ (reusable_iff fun a ha => ha)
    refine and_congr_right fun _ => forall₂_congr fun g spec => ?_
    refine ⟨fun h _ hs => h trivial hs, fun h _ hs => h ?_ hs⟩
    obtain ⟨a, ha, -, hg⟩ := exists_mem_attentionGroups.mpr hs
    exact ⟨a, ha, hg⟩
  simp only [LongestHit, hall]

theorem longestHit_take_iff {k : Nat} :
    cfg.LongestHit p blockHashes
        (fun g => ∃ a ∈ (attentionGroups cfg.groups).take k, g ∈ a.groupIds) maxLength n ↔
      IsGreatest {m | m ≤ maxLength ∧ lcmBlockSize cfg.groups ∣ m ∧
        ∀ e ∈ ((attentionGroups cfg.groups).map group).take k,
          cfg.SpecHit p blockHashes e m} n := by
  have htake : ∀ m, cfg.Reusable p blockHashes
      (fun g => ∃ a ∈ (attentionGroups cfg.groups).take k, g ∈ a.groupIds) m ↔ _ :=
    fun m => reusable_iff fun a ha => mem_of_mem_take ha
  simp only [LongestHit, htake, map_take]

/-- The search of a hybrid model ends with the longest hit of all groups. Every list it returns has
exactly the length of the hit if and only if, for each full attention spec but the first, the specs
up to it had no longer hit among themselves. -/
theorem hybridHit_longest_iff (hsearch : ∀ spec ∈ cfg.groups, spec.Searchable)
    (heagle : cfg.useEagle = false) (hcaching : cfg.enableCaching = true)
    (hgroups : cfg.groups.length ≠ 1) {maxLength : Nat}
    (hcover : maxLength / cfg.hashBlockSize ≤ blockHashes.length) :
    ∃ blocks n, cfg.hybridHit p blockHashes maxLength = .ok (blocks, n) ∧
      blocks.length = cfg.groups.length ∧
      cfg.LongestHit p blockHashes (fun _ => True) maxLength n ∧
      ((∀ g spec, cfg.groups[g]? = some spec →
          (blocks.getD g []).length = n / spec.blockSize) ↔
        ∀ k a, 0 < k → (attentionGroups cfg.groups)[k]? = some a →
          a.spec.isFullAttention = true → cfg.LongestHit p blockHashes
            (fun g => ∃ a ∈ (attentionGroups cfg.groups).take (k + 1), g ∈ a.groupIds)
            maxLength n) := by
  have hne : attentionGroups cfg.groups ≠ [] := fun hnil => by
    have := cfg.hybrid hcaching hgroups
    simp [hnil] at this
  obtain ⟨gs, n, hloop, hend⟩ := hitLoop_searchEnd
    (longestFind (p := p) hsearch heagle hcaching hcover) hne mem_attentionGroups_rows
    (attentionGroups_sorted cfg.groups)
  have hsame := (truncateFirst_group n gs).trans hend.group_eq
  have hdvd : ∀ a ∈ gs, a.spec.blockSize ∣ n := fun a ha =>
    Nat.dvd_trans (blockSize_dvd_of_group hend.group_eq ha) hend.greatest.1.2.1
  refine ⟨_, n, by rw [hybridHit, hloop]; rfl, by simp, longestHit_all_iff.mpr hend.greatest, ?_⟩
  refine Iff.trans (forall₂_congr fun g spec => imp_congr_right fun hs => ?_)
    ((length_blocksOfGroup_iff hsame).trans ((hend.length_iff hdvd).trans ?_))
  · rw [getD_blocksOfGroup _ hs]
  · -- the groups at one place differ in their rows only
    have hplace : ∀ {as bs : List AttentionGroup} {k : Nat} {a : AttentionGroup},
        as.map group = bs.map group → as[k]? = some a →
        ∃ b, bs[k]? = some b ∧ b.spec = a.spec := by
      intro as bs k a hab ha
      have := congrArg (·[k]?) hab
      rw [getElem?_map, getElem?_map, ha] at this
      obtain ⟨b, hb, he⟩ := Option.map_eq_some_iff.mp this.symm
      exact ⟨b, hb, congrArg Prod.fst he⟩
    constructor
    · intro h k a hk ha hfull
      obtain ⟨b, hb, hs⟩ := hplace hend.group_eq.symm ha
      exact longestHit_take_iff.mpr (h k b hk hb (hs ▸ hfull))
    · intro h k a hk ha hfull
      obtain ⟨b, hb, hs⟩ := hplace hend.group_eq ha
      exact longestHit_take_iff.mp (h k b hk hb (hs ▸ hfull))

end KVCacheConfig

/-- Two full attention specs and a sliding window of two tokens, with blocks of one token. -/
def twoFullOneSliding : KVCacheConfig where
  groups := [{ blockSize := 1, attention := .fullAttention },
    { blockSize := 1, attention := .fullAttention, layout := 1 },
    { blockSize := 1, attention := .slidingWindow 2 }]
  hashBlockSize := 1
  numBlocks := 8
  maxModelLen := 8

def twoFullOneSlidingPool : BlockPool (BlockKey Nat) :=
  (((((BlockPool.new 8 true).publish 1 ([0], 0)).publish 2 ([1], 0)).publish 3 ([0], 1)).publish 4
    ([1], 1)).publish 5 ([0], 2)

theorem hybridHit_longest_iff_twoFull :
    ∃ blocks n, twoFullOneSliding.hybridHit twoFullOneSlidingPool [0, 1] 2 = .ok (blocks, n) ∧
      twoFullOneSliding.LongestHit twoFullOneSlidingPool [0, 1] (fun _ => True) 2 n := by
  obtain ⟨blocks, n, h, -, hlong, -⟩ := @KVCacheConfig.hybridHit_longest_iff Nat _
    twoFullOneSliding twoFullOneSlidingPool [0, 1]
    (by simp [twoFullOneSliding, KVCacheSpec.Searchable]) rfl rfl (by decide) 2 (by decide)
  exact ⟨blocks, n, h, hlong⟩

/-- The sliding window shortens the hit to one token at the end of the first pass, and the list of
the second full attention spec keeps its two blocks. -/
theorem hybridHit_list_too_long :
    ∃ blocks n spec, twoFullOneSliding.hybridHit twoFullOneSlidingPool [0, 1] 2 =
        .ok (blocks, n) ∧
      twoFullOneSliding.groups[1]? = some spec ∧
      (blocks.getD 1 []).length ≠ n / spec.blockSize :=
  ⟨[[1], [3, 4], [5]], 1, _, by decide +kernel, rfl, by decide⟩

end Vllm
