import Vllm.Eplb.Matching

/-! After the exchange every row has the weights of its new expert, in whatever order the transfers
arrive: a transfer writes the weights of the expert that its row is to have. -/

namespace Vllm.Eplb
open Base List

namespace Layout
variable {ly : Layout} {rank a b row : Nat} {e : Int}

/-! ## The operations that are posted -/

variable {α β : Type} {xs : List α}

theorem mapM_eq_ok {f : α → Except PyError β} {g : α → β}
    (h : ∀ x ∈ xs, f x = .ok (g x)) : xs.mapM f = .ok (xs.map g) := by
  induction xs with
  | nil => rfl
  | cons x xs ih =>
    rw [mapM_cons, h x mem_cons_self, ih fun y hy => h y (mem_cons_of_mem _ hy)]
    rfl

theorem index_eq {x : Nat} {xs : List Nat} (h : x ∈ xs) : index x xs = .ok (xs.idxOf x) := if_pos h

def served (ly : Layout) (rank : Nat) (e : Int) : List Nat :=
  recvRanks (ly.senders e) (ly.takers e) ((ly.senders e).idxOf rank)

def source (ly : Layout) (rank : Nat) (e : Int) : Option Nat :=
  sendRank (ly.senders e) (ly.takers e) ((ly.takers e).idxOf rank)

theorem item_maps {entries : List (Int × Nat)} (he : e ∈ entries.map Prod.fst) :
    item (ly.mapsFor entries).1 e = .ok (ly.senders e) ∧ item (ly.mapsFor entries).2 e = .ok (ly.takers e) := by
  obtain ⟨hsend, hrecv⟩ := @getEpRanksWithExpertsBatch_eq ly.numLocalExperts (entries.map Prod.fst) e
    ly.oldIndices ly.newIndices he
  unfold item mapsFor
  rw [hsend, hrecv]
  exact ⟨rfl, rfl⟩

variable {x : Int × Nat}

theorem postSends_eq (hrank : rank < ly.epSize) (hx : x ∈ ly.sendEntries rank) :
    ly.postSends rank (ly.mapsFor (ly.sendEntries rank)) x =
      .ok ((ly.served rank x.1).flatMap (ly.opsFor .isend x.2)) := by
  have hkey : x.1 ∈ (ly.sendEntries rank).map Prod.fst := mem_map.mpr ⟨x, hx, rfl⟩
  obtain ⟨hsend, hrecv⟩ := item_maps hkey
  have hmem : rank ∈ ly.senders x.1 := ((mem_sendKeys hrank).mp hkey).2
  unfold postSends
  rw [hsend, hrecv]
  change (if _ then _ else _) = _
  split
  · next hnone =>
    -- nobody takes the expert
    have htakers : ly.takers x.1 = [] := hnone.resolve_left (ne_nil_of_mem hmem)
    have hserved : ly.served rank x.1 = [] :=
      eq_nil_iff_forall_not_mem.mpr fun b hb => by
        have hin := recvRanks_subset hb
        rw [htakers] at hin
        cases hin
    rw [hserved]
    rfl
  · rw [index_eq hmem]
    rfl

def Sourced (ly : Layout) : Prop := ∀ e ∈ ly.newIndices, e ≠ -1 → e ∈ ly.oldIndices

instance : Decidable ly.Sourced := by
  unfold Sourced
  infer_instance

theorem senders_ne_nil (hsourced : ly.Sourced) (hne : e ≠ -1) (hmem : rank ∈ ly.takers e) :
    ly.senders e ≠ [] := by
  obtain ⟨p, hp, -⟩ := mem_holders.mp (mem_filter.mp hmem).1
  obtain ⟨p', hp'⟩ := mem_iff_getElem?.mp (hsourced e (mem_of_getElem? hp) hne)
  exact ne_nil_of_mem (mem_holders.mpr ⟨p', hp', rfl⟩)

theorem source_eq_some (hsenders : ly.senders e ≠ []) (hmem : rank ∈ ly.takers e) :
    ∃ src ∈ ly.senders e, ly.source rank e = some src := by
  have hpos : 0 < (ly.senders e).length := length_pos_of_ne_nil hsenders
  have hlt := owner_lt hpos (idxOf_lt_length_of_mem hmem)
  unfold source
  rw [sendRank_eq, getElem?_eq_getElem hlt]
  exact ⟨_, getElem_mem hlt, rfl⟩

theorem postRecvs_eq (hrank : rank < ly.epSize) (hsourced : ly.Sourced)
    (hx : x ∈ ly.recvEntries rank) : ly.postRecvs rank (ly.mapsFor (ly.recvEntries rank)) x =
      .ok ((ly.source rank x.1).toList.flatMap (ly.opsFor .irecv x.2)) := by
  have hkey : x.1 ∈ (ly.recvEntries rank).map Prod.fst := mem_map.mpr ⟨x, hx, rfl⟩
  obtain ⟨hsend, hrecv⟩ := item_maps hkey
  obtain ⟨hne, hmem⟩ := (mem_recvKeys hrank).mp hkey
  have hsenders := senders_ne_nil hsourced hne hmem
  obtain ⟨src, -, hsource⟩ := source_eq_some hsenders hmem
  unfold postRecvs
  rw [hsend, hrecv]
  change (if _ then _ else _) = _
  rw [if_neg (not_or.mpr ⟨hsenders, ne_nil_of_mem hmem⟩), index_eq hmem, hsource]
  unfold source at hsource
  simp only [bind, Except.bind]
  rw [hsource, Option.toList_some, flatMap_singleton]
  rfl

def posts (ly : Layout) (rank : Nat) : List P2POp :=
  (ly.sendEntries rank).flatMap (fun x => (ly.served rank x.1).flatMap (ly.opsFor .isend x.2)) ++
    (ly.recvEntries rank).flatMap fun x => (ly.source rank x.1).toList.flatMap (ly.opsFor .irecv x.2)

theorem p2pOps_eq (hrank : rank < ly.epSize) (hsourced : ly.Sourced) : ly.p2pOps rank = .ok (ly.posts rank) := by
  have hsend : byExpert (ly.sendEntries rank) = ly.sendEntries rank := byExpert_eq firstRows_sorted
  have hrecv : byExpert (ly.recvEntries rank) = ly.recvEntries rank := byExpert_eq firstRows_sorted
  unfold p2pOps
  rw [hsend, hrecv, mapM_eq_ok fun x hx => postSends_eq hrank hx,
    mapM_eq_ok fun x hx => postRecvs_eq hrank hsourced hx]
  rfl

/-! ## Sends and receives agree -/

variable {kind : P2PKind} {peers : List Nat} {peer : Nat}

theorem filter_opsFor {kind' : P2PKind} :
    (peers.flatMap (ly.opsFor kind row)).filter (fun op => op.kind = kind' ∧ op.peer = peer) =
      if kind = kind' then (peers.filter (· = peer)).flatMap (ly.opsFor kind row) else [] := by
  induction peers with
  | nil => simp
  | cons p peers ih =>
    have hone : (ly.opsFor kind row p).filter (fun op => op.kind = kind' ∧ op.peer = peer) =
        if kind = kind' ∧ p = peer then ly.opsFor kind row p else [] := by
      unfold opsFor
      rw [filter_map]
      split
      · next h => rw [filter_eq_self.mpr fun _ _ => by simp [h]]
      · next h => rw [filter_eq_nil_iff.mpr fun _ _ => by simpa using h, map_nil]
    rw [flatMap_cons, filter_append, hone, ih]
    by_cases hk : kind = kind' <;> by_cases hp : p = peer <;> simp [hk, hp]

theorem filter_nodup (h : peers.Nodup) (peer : Nat) :
    peers.filter (· = peer) = if peer ∈ peers then [peer] else [] := by
  induction peers with
  | nil => rfl
  | cons p peers ih =>
    obtain ⟨hout, h⟩ := nodup_cons.mp h
    rw [filter_cons, ih h]
    by_cases hp : p = peer
    · subst hp
      simp [hout]
    · simp [hp, Ne.symm hp]

theorem filter_flatMap_of_turn {f g : α → List β} {p : β → Bool} {c : α → Bool}
    (h : ∀ x ∈ xs, (f x).filter p = if c x then g x else []) :
    (xs.flatMap f).filter p = (xs.filter c).flatMap g := by
  induction xs with
  | nil => rfl
  | cons x xs ih =>
    obtain ⟨hx, hxs⟩ := forall_mem_cons.mp h
    rw [flatMap_cons, filter_append, hx, ih hxs, filter_cons]
    split <;> simp

theorem sendsTo_eq (ha : a < ly.epSize) : sendsTo ly.posts a b =
    ((ly.sendEntries a).filter (b ∈ ly.served a ·.1)).flatMap fun x => ly.opsFor .isend x.2 b := by
  unfold sendsTo posts
  rw [filter_append]
  have hrecvs : ((ly.recvEntries a).flatMap fun x =>
      (ly.source a x.1).toList.flatMap (ly.opsFor .irecv x.2)).filter
        (fun op => op.kind = .isend ∧ op.peer = b) = [] := by
    rw [filter_flatMap, flatMap_eq_nil_iff]
    intro x _
    rw [filter_opsFor, if_neg nofun]
  rw [hrecvs, append_nil]
  refine filter_flatMap_of_turn fun x hx => ?_
  have hmem : a ∈ ly.senders x.1 := ((mem_sendKeys ha).mp (mem_map.mpr ⟨x, hx, rfl⟩)).2
  have hnodup : (ly.served a x.1).Nodup :=
    nodup_recvRanks nodup_takers (idxOf_lt_length_of_mem hmem)
  rw [filter_opsFor, if_pos rfl, filter_nodup hnodup]
  simp only [decide_eq_true_eq]
  split <;> simp

theorem recvsFrom_eq : recvsFrom ly.posts b a =
    ((ly.recvEntries b).filter (ly.source b ·.1 = some a)).flatMap fun x => ly.opsFor .irecv x.2 a := by
  unfold recvsFrom posts
  rw [filter_append]
  have hsends : ((ly.sendEntries b).flatMap fun x =>
      (ly.served b x.1).flatMap (ly.opsFor .isend x.2)).filter
        (fun op => op.kind = .irecv ∧ op.peer = a) = [] := by
    rw [filter_flatMap, flatMap_eq_nil_iff]
    intro x _
    rw [filter_opsFor, if_neg nofun]
  rw [hsends]
  refine filter_flatMap_of_turn fun x _ => ?_
  rw [filter_opsFor]
  cases hsource : ly.source b x.1 with
  | none => simp
  | some src => by_cases hsrc : src = a <;> simp [hsrc]

theorem of_mem_sendEntries (hx : x ∈ ly.sendEntries rank) :
    x.2 < ly.numLocalExperts ∧ ly.oldLocal rank x.2 = x.1 := by
  obtain ⟨hin, hexpert⟩ := of_mem_firstRows hx
  exact ⟨mem_localRows.mp (mem_filter.mp hin).1, hexpert⟩

theorem of_mem_recvEntries (hx : x ∈ ly.recvEntries rank) :
    x.2 < ly.numLocalExperts ∧ ly.newLocal rank x.2 = x.1 ∧ ly.isReceivedLocally rank x.2 = false := by
  obtain ⟨hin, hexpert⟩ := of_mem_firstRows hx
  obtain ⟨hrow, hneed⟩ := mem_filter.mp hin
  simp only [Bool.and_eq_true, Bool.not_eq_true'] at hneed
  exact ⟨mem_localRows.mp hrow, hexpert, hneed.1⟩

theorem experts_agree (ha : a < ly.epSize) (hb : b < ly.epSize) (hsourced : ly.Sourced) :
    ((ly.sendEntries a).filter (b ∈ ly.served a ·.1)).map Prod.fst =
      ((ly.recvEntries b).filter (ly.source b ·.1 = some a)).map Prod.fst := by
  have hasc : ∀ {experts : Nat → Int} {rows : List Nat} {p : Int × Nat → Bool},
      (((firstRows experts rows).filter p).map Prod.fst).Pairwise (· < ·) :=
    pairwise_map.mpr (firstRows_sorted.filter _)
  have hmem : ∀ {l : List (Int × Nat)} {p : Int → Prop} [DecidablePred p] {e : Int},
      e ∈ (l.filter (p ·.1)).map Prod.fst ↔ e ∈ l.map Prod.fst ∧ p e := by
    intro l p _ e
    simp only [mem_map, mem_filter, decide_eq_true_eq]
    constructor
    · rintro ⟨x, ⟨hx, hp⟩, rfl⟩
      exact ⟨⟨x, hx, rfl⟩, hp⟩
    · rintro ⟨⟨x, hx, rfl⟩, hp⟩
      exact ⟨x, ⟨hx, hp⟩, rfl⟩
  refine eq_of_ascending hasc hasc fun e => ?_
  rw [hmem (p := fun e => b ∈ ly.served a e), hmem (p := fun e => ly.source b e = some a), mem_sendKeys ha,
    mem_recvKeys hb]
  constructor
  · rintro ⟨⟨hne, hsender⟩, hserved⟩
    have htaker := recvRanks_subset hserved
    exact ⟨⟨hne, htaker⟩, (mem_recvRanks_iff nodup_senders nodup_takers hsender htaker).mp hserved⟩
  · rintro ⟨⟨hne, htaker⟩, hsource⟩
    obtain ⟨src, hsender, heq⟩ := source_eq_some (senders_ne_nil hsourced hne htaker) htaker
    obtain rfl := Option.some.inj (heq.symm.trans hsource)
    exact ⟨⟨hne, hsender⟩, (mem_recvRanks_iff nodup_senders nodup_takers hsender htaker).mpr hsource⟩

def sent (ly : Layout) (rank : Nat) (op : P2POp) : Int × Nat := (ly.oldLocal rank op.row, op.tensor)

def received (ly : Layout) (rank : Nat) (op : P2POp) : Int × Nat := (ly.newLocal rank op.row, op.tensor)

theorem map_opsFor {experts : Nat → Int} {xs : List (Int × Nat)} (h : ∀ x ∈ xs, experts x.2 = x.1) :
    (xs.flatMap fun x => ly.opsFor kind x.2 peer).map (fun op => (experts op.row, op.tensor)) =
      (xs.map Prod.fst).flatMap fun e => (List.range ly.numTensors).map (e, ·) := by
  rw [map_flatMap, flatMap_map]
  refine flatMap_congr fun x hx => ?_
  unfold opsFor
  rw [List.map_map, ← h x hx]
  rfl

theorem posts_agree (ha : a < ly.epSize) (hb : b < ly.epSize) (hsourced : ly.Sourced) :
    (sendsTo ly.posts a b).map (ly.sent a) = (recvsFrom ly.posts b a).map (ly.received b) := by
  rw [sendsTo_eq ha, recvsFrom_eq]
  unfold sent received
  rw [map_opsFor fun x hx => (of_mem_sendEntries (mem_filter.mp hx).1).2,
    map_opsFor fun x hx => (of_mem_recvEntries (mem_filter.mp hx).1).2.1, experts_agree ha hb hsourced]

/-! ## What a row holds -/

section
variable {W : Type} {weights : Nat → Tensors W} {expertWeights : Int → Nat → W} {t : Nat}

def Holds (ly : Layout) (weights : Nat → Tensors W) (expertWeights : Int → Nat → W) : Prop :=
  ∀ rank < ly.epSize, ∀ row < ly.numLocalExperts, ly.oldLocal rank row ≠ -1 →
    ∀ t < ly.numTensors, weights rank t row = expertWeights (ly.oldLocal rank row) t

variable {α : Type} {xs : List α}

theorem foldl_writes {I : Tensors W → Prop} {f : Tensors W → α → Tensors W}
    {v : Tensors W} {value : W} (hI : I v) (hstep : ∀ v, ∀ x ∈ xs, I v → I (f v x))
    (hturn : ∀ v, ∀ x ∈ xs, I v → f v x t row = v t row ∨ f v x t row = value)
    (h : v t row = value ∨ ∃ x ∈ xs, ∀ v, I v → f v x t row = value) : xs.foldl f v t row = value := by
  induction xs generalizing v with
  | nil =>
    rcases h with h | ⟨x, hx, -⟩
    · exact h
    · cases hx
  | cons x xs ih =>
    refine ih (hstep v x mem_cons_self hI) (fun v y hy => hstep v y (mem_cons_of_mem _ hy))
      (fun v y hy => hturn v y (mem_cons_of_mem _ hy)) ?_
    rcases h with h | ⟨y, hy, hwrites⟩
    · exact .inl ((hturn v x mem_cons_self hI).elim (·.trans h) id)
    · rcases mem_cons.mp hy with rfl | hy
      · exact .inl (hwrites v hI)
      · exact .inr ⟨y, hy, hwrites⟩

theorem localMoves_eq (hrank : rank < ly.epSize) (hholds : ly.Holds weights expertWeights) (ht : t < ly.numTensors)
    (hrow : row < ly.numLocalExperts) (hne : ly.newLocal rank row ≠ -1)
    (hchanged : ly.isUnchanged rank row = false) (hlocal : ly.isReceivedLocally rank row = true)
    (b : Tensors W) :
    ly.localMoves rank (weights rank) b t row = expertWeights (ly.newLocal rank row) t := by
  obtain ⟨src, hsrc, hold⟩ := (isReceivedLocally_iff hrow hne).mp hlocal
  have hkey : ly.newLocal rank row ∈ (ly.sendEntries rank).map Prod.fst :=
    (mem_sendKeys hrank).mpr ⟨hne, (mem_senders hrank).mpr ⟨src, hsrc, hold⟩⟩
  obtain ⟨x, hx, hxe⟩ := mem_map.mp hkey
  obtain ⟨hxrow, hxold⟩ := of_mem_sendEntries hx
  have hlookup : (ly.sendEntries rank).lookup (ly.newLocal rank row) = some x.2 := by
    refine (Dict.lookup_eq_some_iff ?_).mpr ?_
    · exact (pairwise_map.mpr firstRows_sorted).imp ne_of_lt
    · rw [← hxe]
      exact hx
  have hvalue : ∀ v : Tensors W, ly.moveLocal rank (weights rank) v row t row =
      expertWeights (ly.newLocal rank row) t := by
    intro v
    unfold moveLocal
    rw [hlookup]
    dsimp only [copyRow]
    rw [if_pos rfl, hholds rank hrank x.2 hxrow (by rwa [hxold, hxe]) t ht, hxold, hxe]
  refine foldl_writes (I := fun _ => True) trivial (fun _ _ _ _ => trivial) (fun v dst _ _ => ?_)
    (.inr ⟨row, mem_filter.mpr ⟨mem_localRows.mpr hrow, ?_⟩, fun v _ => hvalue v⟩)
  · by_cases heq : row = dst
    · subst heq
      exact .inr (hvalue v)
    · refine .inl ?_
      unfold moveLocal
      cases (ly.sendEntries rank).lookup (ly.newLocal rank dst) with
      | none => rfl
      | some src => exact if_neg heq
  · rw [hchanged, hlocal]
    rfl

/-! ## Transfers -/

theorem of_mem_zipWith {β γ : Type} {f : α → β} {g : γ → β} {m : α → γ → Delivery} {ys : List γ}
    (h : xs.map f = ys.map g) : (∀ d ∈ xs.zipWith m ys, ∃ x ∈ xs, ∃ y ∈ ys, f x = g y ∧ d = m x y) ∧
      ∀ y ∈ ys, ∃ x ∈ xs, m x y ∈ xs.zipWith m ys := by
  induction xs generalizing ys with
  | nil =>
    obtain rfl := map_eq_nil_iff.mp h.symm
    exact ⟨nofun, nofun⟩
  | cons x xs ih =>
    cases ys with
    | nil => cases h
    | cons y ys =>
      obtain ⟨hhead, htail⟩ := List.cons.inj h
      obtain ⟨hmem, hall⟩ := ih htail
      refine ⟨forall_mem_cons.mpr ⟨?_, fun d hd => ?_⟩, forall_mem_cons.mpr ⟨?_, fun z hz => ?_⟩⟩
      · exact ⟨x, mem_cons_self, y, mem_cons_self, hhead, rfl⟩
      · obtain ⟨x', hx', y', hy', hrest⟩ := hmem d hd
        exact ⟨x', mem_cons_of_mem _ hx', y', mem_cons_of_mem _ hy', hrest⟩
      · exact ⟨x, mem_cons_self, mem_cons_self⟩
      · obtain ⟨x', hx', hin⟩ := hall z hz
        exact ⟨x', mem_cons_of_mem _ hx', mem_cons_of_mem _ hin⟩

theorem delivery_value (hb : b < ly.epSize) (hsourced : ly.Sourced) (hholds : ly.Holds weights expertWeights)
    {d : Delivery} (hd : d ∈ deliveries ly.epSize ly.posts b) :
    weights d.sender d.send.tensor d.send.row = expertWeights (ly.newLocal b d.recv.row) d.recv.tensor := by
  obtain ⟨a, ha, hd⟩ := mem_flatMap.mp hd
  have ha := mem_range.mp ha
  obtain ⟨send, hsend, recv, -, heq, rfl⟩ := (of_mem_zipWith (posts_agree ha hb hsourced)).1 d hd
  obtain ⟨hexpert, htensor⟩ := Prod.mk.inj heq
  rw [sendsTo_eq ha] at hsend
  obtain ⟨x, hx, hop⟩ := mem_flatMap.mp hsend
  obtain ⟨hrow, hold⟩ := of_mem_sendEntries (mem_filter.mp hx).1
  have hne : x.1 ≠ -1 := ((mem_sendKeys ha).mp (mem_map.mpr ⟨x, (mem_filter.mp hx).1, rfl⟩)).1
  obtain ⟨i, hi, rfl⟩ := mem_map.mp hop
  rw [← hexpert, ← htensor]
  exact hholds a ha x.2 hrow (by rwa [hold]) i (mem_range.mp hi)

theorem lt_of_mem_senders (ha : a ∈ ly.senders e) : a < ly.epSize := by
  obtain ⟨p, hp, rfl⟩ := mem_holders.mp ha
  have hlt := (List.getElem?_eq_some_iff.mp hp).1
  rw [ly.old_length, Nat.mul_comm] at hlt
  exact Nat.div_lt_of_lt_mul hlt

theorem exists_delivery (hb : b < ly.epSize) (hsourced : ly.Sourced) {x : Int × Nat} (hx : x ∈ ly.recvEntries b)
    (ht : t < ly.numTensors) :
    ∃ d ∈ deliveries ly.epSize ly.posts b, d.recv.tensor = t ∧ d.recv.row = x.2 := by
  obtain ⟨hne, htaker⟩ := (mem_recvKeys hb).mp (mem_map.mpr ⟨x, hx, rfl⟩)
  obtain ⟨a, hsender, hsource⟩ := source_eq_some (senders_ne_nil hsourced hne htaker) htaker
  have ha := lt_of_mem_senders hsender
  have hrecv : { kind := .irecv, tensor := t, row := x.2, peer := a } ∈ recvsFrom ly.posts b a := by
    rw [recvsFrom_eq]
    refine mem_flatMap.mpr ⟨x, mem_filter.mpr ⟨hx, decide_eq_true hsource⟩, ?_⟩
    exact mem_map.mpr ⟨t, mem_range.mpr ht, rfl⟩
  obtain ⟨send, -, hin⟩ := (of_mem_zipWith (m := fun send recv => { sender := a, send, recv })
    (posts_agree ha hb hsourced)).2 _ hrecv
  exact ⟨_, mem_flatMap.mpr ⟨a, mem_range.mpr ha, hin⟩, rfl, rfl⟩

theorem buffers_eq (hrank : rank < ly.epSize) (hsourced : ly.Sourced) (hholds : ly.Holds weights expertWeights)
    (ht : t < ly.numTensors) (hrow : row < ly.numLocalExperts) (hne : ly.newLocal rank row ≠ -1)
    (hchanged : ly.isUnchanged rank row = false)
    (hgets : ly.isReceivedLocally rank row = true ∨ ly.recvPrimary rank row = true) {ds : List Delivery}
    (hds : ds.Perm (deliveries ly.epSize ly.posts rank)) (b : Tensors W) :
    ds.foldl (receive weights) (ly.localMoves rank (weights rank) b) t row =
      expertWeights (ly.newLocal rank row) t := by
  have hvalue : ∀ (v : Tensors W), ∀ d ∈ ds, t = d.recv.tensor ∧ row = d.recv.row →
      receive weights v d t row = expertWeights (ly.newLocal rank row) t := by
    rintro v d hd ⟨rfl, rfl⟩
    unfold receive
    rw [if_pos ⟨rfl, rfl⟩]
    exact delivery_value hrank hsourced hholds (hds.subset hd)
  refine foldl_writes (I := fun _ => True) trivial (fun _ _ _ _ => trivial) (fun v d hd _ => ?_) ?_
  · by_cases hat : t = d.recv.tensor ∧ row = d.recv.row
    · exact .inr (hvalue v d hd hat)
    · exact .inl (if_neg hat)
  · rcases hgets with hlocal | hprimary
    · exact .inl (localMoves_eq hrank hholds ht hrow hne hchanged hlocal b)
    · obtain ⟨x, hx, hxrow⟩ := any_eq_true.mp hprimary
      obtain ⟨d, hd, htensor, hdrow⟩ := exists_delivery hrank hsourced hx ht
      have hd' := hds.symm.subset hd
      exact .inr ⟨d, hd', fun v _ => hvalue v d hd' ⟨htensor.symm, (of_decide_eq_true hxrow).symm.trans hdrow.symm⟩⟩

/-! ## Out of the buffers -/

theorem getElem?_searchSorted {xs : List Int} (hxs : xs.Pairwise (· < ·)) (he : e ∈ xs) :
    xs[searchSorted xs e]? = some e := by
  unfold searchSorted
  induction xs with
  | nil => cases he
  | cons x xs ih =>
    obtain ⟨hx, hxs⟩ := pairwise_cons.mp hxs
    rw [takeWhile_cons]
    by_cases hlt : x < e
    · have hin : e ∈ xs := (mem_cons.mp he).resolve_left hlt.ne'
      rw [if_pos (decide_eq_true hlt)]
      exact ih hxs hin
    · rw [if_neg (by simpa using hlt)]
      rcases mem_cons.mp he with rfl | hin
      · rfl
      · exact absurd (hx e hin) hlt

theorem copyDuplicate_eq (hrank : rank < ly.epSize) (hrow : row < ly.numLocalExperts)
    (hne : ly.newLocal rank row ≠ -1) (hremote : ly.isReceivedLocally rank row = false) :
    ∃ x ∈ ly.recvEntries rank, x.1 = ly.newLocal rank row ∧ ∀ v : Tensors W,
      ly.copyDuplicate rank (byExpert (ly.recvEntries rank)) v row = copyRow v x.2 v row := by
  have hkey : ly.newLocal rank row ∈ (ly.recvEntries rank).map Prod.fst := by
    refine (mem_recvKeys hrank).mpr ⟨hne, (mem_takers hrank).mpr ⟨⟨row, hrow, rfl⟩, fun src hsrc hold => ?_⟩⟩
    have htrue := (isReceivedLocally_iff hrow hne).mpr ⟨src, hsrc, hold⟩
    rw [hremote] at htrue
    cases htrue
  have hasc : ((ly.recvEntries rank).map Prod.fst).Pairwise (· < ·) :=
    pairwise_map.mpr firstRows_sorted
  have hfound := getElem?_searchSorted hasc hkey
  rw [getElem?_map, Option.map_eq_some_iff] at hfound
  obtain ⟨x, hx, hxe⟩ := hfound
  refine ⟨x, mem_of_getElem? hx, hxe, fun v => ?_⟩
  have hsorted : byExpert (ly.recvEntries rank) = ly.recvEntries rank := byExpert_eq firstRows_sorted
  unfold copyDuplicate
  rw [hsorted, hx]
  exact if_pos hxe

theorem moveFromBuffer_eq (hrank : rank < ly.epSize) (hholds : ly.Holds weights expertWeights)
    (ht : t < ly.numTensors) {b : Tensors W}
    (hb : ∀ row < ly.numLocalExperts, ly.newLocal rank row ≠ -1 → ly.isUnchanged rank row = false →
      (ly.isReceivedLocally rank row = true ∨ ly.recvPrimary rank row = true) →
        b t row = expertWeights (ly.newLocal rank row) t)
    (hrow : row < ly.numLocalExperts) (hne : ly.newLocal rank row ≠ -1) :
    ly.moveFromBuffer rank (weights rank) b t row = expertWeights (ly.newLocal rank row) t := by
  unfold moveFromBuffer
  generalize hcopied : (ly.localRows.filter fun row => !ly.isUnchanged rank row &&
    (ly.isReceivedLocally rank row || ly.recvPrimary rank row)).foldl
      (fun w row => copyRow b row w row) (weights rank) = copied
  -- a row that is not a duplicate is right after the first loop
  have hfirst : ∀ row < ly.numLocalExperts, ly.newLocal rank row ≠ -1 →
      (ly.isUnchanged rank row = true ∨ ly.isReceivedLocally rank row = true ∨ ly.recvPrimary rank row = true) →
        copied t row = expertWeights (ly.newLocal rank row) t := by
    intro row hrow hne hgets
    rw [← hcopied]
    refine foldl_writes (I := fun _ => True) trivial (fun _ _ _ _ => trivial) (fun v dst hdst _ => ?_) ?_
    · by_cases heq : row = dst
      · subst heq
        obtain ⟨-, hmask⟩ := mem_filter.mp hdst
        simp only [Bool.and_eq_true, Bool.not_eq_true', Bool.or_eq_true] at hmask
        exact .inr ((if_pos rfl).trans (hb row hrow hne hmask.1 hmask.2))
      · exact .inl (if_neg heq)
    · cases hunchanged : ly.isUnchanged rank row with
      | true =>
        have hsame : ly.oldLocal rank row = ly.newLocal rank row := of_decide_eq_true hunchanged
        refine .inl ?_
        rw [← hsame]
        exact hholds rank hrank row hrow (hsame ▸ hne) t ht
      | false =>
        have hgets' := hgets.resolve_left (by rw [hunchanged]; exact Bool.false_ne_true)
        refine .inr ⟨row, mem_filter.mpr ⟨mem_localRows.mpr hrow, ?_⟩, fun v _ => ?_⟩
        · simpa [hunchanged] using hgets'
        · exact (if_pos rfl).trans (hb row hrow hne hunchanged hgets')
  -- the rows that experts were received for keep their weights in the second loop
  have hprimary : ∀ x ∈ ly.recvEntries rank, ly.recvPrimary rank x.2 = true := fun x hx =>
    any_eq_true.mpr ⟨x, hx, decide_eq_true rfl⟩
  refine foldl_writes (I := fun v => ∀ x ∈ ly.recvEntries rank, v t x.2 = copied t x.2) (fun _ _ => rfl)
    (fun v dst hdst hI x hx => ?_) (fun v dst hdst hI => ?_) ?_
  · obtain ⟨hin, hmask⟩ := mem_filter.mp hdst
    simp only [Bool.and_eq_true, Bool.not_eq_true', bne_iff_ne] at hmask
    obtain ⟨y, -, -, hcopy⟩ := copyDuplicate_eq (W := W) hrank (mem_localRows.mp hin) hmask.2.2 hmask.1.2
    have hother : x.2 ≠ dst := fun heq => by
      have htrue := hprimary x hx
      rw [heq, hmask.2.1] at htrue
      cases htrue
    rw [hcopy]
    exact (if_neg hother).trans (hI x hx)
  · obtain ⟨hin, hmask⟩ := mem_filter.mp hdst
    simp only [Bool.and_eq_true, Bool.not_eq_true', bne_iff_ne] at hmask
    obtain ⟨x, hx, hxe, hcopy⟩ := copyDuplicate_eq (W := W) hrank (mem_localRows.mp hin) hmask.2.2 hmask.1.2
    rw [hcopy]
    by_cases heq : row = dst
    · subst heq
      obtain ⟨hxrow, hxnew, -⟩ := of_mem_recvEntries hx
      refine .inr ((if_pos rfl).trans ((hI x hx).trans ?_))
      rw [hfirst x.2 hxrow (by rwa [hxnew, hxe]) (.inr (.inr (hprimary x hx))), hxnew, hxe]
    · exact .inl (if_neg heq)
  · by_cases hdone : ly.isUnchanged rank row = true ∨ ly.isReceivedLocally rank row = true ∨
        ly.recvPrimary rank row = true
    · exact .inl (hfirst row hrow hne hdone)
    · simp only [not_or, Bool.not_eq_true] at hdone
      obtain ⟨x, hx, hxe, hcopy⟩ := copyDuplicate_eq (W := W) hrank hrow hne hdone.2.1
      obtain ⟨hxrow, hxnew, -⟩ := of_mem_recvEntries hx
      refine .inr ⟨row, mem_filter.mpr ⟨mem_localRows.mpr hrow, ?_⟩, fun v hI => ?_⟩
      · simp [hdone.1, hdone.2.1, hdone.2.2, hne]
      · rw [hcopy]
        refine (if_pos rfl).trans ((hI x hx).trans ?_)
        rw [hfirst x.2 hxrow (by rwa [hxnew, hxe]) (.inr (.inr (hprimary x hx))), hxnew, hxe]

/-- For every group, every layout and every order in which the transfers arrive: all ranks post their
operations, sends and receives between two ranks agree in number and expert, and afterwards every
row with an expert has the weights that this expert had. -/
theorem rebalance_correct (ly : Layout) (hsourced : ly.Sourced) (weights buffers : Nat → Tensors W)
    (expertWeights : Int → Nat → W) (hholds : ly.Holds weights expertWeights) :
    ∃ posted : Nat → Posted W,
      (∀ rank < ly.epSize, ly.moveToBuffer rank (weights rank) (buffers rank) = .ok (posted rank)) ∧
      (∀ a < ly.epSize, ∀ b < ly.epSize, (sendsTo (fun r => (posted r).ops) a b).map (ly.sent a) =
        (recvsFrom (fun r => (posted r).ops) b a).map (ly.received b)) ∧
      ∀ rank < ly.epSize, ∀ ds : List Delivery, ds.Perm (deliveries ly.epSize (fun r => (posted r).ops) rank) →
        ∀ row < ly.numLocalExperts, ly.newLocal rank row ≠ -1 → ∀ t < ly.numTensors,
          ly.moveFromBuffer rank (weights rank) (ds.foldl (receive weights) (posted rank).buffers) t row =
            expertWeights (ly.newLocal rank row) t := by
  refine ⟨fun rank => { buffers := ly.localMoves rank (weights rank) (buffers rank), ops := ly.posts rank },
    fun rank hrank => ?_, fun a ha b hb => posts_agree ha hb hsourced,
    fun rank hrank ds hds row hrow hne t ht => ?_⟩
  · unfold moveToBuffer
    rw [p2pOps_eq hrank hsourced]
    rfl
  · refine moveFromBuffer_eq hrank hholds ht (fun row hrow hne hchanged hgets => ?_) hrow hne
    exact buffers_eq hrank hsourced hholds ht hrow hne hchanged hgets hds (buffers rank)

end
end Layout

/-- Two ranks with three slots: expert 0 has a copy on each rank, expert 1 moves to both slots that
are new on the second rank, and a slot is empty. -/
def twoRanks : Layout where
  epSize := 2
  numLocalExperts := 3
  numTensors := 1
  oldIndices := [0, 1, 2, 0, 3, -1]
  newIndices := [3, 1, -1, 1, 0, 1]
  old_length := rfl
  new_length := rfl

def numbered (rank : Nat) : Tensors Int := fun _ row => twoRanks.oldLocal rank row

theorem rebalance_correct_twoRanks :
    ∃ posted : Nat → Layout.Posted Int,
      (sendsTo (fun r => (posted r).ops) 0 1).map (twoRanks.sent 0) =
        (recvsFrom (fun r => (posted r).ops) 1 0).map (twoRanks.received 1) ∧
      twoRanks.moveFromBuffer 1 (numbered 1) ((deliveries 2 (fun r => (posted r).ops) 1).foldl
        (receive numbered) (posted 1).buffers) 0 2 = 1 := by
  have hholds : twoRanks.Holds numbered fun e _ => e := fun _ _ _ _ _ _ _ => rfl
  obtain ⟨posted, -, hagree, hweights⟩ := Layout.rebalance_correct twoRanks (by decide) numbered numbered
    (fun e _ => e) hholds
  refine ⟨posted, hagree 0 (by decide) 1 (by decide), ?_⟩
  exact hweights 1 (by decide) _ (.refl _) 2 (by decide) (by decide) 0 (by decide)

end Vllm.Eplb
