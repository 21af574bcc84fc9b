import Vllm.Multimodal.ShmSteps
import Vllm.Base.Run
import Mathlib.Algebra.BigOperators.Intervals

/-! The counts of an object over a whole run: the uses that the workers have not caught up with are
the touches and reads they still have to do, for the requests handed out and for the one that the
frontend is working on. -/

set_option linter.unusedSectionVars false

namespace Vllm.Multimodal
open Base Dict Call ShmConfig List Frontend ShmFeature ShmWorker ShmStore

variable {K V U : Type} [DecidableEq K]

/-! ## What is still to do -/

def ShmFeature.refersTo (i : Nat) (f : ShmFeature V) : Bool :=
  match f.data with
  | .address _ j => j == i
  | .value _ => false

def dueReads (i : Nat) (fs : List (ShmFeature V)) : Nat := fs.countP fun f => f.refersTo i

/-- The touches of the object `i` that have to be counted: those for items that were cached. -/
def dueTouches (i : Nat) (fs : List (ShmFeature V)) : Nat :=
  fs.countP fun f => !f.fresh && f.refersTo i

def due (i : Nat) (fs : List (ShmFeature V)) : Nat := dueTouches i fs + dueReads i fs

def ShmWorker.due (i : Nat) (worker : ShmWorker V) : Nat :=
  dueTouches i worker.touches + dueReads i worker.gets + (worker.queue.map (Multimodal.due i)).sum

def ShmWorker.pending (worker : ShmWorker V) : List (ShmFeature V) :=
  worker.gets ++ worker.queue.flatten

def ShmStore.names (st : ShmStore K V U) (i : Nat) (k : K) : Bool :=
  ((st.keyIndex.get? k).map Prod.snd) == some i

def Frontend.ahead (st : ShmStore K V U) (i : Nat) : Frontend K V U → Nat
  | .touching _ todo _ => todo.countP fun k => st.names i k
  | _ => 0

/-- What each worker will have to do for the uses of the request at hand, if the touches are done. -/
def Frontend.owed (st : ShmStore K V U) (i : Nat) : Frontend K V U → Nat
  | .idle => 0
  | .touching _ _ items => items.countP fun f => st.names i f.item.mmHash
  | .updating cached todo out =>
      due i out + todo.countP fun f => decide (f.item.mmHash ∈ cached) && st.names i f.item.mmHash

def ShmFeature.Placed (st : ShmStore K V U) (f : ShmFeature V) : Prop :=
  ∀ a i, f.data = .address a i → st.metadata.get? i = some a

def Frontend.Ready (st : ShmStore K V U) : Frontend K V U → Prop
  | .idle => True
  | .touching cached todo items =>
      todo <:+ items.map (fun f => f.item.mmHash) ∧
      ∀ f ∈ items, (f.item.mmHash ∈ cached ↔ f.item.mmHash ∈ st.keyIndex.keys) ∧
        (f.item.mmHash ∉ cached → f.item.data.isSome)
  | .updating cached todo out =>
      (∀ f ∈ todo, (f.item.mmHash ∈ cached → f.item.mmHash ∈ st.keyIndex.keys) ∧
        (f.item.mmHash ∉ cached → f.item.data.isSome)) ∧
      ∀ f ∈ out, f.Placed st

structure Accounted (cfg : ShmConfig V) (st : ShmSystem K V U) : Prop where
  sound : Sound cfg st.store
  known : Known st.store
  placed : ∀ w < cfg.nReaders, ∀ f ∈ (st.workers w).pending, f.Placed st.store
  touches : ∀ w < cfg.nReaders, ∀ f ∈ (st.workers w).touches, f ∈ (st.workers w).gets
  ready : st.frontend.Ready st.store
  account : ∀ i ∈ st.store.metadata.keys,
    cfg.nReaders * (st.store.uses i + st.frontend.ahead st.store i) =
      cfg.reads st.store i + ∑ w ∈ Finset.range cfg.nReaders, (st.workers w).due i +
        cfg.nReaders * st.frontend.owed st.store i

variable {cfg : ShmConfig V} {st : ShmSystem K V U}

/-! ## Counting -/

variable {w i a j : Nat} {fs out : List (ShmFeature V)} {f : ShmFeature V} {s s' : ShmStore K V U}
  {cached : List K} {todo : List (FlatItem K V U)}

theorem sum_replace {n : Nat} (hw : w < n) (g : Nat → Nat) (x : Nat) :
    ∑ v ∈ Finset.range n, (if v = w then x else g v) + g w = ∑ v ∈ Finset.range n, g v + x := by
  have hmem : w ∈ Finset.range n := Finset.mem_range.mpr hw
  rw [← Finset.add_sum_erase _ _ hmem, ← Finset.add_sum_erase (Finset.range n) g hmem, if_pos rfl]
  have hrest : ∑ v ∈ (Finset.range n).erase w, (if v = w then x else g v) =
      ∑ v ∈ (Finset.range n).erase w, g v :=
    Finset.sum_congr rfl fun v hv => if_neg (Finset.ne_of_mem_erase hv)
  omega

theorem dueReads_pos (hf : f ∈ fs) (hi : f.data = .address a i) : 0 < dueReads i fs :=
  countP_pos_iff.mpr ⟨f, hf, by simp [refersTo, hi]⟩

theorem due_eq_zero (h : ∀ f ∈ fs, f.refersTo i = false) : due i fs = 0 := by
  have hreads : dueReads i fs = 0 := countP_eq_zero.mpr fun f hf => by simp [h f hf]
  have htouches : dueTouches i fs = 0 := countP_eq_zero.mpr fun f hf => by simp [h f hf]
  rw [due, hreads, htouches]

theorem due_append (i : Nat) (fs gs : List (ShmFeature V)) : due i (fs ++ gs) = due i fs + due i gs := by
  simp only [due, dueTouches, dueReads, countP_append]
  omega

theorem due_perm {gs : List (ShmFeature V)} (h : fs.Perm gs) : due i fs = due i gs := by
  rw [due, due, dueTouches, dueTouches, dueReads, dueReads, h.countP_eq, h.countP_eq]

theorem ShmWorker.due_pos {worker : ShmWorker V} (hf : f ∈ worker.pending)
    (hi : f.data = .address a i) : 0 < worker.due i := by
  rw [ShmWorker.due]
  rcases mem_append.mp hf with hf | hf
  · have := dueReads_pos hf hi
    omega
  · obtain ⟨request, hrequest, hf⟩ := mem_flatten.mp hf
    have hpos : 0 < Multimodal.due i request := by
      have := dueReads_pos hf hi
      rw [Multimodal.due]
      omega
    have := single_le_sum (fun _ _ => Nat.zero_le _) _
      (mem_map_of_mem (f := Multimodal.due i) hrequest)
    omega

theorem ShmFeature.Placed.not_refers {store : ShmStore K V U} (h : f.Placed store)
    (hi : i ∉ store.metadata.keys) : f.refersTo i = false := by
  rw [refersTo]
  cases hd : f.data with
  | value v => rfl
  | address a j =>
    have hj := mem_keys_of_get? (h a j hd)
    simpa using fun he : j = i => hi (he ▸ hj)

theorem Accounted.due_fresh (h : Accounted cfg st) (hi : i ∉ st.store.metadata.keys)
    (hw : w < cfg.nReaders) : (st.workers w).due i = 0 := by
  have hreads : ∀ f ∈ (st.workers w).pending, f.refersTo i = false := fun f hf =>
    (h.placed w hw f hf).not_refers hi
  have hgets : ∀ f ∈ (st.workers w).gets, f.refersTo i = false := fun f hf =>
    hreads f (mem_append_left _ hf)
  have h₁ : dueTouches i (st.workers w).touches = 0 := countP_eq_zero.mpr fun f hf => by
    simp [hgets f (h.touches w hw f hf)]
  have h₂ : dueReads i (st.workers w).gets = 0 := countP_eq_zero.mpr fun f hf => by
    simp [hgets f hf]
  have h₃ : ((st.workers w).queue.map (due i)).sum = 0 := by
    refine sum_eq_zero fun x hx => ?_
    obtain ⟨request, hrequest, rfl⟩ := mem_map.mp hx
    exact due_eq_zero fun f hf =>
      hreads f (mem_append_right _ (mem_flatten.mpr ⟨request, hrequest, hf⟩))
  rw [ShmWorker.due, h₁, h₂, h₃]

/-! ## Workers -/

def ShmFeature.object? (f : ShmFeature V) : Option (Nat × Nat) :=
  match f.data with
  | .address a i => some (a, i)
  | .value _ => none

/-- When an action keeps the counts right. A touch for the request that stored the object comes before
the reader count has reached the number of workers, a touch for a later request comes afterwards. -/
def ShmOp.Counts (cfg : ShmConfig V) (st : ShmSystem K V U) : ShmOp K V U → Prop
  | request _ => True
  | frontend => st.store.metadata.size < idMax
  | worker w => w < cfg.nReaders ∧
      (∀ f ∈ (st.workers w).touches.head?, ∀ e ∈ f.object?,
        (f.fresh = true ↔ cfg.reads st.store e.2 < cfg.nReaders)) ∧
      ∀ f ∈ (st.workers w).pending, ∀ e ∈ f.object?, cfg.reads st.store e.2 + 1 < 2 ^ 31

instance (cfg : ShmConfig V) (st : ShmSystem K V U) (op : ShmOp K V U) :
    Decidable (op.Counts cfg st) := by
  cases op <;> unfold ShmOp.Counts <;> infer_instance

variable {α : Type}

theorem onStore_run {m : ShmCall K V U α} {x : α} {store : ShmStore K V U}
    (h : m st.store = (.ok x, store)) : onStore m st = (.ok x, { st with store }) := by
  simp only [onStore, Call.zoom, h]

theorem Counted.uses {d : Nat} (h : Counted cfg s s' i d) (j : Nat) : s'.uses j = s.uses j := by
  rw [ShmStore.uses, h.flags, ShmStore.uses]

theorem Frontend.same (front : Frontend K V U) (hkeys : s'.keyIndex = s.keyIndex)
    (hmeta : s'.metadata = s.metadata) :
    (∀ i, front.ahead s' i = front.ahead s i) ∧ (∀ i, front.owed s' i = front.owed s i) ∧
      (front.Ready s → front.Ready s') := by
  have hnames : ∀ i k, s'.names i k = s.names i k := fun i k => by
    rw [names, hkeys, names]
  cases front with
  | idle => exact ⟨fun _ => rfl, fun _ => rfl, id⟩
  | touching cached todo items =>
    refine ⟨fun i => ?_, fun i => ?_, fun h => ⟨h.1, by rw [hkeys]; exact h.2⟩⟩
    · simp only [ahead, hnames]
    · simp only [owed, hnames]
  | updating cached todo out =>
    refine ⟨fun _ => rfl, fun i => ?_, fun h => ⟨by rw [hkeys]; exact h.1, fun f hf a i hi => ?_⟩⟩
    · simp only [owed, hnames]
    · rw [hmeta]
      exact h.2 f hf a i hi

theorem Accounted.advance (h : Accounted cfg st) {d : Nat} {store : ShmStore K V U}
    {worker : ShmWorker V} (hw : w < cfg.nReaders) (hcount : Counted cfg st.store store j d)
    (hdue : ∀ i, (st.workers w).due i = worker.due i + if i = j then d else 0)
    (hpending : ∀ f ∈ worker.pending, f ∈ (st.workers w).pending)
    (htouches : ∀ f ∈ worker.touches, f ∈ worker.gets) :
    Accounted cfg { st with
      store, workers := fun v => if v = w then worker else st.workers v } := by
  obtain ⟨hahead, howed, hready⟩ := st.frontend.same hcount.keys hcount.metadata
  refine ⟨hcount.sound, ?_, fun v hv f hf => ?_, fun v hv f hf => ?_, hready h.ready, fun i hi => ?_⟩
  · intro k hk
    rw [hcount.keys] at hk
    rw [hcount.updates]
    exact h.known k hk
  · have hin : f ∈ (st.workers v).pending := by
      by_cases he : v = w
      · subst he
        exact hpending f (by simpa using hf)
      · simpa [he] using hf
    intro a i hi
    rw [hcount.metadata]
    exact h.placed v hv f hin a i hi
  · by_cases he : v = w
    · simp only [he] at hf ⊢
      exact htouches f hf
    · simp only [he] at hf ⊢
      exact h.touches v hv f hf
  · have hlive : i ∈ st.store.metadata.keys := hcount.metadata ▸ hi
    have hold := h.account i hlive
    have hsum := sum_replace hw (fun v => (st.workers v).due i) (worker.due i)
    have happly : ∀ v, ShmWorker.due i (if v = w then worker else st.workers v) =
        if v = w then worker.due i else (st.workers v).due i := fun v => by split <;> rfl
    simp only [hcount.uses, hahead, howed, hcount.reads i hlive, happly]
    rw [hdue i] at hsum
    omega

theorem countP_cons_bool (p : α → Bool) (x : α) (l : List α) :
    (x :: l).countP p = l.countP p + (p x).toNat := by
  rw [countP_cons]
  cases p x <;> rfl

theorem refersTo_toNat (h : f.data = .address a j) (i : Nat) :
    (f.refersTo i).toNat = if i = j then 1 else 0 := by
  rw [refersTo, h]
  by_cases he : i = j
  · simp [he]
  · simp [he, Ne.symm he]

variable {queue : List (List (ShmFeature V))}

theorem Accounted.touch_step (h : Accounted cfg st) {touches gets : List (ShmFeature V)}
    (hworker : st.workers w = ⟨f :: touches, gets, queue⟩) (hw : w < cfg.nReaders)
    (hphase : ∀ a i, f.data = .address a i → (f.fresh = true ↔ cfg.reads st.store i < cfg.nReaders))
    (hroom : ∀ a i, f.data = .address a i → cfg.reads st.store i + 1 < 2 ^ 31) :
    Accounted cfg ((cfg.touchFeature f >>= fun _ => setWorker w ⟨touches, gets, queue⟩) st).2 := by
  have hsub := h.touches w hw
  rw [hworker] at hsub
  have hpending : ∀ g ∈ (⟨touches, gets, queue⟩ : ShmWorker V).pending,
      g ∈ (st.workers w).pending := by
    rw [hworker]
    exact fun g hg => hg
  have hrest : ∀ g ∈ touches, g ∈ gets := fun g hg => hsub g (mem_cons_of_mem _ hg)
  have hcons : ∀ i, (st.workers w).due i = (⟨touches, gets, queue⟩ : ShmWorker V).due i +
      (!f.fresh && f.refersTo i).toNat := fun i => by
    rw [hworker]
    simp only [ShmWorker.due, dueTouches, countP_cons_bool]
    omega
  cases hd : f.data with
  | value v =>
    have hrun : cfg.touchFeature f st = (.ok (), st) := by
      rw [touchFeature, hd]
      rfl
    rw [bind_of_ok hrun]
    refine h.advance (j := 0) (d := 0) hw (Counted.refl h.sound 0) (fun i => ?_) hpending hrest
    rw [hcons i]
    simp [refersTo, hd]
  | address a i₀ =>
    have hlive : st.store.metadata.get? i₀ = some a := by
      refine h.placed w hw f ?_ a i₀ hd
      rw [hworker]
      exact mem_append_left _ (hsub f mem_cons_self)
    obtain ⟨store, hrun, hcount⟩ := touchAddress_spec h.sound hlive (hroom a i₀ hd)
    have hrun' : cfg.touchFeature f st = (.ok (), { st with store }) := by
      rw [touchFeature, hd]
      exact onStore_run hrun
    rw [bind_of_ok hrun']
    refine h.advance hw hcount (fun i => ?_) hpending hrest
    have hp := hphase a i₀ hd
    have hr := refersTo_toNat hd i
    rw [hcons i]
    congr 1
    cases hfresh : f.fresh with
    | false =>
      have hge : cfg.nReaders ≤ cfg.reads st.store i₀ := not_lt.mp fun hlt => by
        rw [hfresh] at hp
        cases hp.mpr hlt
      simpa [hge] using hr
    | true =>
      have hlt : ¬cfg.nReaders ≤ cfg.reads st.store i₀ := not_le.mpr (hp.mp hfresh)
      simp [hlt]

theorem Accounted.get_step (h : Accounted cfg st) {gets : List (ShmFeature V)}
    (hworker : st.workers w = ⟨[], f :: gets, queue⟩) (hw : w < cfg.nReaders)
    (hroom : ∀ a i, f.data = .address a i → cfg.reads st.store i + 1 < 2 ^ 31) :
    Accounted cfg ((cfg.getFeature f >>= fun _ => setWorker w ⟨[], gets, queue⟩) st).2 := by
  have hpending : ∀ g ∈ (⟨[], gets, queue⟩ : ShmWorker V).pending, g ∈ (st.workers w).pending := by
    rw [hworker]
    exact fun g hg => mem_cons_of_mem _ hg
  have hrest : ∀ g ∈ ([] : List (ShmFeature V)), g ∈ gets := by simp
  have hcons : ∀ i, (st.workers w).due i = (⟨[], gets, queue⟩ : ShmWorker V).due i +
      (f.refersTo i).toNat := fun i => by
    rw [hworker]
    simp only [ShmWorker.due, dueReads, countP_cons_bool]
    omega
  cases hd : f.data with
  | value v =>
    have hrun : cfg.getFeature f st = (.ok v, st) := by
      rw [getFeature, hd]
      rfl
    rw [bind_of_ok hrun]
    refine h.advance (j := 0) (d := 0) hw (Counted.refl h.sound 0) (fun i => ?_) hpending hrest
    rw [hcons i]
    simp [refersTo, hd]
  | address a i₀ =>
    have hlive : st.store.metadata.get? i₀ = some a := by
      refine h.placed w hw f ?_ a i₀ hd
      rw [hworker]
      exact mem_append_left _ mem_cons_self
    obtain ⟨v, store, hrun, hcount⟩ := getObject_spec h.sound hlive (hroom a i₀ hd)
    have hrun' : cfg.getFeature f st = (.ok v, { st with store }) := by
      rw [getFeature, hd]
      exact onStore_run hrun
    rw [bind_of_ok hrun']
    refine h.advance hw hcount (fun i => ?_) hpending hrest
    rw [hcons i, refersTo_toNat hd i]

theorem Accounted.worker_step (h : Accounted cfg st) (hok : (ShmOp.worker w).Counts cfg st) :
    Accounted cfg (cfg.workerStep w st).2 := by
  obtain ⟨hw, hphase, hroom⟩ := hok
  rw [workerStep, get_bind]
  rcases hworker : st.workers w with ⟨touches, gets, queue⟩
  have hsub := h.touches w hw
  rw [hworker] at hphase hroom hsub
  have hobject : ∀ {f : ShmFeature V} {a i : Nat}, f.data = .address a i → (a, i) ∈ f.object? := by
    intro f a i hi
    simp [object?, hi]
  cases touches with
  | cons f touches =>
    have hf : f ∈ (⟨f :: touches, gets, queue⟩ : ShmWorker V).pending :=
      mem_append_left _ (hsub f mem_cons_self)
    exact h.touch_step hworker hw (fun a i hi => hphase f rfl (a, i) (hobject hi))
      fun a i hi => hroom f hf (a, i) (hobject hi)
  | nil =>
    cases gets with
    | cons f gets =>
      have hf : f ∈ (⟨[], f :: gets, queue⟩ : ShmWorker V).pending :=
        mem_append_left _ mem_cons_self
      exact h.get_step hworker hw fun a i hi => hroom f hf (a, i) (hobject hi)
    | nil =>
      cases queue with
      | nil => exact h
      | cons request queue =>
        refine h.advance (j := 0) (d := 0) hw (Counted.refl h.sound 0) (fun i => ?_) ?_
          fun f hf => hf
        · rw [hworker]
          simp [ShmWorker.due, due, dueTouches, dueReads]
        · rw [hworker]
          exact fun f hf => hf

/-! ## The frontend -/

theorem names_iff {k : K} : s.names i k = true ↔ ∃ a, s.keyIndex.get? k = some (a, i) := by
  rw [names, beq_iff_eq, Option.map_eq_some_iff]
  constructor
  · rintro ⟨⟨a, j⟩, hk, rfl⟩
    exact ⟨a, hk⟩
  · rintro ⟨a, hk⟩
    exact ⟨_, hk, rfl⟩

theorem names_toNat {k : K} (hk : s.keyIndex.get? k = some (a, j)) (i : Nat) :
    (s.names i k).toNat = if i = j then 1 else 0 := by
  rw [names, hk]
  by_cases he : i = j
  · simp [he]
  · simp [he, Ne.symm he]

theorem UsedOnce.known (h : UsedOnce cfg s s' i) (hknown : Known s) : Known s' := by
  intro k hk
  rw [h.keys] at hk
  rw [h.updates]
  exact hknown k hk

theorem UsedOnce.reads (h : UsedOnce cfg s s' i) (j : Nat) : cfg.reads s' j = cfg.reads s j :=
  reads_congr h.memory (by rw [h.metadata])

section
variable (h : Accounted cfg st)
include h

variable {front : Frontend K V U}

theorem Accounted.use {store : ShmStore K V U}
    (hused : UsedOnce cfg st.store store j) (hready : front.Ready st.store)
    (howed : ∀ i, front.owed st.store i + st.frontend.ahead st.store i = st.frontend.owed st.store i + front.ahead st.store i + if i = j then 1 else 0)
    :
    Accounted cfg { st with store, frontend := front } := by
  obtain ⟨hahead', howed', hready'⟩ := front.same hused.keys hused.metadata
  refine ⟨hused.sound, hused.known h.known, fun w hw f hf a i hi => ?_, h.touches, hready' hready,
    fun i hi => ?_⟩
  · rw [hused.metadata]
    exact h.placed w hw f hf a i hi
  · have hold := h.account i (hused.metadata ▸ hi)
    have hnew := howed i
    simp only [hused.uses, hused.reads, hahead', howed']
    have hmul := congrArg (cfg.nReaders * ·) hnew
    simp only [Nat.mul_add] at hmul hold ⊢
    omega

theorem Accounted.move (hready : front.Ready st.store) (howed : ∀ i ∈ st.store.metadata.keys,
      front.owed st.store i + st.frontend.ahead st.store i =
        st.frontend.owed st.store i + front.ahead st.store i) :
    Accounted cfg { st with frontend := front } := by
  refine ⟨h.sound, h.known, h.placed, h.touches, hready, fun i hi => ?_⟩
  have hmul := congrArg (cfg.nReaders * ·) (howed i hi)
  have hold := h.account i hi
  simp only [Nat.mul_add] at hmul hold ⊢
  omega

theorem Accounted.request_step (r : MmRequest K V U) : Accounted cfg (requestStep r st).2 := by
  rw [requestStep, get_bind]
  cases hfront : st.frontend with
  | touching cached todo items | updating cached todo out => exact h
  | idle =>
    cases hmissing : r.getCacheMissingItems fun k => st.store.keyIndex.contains k with
    | error e => exact h
    | ok u =>
      refine h.move ⟨suffix_rfl, fun f hf => ⟨?_, fun hnot => ?_⟩⟩ fun i _ => ?_
      · have hin : f.item.mmHash ∈ r.hashes := mem_map_of_mem hf
        simp [hin, Dict.contains, mem_keys_iff]
      · refine Option.isSome_iff_exists.mpr (MmRequest.getCacheMissingItems_ok hmissing hf ?_)
        have hin : f.item.mmHash ∈ r.hashes := mem_map_of_mem hf
        simpa [hin] using hnot
      · rw [hfront]
        simp [owed, ahead, MmRequest.hashes, Function.comp_def]

theorem Accounted.touch_key {todo : List K} {hash : K}
    {items : List (FlatItem K V U)} (hfront : st.frontend = .touching cached (hash :: todo) items) :
    Accounted cfg ((onStore (touchKey hash) >>= fun _ =>
      setFrontend (.touching cached todo items)) st).2 := by
  have hready := h.ready
  rw [hfront] at hready
  have hready' : (touching cached todo items).Ready st.store :=
    ⟨(suffix_cons hash todo).trans hready.1, hready.2⟩
  obtain ⟨store, hrun, hstore⟩ := touchKey_spec h.sound hash
  rw [bind_of_ok (onStore_run hrun)]
  cases hk : st.store.keyIndex.get? hash with
  | none =>
    rw [hk] at hstore
    simp only at hstore
    subst hstore
    refine h.move hready' fun i _ => ?_
    have hnot : st.store.names i hash = false := by simp [names, hk]
    rw [hfront]
    simp [owed, ahead, hnot]
  | some e =>
    rw [hk] at hstore
    refine h.use hstore hready' fun i => ?_
    have hcount := names_toNat hk i
    rw [hfront]
    simp only [owed, ahead, countP_cons_bool, hcount]
    omega

theorem Accounted.not_due (hi : i ∈ st.store.metadata.keys)
    (hfree : st.store.uses i * cfg.nReaders ≤ cfg.reads st.store i) :
    (∀ w < cfg.nReaders, (st.workers w).due i = 0) ∧
      st.frontend.owed st.store i = st.frontend.ahead st.store i := by
  have hahead : st.frontend.ahead st.store i ≤ st.frontend.owed st.store i := by
    have hready := h.ready
    cases hfront : st.frontend with
    | idle => exact le_rfl
    | updating cached todo out => exact Nat.zero_le _
    | touching cached todo items =>
      rw [hfront] at hready
      have hle : todo.countP (st.store.names i) ≤
          (items.map fun f => f.item.mmHash).countP (st.store.names i) := hready.1.sublist.countP_le
      rwa [countP_map] at hle
  have hold := h.account i hi
  obtain ⟨x, hx⟩ := Nat.exists_eq_add_of_le hahead
  rw [hx, Nat.mul_add, Nat.mul_add, Nat.mul_comm _ (st.store.uses i)] at hold
  have hsum : ∑ w ∈ Finset.range cfg.nReaders, (st.workers w).due i = 0 := by omega
  have hzero : cfg.nReaders * x = 0 := by omega
  refine ⟨fun w hw => Finset.sum_eq_zero_iff.mp hsum w (Finset.mem_range.mpr hw), ?_⟩
  rcases Nat.mul_eq_zero.mp hzero with hn | rfl
  · exact absurd hn cfg.readers_pos.ne'
  · omega

variable {ids : List Nat}

theorem Accounted.kept {store : ShmStore K V U}
    (hfreed : Freed cfg st.store store ids) {w : Nat} (hw : w < cfg.nReaders) {f : ShmFeature V}
    (hf : f ∈ (st.workers w).pending) : f.Placed store := by
  intro a i hi
  have hin := h.placed w hw f hf a i hi
  have hnot : i ∉ ids := fun hmem => by
    obtain ⟨hlive, hfree⟩ := hfreed.free i hmem
    have hpos := due_pos hf hi
    have hzero := (h.not_due hlive hfree).1 w hw
    omega
  rw [hfreed.metadata, if_neg hnot]
  exact hin

theorem Accounted.freed (hfront : st.frontend = .updating cached todo out) {store : ShmStore K V U}
    (hfreed : Freed cfg st.store store ids) :
    Accounted cfg { st with store } := by
  have hready := h.ready
  rw [hfront] at hready
  -- nothing of the request at hand goes
  have howed : ∀ i ∈ ids, st.frontend.owed st.store i = 0 := fun i hi => by
    obtain ⟨hlive, hfree⟩ := hfreed.free i hi
    rw [(h.not_due hlive hfree).2, hfront]
    rfl
  have hnames : ∀ i, i ∉ ids → ∀ k, store.names i k = st.store.names i k := fun i hi k => by
    rw [Bool.eq_iff_iff, names_iff, names_iff, hfreed.keys]
    simp only [Option.filter_eq_some_iff]
    exact ⟨fun ⟨a, ha⟩ => ⟨a, ha.1⟩, fun ⟨a, ha⟩ => ⟨a, ha, by simpa using hi⟩⟩
  refine ⟨hfreed.sound, hfreed.known h.known, fun w hw f hf => h.kept hfreed hw hf, h.touches, ?_,
    fun i hi => ?_⟩
  · rw [hfront]
    refine ⟨fun f hf => ⟨fun hc => ?_, (hready.1 f hf).2⟩, fun f hf a i hi => ?_⟩
    · obtain ⟨⟨a, i⟩, hk⟩ := Option.isSome_iff_exists.mp
        (mem_keys_iff.mp ((hready.1 f hf).1 hc))
      have hnot : i ∉ ids := fun hmem => by
        have hzero := howed i hmem
        rw [hfront, owed, Nat.add_eq_zero_iff] at hzero
        have := countP_eq_zero.mp hzero.2 f hf
        rw [decide_eq_true hc, names_iff.mpr ⟨a, hk⟩] at this
        exact this rfl
      have hkept : store.keyIndex.get? f.item.mmHash = some (a, i) := by
        rw [hfreed.keys, Option.filter_eq_some_iff]
        exact ⟨hk, by simpa using hnot⟩
      exact mem_keys_of_get? hkept
    · have hnot : i ∉ ids := fun hmem => by
        have hzero := howed i hmem
        rw [hfront, owed, due] at hzero
        have hpos := dueReads_pos hf hi
        omega
      rw [hfreed.metadata, if_neg hnot]
      exact hready.2 f hf a i hi
  · have hnot : i ∉ ids := fun hmem => by
      rw [mem_keys_iff, hfreed.metadata, if_pos hmem] at hi
      cases hi
    have hlive : i ∈ st.store.metadata.keys := by
      rw [mem_keys_iff, hfreed.metadata, if_neg hnot] at hi
      exact mem_keys_iff.mpr hi
    have hold := h.account i hlive
    rw [hfront] at hold ⊢
    simp only [owed, ahead, hnames i hnot, hfreed.flags i hnot, hfreed.reads hnot] at hold ⊢
    exact hold

theorem Accounted.store {f : FlatItem K V U}
    (hfront : st.frontend = .updating cached (f :: todo) out) (hnew : f.item.mmHash ∉ cached)
    {store : ShmStore K V U} (hst : Stored cfg st.store store f.item.mmHash a i)
    (hknown : Known store) :
    Accounted cfg { st with
      store, frontend := .updating cached todo (out ++ [⟨.address a i, f.item.offset, true⟩]) } := by
  have hready := h.ready
  rw [hfront] at hready
  have hplaced : ∀ g : ShmFeature V, g.Placed st.store → g.Placed store := fun g hg b j hj => by
    have hin := hg b j hj
    rw [hst.metadata, if_neg fun he : j = i => hst.fresh (he ▸ mem_keys_of_get? hin)]
    exact hin
  -- the keys that were cached keep their objects
  have hother : ∀ k ∈ cached, k ≠ f.item.mmHash := fun k hk he => hnew (he ▸ hk)
  have hnames : ∀ j, ∀ k ∈ cached, store.names j k = st.store.names j k := fun j k hk => by
    rw [names, hst.keys, if_neg (hother k hk), names]
  have htodo : ∀ j, (todo.countP fun g =>
      decide (g.item.mmHash ∈ cached) && store.names j g.item.mmHash) = todo.countP fun g =>
      decide (g.item.mmHash ∈ cached) && st.store.names j g.item.mmHash := fun j => by
    refine countP_congr fun g _ => ?_
    by_cases hc : g.item.mmHash ∈ cached
    · rw [hnames j _ hc]
    · simp [hc]
  have hfirst : ∀ j, (updating cached (f :: todo) out).owed st.store j =
      due j out + todo.countP fun g =>
        decide (g.item.mmHash ∈ cached) && st.store.names j g.item.mmHash := fun j => by
    rw [owed, countP_cons_of_neg (by simp [hnew])]
  refine ⟨hst.sound, hknown, fun w hw g hg => hplaced g (h.placed w hw g hg), h.touches,
    ⟨fun g hg => ⟨fun hc => ?_, (hready.1 g (mem_cons_of_mem _ hg)).2⟩, fun g hg => ?_⟩,
    fun j hj => ?_⟩
  · have hin := (hready.1 g (mem_cons_of_mem _ hg)).1 hc
    rw [mem_keys_iff, hst.keys, if_neg (hother _ hc)]
    exact mem_keys_iff.mp hin
  · rcases mem_append.mp hg with hg | hg
    · exact hplaced g (hready.2 g hg)
    · obtain rfl := mem_singleton.mp hg
      rintro _ _ ⟨⟩
      rw [hst.metadata, if_pos rfl]
  · have hone : due j [(⟨.address a i, f.item.offset, true⟩ : ShmFeature V)] =
        if j = i then 1 else 0 := by
      by_cases he : j = i
      · simp [due, dueTouches, dueReads, refersTo, he]
      · simp [due, dueTouches, dueReads, refersTo, he, Ne.symm he]
    simp only [owed, ahead, htodo, due_append, hone, hst.uses, hst.reads]
    by_cases he : j = i
    · subst he
      have hsum : ∑ w ∈ Finset.range cfg.nReaders, (st.workers w).due j = 0 :=
        Finset.sum_eq_zero fun w hw => h.due_fresh hst.fresh (Finset.mem_range.mp hw)
      have hout : due j out = 0 := due_eq_zero fun g hg => (hready.2 g hg).not_refers hst.fresh
      have hzero : (todo.countP fun g =>
          decide (g.item.mmHash ∈ cached) && st.store.names j g.item.mmHash) = 0 := by
        refine countP_eq_zero.mpr fun g _ hg => hst.fresh ?_
        rw [Bool.and_eq_true, names_iff] at hg
        obtain ⟨-, b, hb⟩ := hg
        exact mem_keys_of_get? ((h.sound.index _ b j).mp hb).2
      simp [hsum, hout, hzero]
    · have hlive : j ∈ st.store.metadata.keys := by
        rw [mem_keys_iff, hst.metadata, if_neg he] at hj
        exact mem_keys_iff.mpr hj
      have hold := h.account j hlive
      rw [hfront, hfirst] at hold
      simpa [he, ahead] using hold

end

variable [ToString K]

section
variable (h : Accounted cfg st)
include h

theorem Accounted.update_step (hids : st.store.metadata.size < idMax)
    {f : FlatItem K V U} (hfront : st.frontend = .updating cached (f :: todo) out) :
    Accounted cfg (cfg.frontendStep st).2 := by
  have hready := h.ready
  rw [hfront] at hready
  have htodo : ∀ g ∈ todo, (g.item.mmHash ∈ cached → g.item.mmHash ∈ st.store.keyIndex.keys) ∧
      (g.item.mmHash ∉ cached → g.item.data.isSome) := fun g hg =>
    hready.1 g (mem_cons_of_mem _ hg)
  rw [frontendStep, get_bind, hfront]
  change Accounted cfg ((onStore (cfg.shmGetAndUpdateItem (if f.item.mmHash ∈ cached then none
    else f.item.data) f.item.mmHash) >>= fun p => setFrontend (.updating cached todo
      (out ++ [⟨p.1, f.item.offset, decide (f.item.mmHash ∉ cached)⟩]))) st).2
  cases hk : st.store.keyIndex.get? f.item.mmHash with
  | some e =>
    obtain ⟨a, j⟩ := e
    obtain ⟨updates, store, hrun, hused⟩ := shmGetAndUpdateItem_cached h.sound h.known hk
      (if f.item.mmHash ∈ cached then none else f.item.data)
    rw [bind_of_ok (onStore_run hrun)]
    refine h.use hused ⟨htodo, fun g hg => ?_⟩ fun i => ?_
    · rcases mem_append.mp hg with hg | hg
      · exact hready.2 g hg
      · obtain rfl := mem_singleton.mp hg
        rintro _ _ ⟨⟩
        exact ((h.sound.index _ a j).mp hk).2
    · have hcount := names_toNat hk i
      rw [hfront]
      simp only [owed, ahead, due_append, countP_cons_bool]
      have hdue : due i [(⟨.address a j, f.item.offset, decide (f.item.mmHash ∉ cached)⟩ :
          ShmFeature V)] = (if f.item.mmHash ∈ cached then 2 else 1) * if i = j then 1 else 0 := by
        by_cases he : i = j
        · simp only [due, dueTouches, dueReads, refersTo, he]
          by_cases hc : f.item.mmHash ∈ cached <;> simp [hc]
        · simp [due, dueTouches, dueReads, refersTo, he, Ne.symm he]
      rw [hdue]
      by_cases hc : f.item.mmHash ∈ cached
      · rw [if_pos hc, decide_eq_true hc, Bool.true_and]
        omega
      · rw [if_neg hc, decide_eq_false hc, Bool.false_and, Bool.toNat_false]
        omega
  | none =>
    have hnot : f.item.mmHash ∉ st.store.keyIndex.keys := get?_eq_none_iff.mp hk
    have hnew : f.item.mmHash ∉ cached := fun hc => hnot ((hready.1 f mem_cons_self).1 hc)
    obtain ⟨⟨v, updates⟩, hdata⟩ := Option.isSome_iff_exists.mp
      ((hready.1 f mem_cons_self).2 hnew)
    obtain ⟨d, store, ids, store₁, hrun, hknown, hfreed, hcase⟩ :=
      storeOrKeep_spec h.sound h.known hids hnot v updates
    rw [← shmGetAndUpdateItem_uncached hnot] at hrun
    rw [if_neg hnew, hdata, bind_of_ok (onStore_run hrun), decide_eq_true hnew]
    have h₁ := h.freed hfront hfreed
    cases d with
    | address a i => exact h₁.store hfront hnew hcase hknown
    | value v' =>
      subst hcase
      have hready₁ := h₁.ready
      simp only [hfront] at hready₁
      refine h₁.move ⟨fun g hg => hready₁.1 g (mem_cons_of_mem _ hg), fun g hg => ?_⟩
        fun i _ => ?_
      · rcases mem_append.mp hg with hg | hg
        · exact hready₁.2 g hg
        · obtain rfl := mem_singleton.mp hg
          rintro _ _ ⟨⟩
      · have hzero : due i [(⟨.value v', f.item.offset, true⟩ : ShmFeature V)] = 0 := rfl
        simp only [hfront, owed, ahead, due_append, hzero,
          countP_cons_of_neg, hnew, decide_false, Bool.false_and, Bool.false_eq_true,
          not_false_eq_true]
        rfl

theorem Accounted.hand_out (hfront : st.frontend = .updating cached [] out) :
    Accounted cfg (handOut out st).2 := by
  have hready := h.ready
  rw [hfront] at hready
  have hperm := perm_insertionSort (fun f g : ShmFeature V => f.offset ≤ g.offset) out
  refine ⟨h.sound, h.known, fun w hw f hf => ?_, h.touches, trivial, fun i hi => ?_⟩
  · have hcases : f ∈ (st.workers w).pending ∨ f ∈ out := by
      simp only [pending, handOut, Call.modify, flatten_append, flatten_cons,
        flatten_nil, append_nil, mem_append, hperm.mem_iff] at hf
      simp only [pending, mem_append]
      tauto
    exact hcases.elim (h.placed w hw f) (hready.2 f)
  · have hold := h.account i hi
    have hdue : ∀ w, ((handOut out st).2.workers w).due i = (st.workers w).due i + due i out := by
      intro w
      simp only [ShmWorker.due, handOut, Call.modify, map_append, map_cons, map_nil,
        sum_append, sum_cons, sum_nil, due_perm hperm]
      omega
    rw [hfront] at hold
    have hconst : ∑ _w ∈ Finset.range cfg.nReaders, due i out = cfg.nReaders * due i out := by
      rw [Finset.sum_const_nat fun _ _ => rfl, Finset.card_range]
    simp only [hdue, Finset.sum_add_distrib]
    simp only [owed, ahead, countP_nil, Nat.add_zero] at hold
    change cfg.nReaders * st.store.uses i = cfg.reads st.store i + _ + cfg.nReaders * 0
    omega

theorem Accounted.frontend_step (hids : st.store.metadata.size < idMax) :
    Accounted cfg (cfg.frontendStep st).2 := by
  cases hfront : st.frontend with
  | idle =>
    rw [frontendStep, get_bind, hfront]
    exact h
  | touching cached todo items =>
    cases todo with
    | cons hash todo =>
      rw [frontendStep, get_bind, hfront]
      exact h.touch_key hfront
    | nil =>
      have hready := h.ready
      rw [hfront] at hready
      rw [frontendStep, get_bind, hfront]
      refine h.move ⟨fun f hf => ⟨(hready.2 f hf).1.mp, (hready.2 f hf).2⟩, by simp⟩ fun i _ => ?_
      have hsame : (items.countP fun f => decide (f.item.mmHash ∈ cached) &&
          st.store.names i f.item.mmHash) = items.countP fun f => st.store.names i f.item.mmHash := by
        refine countP_congr fun f hf => ?_
        rw [Bool.and_eq_true, decide_eq_true_eq, and_iff_right_iff_imp]
        intro hname
        obtain ⟨a, ha⟩ := names_iff.mp hname
        exact (hready.2 f hf).1.mpr (mem_keys_of_get? ha)
      rw [hfront]
      simp [owed, ahead, hsame, due, dueTouches, dueReads]
  | updating cached todo out =>
    cases todo with
    | cons f todo => exact h.update_step hids hfront
    | nil =>
      rw [frontendStep, get_bind, hfront]
      exact h.hand_out hfront

theorem Accounted.step {op : ShmOp K V U} (hok : op.Counts cfg st) :
    Accounted cfg (op.next cfg st) := by
  cases op with
  | request r => exact h.request_step r
  | frontend => exact h.frontend_step hok
  | worker w => exact h.worker_step hok

end

/-! ## Runs -/

def ShmSystem.Done (cfg : ShmConfig V) (st : ShmSystem K V U) : Prop :=
  st.frontend = .idle ∧ ∀ w < cfg.nReaders, st.workers w = {}

theorem accounted_init [DecidableEq K] : Accounted cfg ({} : ShmSystem K V U) := by
  refine ⟨⟨⟨le_rfl, Nat.zero_le _, rfl, Nat.two_pow_pos 31, rfl⟩, ?_, ?_, ?_⟩, ?_, ?_, ?_, trivial, ?_⟩
  all_goals simp [Dict.keys, Known, pending]

theorem counts_of_run (run : Run (ShmOp.next cfg) (fun (op : ShmOp K V U) st => op.Counts cfg st)
      {} st) :
    (∀ w < cfg.nReaders, ∀ f ∈ (st.workers w).pending, ∀ a i, f.data = .address a i →
        st.store.metadata.get? i = some a ∧ (cfg.freeUnused st.store).metadata.get? i = some a ∧
        ∃ chunk, cfg.accessBuf st.store a = some chunk ∧ chunk.id = i) ∧
      (st.Done cfg → ∀ i ∈ st.store.metadata.keys,
        cfg.reads st.store i = st.store.uses i * cfg.nReaders) := by
  have h : Accounted cfg st := run.inv accounted_init fun op st h hok => h.step hok
  refine ⟨fun w hw f hf a i hi => ?_, fun ⟨hidle, hdone⟩ i hi => ?_⟩
  · obtain ⟨ids, hfreed⟩ := h.sound.freeUnused
    have hlive := h.placed w hw f hf a i hi
    obtain ⟨chunk, hchunk, hid, -⟩ := h.sound.ring.chunk hlive
    exact ⟨hlive, h.kept hfreed hw hf a i hi, chunk, hchunk, hid⟩
  · have hsum : ∑ w ∈ Finset.range cfg.nReaders, (st.workers w).due i = 0 :=
      Finset.sum_eq_zero fun w hw => by
        rw [hdone w (Finset.mem_range.mp hw)]
        rfl
    have hold := h.account i hi
    rw [hsum, hidle] at hold
    simpa [ahead, owed, Nat.mul_comm] using hold.symm

def twoWorkers : ShmConfig Nat where
  dataBufferSize := 20
  maxObjectSize := 20
  nReaders := 2
  serializedSize := fun _ => 1
  buffer_pos := by decide
  readers_pos := Nat.two_pos

def afterOps (ops : List (ShmOp Nat Nat Unit)) : ShmSystem Nat Nat Unit :=
  ops.foldl (fun st op => op.next twoWorkers st) {}

def takeIn (hashes : List Nat) : List (ShmOp Nat Nat Unit) :=
  .request (images hashes []) :: List.replicate (2 * hashes.length + 2) .frontend

def inStep : List (ShmOp Nat Nat Unit) :=
  takeIn [1] ++ [.worker 0, .worker 1, .worker 0, .worker 1, .worker 0, .worker 1] ++
    takeIn [1] ++ [.worker 0, .worker 1, .worker 0, .worker 1, .worker 0, .worker 1]

theorem counts_of_run_inStep :
    (afterOps inStep).Done twoWorkers ∧ twoWorkers.reads (afterOps inStep).store 0 = 6 ∧
      twoWorkers.reads (afterOps inStep).store 0 =
        (afterOps inStep).store.uses 0 * twoWorkers.nReaders := by
  have hrun : Run (ShmOp.next twoWorkers)
      (fun (op : ShmOp Nat Nat Unit) st => op.Counts twoWorkers st) {} (afterOps inStep) :=
    .of_allowed (by decide)
  have hdone : (afterOps inStep).Done twoWorkers := by
    refine ⟨rfl, fun w hw => ?_⟩
    match w, hw with
    | 0, _ => rfl
    | 1, _ => rfl
  exact ⟨hdone, by decide, (counts_of_run hrun).2 hdone 0 (by decide)⟩

/-! ### An object freed too early -/

/-- An image comes twice in a request. The second worker touches it after the first one has read it
both times: now its touches count as well. The count is complete with the second worker's reads still to
come, and the next image takes the place of the first. -/
def outOfStep : List (ShmOp Nat Nat Unit) :=
  takeIn [1, 1] ++ List.replicate 5 (.worker 0) ++ List.replicate 3 (.worker 1) ++ takeIn [2]

theorem freed_before_read :
    ((afterOps outOfStep).workers 1).gets.map object? = [some (0, 0), some (0, 0)] ∧
      (afterOps outOfStep).store.metadata.get? 0 = none ∧
      (twoWorkers.workerStep 1 (afterOps outOfStep)).1 = .error (.raised (.valueError
        "Data for address:id '0:0' has been modified or is invalid.")) := by
  decide

end Vllm.Multimodal
