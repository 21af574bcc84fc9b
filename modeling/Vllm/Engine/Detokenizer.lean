import Mathlib.Data.List.Basic

/-! The incremental detokenizer. Text is held back as long as it may turn out to be the start of a
stop string, so that what a client was sent is never taken back. -/

namespace Vllm.Detokenization
open List

abbrev Text := List Char

/-! ## Stop strings -/

/-- `text.find(sub, start)`, where a negative start counts from the end. -/
def find (text sub : Text) (start : Int) : Option Nat :=
  let start := if start < 0 then (text.length + start).toNat else start.toNat
  (range' start (text.length + 1 - start)).find? fun i => sub <+: text.drop i

/-- The stop string found, with the length to cut the text to. -/
def checkStopStrings (outputText : Text) (newCharCount : Nat) (stop : List Text)
    (includeInOutput : Bool) : Option (Text × Option Nat) :=
  if newCharCount = 0 ∨ stop = [] then none
  else stop.findSome? fun stopStr =>
    (find outputText stopStr (1 - newCharCount - stopStr.length)).map fun stopIndex =>
      if includeInOutput then
        if outputText.length ≤ stopIndex + stopStr.length then (stopStr, none)
        else (stopStr, some (stopIndex + stopStr.length))
      else (stopStr, some stopIndex)

theorem lt_of_checkStopStrings {text s : Text} {n m : Nat} {stop : List Text} {inc : Bool}
    (hne : ∀ s ∈ stop, s ≠ []) (h : checkStopStrings text n stop inc = some (s, some m)) :
    ∃ s ∈ stop, text.length < m + n + if inc then 0 else s.length := by
  unfold checkStopStrings at h
  split at h
  · cases h
  next hn =>
  obtain ⟨s', hs, h⟩ := exists_of_findSome?_eq_some h
  obtain ⟨i, hi, h⟩ := Option.map_eq_some_iff.mp h
  have hlen := length_pos_of_ne_nil (hne s' hs)
  have hmem := mem_of_find?_eq_some hi
  rw [mem_range'_1, if_pos (by omega)] at hmem
  refine ⟨s', hs, ?_⟩
  cases inc <;> simp only [Bool.false_eq_true, if_true, if_false] at h ⊢
  · cases h
    omega
  · split at h <;> cases h
    omega

structure SamplingParams where
  stop : List Text
  minTokens : Nat
  includeStopStrInOutput : Bool
  /-- `_verify_args` refuses empty stop strings. -/
  stop_ne : ∀ s ∈ stop, s ≠ []

structure Detokenizer (T : Type) where
  tokenIds : List T
  outputText : Text := []
  lastOutputTextOffset : Nat := 0

namespace SamplingParams
variable {T : Type} (p : SamplingParams) (promptTokenIds : List T) (decodeNext : List T → Text)

def stopBufferLength : Nat :=
  if p.stop ≠ [] ∧ p.includeStopStrInOutput = false then
    (p.stop.map List.length).max?.getD 0 - 1
  else 0

def numOutputTokens (d : Detokenizer T) : Nat := d.tokenIds.length - promptTokenIds.length

def append (d : Detokenizer T) (newTokenId : T) : Detokenizer T :=
  let tokenIds := d.tokenIds ++ [newTokenId]
  { d with tokenIds, outputText := d.outputText ++ decodeNext tokenIds }

/-- A turn of the loop of `update`, with the variable `stop_check_offset`. -/
def decodeOne (st : Detokenizer T × Nat) (newTokenId : T) : Detokenizer T × Nat :=
  let d := append decodeNext st.1 newTokenId
  (d, if p.minTokens ≠ 0 ∧ numOutputTokens promptTokenIds d ≤ p.minTokens then d.outputText.length
    else st.2)

def evaluateStop (d : Detokenizer T) (stopCheckOffset : Nat) : Option Text × Detokenizer T :=
  if p.stop ≠ [] ∧ p.minTokens < numOutputTokens promptTokenIds d then
    match checkStopStrings d.outputText (d.outputText.length - stopCheckOffset) p.stop
        p.includeStopStrInOutput with
    | none => (none, d)
    | some (s, none) => (some s, d)
    | some (s, some n) => (some s, { d with outputText := d.outputText.take n })
  else (none, d)

/-- The token that terminated the request is recorded, and not decoded. -/
def decodedIds (newTokenIds : List T) (stopTerminated : Bool) : List T :=
  newTokenIds.take (newTokenIds.length - if stopTerminated && !p.includeStopStrInOutput then 1 else 0)

def update (newTokenIds : List T) (stopTerminated : Bool) (d : Detokenizer T) :
    Option Text × Detokenizer T :=
  if newTokenIds = [] then (none, d)
  else
    let decoded := p.decodedIds newTokenIds stopTerminated
    let (d, stopCheckOffset) :=
      decoded.foldl (p.decodeOne promptTokenIds decodeNext) (d, d.outputText.length)
    p.evaluateStop promptTokenIds
      { d with tokenIds := d.tokenIds ++ newTokenIds.drop decoded.length }
      stopCheckOffset

/-- A length below zero is below every offset, and cuts off the whole text. -/
def getNextOutputText (finished : Bool) (delta : Bool) (d : Detokenizer T) : Text × Detokenizer T :=
  let length := d.outputText.length - if finished then 0 else p.stopBufferLength
  match delta with
  | false => (d.outputText.take length, d)
  | true =>
    if d.lastOutputTextOffset < length then
      ((d.outputText.take length).drop d.lastOutputTextOffset,
        { d with lastOutputTextOffset := length })
    else ([], d)

/-- The output processor: after each `update` the client gets the next text, here the delta and the
cumulative one. A stop string finishes the request. -/
def processOutputs : List (List T × Bool) → Detokenizer T → List (Text × Text) × Detokenizer T
  | [], d => ([], d)
  | (ids, stopTerminated) :: calls, d =>
    let (stop, d) := p.update promptTokenIds decodeNext ids stopTerminated d
    let finished := stop.isSome || calls.isEmpty
    let text := (p.getNextOutputText finished false d).1
    let (delta, d) := p.getNextOutputText finished true d
    if finished then ([(delta, text)], d)
    else
      let (rest, d) := processOutputs calls d
      ((delta, text) :: rest, d)

/-! ## What was sent stays -/

theorem foldl_decodeOne (ids : List T) (st : Detokenizer T × Nat) :
    let st' := ids.foldl (p.decodeOne promptTokenIds decodeNext) st
    st'.1.lastOutputTextOffset = st.1.lastOutputTextOffset ∧
      st.1.outputText <+: st'.1.outputText ∧ min st.1.outputText.length st.2 ≤ st'.2 := by
  induction ids generalizing st with
  | nil => exact ⟨rfl, prefix_rfl, Nat.min_le_right _ _⟩
  | cons id ids ih =>
    obtain ⟨hoffset, htext, hcheck⟩ := ih (p.decodeOne promptTokenIds decodeNext st id)
    have hone : st.1.outputText <+: (p.decodeOne promptTokenIds decodeNext st id).1.outputText :=
      prefix_append _ _
    refine ⟨hoffset, hone.trans htext, Nat.le_trans ?_ hcheck⟩
    have hle := hone.length_le
    dsimp only [decodeOne] at hle ⊢
    split <;> omega

/-- What `update` keeps of the text it finds. -/
structure Keeps (text : Text) (offset : Nat) (res : Option Text × Detokenizer T) : Prop where
  offset : res.2.lastOutputTextOffset = offset
  sent : res.2.outputText.take (text.length - p.stopBufferLength) =
    text.take (text.length - p.stopBufferLength)
  length : text.length - p.stopBufferLength ≤ res.2.outputText.length
  grown : res.1 = none → text.length ≤ res.2.outputText.length

/-- A stop string that ends in the new text starts no earlier than the text held back. -/
theorem evaluateStop_keeps {d : Detokenizer T} {text : Text} {n k : Nat}
    (hn : d.lastOutputTextOffset = n) (htext : text <+: d.outputText) (hk : text.length ≤ k) :
    p.Keeps text n (p.evaluateStop promptTokenIds d k) := by
  have hlen := htext.length_le
  have hsent : d.outputText.take (text.length - p.stopBufferLength) =
      text.take (text.length - p.stopBufferLength) := by
    obtain ⟨new, hnew⟩ := htext
    rw [← hnew, take_append_of_le_length (Nat.sub_le _ _)]
  have hgrown : text.length - p.stopBufferLength ≤ d.outputText.length := by omega
  unfold evaluateStop
  split
  · split
    · exact ⟨hn, hsent, hgrown, fun _ => hlen⟩
    · exact ⟨hn, hsent, hgrown, fun _ => hlen⟩
    · next s m hstop =>
      obtain ⟨s', hs, hlt⟩ := lt_of_checkStopStrings p.stop_ne hstop
      have hm : text.length - p.stopBufferLength ≤ m := by
        rw [stopBufferLength]
        split
        · next hinc =>
          have hmax := le_max?_getD_of_mem (k := 0) (mem_map_of_mem (f := List.length) hs)
          rw [hinc.2, if_neg Bool.false_ne_true] at hlt
          omega
        · next hinc =>
          rw [(Bool.not_eq_false _).mp fun h => hinc ⟨ne_nil_of_mem hs, h⟩, if_pos rfl] at hlt
          omega
      refine ⟨hn, ?_, ?_, nofun⟩
      · rw [take_take, Nat.min_eq_left hm, hsent]
      · rw [length_take]
        exact Nat.le_min.mpr ⟨hm, hgrown⟩
  · exact ⟨hn, hsent, hgrown, fun _ => hlen⟩

theorem update_keeps (ids : List T) (stopTerminated : Bool) (d : Detokenizer T) :
    p.Keeps d.outputText d.lastOutputTextOffset
      (p.update promptTokenIds decodeNext ids stopTerminated d) := by
  unfold update
  split
  · exact ⟨rfl, rfl, Nat.sub_le _ _, fun _ => Nat.le_refl _⟩
  · obtain ⟨hoffset, htext, hcheck⟩ :=
      p.foldl_decodeOne promptTokenIds decodeNext (p.decodedIds ids stopTerminated)
        (d, d.outputText.length)
    rw [Nat.min_self] at hcheck
    exact p.evaluateStop_keeps promptTokenIds hoffset htext hcheck

theorem getNextOutputText_delta (finished : Bool) (d : Detokenizer T) (hle :
      d.lastOutputTextOffset ≤ d.outputText.length - if finished then 0 else p.stopBufferLength) :
    ∃ delta, p.getNextOutputText finished true d = (delta, { d with lastOutputTextOffset :=
        d.outputText.length - if finished then 0 else p.stopBufferLength }) ∧
      d.outputText.take d.lastOutputTextOffset ++ delta =
        (p.getNextOutputText finished false d).1 := by
  unfold getNextOutputText
  generalize d.outputText.length - _ = n at hle ⊢
  dsimp only
  split
  · refine ⟨_, rfl, ?_⟩
    nth_rewrite 1 [← Nat.min_eq_left hle]
    rw [← take_take]
    exact take_append_drop _ _
  · next hlt =>
    obtain rfl := Nat.le_antisymm hle (Nat.le_of_not_lt hlt)
    exact ⟨[], rfl, append_nil _⟩

/-- The calls from a state in which all but the text held back was sent. -/
theorem processOutputs_streams {calls : List (List T × Bool)} (hcalls : calls ≠ [])
    (d : Detokenizer T)
    (hlast : d.lastOutputTextOffset = d.outputText.length - p.stopBufferLength) :
    let res := p.processOutputs promptTokenIds decodeNext calls d
    let sent := d.outputText.take d.lastOutputTextOffset
    sent ++ (res.1.map Prod.fst).flatten = res.2.outputText ∧ ∀ i x, res.1[i]? = some x →
      x.2 = sent ++ ((res.1.take (i + 1)).map Prod.fst).flatten := by
  induction calls generalizing d with
  | nil => exact absurd rfl hcalls
  | cons call calls ih =>
    obtain ⟨hoffset, hsent, hlength, hgrown⟩ :=
      p.update_keeps promptTokenIds decodeNext call.1 call.2 d
    unfold processOutputs
    generalize p.update promptTokenIds decodeNext call.1 call.2 d = res at *
    obtain ⟨stop, d₁⟩ := res
    dsimp only at hoffset hsent hlength hgrown ⊢
    rw [← hlast, ← hoffset] at hsent hlength
    rw [← hoffset, ← hsent]
    cases hfin : stop.isSome || calls.isEmpty with
    | true =>
      obtain ⟨delta, hrun, happend⟩ := p.getNextOutputText_delta true d₁ hlength
      have htext : (p.getNextOutputText true false d₁).1 = d₁.outputText := take_length
      rw [htext] at happend
      rw [hrun, if_pos rfl, htext]
      refine ⟨by simpa using happend, fun i x hx => ?_⟩
      cases i with
      | zero =>
        cases hx
        simpa using happend.symm
      | succ i => cases hx
    | false =>
      obtain ⟨hstop, hnil⟩ := Bool.or_eq_false_iff.mp hfin
      have hgrown := hgrown (Option.not_isSome_iff_eq_none.mp (by simp [hstop]))
      have hle : d₁.lastOutputTextOffset ≤ d₁.outputText.length - p.stopBufferLength := by omega
      obtain ⟨delta, hrun, happend⟩ := p.getNextOutputText_delta false d₁ hle
      obtain ⟨hall, hpart⟩ := ih (isEmpty_eq_false_iff.mp hnil) { d₁ with lastOutputTextOffset :=
        d₁.outputText.length - p.stopBufferLength } rfl
      rw [hrun, if_neg Bool.false_ne_true]
      change (p.getNextOutputText false false d₁).1 ++ _ = _ at hall
      rw [← happend, append_assoc] at hall
      refine ⟨hall, fun i x hx => ?_⟩
      cases i with
      | zero =>
        cases hx
        simpa using happend.symm
      | succ i =>
        refine (hpart i x hx).trans ?_
        change (p.getNextOutputText false false d₁).1 ++ _ = _
        rw [← happend, append_assoc]
        rfl

/-- The deltas that a client is sent add up to the final text, and the cumulative texts are what
they add up to so far. -/
theorem deltas_concat (p : SamplingParams) (calls : List (List T × Bool)) :
    let res := p.processOutputs promptTokenIds decodeNext calls { tokenIds := promptTokenIds }
    (res.1.map Prod.fst).flatten = res.2.outputText ∧ ∀ i x, res.1[i]? = some x →
      x.2 = ((res.1.take (i + 1)).map Prod.fst).flatten ∧ x.2 <+: res.2.outputText := by
  rcases eq_or_ne calls [] with rfl | hne
  · exact ⟨rfl, nofun⟩
  · obtain ⟨hall, hpart⟩ := p.processOutputs_streams promptTokenIds decodeNext hne
      { tokenIds := promptTokenIds } (Nat.zero_sub _).symm
    generalize p.processOutputs promptTokenIds decodeNext calls _ = res at hall hpart ⊢
    refine ⟨hall, fun i x hx => ⟨hpart i x hx, ?_⟩⟩
    have hfirst := take_prefix (i + 1) res.1
    obtain ⟨later, hlater⟩ := hfirst.map Prod.fst
    refine ⟨later.flatten, ?_⟩
    rw [hpart i x hx, append_assoc, ← flatten_append, hlater]
    exact hall

end SamplingParams
end Vllm.Detokenization
