import Vllm.Base.Call
import Vllm.Base.Grouping

/-! The exchange of expert weights after a rebalance: `rebalance_execute.py`.

The weights of a rank are its tensors, each a function from rows. A mask over the local rows is a
predicate on rows, and a padded array with its count is the list of its first entries. -/

namespace Vllm.Eplb
open Base

/-- Two maps from physical slots to logical experts of one shape, for the ranks of the group. -/
structure Layout where
  epSize : Nat
  numLocalExperts : Nat
  numTensors : Nat
  oldIndices : List Int
  newIndices : List Int
  old_length : oldIndices.length = epSize * numLocalExperts
  new_length : newIndices.length = epSize * numLocalExperts

abbrev Tensors (W : Type) := Nat → Nat → W

def copyRow {W : Type} (w : Tensors W) (src : Nat) (b : Tensors W) (dst : Nat) : Tensors W :=
  fun t row => if row = dst then w t src else b t row

/-! ## Who sends and who receives -/

/-- By expert, then by position: `np.lexsort((positions, experts))`. -/
def lexLe (a b : Int × Nat) : Prop := a.1 < b.1 ∨ a.1 = b.1 ∧ a.2 ≤ b.2

instance : DecidableRel lexLe := fun _ _ => inferInstanceAs (Decidable (_ ∨ _ ∧ _))

/-- The ranks that hold each of the experts, by position: the positions are sorted by expert and then
grouped, and each rank is named once. -/
def ranksByExpert (numLocalExperts : Nat) (indices uniqueExperts : List Int) : List (Int × List Nat) :=
  let relevant := indices.zipIdx.filter (·.1 ∈ uniqueExperts)
  let sorted := relevant.insertionSort lexLe
  (groupRuns (sorted.map fun e => (e.1, e.2 / numLocalExperts))).map fun g => (g.1, uniqueFirst g.2)

def withMissing (uniqueExperts : List Int) (d : Dict Int (List Nat)) : Dict Int (List Nat) :=
  d.setAll ((uniqueExperts.filter (!d.contains ·)).map (·, []))

def getEpRanksWithExpertsBatch (expertIds : List Int) (numLocalExperts : Nat)
    (oldIndices newIndices : List Int) : Dict Int (List Nat) × Dict Int (List Nat) :=
  if expertIds.isEmpty then (∅, ∅)
  else
    let uniqueExperts := (unique expertIds).map Prod.fst
    let sendMap := Dict.setAll ∅ (ranksByExpert numLocalExperts oldIndices uniqueExperts)
    -- a rank that has the expert already does not receive it
    let recvMap := Dict.setAll ∅ ((ranksByExpert numLocalExperts newIndices uniqueExperts).map fun g =>
      (g.1, g.2.filter (· ∉ (sendMap.get? g.1).getD [])))
    (withMissing uniqueExperts sendMap, withMissing uniqueExperts recvMap)

def recvRanks (ranksToSend ranksToRecv : List Nat) (senderPos : Nat) : List Nat :=
  let numDstPerSender := ranksToRecv.length / ranksToSend.length
  let recvBegin := senderPos * numDstPerSender
  let recvEnd := recvBegin + numDstPerSender
  let remainderStart := ranksToSend.length * numDstPerSender
  (ranksToRecv.take recvEnd).drop recvBegin ++ ranksToRecv[remainderStart + senderPos]?.toList

def sendRank (ranksToSend ranksToRecv : List Nat) (recverPos : Nat) : Option Nat :=
  let numDstPerSender := ranksToRecv.length / ranksToSend.length
  let remainderStart := ranksToSend.length * numDstPerSender
  if recverPos < remainderStart then ranksToSend[recverPos / numDstPerSender]?
  else ranksToSend[recverPos - remainderStart]?

/-! ## `move_to_buffer` -/

inductive P2PKind where
  | isend
  | irecv
deriving DecidableEq, Repr

structure P2POp where
  kind : P2PKind
  tensor : Nat
  row : Nat
  peer : Nat
deriving DecidableEq, Repr

namespace Layout
variable (ly : Layout) (rank : Nat)

def localEntry (indices : List Int) (row : Nat) : Int :=
  indices.getD (rank * ly.numLocalExperts + row) (-1)

def oldLocal (row : Nat) : Int := ly.localEntry rank ly.oldIndices row

def newLocal (row : Nat) : Int := ly.localEntry rank ly.newIndices row

def localRows : List Nat := List.range ly.numLocalExperts

def isUnchanged (row : Nat) : Bool := ly.oldLocal rank row = ly.newLocal rank row

def isReceivedLocally (row : Nat) : Bool :=
  ly.isUnchanged rank row ||
    (ly.newLocal rank row != -1 && (ly.localRows.map (ly.oldLocal rank)).contains (ly.newLocal rank row))

def firstRows (experts : Nat → Int) (rows : List Nat) : List (Int × Nat) :=
  (unique (rows.map experts)).map fun e => (e.1, rows.getD e.2 0)

def sendEntries : List (Int × Nat) :=
  firstRows (ly.oldLocal rank) (ly.localRows.filter fun row => ly.oldLocal rank row != -1)

def recvEntries : List (Int × Nat) :=
  firstRows (ly.newLocal rank)
    (ly.localRows.filter fun row => !ly.isReceivedLocally rank row && ly.newLocal rank row != -1)

def recvPrimary (row : Nat) : Bool := (ly.recvEntries rank).any (·.2 = row)

/-- Sorted by expert, as `np.argsort(kind="stable")` does. -/
def byExpert (entries : List (Int × Nat)) : List (Int × Nat) := entries.insertionSort (·.1 ≤ ·.1)

def moveLocal {W : Type} (w : Tensors W) (b : Tensors W) (dst : Nat) : Tensors W :=
  match (ly.sendEntries rank).lookup (ly.newLocal rank dst) with
  | some src => copyRow w src b dst
  | none => b

def localMoves {W : Type} (w b : Tensors W) : Tensors W :=
  (ly.localRows.filter fun row => !ly.isUnchanged rank row && ly.isReceivedLocally rank row).foldl
    (ly.moveLocal rank w) b

def index (x : Nat) (xs : List Nat) : Except PyError Nat :=
  if x ∈ xs then .ok (xs.idxOf x) else .error (.valueError "list.index(x): x not in list")

def item (d : Dict Int (List Nat)) (k : Int) : Except PyError (List Nat) :=
  match d.get? k with
  | some v => .ok v
  | none => .error .keyError

def opsFor (kind : P2PKind) (row peer : Nat) : List P2POp :=
  (List.range ly.numTensors).map fun tensor => { kind, tensor, row, peer }

def postSends (maps : Dict Int (List Nat) × Dict Int (List Nat)) (e : Int × Nat) :
    Except PyError (List P2POp) := do
  let ranksToSend ← item maps.1 e.1
  let ranksToRecv ← item maps.2 e.1
  if ranksToSend = [] ∨ ranksToRecv = [] then return []
  else do
    let senderPos ← index rank ranksToSend
    return (recvRanks ranksToSend ranksToRecv senderPos).flatMap (ly.opsFor .isend e.2)

def postRecvs (maps : Dict Int (List Nat) × Dict Int (List Nat)) (e : Int × Nat) :
    Except PyError (List P2POp) := do
  let ranksToSend ← item maps.1 e.1
  let ranksToRecv ← item maps.2 e.1
  if ranksToSend = [] ∨ ranksToRecv = [] then return []
  else do
    let recverPos ← index rank ranksToRecv
    match sendRank ranksToSend ranksToRecv recverPos with
    | some src => return ly.opsFor .irecv e.2 src
    | none => .error .indexError

def mapsFor (entries : List (Int × Nat)) : Dict Int (List Nat) × Dict Int (List Nat) :=
  getEpRanksWithExpertsBatch (entries.map Prod.fst) ly.numLocalExperts ly.oldIndices ly.newIndices

def p2pOps : Except PyError (List P2POp) := do
  let sends ← (byExpert (ly.sendEntries rank)).mapM
    (ly.postSends rank (ly.mapsFor (byExpert (ly.sendEntries rank))))
  let recvs ← (byExpert (ly.recvEntries rank)).mapM
    (ly.postRecvs rank (ly.mapsFor (byExpert (ly.recvEntries rank))))
  return sends.flatten ++ recvs.flatten

structure Posted (W : Type) where
  buffers : Tensors W
  ops : List P2POp

def moveToBuffer {W : Type} (w b : Tensors W) : Except PyError (Posted W) := do
  let ops ← ly.p2pOps rank
  return { buffers := ly.localMoves rank w b, ops }

/-! ## `move_from_buffer` -/

def searchSorted (xs : List Int) (x : Int) : Nat := (xs.takeWhile (· < x)).length

def copyDuplicate {W : Type} (prims : List (Int × Nat)) (w : Tensors W) (dst : Nat) : Tensors W :=
  match prims[searchSorted (prims.map Prod.fst) (ly.newLocal rank dst)]? with
  | some prim => if prim.1 = ly.newLocal rank dst then copyRow w prim.2 w dst else w
  | none => w

def moveFromBuffer {W : Type} (w b : Tensors W) : Tensors W :=
  let copied := (ly.localRows.filter fun row => !ly.isUnchanged rank row &&
    (ly.isReceivedLocally rank row || ly.recvPrimary rank row)).foldl (fun w row => copyRow b row w row) w
  let duplicates := ly.localRows.filter fun row => (!ly.isUnchanged rank row && !ly.isReceivedLocally rank row) &&
    (!ly.recvPrimary rank row && ly.newLocal rank row != -1)
  duplicates.foldl (ly.copyDuplicate rank (byExpert (ly.recvEntries rank))) copied

end Layout

/-! ## Communication -/

/-- The sends of `a` to `b`, and the receives of `b` from `a`, in the order in which they are posted. -/
def sendsTo (ops : Nat → List P2POp) (a b : Nat) : List P2POp :=
  (ops a).filter fun op => op.kind = .isend ∧ op.peer = b

def recvsFrom (ops : Nat → List P2POp) (b a : Nat) : List P2POp :=
  (ops b).filter fun op => op.kind = .irecv ∧ op.peer = a

structure Delivery where
  sender : Nat
  send : P2POp
  recv : P2POp

def deliveries (epSize : Nat) (ops : Nat → List P2POp) (b : Nat) : List Delivery :=
  (List.range epSize).flatMap fun a =>
    (sendsTo ops a b).zipWith (fun send recv => { sender := a, send, recv }) (recvsFrom ops b a)

def receive {W : Type} (weights : Nat → Tensors W) (b : Tensors W) (d : Delivery) : Tensors W :=
  fun t row => if t = d.recv.tensor ∧ row = d.recv.row then weights d.sender d.send.tensor d.send.row
    else b t row

end Vllm.Eplb
