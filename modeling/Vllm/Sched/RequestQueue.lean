import Vllm.Base.Heap

/-! The queues of waiting requests: `request_queue.py`. A queue is the list of the request ids, in
deque order or in heap order. `lt` is `Request.__lt__` on the requests that the ids stand for. -/

namespace Vllm
open Base List

inductive SchedulingPolicy where
  | fcfs
  | priority
deriving DecidableEq, Repr

namespace SchedulingPolicy
variable (policy : SchedulingPolicy) (lt : String → String → Bool)

def addRequest (q : List String) (id : String) : List String :=
  match policy with
  | fcfs => q ++ [id]
  | priority => Heap.heappush lt q id

/-- The queue left by `pop_request`; the request popped is the head. -/
def popRequest (q : List String) : List String :=
  match policy with
  | fcfs => q.tail
  | priority => Heap.heappop lt q

def prependRequest (q : List String) (id : String) : List String :=
  match policy with
  | fcfs => id :: q
  | priority => Heap.heappush lt q id

/-- `extendleft` puts the requests in front one by one, which reverses their order. -/
def prependRequests (q requests : List String) : List String :=
  match policy with
  | fcfs => requests.reverse ++ q
  | priority => (Heap.popOrder lt requests.length requests).foldl (Heap.heappush lt) q

def removeRequests (q ids : List String) : List String :=
  match policy with
  | fcfs => q.filter (· ∉ ids)
  | priority => Heap.heapify lt (q.filter (· ∉ ids))

/-! Up to order the policy makes no difference. -/

theorem addRequest_perm (q : List String) (id : String) :
    (policy.addRequest lt q id).Perm (id :: q) := by
  cases policy with
  | fcfs => exact perm_append_singleton id q
  | priority => exact Heap.heappush_perm lt q id

theorem popRequest_perm (id : String) (q : List String) :
    (policy.popRequest lt (id :: q)).Perm q := by
  cases policy with
  | fcfs => exact List.Perm.refl q
  | priority => exact Heap.heappop_perm lt id q

theorem prependRequest_perm (q : List String) (id : String) :
    (policy.prependRequest lt q id).Perm (id :: q) := by
  cases policy with
  | fcfs => exact List.Perm.refl _
  | priority => exact Heap.heappush_perm lt q id

theorem foldl_heappush_perm (ids q : List String) :
    (ids.foldl (Heap.heappush lt) q).Perm (ids ++ q) := by
  induction ids generalizing q with
  | nil => exact List.Perm.refl q
  | cons id ids ih =>
    refine (ih _).trans ((List.Perm.append_left ids (Heap.heappush_perm lt q id)).trans ?_)
    exact perm_middle

theorem prependRequests_perm (q requests : List String) :
    (policy.prependRequests lt q requests).Perm (requests ++ q) := by
  cases policy with
  | fcfs => exact List.Perm.append_right q (reverse_perm requests)
  | priority =>
    refine (foldl_heappush_perm lt _ q).trans (List.Perm.append_right q ?_)
    exact Heap.popOrder_perm lt requests.length requests (Nat.le_refl _)

theorem removeRequests_perm (q ids : List String) :
    (policy.removeRequests lt q ids).Perm (q.filter (· ∉ ids)) := by
  cases policy with
  | fcfs => exact List.Perm.refl _
  | priority => exact Heap.heapify_perm lt _

end SchedulingPolicy
end Vllm
