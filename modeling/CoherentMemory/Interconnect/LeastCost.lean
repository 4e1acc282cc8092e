import CoherentMemory.Interconnect.Topology
import CoherentMemory.Overflow

/-!
# Least path costs

A path costs the sum of its links' costs and of the costs of the nodes that it
passes through; its two ends cost nothing. `leastCosts` computes the least cost
from one node to every node by a search that settles nodes in the order of their
costs. The state of the search is a value: the least cost found so far for each
node, and a frontier of costs to settle, sorted, in which outdated entries stay
until they come up. `step` takes the first entry off the frontier and `run`
repeats it; every link is entered twice in the incidence table, which bounds the
number of entries. Costs are 64-bit numbers, and a sum that leaves them ends the
search.
-/

namespace CoherentMemory.Interconnect

/-- What paths cost. -/
structure CostModel where
  node : Node → Nat
  link : Link → Nat

/-- A cost at which a node was reached. -/
abbrev Entry := Nat × NodeId

/-- The order of entries: by cost, then by node. -/
def Entry.le (e f : Entry) : Bool :=
  e.1 < f.1 || (e.1 = f.1 && e.2 ≤ f.2)

/-- Enters an entry into a sorted frontier. -/
def enqueue (e : Entry) : List Entry → List Entry
  | [] => [e]
  | f :: rest => if e.le f then e :: f :: rest else f :: enqueue e rest

/-- The state of a search. -/
structure Search where
  best : Array (Option Nat)
  frontier : List Entry

namespace Search

/-- The search before its first step. -/
def start (size : Nat) (source : NodeId) : Search :=
  ⟨(Array.replicate size none).setIfInBounds source (some 0), [(0, source)]⟩

/-- The least cost found for a node. -/
def bestOf? (s : Search) (v : NodeId) : Option Nat :=
  s.best[v]?.join

/-- Whether a cost improves on what was found for a node. -/
def improves (s : Search) (v : NodeId) (cost : Nat) : Bool :=
  match s.best[v]? with
  | some (some found) => cost < found
  | some none => true
  | none => false

/-- Enters a cost for a node if it is an improvement. -/
def offer (s : Search) (v : NodeId) (cost : Nat) : Search :=
  if s.improves v cost then
    ⟨s.best.setIfInBounds v (some cost), enqueue (cost, v) s.frontier⟩
  else s

end Search

variable (t : Topology) (costs : CostModel) (source : NodeId)

/-- What a path pays for going on from `v`: nothing at its source. -/
def transitCost (v : NodeId) : Nat :=
  if v = source then 0 else (t.node? v).elim 0 costs.node

/-- Offers the node at the other end of a link the cost of the path over `v`. -/
def relax (v : NodeId) (cost : Nat) (s : Search) (l : Link) : Except Overflow Search :=
  match l.other? v with
  | none => .ok s
  | some w =>
    (checkedAdd (cost + transitCost t costs source v) (costs.link l)).map (s.offer w)

/-- Takes the first entry off the frontier. An outdated entry is dropped; for any
other the node is expanded over all its links. -/
def step (s : Search) : Except Overflow Search :=
  match s.frontier with
  | [] => .ok s
  | (cost, v) :: rest =>
    if (s.bestOf? v).any (· < cost) then .ok ⟨s.best, rest⟩
    else (t.linksOf v).foldlM (relax t costs source v cost) ⟨s.best, rest⟩

/-- At most `fuel` steps, until the frontier is empty. -/
def run : Nat → Search → Except Overflow Search
  | 0, s => .ok s
  | fuel + 1, s => if s.frontier.isEmpty then .ok s else (step t costs source s).bind (run fuel)

/-- As many steps as there can be entries. -/
def stepBound : Nat :=
  2 * t.linkCount + 2

/-- The search from `source` to its end. -/
def search : Except Overflow Search :=
  run t costs source (stepBound t) (.start t.nodeCount source)

/-- The least cost of a path from `source` to each node. -/
def leastCosts : Except Overflow (Array (Option Nat)) :=
  if source < t.nodeCount then (search t costs source).map Search.best
  else .ok (Array.replicate t.nodeCount none)

/-! ## The frontier -/

theorem mem_enqueue {e f : Entry} {entries : List Entry} :
    f ∈ enqueue e entries ↔ f = e ∨ f ∈ entries := by
  fun_induction enqueue e entries with
  | case1 => simp only [List.mem_cons]
  | case2 => simp only [List.mem_cons]
  | case3 g rest _ ih => grind

@[simp] theorem length_enqueue (e : Entry) (entries : List Entry) :
    (enqueue e entries).length = entries.length + 1 := by
  fun_induction enqueue e entries with
  | case1 => rfl
  | case2 => rfl
  | case3 g rest _ ih => rw [List.length_cons, ih, List.length_cons]

@[simp] theorem Search.size_offer (s : Search) (v : NodeId) (cost : Nat) :
    (s.offer v cost).best.size = s.best.size := by
  unfold Search.offer
  split
  · exact Array.size_setIfInBounds
  · rfl

end CoherentMemory.Interconnect
