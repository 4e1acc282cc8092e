import CoherentMemory.Interconnect.Topology

/-!
# Hop distances

The number of links on a shortest path, by breadth-first search. The state of
the search holds a distance for each discovered node and the discovered nodes
not yet expanded, in the order of their discovery. A node is discovered at most
once, so that the search needs no more expansions than there are nodes.
-/

namespace CoherentMemory.Interconnect

/-- The state of a breadth-first search. -/
structure Flood where
  distance : Array (Option Nat)
  queue : List NodeId

namespace Flood

/-- The search before its first expansion, with only the source discovered. -/
def start (size : Nat) (source : NodeId) : Flood :=
  ⟨(Array.replicate size none).setIfInBounds source (some 0), [source]⟩

/-- Discovers a node at a distance, unless it is discovered already. -/
def discover (d : Nat) (s : Flood) (v : NodeId) : Flood :=
  if s.distance[v]? = some none then ⟨s.distance.setIfInBounds v (some d), s.queue ++ [v]⟩ else s

/-- The distance at which a node was discovered. -/
def distanceOf? (s : Flood) (v : NodeId) : Option Nat :=
  s.distance[v]?.join

/-- Expands nodes until `target` is next in the queue, and gives its distance. -/
def run (t : Topology) (target : NodeId) : Nat → Flood → Option Nat
  | 0, _ => none
  | fuel + 1, s =>
    match s.queue with
    | [] => none
    | v :: rest =>
      if v = target then s.distanceOf? v
      else
        let next := ((s.distanceOf? v).getD 0) + 1
        run t target fuel ((t.neighbours v).foldl (discover next) ⟨s.distance, rest⟩)

end Flood

/-- The number of links on a shortest path between two nodes. -/
def Topology.hopDistance (t : Topology) (source target : NodeId) : Option Nat :=
  if source < t.nodeCount && target < t.nodeCount then
    Flood.run t target (t.nodeCount + 1) (Flood.start t.nodeCount source)
  else none

end CoherentMemory.Interconnect
