import CoherentMemory.Interconnect.Topology
import Mathlib

/-!
# The links of a node

`linksOf` and `neighbours` read the incidence table; here they are read off the
link list instead:

* `linksOf_eq`: the links of a node are those of the list, in its order, once for
  each of their ends that is the node;
* `mem_linksOf`, `other?_eq_some`: membership, and what the other end of a link is;
* `linksOf_perm`: of two lists of links in different orders the nodes have the same
  links;
* `sum_length_linksOf_le`: every link is entered at most twice.
-/

namespace CoherentMemory.Interconnect

/-- A link joins two nodes, in either direction. -/
def Link.Joins (l : Link) (u v : NodeId) : Prop :=
  l.a = u ∧ l.b = v ∨ l.b = u ∧ l.a = v

theorem Link.Joins.symm {l : Link} {u v : NodeId} (h : l.Joins u v) : l.Joins v u := by
  rcases h with ⟨ha, hb⟩ | ⟨hb, ha⟩
  · exact .inr ⟨hb, ha⟩
  · exact .inl ⟨ha, hb⟩

theorem Link.other?_eq_some {l : Link} {u v : NodeId} : l.other? u = some v ↔ l.Joins u v := by
  unfold Link.other? Link.Joins
  constructor
  · intro h
    split at h
    · rename_i ha
      exact .inl ⟨ha, Option.some.inj h⟩
    · split at h
      · rename_i hb
        exact .inr ⟨hb, Option.some.inj h⟩
      · cases h
  · rintro (⟨ha, hb⟩ | ⟨hb, ha⟩)
    · rw [if_pos ha, hb]
    · by_cases h : l.a = u
      · rw [if_pos h, hb, ← h, ha]
      · rw [if_neg h, if_pos hb, ha]

/-- The link, once for each of its ends that is `v`. -/
def Link.entriesAt (v : NodeId) (l : Link) : List Link :=
  (if l.a = v then [l] else []) ++ if l.b = v then [l] else []

theorem Link.mem_entriesAt {v : NodeId} {l m : Link} :
    m ∈ l.entriesAt v ↔ m = l ∧ (l.a = v ∨ l.b = v) := by
  unfold Link.entriesAt
  by_cases ha : l.a = v <;> by_cases hb : l.b = v <;> simp [ha, hb]

/-- A link between different nodes is entered once. -/
theorem Link.entriesAt_eq {v : NodeId} {l : Link} (h : l.a ≠ l.b) :
    l.entriesAt v = if l.a = v ∨ l.b = v then [l] else [] := by
  unfold Link.entriesAt
  by_cases ha : l.a = v
  · have hb : l.b ≠ v := fun hb => h (ha.trans hb.symm)
    rw [if_pos ha, if_neg hb, if_pos (.inl ha), List.append_nil]
  · by_cases hb : l.b = v
    · rw [if_neg ha, if_pos hb, if_pos (.inr hb), List.nil_append]
    · rw [if_neg ha, if_neg hb, if_neg (not_or.mpr ⟨ha, hb⟩), List.nil_append]

/-! ## The table -/

theorem getElem?_enter (table : Array (Array Link)) (u v : NodeId) (l : Link) :
    (enter table u l)[v]? = table[v]?.map (· ++ if u = v then #[l] else #[]) := by
  rw [enter, Array.getElem?_modify]
  split <;> cases table[v]? <;> simp

theorem getElem?_foldl_enter (v : NodeId) (links : List Link) (table : Array (Array Link)) :
    (links.foldl (fun table l => enter (enter table l.a l) l.b l) table)[v]? =
      table[v]?.map (· ++ (links.flatMap (Link.entriesAt v)).toArray) := by
  induction links generalizing table with
  | nil => cases h : table[v]? <;> simp [h]
  | cons l links ih =>
    rw [List.foldl_cons, ih, getElem?_enter, getElem?_enter, List.flatMap_cons, Link.entriesAt]
    cases table[v]? with
    | none => rfl
    | some row =>
      by_cases ha : l.a = v <;> by_cases hb : l.b = v <;> simp [ha, hb]

/-- The links of a node are those of the list that have it as an end. -/
theorem linksOf_eq (t : Topology) {v : NodeId} (h : v < t.nodeCount) :
    t.linksOf v = t.links.flatMap (Link.entriesAt v) := by
  have hr : (Array.replicate t.nodes.size (#[] : Array Link))[v]? = some #[] := by
    rw [Array.getElem?_replicate]
    exact if_pos h
  rw [Topology.linksOf, t.incident_eq, incidence, getElem?_foldl_enter, hr]
  simp

/-- A node out of range has no links. -/
theorem linksOf_of_le (t : Topology) {v : NodeId} (h : t.nodeCount ≤ v) : t.linksOf v = [] := by
  have hv : t.incident[v]? = none := Array.getElem?_eq_none (by rw [t.size_incident]; exact h)
  rw [Topology.linksOf, hv]
  rfl

theorem mem_linksOf {t : Topology} {v : NodeId} {l : Link} :
    l ∈ t.linksOf v ↔ v < t.nodeCount ∧ l ∈ t.links ∧ (l.a = v ∨ l.b = v) := by
  by_cases h : v < t.nodeCount
  · rw [linksOf_eq t h, List.mem_flatMap]
    constructor
    · rintro ⟨m, hm, hl⟩
      obtain ⟨rfl, he⟩ := Link.mem_entriesAt.mp hl
      exact ⟨h, hm, he⟩
    · rintro ⟨_, hl, he⟩
      exact ⟨l, hl, Link.mem_entriesAt.mpr ⟨rfl, he⟩⟩
  · rw [linksOf_of_le t (Nat.le_of_not_lt h)]
    simp [h]

/-- A link of a node leads to some node. -/
theorem exists_joins_of_mem_linksOf {t : Topology} {v : NodeId} {l : Link}
    (h : l ∈ t.linksOf v) : ∃ w, l.Joins v w := by
  rcases (mem_linksOf.mp h).2.2 with ha | hb
  · exact ⟨l.b, .inl ⟨ha, rfl⟩⟩
  · exact ⟨l.a, .inr ⟨hb, rfl⟩⟩

theorem mem_neighbours {t : Topology} {u v : NodeId} :
    v ∈ t.neighbours u ↔ u < t.nodeCount ∧ ∃ l ∈ t.links, l.Joins u v := by
  simp only [Topology.neighbours, List.mem_filterMap, mem_linksOf, Link.other?_eq_some]
  constructor
  · rintro ⟨l, ⟨hu, hl, -⟩, hj⟩
    exact ⟨hu, l, hl, hj⟩
  · rintro ⟨hu, l, hl, hj⟩
    exact ⟨l, ⟨hu, hl, hj.imp And.left And.left⟩, hj⟩

/-- The order of the link list does not decide which links a node has. -/
theorem linksOf_perm {t : Topology} {links : List Link} (h : t.links.Perm links) {v : NodeId}
    (hv : v < t.nodeCount) : (t.linksOf v).Perm (links.flatMap (Link.entriesAt v)) := by
  rw [linksOf_eq t hv]
  exact h.flatMap_right _

/-! ## The number of entries -/

theorem sum_length_entriesAt_le (n : Nat) (l : Link) :
    ∑ v ∈ Finset.range n, (l.entriesAt v).length ≤ 2 := by
  have one (w : NodeId) : ∑ v ∈ Finset.range n, (if w = v then 1 else 0) ≤ 1 := by
    rw [Finset.sum_ite_eq]
    split <;> decide
  have split (v : NodeId) : (l.entriesAt v).length =
      (if l.a = v then 1 else 0) + if l.b = v then 1 else 0 := by
    rw [Link.entriesAt, List.length_append]
    split <;> split <;> rfl
  simp only [split, Finset.sum_add_distrib]
  exact Nat.add_le_add (one l.a) (one l.b)

/-- Every link is entered under at most two nodes. -/
theorem sum_length_linksOf_le (t : Topology) :
    ∑ v ∈ Finset.range t.nodeCount, (t.linksOf v).length ≤ 2 * t.linkCount := by
  have h : ∀ links : List Link,
      ∑ v ∈ Finset.range t.nodeCount, (links.flatMap (Link.entriesAt v)).length ≤
        2 * links.length := by
    intro links
    induction links with
    | nil => simp
    | cons l links ih =>
      simp only [List.flatMap_cons, List.length_append, Finset.sum_add_distrib, List.length_cons]
      have := sum_length_entriesAt_le t.nodeCount l
      omega
  calc ∑ v ∈ Finset.range t.nodeCount, (t.linksOf v).length
    _ = ∑ v ∈ Finset.range t.nodeCount, (t.links.flatMap (Link.entriesAt v)).length :=
      Finset.sum_congr rfl fun v hv => by rw [linksOf_eq t (Finset.mem_range.mp hv)]
    _ ≤ 2 * t.linkCount := h t.links

end CoherentMemory.Interconnect
