import CoherentMemory.Proofs.Guarded.Queries
import CoherentMemory.Proofs.Interconnect.GridLinks

/-!
# The table of links

Every query reads the links of a node off a table that is filled once, link by link, each
under both of its ends. What the table holds then (`Indexes`): in the row of a node the
positions of the links that have it as an end, in ascending order. So looking up a row gives
the links of the node in the order of the link list, and each of them leads to one
neighbour (`ReadsLinks`).

A link that starts and ends at the same node is entered twice, so all of this is for
topologies without one. Layouts are (`layout_readsLinks`).
-/

namespace CoherentMemory.Guarded

open Interconnect

/-- The rows of a table hold the positions of the links of each of `n` nodes. -/
structure Indexes (n : Nat) (links : List Link) (table : Array (Array Nat)) : Prop where
  size_eq : table.size = n
  pairwise_row : ∀ (v : NodeId) (row : Array Nat), table[v]? = some row →
    row.toList.Pairwise (· < ·)
  mem_row : ∀ (v : NodeId) (row : Array Nat), table[v]? = some row → ∀ i, i ∈ row.toList ↔
    ∃ l, links[i]? = some l ∧ (l.a = v ∨ l.b = v)

/-- What is read of the links of a node. -/
structure ReadsLinks (t : Topology) (v : NodeId) : Prop where
  /-- They are those of the link list with the node as an end. -/
  linksOf_eq : t.linksOf v = t.links.filter fun l => l.a = v || l.b = v
  linksOf_of_le : t.nodeCount ≤ v → t.linksOf v = []
  /-- Looking up the positions in the row of the node gives the same. -/
  lookup_eq : linksOf t v = .ok (t.linksOf v)
  /-- The neighbours are the other ends, link by link. -/
  opposite : List.Forall₂ (fun l w => l.Joins v w) (t.linksOf v) (t.neighbours v)
  count_comm : ∀ w, (t.neighbours v).count w = (t.neighbours w).count v

/-! ## Filling the table -/

/-- The positions of the links with `v` as an end, of links that come with their
positions. -/
def positionsAt (v : NodeId) (entries : List (Link × Nat)) : List Nat :=
  (entries.filter fun e => e.1.a = v || e.1.b = v).map Prod.snd

theorem positionsAt_cons (v : NodeId) (e : Link × Nat) (entries : List (Link × Nat)) :
    positionsAt v (e :: entries) =
      (if e.1.a = v ∨ e.1.b = v then [e.2] else []) ++ positionsAt v entries := by
  rw [positionsAt, List.filter_cons]
  by_cases h : e.1.a = v ∨ e.1.b = v <;> simp [h, positionsAt]

theorem mem_positionsAt {links : List Link} {v : NodeId} {i : Nat} :
    i ∈ positionsAt v links.zipIdx ↔ ∃ l, links[i]? = some l ∧ (l.a = v ∨ l.b = v) := by
  simp [positionsAt, List.mem_zipIdx_iff_getElem?]

theorem pairwise_positionsAt (links : List Link) (v : NodeId) :
    (positionsAt v links.zipIdx).Pairwise (· < ·) := by
  have hsub : (positionsAt v links.zipIdx).Sublist (links.zipIdx.map Prod.snd) :=
    List.filter_sublist.map _
  rw [List.zipIdx_map_snd, ← List.range_eq_range'] at hsub
  exact List.pairwise_lt_range.sublist hsub

section Filling

variable {links : List Link} {table table' : Array (Array Nat)} {v : NodeId} {i : Nat}

theorem enter_eq_ok (h : enter table v i = .ok table') : table' = table.modify v (·.push i) := by
  unfold enter at h
  split at h
  · exact (Except.ok.inj h).symm
  · cases h

/-- Entering a link under its ends adds it to their rows, once to each. -/
theorem getElem?_of_enter {l : Link} (hne : l.a ≠ l.b)
    (h : (do enter (← enter table l.a i) l.b i) = Except.ok table') :
    table'[v]? = table[v]?.map (· ++ if l.a = v ∨ l.b = v then #[i] else #[]) := by
  obtain ⟨table₁, h₁, h₂⟩ := bind_eq_ok.mp h
  rw [enter_eq_ok h₂, enter_eq_ok h₁, Array.getElem?_modify, Array.getElem?_modify]
  by_cases ha : l.a = v
  · have hb : l.b ≠ v := fun hb => hne (ha.trans hb.symm)
    cases table[v]? <;> simp [ha, hb]
  · by_cases hb : l.b = v <;> cases table[v]? <;> simp [ha, hb]

/-- Entering links in turn adds to every row the positions of the links of its node. -/
theorem getElem?_of_foldlM_enter {entries : List (Link × Nat)}
    (hne : ∀ e ∈ entries, e.1.a ≠ e.1.b)
    (h : entries.foldlM (fun table l => do enter (← enter table l.1.a l.2) l.1.b l.2) table =
      Except.ok table') :
    table'[v]? = table[v]?.map (· ++ (positionsAt v entries).toArray) := by
  induction entries generalizing table with
  | nil =>
    cases h
    cases table'[v]? <;> simp [positionsAt]
  | cons e entries ih =>
    rw [List.forall_mem_cons] at hne
    rw [List.foldlM_cons] at h
    obtain ⟨table₁, h₁, h₂⟩ := bind_eq_ok.mp h
    rw [ih hne.2 h₂, getElem?_of_enter hne.1 h₁, positionsAt_cons]
    cases table[v]? with
    | none => rfl
    | some row => by_cases he : e.1.a = v ∨ e.1.b = v <;> simp [he]

theorem exists_indexes {n : Nat} (hr : ∀ l ∈ links, l.a < n ∧ l.b < n)
    (hne : ∀ l ∈ links, l.a ≠ l.b) :
    ∃ table, adjacency n links = .ok table ∧ Indexes n links table := by
  obtain ⟨table, htable, hresolve⟩ := adjacency_eq n links hr
  have hsize : table.size = n := by
    have h := congrArg Array.size hresolve
    rwa [resolve, Array.size_map, Array.size_map, size_incidence] at h
  have hrow (v : NodeId) (row : Array Nat) (h : table[v]? = some row) :
      row.toList = positionsAt v links.zipIdx := by
    have hv : v < n := by
      rw [← hsize]
      exact (Array.getElem?_eq_some_iff.mp h).1
    have hentries : ∀ e ∈ links.zipIdx, e.1.a ≠ e.1.b := fun e he =>
      hne e.1 (List.fst_mem_of_mem_zipIdx he)
    rw [getElem?_of_foldlM_enter hentries htable, Array.getElem?_replicate, if_pos hv] at h
    simpa using (congrArg Array.toList (Option.some.inj h)).symm
  refine ⟨table, htable, hsize, fun v row h => ?_, fun v row h i => ?_⟩
  · rw [hrow v row h]
    exact pairwise_positionsAt links v
  · rw [hrow v row h]
    exact mem_positionsAt

end Filling

/-! ## Reading it -/

section Reading

/-- Where a function has a value for each element, these are its values in turn. -/
theorem forall₂_filterMap {α β : Type} {f : α → Option β} {xs : List α}
    (h : ∀ x ∈ xs, ∃ y, f x = some y) :
    List.Forall₂ (fun x y => f x = some y) xs (xs.filterMap f) := by
  induction xs with
  | nil => exact .nil
  | cons x xs ih =>
    rw [List.forall_mem_cons] at h
    obtain ⟨y, hy⟩ := h.1
    rw [List.filterMap_cons_some hy]
    exact .cons hy (ih h.2)

variable {t : Topology} (hr : t.LinksInRange) (hne : ∀ l ∈ t.links, l.a ≠ l.b)
include hr hne

/-- A node out of range is no end of a link. -/
theorem linksOf_eq_filter_links (v : NodeId) :
    t.linksOf v = t.links.filter fun l => l.a = v || l.b = v := by
  by_cases hv : v < t.nodeCount
  · exact linksOf_eq_filter hne hv
  · rw [linksOf_of_le t (Nat.le_of_not_lt hv)]
    refine (List.filter_eq_nil_iff.mpr fun l hl he => ?_).symm
    obtain ⟨ha, hb⟩ := hr l hl
    rw [Bool.or_eq_true, decide_eq_true_eq, decide_eq_true_eq] at he
    rcases he with rfl | rfl
    · exact hv ha
    · exact hv hb

theorem neighbours_eq_filterMap (v : NodeId) : t.neighbours v = t.links.filterMap (·.other? v) := by
  rw [Topology.neighbours, linksOf_eq_filter_links hr hne, List.filterMap_filter]
  refine List.filterMap_congr fun l _ => ?_
  by_cases ha : l.a = v <;> by_cases hb : l.b = v <;> simp [Link.other?, ha, hb]

/-- A neighbour comes up once for each link to it. -/
theorem count_neighbours (v w : NodeId) :
    (t.neighbours v).count w = (t.linksBetween v w).length := by
  rw [neighbours_eq_filterMap hr hne, List.count_filterMap, Topology.linksBetween,
    ← List.countP_eq_length_filter]
  refine List.countP_congr fun l _ => ?_
  rw [beq_iff_eq, decide_eq_true_eq]
  exact Link.other?_eq_some

theorem readsLinks (v : NodeId) : ReadsLinks t v where
  linksOf_eq := linksOf_eq_filter_links hr hne v
  linksOf_of_le := linksOf_of_le t
  lookup_eq := linksOf_eq hr v
  opposite := by
    have hother : ∀ l ∈ t.linksOf v, ∃ w, l.other? v = some w := by
      intro l hl
      obtain ⟨w, hj⟩ := exists_joins_of_mem_linksOf hl
      exact ⟨w, Link.other?_eq_some.mpr hj⟩
    exact (forall₂_filterMap hother).imp fun _ _ => Link.other?_eq_some.mp
  count_comm w := by
    rw [count_neighbours hr hne, count_neighbours hr hne, t.linksBetween_comm]

end Reading

/-! ## Layouts -/

/-- In a layout of any family the table holds the positions of the links of every node, and
what is read off it are these links and the nodes that they lead to. -/
theorem layout_readsLinks {kind : Interconnect.Kind} {cs : ControllerSet} {shape : Shape}
    {t : Topology} (h : Interconnect.layout kind cs shape = .ok t) :
    (∃ table, adjacency t.nodeCount t.links = .ok table ∧ Indexes t.nodeCount t.links table) ∧
      ∀ v, ReadsLinks t v := by
  obtain ⟨g, position, hw, -⟩ := layout_wiring h
  have hr := hw.linksInRange
  have hne : ∀ l ∈ t.links, l.a ≠ l.b := fun l hl => hw.ends_ne hl
  exact ⟨exists_indexes hr hne, readsLinks hr hne⟩

/-- A ring of three routers with a sequencer each. -/
def ringOfThree : Topology :=
  Interconnect.meshOver .mesh ⟨1, 3, Nat.one_pos, by decide⟩
    [.sequencer 0, .sequencer 1, .sequencer 2] { wraparound := true }

/-- Each router of the ring has three links, the last of which closes the ring. -/
theorem layout_readsLinks_ring :
    Interconnect.layout .mesh [.sequencer 0, .sequencer 1, .sequencer 2] { wraparound := true } =
        .ok ringOfThree ∧
      adjacency ringOfThree.nodeCount ringOfThree.links =
        .ok #[#[0], #[1], #[2], #[0, 3, 5], #[1, 3, 4], #[2, 4, 5]] ∧
      Indexes ringOfThree.nodeCount ringOfThree.links
        #[#[0], #[1], #[2], #[0, 3, 5], #[1, 3, 4], #[2, 4, 5]] ∧
      ringOfThree.neighbours 3 = [0, 4, 5] ∧ ReadsLinks ringOfThree 3 := by
  have hg : Interconnect.meshGrid [.sequencer 0, .sequencer 1, .sequencer 2] 1 =
    .ok ⟨1, 3, by decide, by decide⟩ := rfl
  have h : Interconnect.layout .mesh [.sequencer 0, .sequencer 1, .sequencer 2]
    { wraparound := true } = .ok ringOfThree := meshOf_of_meshGrid .mesh hg
  have hok : adjacency ringOfThree.nodeCount ringOfThree.links =
    .ok #[#[0], #[1], #[2], #[0, 3, 5], #[1, 3, 4], #[2, 4, 5]] := rfl
  obtain ⟨⟨table, htable, hindexes⟩, hreads⟩ := layout_readsLinks h
  have e := Except.ok.inj (hok.symm.trans htable)
  subst e
  exact ⟨h, hok, hindexes, rfl, hreads 3⟩

end CoherentMemory.Guarded
