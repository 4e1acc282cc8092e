import CoherentMemory.Proofs.Interconnect.GridLinks
import CoherentMemory.Proofs.Interconnect.Placement

/-!
# The ports of routers

How many links the routers of a layout have. A router has a link for each endpoint that
attaches to it, and those of the fabric: along each dimension at most one to either side
(`axisDegree`), which `countP_steps` counts for the coordinates of a dimension, `countP_lines`
for the lines of a grid and `countP_fabric` for its cells (`Wiring.degree_router_eq`). All
routers together have a port for each external link and two for each internal one
(`Wiring.sum_degree_routers`). In the plain mesh, where every router has one placed controller
and the first one the device controllers as well, that makes a number for each router
(`RowMajorPlaced`). `layout_ports` says so, and which router the name of a controller finds.
-/

namespace CoherentMemory.Interconnect

/-- The number of links along a dimension at a coordinate. -/
def axisDegree (wraparound : Bool) (length i : Nat) : Nat :=
  if length = 1 then 0
  else if length = 2 then 1
  else if wraparound = true ∨ 0 < i ∧ i + 1 < length then 2
  else 1

/-! ## Dimensions -/

/-- Of the pairs of successive numbers, one begins with `i` and one ends with it. -/
theorem countP_succ (m i : Nat) :
    ((List.range m).map fun k => (k, k + 1)).countP (fun s => s.1 = i || s.2 = i) =
      (if i < m then 1 else 0) + if 0 < i ∧ i ≤ m then 1 else 0 := by
  induction m with
  | zero => simp; omega
  | succ m ih =>
    rw [List.range_succ, List.map_append, List.countP_append, ih, List.map_singleton,
      List.countP_singleton]
    simp only [Bool.or_eq_true, decide_eq_true_eq]
    split_ifs <;> omega

theorem countP_steps (w : Bool) {n i : Nat} (hi : i < n) :
    (steps w n).countP (fun s => s.1 = i || s.2 = i) = axisDegree w n i := by
  rw [steps, List.countP_append, countP_succ, axisDegree]
  cases w with
  | false =>
    simp only [Bool.false_and, Bool.false_eq_true, if_false, false_or, List.countP_nil]
    split_ifs <;> omega
  | true =>
    simp only [Bool.true_and, decide_eq_true_eq, true_or, if_true]
    by_cases hn : 2 < n
    · -- the step back to the start is one for both ends
      rw [if_pos hn, List.countP_singleton]
      simp only [Bool.or_eq_true, decide_eq_true_eq]
      split_ifs <;> omega
    · rw [if_neg hn, List.countP_nil]
      split_ifs <;> omega

/-! ## Cells -/

/-- Of links that are laid line by line, only those of its own line are at a cell. -/
theorem countP_lines {lines r n : Nat} {w : Bool} {link : Nat → Nat × Nat → Link}
    {p : Link → Bool} {q : Nat × Nat → Bool} (hr : r < lines)
    (h : ∀ x < lines, ∀ s ∈ steps w n, (p (link x s) = true ↔ x = r ∧ q s = true)) :
    ((List.range lines).flatMap fun x => (steps w n).map (link x)).countP p =
      (steps w n).countP q := by
  have line : ∀ x ∈ List.range lines, ((steps w n).map (link x)).filter p =
      if x = r then ((steps w n).filter q).map (link r) else [] := by
    intro x hx
    have h := h x (List.mem_range.mp hx)
    rw [List.filter_map]
    split
    · rename_i e
      subst e
      refine congrArg _ (List.filter_congr fun s hs => Bool.eq_iff_iff.mpr ?_)
      exact (h s hs).trans (and_iff_right rfl)
    · rename_i e
      refine List.map_eq_nil_iff.mpr (List.filter_eq_nil_iff.mpr fun s hs hp => ?_)
      exact e ((h s hs).mp hp).1
  rw [List.countP_eq_length_filter, List.filter_flatMap, List.flatMap_congr line,
    flatMap_range_ite _ hr, List.length_map, List.countP_eq_length_filter]

theorem Grid.index_eq_index (g : Grid) {r c r' c' : Nat} (hc : c < g.columns)
    (hc' : c' < g.columns) : g.index r c = g.index r' c' ↔ r = r' ∧ c = c' :=
  ⟨g.index_inj hc hc', fun ⟨hr, hc⟩ => by rw [hr, hc]⟩

theorem countP_fabric {g : Grid} (first : NodeId) (shape : Shape) {r c : Nat} (hr : r < g.rows)
    (hc : c < g.columns) :
    (fabric g first shape).countP
        (fun l => l.a = first + g.index r c || l.b = first + g.index r c) =
      axisDegree shape.wraparound g.columns c + axisDegree shape.wraparound g.rows r := by
  have hrow : (rowLinks g first shape).countP
        (fun l => l.a = first + g.index r c || l.b = first + g.index r c) =
      (steps shape.wraparound g.columns).countP fun s => s.1 = c || s.2 = c := by
    refine countP_lines hr fun x _ s hs => ?_
    have hlt := lt_of_mem_steps hs
    simp only [internalLink, Bool.or_eq_true, decide_eq_true_eq, Nat.add_left_cancel_iff,
      g.index_eq_index hlt.1 hc, g.index_eq_index hlt.2 hc, and_or_left]
  have hcolumn : (columnLinks g first shape).countP
        (fun l => l.a = first + g.index r c || l.b = first + g.index r c) =
      (steps shape.wraparound g.rows).countP fun s => s.1 = r || s.2 = r := by
    refine countP_lines hc fun x hx s _ => ?_
    simp only [internalLink, Bool.or_eq_true, decide_eq_true_eq, Nat.add_left_cancel_iff,
      g.index_eq_index hx hc, and_comm (b := x = c), and_or_left]
  rw [fabric, List.countP_append, hrow, hcolumn, countP_steps _ hc, countP_steps _ hr]

/-! ## Routers -/

namespace Wiring

variable {t : Topology} {cs : ControllerSet} {shape : Shape} {g : Grid} {position : Nat → Nat}

/-- A router has a link for every endpoint at its position, and those of the fabric. -/
theorem degree_router_eq (h : Wiring t cs shape g position) {r c : Nat} (hr : r < g.rows)
    (hc : c < g.columns) : t.degree (cs.length + g.index r c) =
      (List.range cs.length).countP (fun i => position i = g.index r c) +
        (axisDegree shape.wraparound g.columns c + axisDegree shape.wraparound g.rows r) := by
  have hext : ((List.range cs.length).map fun i =>
        externalLink shape i (cs.length + position i)).countP
        (fun l => l.a = cs.length + g.index r c || l.b = cs.length + g.index r c) =
      (List.range cs.length).countP fun i => position i = g.index r c := by
    rw [List.countP_map]
    refine List.countP_congr fun i hi => ?_
    have hne : i ≠ cs.length + g.index r c :=
      Nat.ne_of_lt (Nat.lt_add_right _ (List.mem_range.mp hi))
    simp only [Function.comp_apply, externalLink, Bool.or_eq_true, decide_eq_true_eq, hne, false_or,
      Nat.add_left_cancel_iff]
  rw [Topology.degree, h.links_perm.countP_eq, List.countP_append, hext, countP_fabric _ _ hr hc]

theorem length_linksOf_router (h : Wiring t cs shape g position) {r c : Nat} (hr : r < g.rows)
    (hc : c < g.columns) : (t.linksOf (cs.length + g.index r c)).length =
      (List.range cs.length).countP (fun i => position i = g.index r c) +
        (axisDegree shape.wraparound g.columns c + axisDegree shape.wraparound g.rows r) := by
  rw [length_linksOf (fun l => h.ends_ne) (h.router_lt (g.index_lt hr hc)),
    h.degree_router_eq hr hc]

/-- The position of an endpoint is that of the router it attaches to. -/
theorem position_eq (h : Wiring t cs shape g position) {i p : Nat} (hi : i < cs.length)
    (ha : t.AttachesTo i (cs.length + p)) : position i = p := by
  have e := (h.neighbours_endpoint hi).symm.trans ha.neighbours_eq
  exact Nat.add_left_cancel (List.singleton_inj.mp e)

/-- The controllers at a position are counted among those that are placed and the others. -/
theorem countP_position_eq (position : Nat → Nat) (cs : ControllerSet) (p : Nat) :
    (List.range cs.length).countP (fun i => position i = p) =
      cs.placed.countP (fun i => position i = p) +
        cs.unplaced.countP fun i => position i = p := by
  rw [← (placed_append_unplaced cs).countP_eq, List.countP_append]

end Wiring

/-! ## All routers -/

/-- Counting what `f` takes to each entry of a list without duplicates counts what it takes
into the list. -/
theorem sum_countP_eq {α : Type} {vs : List Nat} (h : vs.Nodup) (f : α → Nat) (xs : List α) :
    (vs.map fun v => xs.countP fun x => f x = v).sum = xs.countP fun x => f x ∈ vs := by
  induction xs with
  | nil => simp
  | cons x xs ih =>
    have hone : (vs.map fun v => if f x = v then 1 else 0).sum = if f x ∈ vs then 1 else 0 := by
      rw [List.sum_map_eq_nsmul_single (f x) _ fun v hv _ => if_neg (Ne.symm hv), if_pos rfl,
        smul_eq_mul, Nat.mul_one]
      split
      · rename_i hmem
        exact List.count_eq_one_of_mem h hmem
      · rename_i hmem
        exact List.count_eq_zero_of_not_mem hmem
    simp only [List.countP_cons, decide_eq_true_eq, List.sum_map_add, ih, hone]

/-- Where links join different nodes, each end of a link counts for itself. -/
theorem degree_eq_add {t : Topology} (h : ∀ l ∈ t.links, l.a ≠ l.b) (v : NodeId) :
    t.degree v = t.links.countP (fun l => l.a = v) + t.links.countP fun l => l.b = v := by
  have count (links : List Link) (h : ∀ l ∈ links, l.a ≠ l.b) :
      (links.countP fun l => l.a = v || l.b = v) =
        links.countP (fun l => l.a = v) + links.countP fun l => l.b = v := by
    induction links with
    | nil => rfl
    | cons l links ih =>
      rw [List.forall_mem_cons] at h
      have hl : (if l.a = v ∨ l.b = v then 1 else 0) =
          (if l.a = v then 1 else 0) + if l.b = v then 1 else 0 := by
        by_cases hv : l.a = v
        · rw [if_pos (.inl hv), if_pos hv, if_neg fun e => h.1 (hv.trans e.symm)]
        · simp only [hv, false_or, if_false, Nat.zero_add]
      simp only [List.countP_cons, ih h.2, Bool.or_eq_true, decide_eq_true_eq, hl]
      omega
  exact count t.links h

/-- The ports of all routers are the ends of links that are routers. -/
theorem Wiring.sum_degree_routers {t : Topology} {cs : ControllerSet} {shape : Shape} {g : Grid}
    {position : Nat → Nat} (h : Wiring t cs shape g position) (hcs : 0 < cs.length) :
    (t.routers.map fun r => t.degree r.id).sum =
      t.links.countP (fun l => l.kind = .external) +
        2 * t.links.countP fun l => l.kind = .internal := by
  have hwf := h.wellFormed hcs
  have hnodup := h.pairwise_id_routers.imp Nat.ne_of_lt
  -- one end of an external link is a router, and both ends of an internal one
  have ha : t.links.countP (fun l => l.a ∈ t.routers.map Node.id) =
      t.links.countP fun l => l.kind = .internal := by
    refine List.countP_congr fun l hl => ?_
    rw [decide_eq_true_eq, decide_eq_true_eq, h.mem_map_id_routers]
    cases hk : l.kind with
    | external =>
      exact iff_of_false (fun hr => absurd (hwf.external l hl hk).1 (Nat.not_lt.mpr hr.1)) nofun
    | internal => exact iff_of_true ⟨(hwf.internal l hl hk).1, (hwf.ends l hl).1⟩ rfl
  have hb : t.links.countP (fun l => l.b ∈ t.routers.map Node.id) = t.links.length := by
    refine List.countP_eq_length.mpr fun l hl => ?_
    rw [decide_eq_true_eq, h.mem_map_id_routers]
    cases hk : l.kind with
    | external => exact ⟨(hwf.external l hl hk).2.1, (hwf.ends l hl).2.1⟩
    | internal => exact ⟨(hwf.internal l hl hk).2.1, (hwf.ends l hl).2.1⟩
  have hkinds : t.links.length = t.links.countP (fun l => l.kind = .internal) +
      t.links.countP fun l => l.kind = .external := by
    rw [List.length_eq_countP_add_countP fun l => l.kind = .internal]
    congr 1
    refine List.countP_congr fun l _ => ?_
    cases l.kind <;> decide
  calc (t.routers.map fun r => t.degree r.id).sum
    _ = ((t.routers.map Node.id).map fun v =>
          t.links.countP (fun l => l.a = v) + t.links.countP fun l => l.b = v).sum := by
      rw [List.map_map]
      exact congrArg List.sum
        (List.map_congr_left fun r _ => degree_eq_add (fun l => h.ends_ne) r.id)
    _ = t.links.countP (fun l => l.a ∈ t.routers.map Node.id) +
          t.links.countP fun l => l.b ∈ t.routers.map Node.id := by
      rw [List.sum_map_add, sum_countP_eq hnodup, sum_countP_eq hnodup]
    _ = t.links.countP (fun l => l.kind = .external) +
          2 * t.links.countP fun l => l.kind = .internal := by
      rw [ha, hb, hkinds]
      omega

/-! ## The plain mesh -/

/-- How the controllers `cs` stand on the grid `g` row by row, and the links of its routers. -/
structure RowMajorPlaced (t : Topology) (cs : ControllerSet) (shape : Shape) (g : Grid) : Prop where
  placed : ∀ {k i : Nat}, cs.placed[k]? = some i → t.AttachesTo i (cs.length + k)
  /-- Every router has exactly one placed controller. -/
  existsUnique : ∀ p < g.positions, ∃! i, i ∈ cs.placed ∧ t.AttachesTo i (cs.length + p)
  device : ∀ {i : Nat}, i ∈ cs.unplaced → t.AttachesTo i cs.length
  ports : ∀ {r c : Nat}, r < g.rows → c < g.columns →
    (t.linksOf (cs.length + g.index r c)).length =
      1 + (if g.index r c = 0 then cs.countP Controller.isDma else 0) +
        (axisDegree shape.wraparound g.columns c + axisDegree shape.wraparound g.rows r)

theorem meshOver_rowMajorPlaced {g : Grid} {cs : ControllerSet}
    (hg : cs.placed.length = g.positions) (shape : Shape) :
    RowMajorPlaced (meshOver .mesh g cs shape) cs shape g := by
  have placed {k i : Nat} (hi : cs.placed[k]? = some i) :
      (meshOver .mesh g cs shape).AttachesTo i (cs.length + k) := by
    have hk := (List.getElem?_eq_some_iff.mp hi).1
    exact attachesTo_placed hg hi (List.getElem?_range hk)
  have device {i : Nat} (hi : i ∈ cs.unplaced) :
      (meshOver .mesh g cs shape).AttachesTo i (cs.length + 0) :=
    attachesTo_unplaced hg hi
  obtain ⟨position, hw⟩ := meshOver_wiring .mesh hg shape
  have lt {p : Controller → Bool} {i : Nat} (hi : i ∈ cs.positions p) : i < cs.length := by
    obtain ⟨c, hc, -⟩ := ControllerSet.mem_positions.mp hi
    exact (List.getElem?_eq_some_iff.mp hc).1
  refine {
    placed := placed
    existsUnique := fun p hp => ?_
    device := device
    ports := fun {r c} hr hc => ?_ }
  · have hi : cs.placed[p]? = some _ := List.getElem?_eq_getElem (hg ▸ hp)
    refine ⟨_, ⟨List.mem_of_getElem? hi, placed hi⟩, ?_⟩
    rintro i' ⟨hi', ha⟩
    obtain ⟨k, hk⟩ := List.getElem?_of_mem hi'
    cases Nat.add_left_cancel ((placed hk).unique ha)
    exact Option.some.inj (hk.symm.trans hi)
  · have hone : cs.placed.countP (fun i => position i = g.index r c) = 1 := by
      have hlt : g.index r c < cs.placed.length := hg ▸ g.index_lt hr hc
      calc cs.placed.countP (fun i => position i = g.index r c)
        _ = (List.range cs.placed.length).countP fun k => k = g.index r c :=
          countP_eq_countP_range fun k i hk => by
            rw [hw.position_eq (lt (List.mem_of_getElem? hk)) (placed hk)]
        _ = (List.range cs.placed.length).count (g.index r c) := by
          rw [List.count_eq_countP]
          rfl
        _ = 1 := List.count_eq_one_of_mem List.nodup_range (List.mem_range.mpr hlt)
    have hdevice : cs.unplaced.countP (fun i => position i = g.index r c) =
        if g.index r c = 0 then cs.countP Controller.isDma else 0 := by
      have hzero : ∀ i ∈ cs.unplaced, position i = 0 := fun i hi =>
        hw.position_eq (lt hi) (device hi)
      split
      · rename_i e
        rw [e, ← cs.length_positions]
        exact List.countP_eq_length.mpr fun i hi => decide_eq_true (hzero i hi)
      · rename_i e
        refine List.countP_eq_zero.mpr fun i hi hp => e ?_
        rw [← of_decide_eq_true hp, hzero i hi]
    rw [hw.length_linksOf_router hr hc, Wiring.countP_position_eq, hone, hdevice]

/-- Row by row the `k`-th placed controller takes the `k`-th router, and the device
controllers share the first one. So a router has one link for its controller, one for each
device controller if it is the first, and those to its neighbours in the grid. A name finds
the router of the first controller that has it, in the layouts of all families. -/
theorem layout_ports {kind : Kind} {cs : ControllerSet} {shape : Shape} {t : Topology}
    (h : layout kind cs shape = .ok t) :
    (kind = .mesh → ∃ g, t.grid = some g ∧ g.rows = shape.rows ∧
      g.positions = cs.countP Controller.isPlaced ∧ RowMajorPlaced t cs shape g) ∧
    ∀ name, (t.attachmentOf? name = none ↔ ∀ c ∈ cs, c.name ≠ name) ∧
      ∀ i, cs.findIdx? (fun c => c.name = name) = some i →
        ∃ v, t.AttachesTo i v ∧ t.attachmentOf? name = some v := by
  constructor
  · rintro rfl
    obtain ⟨g, hgrid, rfl⟩ := map_eq_ok.mp h
    obtain ⟨hrows, hplaced⟩ := meshGrid_eq_ok hgrid
    exact ⟨g, rfl, hrows, by rw [← hplaced, cs.length_placed],
      meshOver_rowMajorPlaced hplaced shape⟩
  · intro name
    obtain ⟨g, position, hw, -⟩ := layout_wiring h
    exact ⟨hw.attachmentOf?_eq_none_iff name, fun i => hw.attachmentOf?_eq_some⟩

/-- Two rows of three, with a device controller between the placed ones: the link of this one
gives the first router as many as the one in the middle of its row has. -/
theorem layout_ports_mixed : ∃ t, layout .mesh .mixed { rows := 2 } = .ok t ∧
    t.AttachesTo 3 9 ∧ (t.linksOf 7).length = 4 ∧ (t.linksOf 8).length = 4 ∧
    (t.linksOf 9).length = 3 ∧ t.attachmentOf? "l1_cntrl1" = some 9 ∧
    t.attachmentOf? "l1_cntrl4" = none := by
  have hg : meshGrid .mixed 2 = .ok ⟨2, 3, by decide, by decide⟩ := rfl
  have h : layout .mesh .mixed { rows := 2 } = .ok _ := meshOf_of_meshGrid .mesh hg
  obtain ⟨hplaced, hnames⟩ := layout_ports h
  obtain ⟨g, e, -, -, hplaced⟩ := hplaced rfl
  cases e
  have h3 : Topology.AttachesTo _ 3 9 := hplaced.placed (k := 2) rfl
  refine ⟨_, h, h3, hplaced.ports (r := 0) (c := 0) (by decide) (by decide),
    hplaced.ports (r := 0) (c := 1) (by decide) (by decide),
    hplaced.ports (r := 0) (c := 2) (by decide) (by decide), ?_,
    (hnames _).1.mpr (by decide)⟩
  obtain ⟨v, hv, hname⟩ := (hnames "l1_cntrl1").2 3 (by decide)
  rw [hname, hv.unique h3]

end CoherentMemory.Interconnect
