import CoherentMemory.Proofs.Interconnect.GridLinks
import CoherentMemory.Proofs.Positions

/-!
# Which shapes can be laid out

A layout exists exactly for controllers that fill the rows of its shape
(`exists_layout_iff`), and otherwise there is one reason for each family that it does not
(`layout_nil`, `layout_eq_ok_or_error`). The two meshes over the same controllers differ in their
external links alone (`SameFabric`): they have the same grid, and the fabric is laid over it
without regard to who stands where (`filter_internal_meshOver`). `layout_outcome` puts both
together.
-/

namespace CoherentMemory.Interconnect

/-! ## Shapes that fit -/

theorem exists_meshGrid_iff {cs : ControllerSet} {rows : Nat} :
    (∃ g, meshGrid cs rows = .ok g) ↔
      0 < cs.placed.length ∧ 1 ≤ rows ∧ rows ∣ cs.placed.length := by
  constructor
  · rintro ⟨g, hg⟩
    obtain ⟨rfl, hplaced⟩ := meshGrid_eq_ok hg
    rw [hplaced]
    exact ⟨g.positions_pos, g.rows_pos, Nat.dvd_mul_right ..⟩
  · rintro ⟨hpos, hrows, hdvd⟩
    have hne : cs.isEmpty = false := by
      rw [ControllerSet.length_placed] at hpos
      cases cs with
      | nil => cases hpos
      | cons c cs => rfl
    have hcolumns : 0 < cs.placed.length / rows := Nat.div_pos (Nat.le_of_dvd hpos hdvd) hrows
    have hgrid : Grid.ofDimensions? rows (cs.placed.length / rows) =
      some ⟨rows, cs.placed.length / rows, hrows, hcolumns⟩ := dif_pos ⟨hrows, hcolumns⟩
    simp only [meshGrid, hne, Bool.false_eq_true, if_false,
      if_pos (Nat.mod_eq_zero_of_dvd hdvd), hgrid]
    exact ⟨_, rfl⟩

/-- Controllers can be laid out in a crossbar if there are any, and in a mesh if the
placed ones fill its rows. -/
theorem exists_layout_iff {kind : Kind} {cs : ControllerSet} {shape : Shape} :
    (∃ t, layout kind cs shape = .ok t) ↔ if kind = .crossbar then 0 < cs.length else
      0 < cs.placed.length ∧ 1 ≤ shape.rows ∧ shape.rows ∣ cs.placed.length := by
  cases kind with
  | crossbar =>
    rw [if_pos rfl, layout, crossbar]
    cases cs with
    | nil => exact iff_of_false (by rintro ⟨_, ⟨⟩⟩) (Nat.not_lt_zero 0)
    | cons c cs => exact iff_of_true ⟨_, rfl⟩ (Nat.zero_lt_succ _)
  | mesh | meshDirCorner =>
    rw [if_neg (by decide), ← exists_meshGrid_iff]
    exact exists_map_iff

/-! ## Shapes that do not fit -/

theorem layout_nil (kind : Kind) (shape : Shape) :
    layout kind [] shape = .error .noControllers := by
  cases kind <;> rfl

section Reasons

variable {cs : ControllerSet} {shape : Shape}

theorem meshGrid_eq_ok_or_error (hne : cs ≠ []) (rows : Nat) :
    (∃ g, meshGrid cs rows = .ok g) ∨
      meshGrid cs rows = .error (.invalidMeshShape cs.placed.length rows) := by
  simp only [meshGrid, List.isEmpty_eq_false_iff.mpr hne, Bool.false_eq_true, if_false]
  split
  · split
    · exact .inl ⟨_, rfl⟩
    · exact .inr rfl
  · exact .inr rfl

/-- As soon as there are controllers, only the shape of a mesh can be wrong. -/
theorem layout_eq_ok_or_error (kind : Kind) (hne : cs ≠ []) (shape : Shape) :
    (∃ t, layout kind cs shape = .ok t) ∨
      layout kind cs shape = .error (.invalidMeshShape cs.placed.length shape.rows) := by
  have mesh (k : Kind) : (∃ t, meshOf k cs shape = .ok t) ∨
      meshOf k cs shape = .error (.invalidMeshShape cs.placed.length shape.rows) := by
    rcases meshGrid_eq_ok_or_error hne shape.rows with ⟨g, hg⟩ | he
    · exact .inl ⟨_, meshOf_of_meshGrid k hg⟩
    · right
      rw [meshOf, he]
      rfl
  cases kind with
  | crossbar =>
    left
    rw [exists_layout_iff, if_pos rfl]
    exact List.length_pos_iff.mpr hne
  | mesh | meshDirCorner => exact mesh _

theorem layout_eq_noControllers_iff (kind : Kind) (cs : ControllerSet) (shape : Shape) :
    layout kind cs shape = .error .noControllers ↔ cs = [] := by
  constructor
  · intro h
    by_contra hne
    rcases layout_eq_ok_or_error kind hne shape with ⟨t, ht⟩ | he
    · cases h.symm.trans ht
    · cases h.symm.trans he
  · rintro rfl
    exact layout_nil kind shape

/-- The shape of a mesh is wrong if the placed controllers do not fill its rows. -/
theorem layout_eq_invalidMeshShape_iff {kind : Kind} (hk : kind ≠ .crossbar) (hne : cs ≠ []) :
    layout kind cs shape = .error (.invalidMeshShape cs.placed.length shape.rows) ↔
      ¬(0 < cs.placed.length ∧ 1 ≤ shape.rows ∧ shape.rows ∣ cs.placed.length) := by
  have hex : (∃ t, layout kind cs shape = .ok t) ↔ _ := exists_layout_iff
  rw [if_neg hk] at hex
  rw [← hex]
  constructor
  · rintro h ⟨t, ht⟩
    cases h.symm.trans ht
  · exact (layout_eq_ok_or_error kind hne shape).resolve_left

end Reasons

/-! ## The two meshes -/

/-- Every controller has one of the external links. -/
theorem Wiring.externalEnds_perm {t : Topology} {cs : ControllerSet} {shape : Shape} {g : Grid}
    {position : Nat → Nat} (h : Wiring t cs shape g position) :
    ((t.links.filter fun l => l.kind = .external).map Link.a).Perm (List.range cs.length) := by
  have hext : ((List.range cs.length).map fun i =>
      externalLink shape i (cs.length + position i)).filter (fun l => l.kind = .external) =
        (List.range cs.length).map fun i => externalLink shape i (cs.length + position i) := by
    refine List.filter_eq_self.mpr fun l hl => ?_
    obtain ⟨i, -, rfl⟩ := List.mem_map.mp hl
    rfl
  have hfabric : (fabric g cs.length shape).filter (fun l => l.kind = .external) = [] := by
    refine List.filter_eq_nil_iff.mpr fun l hl => ?_
    rw [kind_of_mem_fabric hl, decide_eq_true_eq]
    nofun
  have hp := (h.links_perm.filter fun l => l.kind = .external).map Link.a
  rw [List.filter_append, hext, hfabric, List.append_nil, List.map_map] at hp
  exact hp.trans (List.Perm.of_eq (List.map_id _))

theorem Wiring.countP_external {t : Topology} {cs : ControllerSet} {shape : Shape} {g : Grid}
    {position : Nat → Nat} (h : Wiring t cs shape g position) :
    t.links.countP (fun l => l.kind = .external) = cs.length := by
  rw [List.countP_eq_length_filter, ← List.length_map Link.a, h.externalEnds_perm.length_eq,
    List.length_range]

/-- The internal links of a mesh are its fabric, in this order. -/
theorem filter_internal_meshOver (kind : Kind) (g : Grid) (cs : ControllerSet) (shape : Shape) :
    (meshOver kind g cs shape).links.filter (fun l => l.kind = .internal) =
      fabric g cs.length shape := by
  have hext : (meshExternalLinks kind g cs shape).filter (fun l => l.kind = .internal) = [] := by
    refine List.filter_eq_nil_iff.mpr fun l hl => ?_
    rw [meshExternalLinks_eq] at hl
    obtain ⟨p, -, rfl⟩ := List.mem_map.mp hl
    exact Bool.false_ne_true
  have hfabric : (fabric g cs.length shape).filter (fun l => l.kind = .internal) =
      fabric g cs.length shape :=
    List.filter_eq_self.mpr fun l hl => decide_eq_true (kind_of_mem_fabric hl)
  show (meshExternalLinks kind g cs shape ++ fabric g cs.length shape).filter _ = _
  rw [List.filter_append, hext, hfabric, List.nil_append]

/-- Two topologies over the same routers, which may differ in who stands where. -/
structure SameFabric (t t' : Topology) : Prop where
  nodes_eq : t.nodes = t'.nodes
  grid_eq : t.grid = t'.grid
  internal_eq : t.links.filter (fun l => l.kind = .internal) =
    t'.links.filter fun l => l.kind = .internal
  external_eq : t.links.countP (fun l => l.kind = .external) =
    t'.links.countP fun l => l.kind = .external

/-- The grid of a mesh has a router for each placed controller, in `rows` rows. -/
theorem layout_grid {kind : Kind} {cs : ControllerSet} {shape : Shape} {t : Topology}
    (h : layout kind cs shape = .ok t) (hk : kind ≠ .crossbar) :
    ∃ g, t.grid = some g ∧ g.rows = shape.rows ∧ g.rows * g.columns = cs.placed.length ∧
      t.routers.length = cs.placed.length := by
  have mesh {k : Kind} (h : meshOf k cs shape = .ok t) : ∃ g, t.grid = some g ∧
      g.rows = shape.rows ∧ g.rows * g.columns = cs.placed.length ∧
        t.routers.length = cs.placed.length := by
    obtain ⟨g, hgrid, rfl⟩ := map_eq_ok.mp h
    obtain ⟨hrows, hplaced⟩ := meshGrid_eq_ok hgrid
    obtain ⟨position, hw⟩ := meshOver_wiring k hplaced shape
    refine ⟨g, rfl, hrows, hplaced.symm, ?_⟩
    rw [hw.routers_eq, length_routerNodes, hplaced]
  cases kind with
  | crossbar => exact absurd rfl hk
  | mesh | meshDirCorner => exact mesh h

theorem layout_sameFabric {cs : ControllerSet} {shape : Shape} {t t' : Topology}
    (h : layout .mesh cs shape = .ok t) (h' : layout .meshDirCorner cs shape = .ok t') :
    SameFabric t t' := by
  obtain ⟨g, hg, rfl⟩ := map_eq_ok.mp h
  obtain ⟨g', hg', rfl⟩ := map_eq_ok.mp h'
  cases hg.symm.trans hg'
  obtain ⟨position, hw⟩ := meshOver_wiring .mesh (meshGrid_eq_ok hg).2 shape
  obtain ⟨position', hw'⟩ := meshOver_wiring .meshDirCorner (meshGrid_eq_ok hg).2 shape
  exact {
    nodes_eq := rfl
    grid_eq := rfl
    internal_eq := by rw [filter_internal_meshOver, filter_internal_meshOver]
    external_eq := by rw [hw.countP_external, hw'.countP_external] }

/-- Without controllers there is no layout. With some, a crossbar can always be laid out,
and a mesh if they fill equal rows; otherwise the shape is wrong. The routers of a mesh are
then as many as the controllers that it places, and whether directories have the corners
changes nothing but where the link of each controller leads. -/
theorem layout_outcome (cs : ControllerSet) (shape : Shape) :
    let m := cs.countP fun c => !c.isDma
    let unfit := shape.rows = 0 ∨ m = 0 ∨ ¬shape.rows ∣ m
    (∀ kind, layout kind cs shape = .error .noControllers ↔ cs = []) ∧
    (cs ≠ [] → (∃ t, layout .crossbar cs shape = .ok t) ∧ ∀ kind ≠ .crossbar,
      (layout kind cs shape = .error (.invalidMeshShape m shape.rows) ↔ unfit) ∧
      ((∃ t, layout kind cs shape = .ok t) ↔ ¬unfit)) ∧
    (∀ kind ≠ .crossbar, ∀ t, layout kind cs shape = .ok t →
      (∃ g, t.grid = some g ∧ g.rows = shape.rows ∧ g.rows * g.columns = m) ∧
      t.routers.length = m ∧
      ((t.links.filter fun l => l.kind = .external).map Link.a).Perm (List.range cs.length)) ∧
    ∀ t t', layout .mesh cs shape = .ok t → layout .meshDirCorner cs shape = .ok t' →
      SameFabric t t' := by
  intro m unfit
  have hm : cs.placed.length = m := cs.length_placed
  have hfit : 0 < cs.placed.length ∧ 1 ≤ shape.rows ∧ shape.rows ∣ cs.placed.length ↔ ¬unfit := by
    rw [hm, not_or, not_or, not_not, Nat.pos_iff_ne_zero, Nat.one_le_iff_ne_zero, and_left_comm]
  refine ⟨fun kind => layout_eq_noControllers_iff kind cs shape, fun hne => ⟨?_, ?_⟩, ?_,
    fun t t' => layout_sameFabric⟩
  · exact exists_layout_iff.mpr (List.length_pos_iff.mpr hne)
  · intro kind hk
    have herror : layout kind cs shape = .error _ ↔ _ := layout_eq_invalidMeshShape_iff hk hne
    rw [hfit, not_not, hm] at herror
    refine ⟨herror, ?_⟩
    rw [exists_layout_iff, if_neg hk, hfit]
  · intro kind hk t ht
    obtain ⟨g, hgrid, hrows, hcells, hrouters⟩ := layout_grid ht hk
    obtain ⟨g, position, hw, -⟩ := layout_wiring ht
    rw [← hm]
    exact ⟨⟨_, hgrid, hrows, hcells⟩, hrouters, hw.externalEnds_perm⟩

/-- Six controllers to place fill two rows, but not four. -/
theorem layout_outcome_mixed :
    (∃ t t', layout .mesh .mixed { rows := 2 } = .ok t ∧
      layout .meshDirCorner .mixed { rows := 2 } = .ok t' ∧ SameFabric t t') ∧
    layout .mesh .mixed { rows := 4 } = .error (.invalidMeshShape 6 4) := by
  obtain ⟨-, hmesh, -, hsame⟩ := layout_outcome .mixed { rows := 2 }
  obtain ⟨-, hfour, -⟩ := layout_outcome .mixed { rows := 4 }
  have hne : ControllerSet.mixed ≠ [] := by decide
  obtain ⟨t, ht⟩ := ((hmesh hne).2 .mesh (by decide)).2.mpr (by decide)
  obtain ⟨t', ht'⟩ := ((hmesh hne).2 .meshDirCorner (by decide)).2.mpr (by decide)
  exact ⟨⟨t, t', ht, ht', hsame t t' ht ht'⟩, ((hfour hne).2 .mesh (by decide)).1.mpr (by decide)⟩

end CoherentMemory.Interconnect
