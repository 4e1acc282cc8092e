import CoherentMemory.Proofs.Interconnect.WellFormed

/-!
# The links of a grid

Which routers of a mesh are linked, and how often. Along a dimension coordinates are next
to each other if they differ by one or if they are its two ends and it wraps around
(`Adjacent`); `steps` lists every such pair in one of its two orders only
(`mem_steps_or_iff`, `not_mem_steps_swap`). So the fabric has one link for two routers that
are next to each other in one dimension and agree in the other, and none for any others
(`Wiring.linksBetween_eq`). `layout_links` says so for the meshes of both families, with
the number of links that it comes to.
-/

namespace CoherentMemory.Interconnect

instance (l : Link) (u v : NodeId) : Decidable (l.Joins u v) :=
  inferInstanceAs (Decidable (l.a = u ∧ l.b = v ∨ l.b = u ∧ l.a = v))

/-- The links that join two nodes, in the order of the link list. -/
def Topology.linksBetween (t : Topology) (u v : NodeId) : List Link :=
  t.links.filter fun l => l.Joins u v

theorem Topology.mem_linksBetween {t : Topology} {u v : NodeId} {l : Link} :
    l ∈ t.linksBetween u v ↔ l ∈ t.links ∧ l.Joins u v := by
  rw [linksBetween, List.mem_filter, decide_eq_true_eq]

theorem Topology.linksBetween_comm (t : Topology) (u v : NodeId) :
    t.linksBetween u v = t.linksBetween v u :=
  List.filter_congr fun _ _ => decide_eq_decide.mpr ⟨Link.Joins.symm, Link.Joins.symm⟩

/-- Coordinates next to each other along a dimension: they differ by one, or they are the
first and the last of a dimension longer than two that wraps around. -/
def Adjacent (wraparound : Bool) (length i j : Nat) : Prop :=
  i + 1 = j ∨ j + 1 = i ∨
    wraparound = true ∧ 2 < length ∧ (i = 0 ∧ j + 1 = length ∨ j = 0 ∧ i + 1 = length)

instance (wraparound : Bool) (length i j : Nat) : Decidable (Adjacent wraparound length i j) :=
  inferInstanceAs (Decidable (_ ∨ _ ∨ _))

/-! ## Steps -/

section Steps

variable {w : Bool} {n i j : Nat}

/-- Coordinates that a step joins are those next to each other. -/
theorem neighbouring_iff_adjacent (hi : i < n) (hj : j < n) :
    Neighbouring w n i j ↔ Adjacent w n i j := by
  rw [Neighbouring, mem_steps, mem_steps, Adjacent]
  cases w
  · simp only [Bool.false_eq_true, false_and, or_false]
    omega
  · simp only [true_and]
    omega

theorem lt_of_mem_steps (h : (i, j) ∈ steps w n) : i < n ∧ j < n :=
  Neighbouring.lt (.inl h)

/-- There is a step in one direction only. -/
theorem not_mem_steps_swap (h : (i, j) ∈ steps w n) : (j, i) ∉ steps w n := by
  intro h'
  rcases mem_steps.mp h with h | h <;> rcases mem_steps.mp h' with h' | h' <;> omega

theorem not_mem_steps_self (w : Bool) (n i : Nat) : (i, i) ∉ steps w n :=
  fun h => not_mem_steps_swap h h

theorem nodup_steps (w : Bool) (n : Nat) : (steps w n).Nodup := by
  have hline : ((List.range (n - 1)).map fun i => (i, i + 1)).Nodup :=
    List.nodup_range.map fun i j e => (Prod.mk.inj e).1
  have hwrap : (if w && 2 < n then [(n - 1, 0)] else []).Nodup := by
    split
    · exact List.nodup_singleton _
    · exact List.nodup_nil
  refine List.nodup_append.mpr ⟨hline, hwrap, fun s hs s' hs' e => ?_⟩
  obtain ⟨i, -, rfl⟩ := List.mem_map.mp hs
  split at hs'
  · rw [List.mem_singleton.mp hs'] at e
    cases (Prod.mk.inj e).2
  · cases hs'

end Steps

/-! ## The fabric -/

namespace Grid

theorem index_inj (g : Grid) {r c r' c' : Nat} (hc : c < g.columns) (hc' : c' < g.columns)
    (h : g.index r c = g.index r' c') : r = r' ∧ c = c' := by
  refine ⟨?_, ?_⟩
  · rw [← g.index_div r hc, h, g.index_div r' hc']
  · rw [← g.index_mod r hc, h, g.index_mod r' hc']

end Grid

section Fabric

variable {g : Grid} {first : NodeId} {shape : Shape}

/-- Links that are laid line by line, one for each step, are different if no two of them
are the same. -/
theorem nodup_lines {lines n : Nat} {w : Bool} {link : Nat → Nat × Nat → Link}
    (hinj : ∀ x < lines, ∀ y < lines, ∀ s ∈ steps w n, ∀ s' ∈ steps w n,
      link x s = link y s' → x = y ∧ s = s') :
    ((List.range lines).flatMap fun x => (steps w n).map (link x)).Nodup := by
  refine List.nodup_flatMap.mpr ⟨fun x hx => ?_, List.nodup_range.imp_of_mem fun hx hy hne => ?_⟩
  · have hx := List.mem_range.mp hx
    exact (nodup_steps w n).map_on fun s hs s' hs' e => (hinj x hx x hx s hs s' hs' e).2
  · intro l hl hl'
    obtain ⟨s, hs, rfl⟩ := List.mem_map.mp hl
    obtain ⟨s', hs', e⟩ := List.mem_map.mp hl'
    exact hne (hinj _ (List.mem_range.mp hx) _ (List.mem_range.mp hy) s hs s' hs' e.symm).1

/-- Links of routers with the same ends lie between the same positions. -/
theorem index_inj_of_internalLink_eq {x y : Nat} {r₁ c₁ r₂ c₂ r₁' c₁' r₂' c₂' : Nat}
    (h₁ : c₁ < g.columns) (h₂ : c₂ < g.columns) (h₁' : c₁' < g.columns) (h₂' : c₂' < g.columns)
    (h : internalLink shape x (first + g.index r₁ c₁) (first + g.index r₂ c₂) =
      internalLink shape y (first + g.index r₁' c₁') (first + g.index r₂' c₂')) :
    x = y ∧ (r₁ = r₁' ∧ c₁ = c₁') ∧ r₂ = r₂' ∧ c₂ = c₂' := by
  simp only [internalLink, Link.mk.injEq, true_and, and_true] at h
  obtain ⟨ha, hb, hw⟩ := h
  exact ⟨hw, g.index_inj h₁ h₁' (Nat.add_left_cancel ha),
    g.index_inj h₂ h₂' (Nat.add_left_cancel hb)⟩

theorem nodup_fabric (g : Grid) (first : NodeId) (shape : Shape) :
    (fabric g first shape).Nodup := by
  have hrows : (rowLinks g first shape).Nodup := by
    refine nodup_lines fun r _ r' _ s hs s' hs' e => ?_
    have hlt := lt_of_mem_steps hs
    have hlt' := lt_of_mem_steps hs'
    obtain ⟨-, ⟨hr, hi⟩, -, hj⟩ := index_inj_of_internalLink_eq hlt.1 hlt.2 hlt'.1 hlt'.2 e
    exact ⟨hr, Prod.ext hi hj⟩
  have hcolumns : (columnLinks g first shape).Nodup := by
    refine nodup_lines fun c hc c' hc' s _ s' _ e => ?_
    obtain ⟨-, ⟨hi, hc⟩, hj, -⟩ := index_inj_of_internalLink_eq hc hc hc' hc' e
    exact ⟨hc, Prod.ext hi hj⟩
  refine List.nodup_append.mpr ⟨hrows, hcolumns, fun l hl l' hl' e => ?_⟩
  -- the weights tell rows from columns
  simp only [rowLinks, List.mem_flatMap, List.mem_map] at hl
  simp only [columnLinks, List.mem_flatMap, List.mem_map] at hl'
  obtain ⟨r, -, s, -, rfl⟩ := hl
  obtain ⟨c, -, s', -, rfl⟩ := hl'
  cases congrArg Link.weight e

/-- The links of the fabric between two positions, in this order: along the row of both,
or along the column of both. -/
theorem internalLink_mem_fabric {x r₁ c₁ r₂ c₂ : Nat} (hr₁ : r₁ < g.rows) (hc₁ : c₁ < g.columns)
    (hr₂ : r₂ < g.rows) (hc₂ : c₂ < g.columns) :
    internalLink shape x (first + g.index r₁ c₁) (first + g.index r₂ c₂) ∈ fabric g first shape ↔
      x = rowWeight ∧ r₁ = r₂ ∧ (c₁, c₂) ∈ steps shape.wraparound g.columns ∨
      x = columnWeight ∧ c₁ = c₂ ∧ (r₁, r₂) ∈ steps shape.wraparound g.rows := by
  rw [mem_fabric]
  constructor
  · rintro (⟨r, hr, i, j, hs, e⟩ | ⟨c, hc, i, j, hs, e⟩)
    · have hlt := lt_of_mem_steps hs
      obtain ⟨rfl, ⟨rfl, rfl⟩, rfl, rfl⟩ := index_inj_of_internalLink_eq hc₁ hc₂ hlt.1 hlt.2 e
      exact .inl ⟨rfl, rfl, hs⟩
    · obtain ⟨rfl, ⟨rfl, rfl⟩, rfl, rfl⟩ := index_inj_of_internalLink_eq hc₁ hc₂ hc hc e
      exact .inr ⟨rfl, rfl, hs⟩
  · rintro (⟨rfl, rfl, hs⟩ | ⟨rfl, rfl, hs⟩)
    · exact .inl ⟨r₁, hr₁, c₁, c₂, hs, rfl⟩
    · exact .inr ⟨c₁, hc₁, r₁, r₂, hs, rfl⟩

/-- A link of the fabric is the one of its weight between its ends. -/
theorem eq_internalLink_of_mem_fabric {l : Link} (hl : l ∈ fabric g first shape) :
    l = internalLink shape l.weight l.a l.b := by
  rcases mem_fabric.mp hl with ⟨r, -, i, j, -, rfl⟩ | ⟨c, -, i, j, -, rfl⟩ <;> rfl

theorem kind_of_mem_fabric {l : Link} (hl : l ∈ fabric g first shape) : l.kind = .internal := by
  rw [eq_internalLink_of_mem_fabric hl]
  rfl

section Positions

variable {r₁ c₁ r₂ c₂ x y : Nat}
variable (hr₁ : r₁ < g.rows) (hc₁ : c₁ < g.columns) (hr₂ : r₂ < g.rows) (hc₂ : c₂ < g.columns)
include hr₁ hc₁ hr₂ hc₂

theorem weight_unique_of_mem_fabric
    (hx : internalLink shape x (first + g.index r₁ c₁) (first + g.index r₂ c₂) ∈
      fabric g first shape)
    (hy : internalLink shape y (first + g.index r₁ c₁) (first + g.index r₂ c₂) ∈
      fabric g first shape) : x = y := by
  rw [internalLink_mem_fabric hr₁ hc₁ hr₂ hc₂] at hx hy
  rcases hx with ⟨rfl, rfl, hx⟩ | ⟨rfl, rfl, hx⟩ <;> rcases hy with ⟨rfl, e, hy⟩ | ⟨rfl, e, hy⟩
  · rfl
  · exact absurd (e ▸ hx) (not_mem_steps_self _ _ _)
  · exact absurd (e ▸ hx) (not_mem_steps_self _ _ _)
  · rfl

/-- The fabric has links in one order of their ends only. -/
theorem not_mem_fabric_swap
    (hx : internalLink shape x (first + g.index r₁ c₁) (first + g.index r₂ c₂) ∈
      fabric g first shape) :
    internalLink shape y (first + g.index r₂ c₂) (first + g.index r₁ c₁) ∉
      fabric g first shape := by
  rw [internalLink_mem_fabric hr₁ hc₁ hr₂ hc₂] at hx
  rw [internalLink_mem_fabric hr₂ hc₂ hr₁ hc₁]
  rcases hx with ⟨rfl, rfl, hx⟩ | ⟨rfl, rfl, hx⟩ <;> rintro (⟨-, e, hy⟩ | ⟨-, e, hy⟩)
  · exact not_mem_steps_swap hx hy
  · exact not_mem_steps_self _ _ _ hy
  · exact not_mem_steps_self _ _ _ hy
  · exact not_mem_steps_swap hx hy

/-- A link of the fabric is the only one that joins its ends. -/
theorem filter_fabric_joins
    (hx : internalLink shape x (first + g.index r₁ c₁) (first + g.index r₂ c₂) ∈
      fabric g first shape) :
    ((fabric g first shape).filter fun l =>
      l.Joins (first + g.index r₁ c₁) (first + g.index r₂ c₂)).Perm
      [internalLink shape x (first + g.index r₁ c₁) (first + g.index r₂ c₂)] := by
  refine (List.perm_ext_iff_of_nodup ((nodup_fabric g first shape).filter _)
    (List.nodup_singleton _)).mpr fun l => ?_
  rw [List.mem_filter, List.mem_singleton, decide_eq_true_eq]
  constructor
  · rintro ⟨hl, hj⟩
    have e := eq_internalLink_of_mem_fabric hl
    rcases hj with ⟨ha, hb⟩ | ⟨hb, ha⟩
    · rw [ha, hb] at e
      rw [e] at hl ⊢
      rw [weight_unique_of_mem_fabric hr₁ hc₁ hr₂ hc₂ hx hl]
    · rw [ha, hb] at e
      exact absurd (e ▸ hl) (not_mem_fabric_swap hr₁ hc₁ hr₂ hc₂ hx)
  · rintro rfl
    exact ⟨hx, .inl ⟨rfl, rfl⟩⟩

end Positions

theorem length_fabric (g : Grid) (first : NodeId) (shape : Shape) :
    (fabric g first shape).length =
      g.rows * (g.columns - 1) + g.columns * (g.rows - 1) +
        (if shape.wraparound && 2 < g.columns then g.rows else 0) +
        (if shape.wraparound && 2 < g.rows then g.columns else 0) := by
  have line (lines : Nat) (w : Bool) (n : Nat) (link : Nat → Nat × Nat → Link) :
      ((List.range lines).flatMap fun x => (steps w n).map (link x)).length =
        lines * (n - 1) + if w && 2 < n then lines else 0 := by
    simp only [List.length_flatMap, List.length_map, length_steps, List.map_const',
      List.sum_replicate_nat, List.length_range, Nat.mul_add]
    split <;> simp only [Nat.mul_one, Nat.mul_zero]
  rw [fabric, List.length_append, rowLinks, columnLinks, line, line]
  omega

end Fabric

/-! ## Meshes -/

namespace Wiring

variable {t : Topology} {cs : ControllerSet} {shape : Shape} {g : Grid} {position : Nat → Nat}

/-- Routers are joined by the fabric only. -/
theorem linksBetween_perm (h : Wiring t cs shape g position) (p q : Nat) :
    (t.linksBetween (cs.length + p) (cs.length + q)).Perm
      ((fabric g cs.length shape).filter fun l => l.Joins (cs.length + p) (cs.length + q)) := by
  have hext : ((List.range cs.length).map fun i =>
      externalLink shape i (cs.length + position i)).filter
        (fun l => l.Joins (cs.length + p) (cs.length + q)) = [] := by
    refine List.filter_eq_nil_iff.mpr fun l hl => ?_
    obtain ⟨i, hi, rfl⟩ := List.mem_map.mp hl
    have hne (r : Nat) : i ≠ cs.length + r :=
      Nat.ne_of_lt (Nat.lt_add_right r (List.mem_range.mp hi))
    rw [decide_eq_true_eq]
    rintro (⟨ha, -⟩ | ⟨-, ha⟩)
    · exact hne p ha
    · exact hne q ha
  have hp := h.links_perm.filter fun l => l.Joins (cs.length + p) (cs.length + q)
  rwa [List.filter_append, hext, List.nil_append] at hp

section Routers

variable {r₁ c₁ r₂ c₂ : Nat}

/-- Routers that the fabric links, in either order, have no other link between them. -/
theorem exists_linksBetween (h : Wiring t cs shape g position) {x : Nat} (hr₁ : r₁ < g.rows)
    (hc₁ : c₁ < g.columns) (hr₂ : r₂ < g.rows) (hc₂ : c₂ < g.columns)
    (hx : internalLink shape x (cs.length + g.index r₁ c₁) (cs.length + g.index r₂ c₂) ∈
        fabric g cs.length shape ∨
      internalLink shape x (cs.length + g.index r₂ c₂) (cs.length + g.index r₁ c₁) ∈
        fabric g cs.length shape) :
    ∃ l, t.linksBetween (cs.length + g.index r₁ c₁) (cs.length + g.index r₂ c₂) = [l] ∧
      l.kind = .internal ∧ l.weight = x := by
  rcases hx with hx | hx
  · have hone := (h.linksBetween_perm _ _).trans (filter_fabric_joins hr₁ hc₁ hr₂ hc₂ hx)
    exact ⟨_, List.perm_singleton.mp hone, rfl, rfl⟩
  · have hone := (h.linksBetween_perm _ _).trans (filter_fabric_joins hr₂ hc₂ hr₁ hc₁ hx)
    rw [Topology.linksBetween_comm]
    exact ⟨_, List.perm_singleton.mp hone, rfl, rfl⟩

/-- Routers next to each other in a row are joined by one link, which weighs one. -/
theorem linksBetween_row (h : Wiring t cs shape g position) (hr : r₁ < g.rows)
    (hc₁ : c₁ < g.columns) (hc₂ : c₂ < g.columns)
    (hadj : Adjacent shape.wraparound g.columns c₁ c₂) :
    ∃ l, t.linksBetween (cs.length + g.index r₁ c₁) (cs.length + g.index r₁ c₂) = [l] ∧
      l.kind = .internal ∧ l.weight = 1 := by
  refine h.exists_linksBetween hr hc₁ hr hc₂ ?_
  rw [internalLink_mem_fabric hr hc₁ hr hc₂, internalLink_mem_fabric hr hc₂ hr hc₁]
  exact ((neighbouring_iff_adjacent hc₁ hc₂).mpr hadj).imp
    (fun hs => .inl ⟨rfl, rfl, hs⟩) (fun hs => .inl ⟨rfl, rfl, hs⟩)

/-- Routers next to each other in a column are joined by one link, which weighs two. -/
theorem linksBetween_column (h : Wiring t cs shape g position) (hr₁ : r₁ < g.rows)
    (hr₂ : r₂ < g.rows) (hc : c₁ < g.columns)
    (hadj : Adjacent shape.wraparound g.rows r₁ r₂) :
    ∃ l, t.linksBetween (cs.length + g.index r₁ c₁) (cs.length + g.index r₂ c₁) = [l] ∧
      l.kind = .internal ∧ l.weight = 2 := by
  refine h.exists_linksBetween hr₁ hc hr₂ hc ?_
  rw [internalLink_mem_fabric hr₁ hc hr₂ hc, internalLink_mem_fabric hr₂ hc hr₁ hc]
  exact ((neighbouring_iff_adjacent hr₁ hr₂).mpr hadj).imp
    (fun hs => .inr ⟨rfl, rfl, hs⟩) (fun hs => .inr ⟨rfl, rfl, hs⟩)

/-- Routers are linked if they are next to each other in one dimension and agree in the
other. -/
theorem exists_internal_joins_iff (h : Wiring t cs shape g position) (hr₁ : r₁ < g.rows)
    (hc₁ : c₁ < g.columns) (hr₂ : r₂ < g.rows) (hc₂ : c₂ < g.columns) :
    (∃ l ∈ t.links, l.kind = .internal ∧
      l.Joins (cs.length + g.index r₁ c₁) (cs.length + g.index r₂ c₂)) ↔
      r₁ = r₂ ∧ Adjacent shape.wraparound g.columns c₁ c₂ ∨
      c₁ = c₂ ∧ Adjacent shape.wraparound g.rows r₁ r₂ := by
  constructor
  · rintro ⟨l, hl, hk, hj⟩
    rcases joins_fabric (h.fabric_of_kind hl hk) hj with
      ⟨r, -, i, j, hn, hu, hv, -⟩ | ⟨c, hc, i, j, hn, hu, hv, -⟩
    · obtain ⟨rfl, rfl⟩ := g.index_inj hc₁ hn.lt.1 (Nat.add_left_cancel hu)
      obtain ⟨rfl, rfl⟩ := g.index_inj hc₂ hn.lt.2 (Nat.add_left_cancel hv)
      exact .inl ⟨rfl, (neighbouring_iff_adjacent hc₁ hc₂).mp hn⟩
    · obtain ⟨rfl, rfl⟩ := g.index_inj hc₁ hc (Nat.add_left_cancel hu)
      obtain ⟨rfl, rfl⟩ := g.index_inj hc₂ hc (Nat.add_left_cancel hv)
      exact .inr ⟨rfl, (neighbouring_iff_adjacent hr₁ hr₂).mp hn⟩
  · intro hadj
    obtain ⟨l, hone, hk⟩ : ∃ l, t.linksBetween (cs.length + g.index r₁ c₁)
        (cs.length + g.index r₂ c₂) = [l] ∧ l.kind = .internal := by
      rcases hadj with ⟨rfl, hadj⟩ | ⟨rfl, hadj⟩
      · obtain ⟨l, hone, hk, -⟩ := h.linksBetween_row hr₁ hc₁ hc₂ hadj
        exact ⟨l, hone, hk⟩
      · obtain ⟨l, hone, hk, -⟩ := h.linksBetween_column hr₁ hr₂ hc₁ hadj
        exact ⟨l, hone, hk⟩
    obtain ⟨hl, hj⟩ := Topology.mem_linksBetween.mp (hone ▸ List.mem_singleton_self l)
    exact ⟨l, hl, hk, hj⟩

end Routers

/-- The internal links are those of the fabric. -/
theorem countP_internal (h : Wiring t cs shape g position) :
    t.links.countP (fun l => l.kind = .internal) = (fabric g cs.length shape).length := by
  have hext : ((List.range cs.length).map fun i =>
      externalLink shape i (cs.length + position i)).countP (fun l => l.kind = .internal) = 0 := by
    refine List.countP_eq_zero.mpr fun l hl => ?_
    obtain ⟨i, -, rfl⟩ := List.mem_map.mp hl
    rw [decide_eq_true_eq]
    nofun
  have hfabric : (fabric g cs.length shape).countP (fun l => l.kind = .internal) =
      (fabric g cs.length shape).length :=
    List.countP_eq_length.mpr fun l hl => decide_eq_true (kind_of_mem_fabric hl)
  rw [h.links_perm.countP_eq, List.countP_append, hext, hfabric, Nat.zero_add]

/-- An internal link leads from a position of the grid to another one. -/
theorem ends_of_internal (h : Wiring t cs shape g position) {l : Link} (hl : l ∈ t.links)
    (hk : l.kind = .internal) : l.a ≠ l.b ∧
      (∃ r < g.rows, ∃ c < g.columns, l.a = cs.length + g.index r c) ∧
      ∃ r < g.rows, ∃ c < g.columns, l.b = cs.length + g.index r c := by
  have hf := h.fabric_of_kind hl hk
  refine ⟨fabric_ne hf, ?_⟩
  rcases mem_fabric.mp hf with ⟨r, hr, i, j, hs, rfl⟩ | ⟨c, hc, i, j, hs, rfl⟩
  · have hlt := lt_of_mem_steps hs
    exact ⟨⟨r, hr, i, hlt.1, rfl⟩, r, hr, j, hlt.2, rfl⟩
  · have hlt := lt_of_mem_steps hs
    exact ⟨⟨i, hlt.1, c, hc, rfl⟩, j, hlt.2, c, hc, rfl⟩

end Wiring

/-- The routers of a mesh are linked as the cells of its grid are. Two of them are linked if
they are next to each other in a row or in a column, and then by a single link, which weighs
one in a row and two in a column. No internal link leads back to where it comes from or out
of the grid, and there are as many as rows and columns have steps. -/
theorem layout_links {kind : Kind} {cs : ControllerSet} {shape : Shape} {t : Topology}
    (h : layout kind cs shape = .ok t) (hk : kind ≠ .crossbar) :
    ∃ g, t.grid = some g ∧ g.rows = shape.rows ∧
      (∀ r₁ < g.rows, ∀ c₁ < g.columns, ∀ r₂ < g.rows, ∀ c₂ < g.columns,
        let u := cs.length + g.index r₁ c₁
        let v := cs.length + g.index r₂ c₂
        let inRow := r₁ = r₂ ∧ Adjacent shape.wraparound g.columns c₁ c₂
        let inColumn := c₁ = c₂ ∧ Adjacent shape.wraparound g.rows r₁ r₂
        t.isRouter u = true ∧
        ((∃ l ∈ t.links, l.kind = .internal ∧ l.Joins u v) ↔ inRow ∨ inColumn) ∧
        (inRow → ∃ l, t.linksBetween u v = [l] ∧ l.kind = .internal ∧ l.weight = 1) ∧
        (inColumn → ∃ l, t.linksBetween u v = [l] ∧ l.kind = .internal ∧ l.weight = 2)) ∧
      (∀ l ∈ t.links, l.kind = .internal → l.a ≠ l.b ∧
        (∃ r < g.rows, ∃ c < g.columns, l.a = cs.length + g.index r c) ∧
        ∃ r < g.rows, ∃ c < g.columns, l.b = cs.length + g.index r c) ∧
      t.links.countP (fun l => l.kind = .internal) =
        g.rows * (g.columns - 1) + g.columns * (g.rows - 1) +
          (if shape.wraparound && 2 < g.columns then g.rows else 0) +
          (if shape.wraparound && 2 < g.rows then g.columns else 0) := by
  obtain ⟨g, position, hw, -, hmesh⟩ := layout_wiring h
  obtain ⟨hgrid, hrows⟩ := hmesh hk
  refine ⟨g, hgrid, hrows, ?_, fun l => hw.ends_of_internal, ?_⟩
  · intro r₁ hr₁ c₁ hc₁ r₂ hr₂ c₂ hc₂ u v inRow inColumn
    refine ⟨hw.isRouter_router (g.index_lt hr₁ hc₁),
      hw.exists_internal_joins_iff hr₁ hc₁ hr₂ hc₂, ?_, ?_⟩
    · rintro ⟨rfl, hadj⟩
      exact hw.linksBetween_row hr₁ hc₁ hc₂ hadj
    · rintro ⟨rfl, hadj⟩
      exact hw.linksBetween_column hr₁ hr₂ hc₁ hadj
  · rw [hw.countP_internal, length_fabric]

/-- Two rows of three that wrap around: the ends of a row are linked, and the two routers
of a column only once. -/
theorem layout_links_torus : ∃ t, Kind.meshDirCorner ≠ .crossbar ∧
    layout .meshDirCorner ((List.range 6).map .sequencer) { rows := 2, wraparound := true } =
      .ok t ∧
    (∃ l, t.linksBetween 6 8 = [l] ∧ l.kind = .internal ∧ l.weight = 1) ∧
    (∃ l, t.linksBetween 6 9 = [l] ∧ l.kind = .internal ∧ l.weight = 2) ∧
    t.links.countP (fun l => l.kind = .internal) = 9 := by
  have hg : meshGrid ((List.range 6).map .sequencer) 2 = .ok ⟨2, 3, by decide, by decide⟩ := rfl
  have h : layout .meshDirCorner ((List.range 6).map .sequencer)
    { rows := 2, wraparound := true } = .ok _ := meshOf_of_meshGrid .meshDirCorner hg
  obtain ⟨g, e, -, hlinks, -, hcount⟩ := layout_links h (by decide)
  cases e
  obtain ⟨-, -, hrow, -⟩ := hlinks 0 (by decide) 0 (by decide) 0 (by decide) 2 (by decide)
  obtain ⟨-, -, -, hcolumn⟩ := hlinks 0 (by decide) 0 (by decide) 1 (by decide) 0 (by decide)
  exact ⟨_, by decide, h, hrow ⟨rfl, by decide⟩, hcolumn ⟨rfl, by decide⟩, hcount⟩

end CoherentMemory.Interconnect
