import CoherentMemory.Proofs.Interconnect.Wiring

/-!
# Distances on a grid

The least costs in a wiring. Along one dimension the distance of two coordinates is
their difference or, with wraparound, the shorter way round (`axisDistance`): no step
changes it by more than one (`Neighbouring.axisDistance_le`), and some step makes it
smaller (`exists_neighbouring_closer`). `Grid.travel` adds the distances along both
dimensions, each at its own rate. Where all links of a kind cost the same and all
routers cost the same (`Tariff`), nothing is gained by leaving the grid:

* `Wiring.isLeastCost_routers`: between routers the least cost is that of the
  distances;
* `Wiring.isLeastCost_endpoints`: between endpoints their two external links and one
  router more.
-/

namespace CoherentMemory.Interconnect

/-! ## One dimension -/

/-- The distance of two coordinates along a dimension. -/
def axisDistance (wraparound : Bool) (length i j : Nat) : Nat :=
  -- one of the two differences is zero
  let apart := (i - j) + (j - i)
  if wraparound then min apart (length - apart) else apart

@[simp] theorem axisDistance_self (w : Bool) (n i : Nat) : axisDistance w n i i = 0 := by
  cases w <;> simp [axisDistance]

theorem axisDistance_pos {w : Bool} {n i j : Nat} (hi : i < n) (hj : j < n) (h : i ≠ j) :
    0 < axisDistance w n i j := by
  cases w
  · show 0 < (i - j) + (j - i)
    omega
  · show 0 < min ((i - j) + (j - i)) (n - ((i - j) + (j - i)))
    omega

/-- A step leads at most one farther away. -/
theorem Neighbouring.axisDistance_le {w : Bool} {n i j x : Nat} (h : Neighbouring w n i j)
    (hx : x < n) : axisDistance w n x j ≤ axisDistance w n x i + 1 := by
  cases w
  · show (x - j) + (j - x) ≤ (x - i) + (i - x) + 1
    rcases h with h | h <;> rcases mem_steps.mp h with ⟨rfl, -⟩ | ⟨hw, -⟩ <;>
      first | omega | cases hw
  · show min ((x - j) + (j - x)) (n - ((x - j) + (j - x))) ≤
      min ((x - i) + (i - x)) (n - ((x - i) + (i - x))) + 1
    rcases h with h | h <;> rcases mem_steps.mp h with ⟨rfl, hj⟩ | ⟨-, hn, he, rfl⟩ <;> omega

/-- Of two different coordinates the second has a neighbour closer to the first. -/
theorem exists_neighbouring_closer {w : Bool} {n i j : Nat} (hi : i < n) (hj : j < n) (h : i ≠ j) :
    ∃ k < n, Neighbouring w n k j ∧ axisDistance w n i k + 1 = axisDistance w n i j := by
  have back (hij : i < j) (hd : axisDistance w n i (j - 1) + 1 = axisDistance w n i j) :
      ∃ k < n, Neighbouring w n k j ∧ axisDistance w n i k + 1 = axisDistance w n i j :=
    ⟨j - 1, by omega, .inl (mem_steps.mpr (.inl ⟨by omega, hj⟩)), hd⟩
  have forth (hij : j < i) (hd : axisDistance w n i (j + 1) + 1 = axisDistance w n i j) :
      ∃ k < n, Neighbouring w n k j ∧ axisDistance w n i k + 1 = axisDistance w n i j :=
    ⟨j + 1, by omega, .inr (mem_steps.mpr (.inl ⟨rfl, by omega⟩)), hd⟩
  cases w with
  | false =>
    simp only [axisDistance, Bool.false_eq_true, if_false] at back forth ⊢
    rcases Nat.lt_or_gt_of_ne h with hij | hij
    · exact back hij (by omega)
    · exact forth hij (by omega)
  | true =>
    simp only [axisDistance, if_true] at back forth ⊢
    rcases Nat.lt_or_gt_of_ne h with hij | hij
    · by_cases hd : j - i ≤ n - (j - i)
      · exact back hij (by omega)
      · -- the shorter way goes on past `j`, and at the end of the dimension to zero
        by_cases he : j + 1 = n
        · exact ⟨0, by omega, .inr (mem_steps.mpr (.inr ⟨rfl, by omega, he, rfl⟩)), by omega⟩
        · exact ⟨j + 1, by omega, .inr (mem_steps.mpr (.inl ⟨rfl, by omega⟩)), by omega⟩
    · by_cases hd : i - j ≤ n - (i - j)
      · exact forth hij (by omega)
      · by_cases he : j = 0
        · exact ⟨n - 1, by omega, .inl (mem_steps.mpr (.inr ⟨rfl, by omega, by omega, he⟩)),
            by omega⟩
        · exact ⟨j - 1, by omega, .inl (mem_steps.mpr (.inl ⟨by omega, hj⟩)), by omega⟩

/-! ## Two dimensions -/

namespace Grid

/-- What it costs to get from position `p` to position `q` at the given rates for a
step along a row and for a step along a column. -/
def travel (g : Grid) (wraparound : Bool) (row column p q : Nat) : Nat :=
  row * axisDistance wraparound g.columns (p % g.columns) (q % g.columns) +
    column * axisDistance wraparound g.rows (p / g.columns) (q / g.columns)

theorem index_div (g : Grid) (r : Nat) {c : Nat} (hc : c < g.columns) :
    g.index r c / g.columns = r := by
  rw [index, Nat.mul_comm, Nat.mul_add_div g.columns_pos, Nat.div_eq_of_lt hc, Nat.add_zero]

theorem index_mod (g : Grid) (r : Nat) {c : Nat} (hc : c < g.columns) :
    g.index r c % g.columns = c := by
  rw [index, Nat.mul_comm, Nat.mul_add_mod, Nat.mod_eq_of_lt hc]

theorem index_div_mod (g : Grid) (p : Nat) : g.index (p / g.columns) (p % g.columns) = p := by
  rw [index, Nat.mul_comm]
  exact Nat.div_add_mod p g.columns

theorem div_lt_rows (g : Grid) {p : Nat} (hp : p < g.positions) : p / g.columns < g.rows :=
  Nat.div_lt_of_lt_mul (by rw [Nat.mul_comm]; exact hp)

theorem mod_lt_columns (g : Grid) (p : Nat) : p % g.columns < g.columns :=
  Nat.mod_lt p g.columns_pos

@[simp] theorem travel_self (g : Grid) (w : Bool) (x y p : Nat) : g.travel w x y p p = 0 := by
  simp [travel]

theorem travel_index (g : Grid) (w : Bool) (x y : Nat) {r₁ c₁ r₂ c₂ : Nat} (h₁ : c₁ < g.columns)
    (h₂ : c₂ < g.columns) : g.travel w x y (g.index r₁ c₁) (g.index r₂ c₂) =
      x * axisDistance w g.columns c₁ c₂ + y * axisDistance w g.rows r₁ r₂ := by
  rw [travel, g.index_div r₁ h₁, g.index_div r₂ h₂, g.index_mod r₁ h₁, g.index_mod r₂ h₂]

/-- At the same rate for all steps, what it costs is the rate for every step. -/
theorem travel_mul (g : Grid) (w : Bool) (x p q : Nat) :
    g.travel w x x p q = x * g.travel w 1 1 p q := by
  rw [travel, travel, Nat.one_mul, Nat.one_mul, Nat.mul_add]

/-- A step along a row leads farther away by no more than its rate. -/
theorem travel_row_le (g : Grid) {w : Bool} (x y : Nat) {o r i j : Nat}
    (h : Neighbouring w g.columns i j) :
    g.travel w x y o (g.index r j) ≤ g.travel w x y o (g.index r i) + x := by
  have hstep := Nat.mul_le_mul_left x (h.axisDistance_le (g.mod_lt_columns o))
  rw [Nat.mul_succ] at hstep
  simp only [travel, g.index_div r h.lt.1, g.index_div r h.lt.2, g.index_mod r h.lt.1,
    g.index_mod r h.lt.2]
  omega

/-- A step along a column leads farther away by no more than its rate. -/
theorem travel_column_le (g : Grid) {w : Bool} (x y : Nat) {o c i j : Nat}
    (ho : o < g.positions) (hc : c < g.columns) (h : Neighbouring w g.rows i j) :
    g.travel w x y o (g.index j c) ≤ g.travel w x y o (g.index i c) + y := by
  have hstep := Nat.mul_le_mul_left y (h.axisDistance_le (g.div_lt_rows ho))
  rw [Nat.mul_succ] at hstep
  simp only [travel, g.index_div i hc, g.index_div j hc, g.index_mod i hc, g.index_mod j hc]
  omega

end Grid

/-! ## Tariffs -/

/-- The costs of routes from `source` when links of the same kind cost the same: an
external link, one along a row, one along a column, and going on from a router. -/
structure Tariff (t : Topology) (costs : CostModel) (source first : Nat) (g : Grid) (shape : Shape)
    (ext row column router : Nat) : Prop where
  ext_eq : ∀ a b, costs.link (externalLink shape a b) = ext
  row_eq : ∀ a b, costs.link (internalLink shape rowWeight a b) = row
  column_eq : ∀ a b, costs.link (internalLink shape columnWeight a b) = column
  router_eq : ∀ p < g.positions, transitCost t costs source (first + p) = router
  endpoint_eq : ∀ i < first, transitCost t costs source i = 0

section Routes

variable {t : Topology} {costs : CostModel} {source : Nat}

/-- A route can be extended along a line of nodes of which neighbours are linked. -/
theorem Route.along {w : Bool} {n x s : Nat} (node : Nat → NodeId)
    (hlink : ∀ i j, Neighbouring w n i j →
      ∃ l ∈ t.links, l.Joins (node i) (node j) ∧ costs.link l = x)
    (htransit : ∀ i < n, transitCost t costs source (node i) = s) {i j c : Nat} (hi : i < n)
    (hj : j < n) (hr : Route t costs source (node i) c) :
    Route t costs source (node j) (c + (x + s) * axisDistance w n i j) := by
  generalize hd : axisDistance w n i j = d
  induction d generalizing j with
  | zero =>
    have e : i = j := by
      by_contra h
      have := axisDistance_pos (w := w) hi hj h
      omega
    exact e ▸ hr
  | succ d ih =>
    have hne : i ≠ j := by
      rintro rfl
      rw [axisDistance_self] at hd
      cases hd
    obtain ⟨k, hk, hn, he⟩ := exists_neighbouring_closer (w := w) hi hj hne
    obtain ⟨l, hl, hjoin, hx⟩ := hlink k j hn
    have hr' := (ih hk (by omega)).extend hl hjoin
    rw [htransit k hk, hx] at hr'
    have e : c + (x + s) * d + s + x = c + (x + s) * (d + 1) := by
      rw [Nat.mul_succ]
      omega
    exact e ▸ hr'

variable {cs : ControllerSet} {shape : Shape} {g : Grid} {position : Nat → Nat}
variable {ext x y s : Nat}

/-- The position of a router, and that of the router that an endpoint is linked to. -/
def home (endpoints : Nat) (position : Nat → Nat) (v : Nat) : Nat :=
  if v < endpoints then position v else v - endpoints

theorem home_endpoint {n v : Nat} (h : v < n) : home n position v = position v :=
  if_pos h

theorem home_router (n p : Nat) : home n position (n + p) = p := by
  rw [home, if_neg (by omega), Nat.add_sub_cancel_left]

namespace Wiring

theorem exists_row_link (h : Wiring t cs shape g position) {r i j : Nat} (hr : r < g.rows)
    (hn : Neighbouring shape.wraparound g.columns i j) :
    ∃ l ∈ t.links, l.Joins (cs.length + g.index r i) (cs.length + g.index r j) ∧
      ∃ a b, l = internalLink shape rowWeight a b := by
  rcases hn with hn | hn
  · exact ⟨_, h.mem_links.mpr (.inr (mem_fabric.mpr (.inl ⟨r, hr, i, j, hn, rfl⟩))),
      .inl ⟨rfl, rfl⟩, _, _, rfl⟩
  · exact ⟨_, h.mem_links.mpr (.inr (mem_fabric.mpr (.inl ⟨r, hr, j, i, hn, rfl⟩))),
      .inr ⟨rfl, rfl⟩, _, _, rfl⟩

theorem exists_column_link (h : Wiring t cs shape g position) {c i j : Nat} (hc : c < g.columns)
    (hn : Neighbouring shape.wraparound g.rows i j) :
    ∃ l ∈ t.links, l.Joins (cs.length + g.index i c) (cs.length + g.index j c) ∧
      ∃ a b, l = internalLink shape columnWeight a b := by
  rcases hn with hn | hn
  · exact ⟨_, h.mem_links.mpr (.inr (mem_fabric.mpr (.inr ⟨c, hc, i, j, hn, rfl⟩))),
      .inl ⟨rfl, rfl⟩, _, _, rfl⟩
  · exact ⟨_, h.mem_links.mpr (.inr (mem_fabric.mpr (.inr ⟨c, hc, j, i, hn, rfl⟩))),
      .inr ⟨rfl, rfl⟩, _, _, rfl⟩

/-- A route can go on from a router along its row and then along a column. -/
theorem route_travel (h : Wiring t cs shape g position)
    (ht : Tariff t costs source cs.length g shape ext x y s) {p q c : Nat} (hp : p < g.positions)
    (hq : q < g.positions) (hr : Route t costs source (cs.length + p) c) :
    Route t costs source (cs.length + q)
      (c + g.travel shape.wraparound (x + s) (y + s) p q) := by
  have hrp := g.div_lt_rows hp
  have hrq := g.div_lt_rows hq
  have hcp := g.mod_lt_columns p
  have hcq := g.mod_lt_columns q
  have row := Route.along (w := shape.wraparound) (n := g.columns) (x := x) (s := s)
    (fun i => cs.length + g.index (p / g.columns) i)
    (fun i j hn => by
      obtain ⟨l, hl, hj, a, b, rfl⟩ := h.exists_row_link hrp hn
      exact ⟨_, hl, hj, ht.row_eq a b⟩)
    (fun i hi => ht.router_eq _ (g.index_lt hrp hi)) hcp hcq
    (by rw [g.index_div_mod]; exact hr)
  have column := Route.along (w := shape.wraparound) (n := g.rows) (x := y) (s := s)
    (fun i => cs.length + g.index i (q % g.columns))
    (fun i j hn => by
      obtain ⟨l, hl, hj, a, b, rfl⟩ := h.exists_column_link hcq hn
      exact ⟨_, hl, hj, ht.column_eq a b⟩)
    (fun i hi => ht.router_eq _ (g.index_lt hi hcq)) hrp hrq row
  rw [g.index_div_mod, Nat.add_assoc] at column
  exact column

/-- A link between routers leads farther away by no more than what it costs. -/
theorem travel_joins_le (ht : Tariff t costs source cs.length g shape ext x y s) {l : Link}
    (hl : l ∈ fabric g cs.length shape) {o p q : Nat} (ho : o < g.positions)
    (hj : l.Joins (cs.length + p) (cs.length + q)) :
    g.travel shape.wraparound (x + s) (y + s) o q ≤
      g.travel shape.wraparound (x + s) (y + s) o p + s + costs.link l := by
  rcases joins_fabric hl hj with
    ⟨r, -, i, j, hn, hp, hq, a, b, rfl⟩ | ⟨c, hc, i, j, hn, hp, hq, a, b, rfl⟩
  · have hle := g.travel_row_le (x + s) (y + s) (o := o) (r := r) hn
    rw [ht.row_eq, Nat.add_left_cancel hp, Nat.add_left_cancel hq]
    omega
  · have hle := g.travel_column_le (x + s) (y + s) ho hc hn
    rw [ht.column_eq, Nat.add_left_cancel hp, Nat.add_left_cancel hq]
    omega

/-! ## Least costs -/

/-- A route from a router pays at least for the distance of the router that it ends at. -/
theorem travel_le_of_route (h : Wiring t cs shape g position) {o : Nat} (ho : o < g.positions)
    (ht : Tariff t costs (cs.length + o) cs.length g shape ext x y s) {v : Nat} {c : Nat}
    (hr : Route t costs (cs.length + o) v c) :
    g.travel shape.wraparound (x + s) (y + s) o (home cs.length position v) ≤ c := by
  induction hr with
  | start => rw [home_router, Grid.travel_self]
  | @extend u v c l _ hl hj ih =>
    rcases h.joins_cases hl hj with ⟨hu, rfl, -⟩ | ⟨hv, rfl, -⟩ | ⟨p, hp, q, hq, rfl, rfl, hf⟩
    · rw [home_endpoint hu] at ih
      rw [home_router]
      omega
    · rw [home_router] at ih
      rw [home_endpoint hv]
      omega
    · rw [home_router] at ih ⊢
      have hle := travel_joins_le ht hf ho hj
      rw [ht.router_eq p hp]
      omega

/-- A route from an endpoint that leaves it pays for its external link, for the
distance, and at another endpoint for the router there and one more external link. -/
theorem travel_le_of_route_endpoint (h : Wiring t cs shape g position) {a : Nat}
    (ha : a < cs.length) (ht : Tariff t costs a cs.length g shape ext x y s) {v : Nat} {c : Nat}
    (hr : Route t costs a v c) :
    v = a ∨ ext + g.travel shape.wraparound (x + s) (y + s) (position a)
      (home cs.length position v) + (if v < cs.length then s + ext else 0) ≤ c := by
  induction hr with
  | start => exact .inl rfl
  | @extend u v c l _ hl hj ih =>
    rcases h.joins_cases hl hj with ⟨hu, rfl, rfl⟩ | ⟨hv, rfl, rfl⟩ | ⟨p, hp, q, hq, rfl, rfl, hf⟩
    · right
      rw [ht.ext_eq, home_router, if_neg (by omega)]
      rcases ih with rfl | ih
      · rw [Grid.travel_self]
        omega
      · rw [home_endpoint hu, if_pos hu] at ih
        omega
    · by_cases e : v = a
      · exact .inl e
      · right
        rcases ih with ih | ih
        · omega
        · rw [home_router, if_neg (by omega)] at ih
          rw [ht.router_eq _ (h.position_lt v hv), ht.ext_eq, home_endpoint hv, if_pos hv]
          omega
    · right
      rcases ih with ih | ih
      · omega
      · rw [home_router, if_neg (by omega)] at ih ⊢
        have hle := travel_joins_le ht hf (h.position_lt a ha) hj
        rw [ht.router_eq p hp]
        omega

/-- The least cost between two routers is that of their distance. -/
theorem isLeastCost_routers (h : Wiring t cs shape g position) {o q : Nat} (ho : o < g.positions)
    (hq : q < g.positions) (ht : Tariff t costs (cs.length + o) cs.length g shape ext x y s) :
    IsLeastCost t costs (cs.length + o) (cs.length + q)
      (g.travel shape.wraparound (x + s) (y + s) o q) := by
  refine ⟨?_, fun c hr => ?_⟩
  · have hr := h.route_travel ht ho hq .start
    rwa [Nat.zero_add] at hr
  · have hle := h.travel_le_of_route ho ht hr
    rwa [home_router] at hle

/-- The least cost from an endpoint to a router is that of its external link and of the
distance. -/
theorem isLeastCost_endpoint_router (h : Wiring t cs shape g position) {a q : Nat}
    (ha : a < cs.length) (hq : q < g.positions)
    (ht : Tariff t costs a cs.length g shape ext x y s) :
    IsLeastCost t costs a (cs.length + q)
      (ext + g.travel shape.wraparound (x + s) (y + s) (position a) q) := by
  have link : externalLink shape a (cs.length + position a) ∈ t.links :=
    h.mem_links.mpr (.inl ⟨a, ha, rfl⟩)
  refine ⟨?_, fun c hr => ?_⟩
  · have stay : Route t costs a a 0 := .start
    have leave := stay.extend link (.inl ⟨rfl, rfl⟩)
    rw [ht.endpoint_eq a ha, ht.ext_eq, Nat.zero_add] at leave
    exact h.route_travel ht (h.position_lt a ha) hq leave
  · rcases h.travel_le_of_route_endpoint ha ht hr with e | hle
    · omega
    · rwa [home_router, if_neg (by omega), Nat.add_zero] at hle

/-- The least cost between two endpoints is that of their external links, of the
distance of their routers, and of one router more. -/
theorem isLeastCost_endpoints (h : Wiring t cs shape g position) {a b : Nat} (ha : a < cs.length)
    (hb : b < cs.length) (hab : a ≠ b) (ht : Tariff t costs a cs.length g shape ext x y s) :
    IsLeastCost t costs a b
      (ext + g.travel shape.wraparound (x + s) (y + s) (position a) (position b) + (s + ext)) := by
  have link {i : Nat} (hi : i < cs.length) :
      externalLink shape i (cs.length + position i) ∈ t.links :=
    h.mem_links.mpr (.inl ⟨i, hi, rfl⟩)
  refine ⟨?_, fun c hr => ?_⟩
  · have stay : Route t costs a a 0 := .start
    have leave := stay.extend (link ha) (.inl ⟨rfl, rfl⟩)
    rw [ht.endpoint_eq a ha, ht.ext_eq, Nat.zero_add] at leave
    have arrive := h.route_travel ht (h.position_lt a ha) (h.position_lt b hb) leave
    have hr := arrive.extend (link hb) (.inr ⟨rfl, rfl⟩)
    rwa [ht.router_eq _ (h.position_lt b hb), ht.ext_eq, Nat.add_assoc _ s ext] at hr
  · rcases h.travel_le_of_route_endpoint ha ht hr with e | hle
    · exact absurd e.symm hab
    · rwa [home_endpoint hb, if_pos hb] at hle

end Wiring

end Routes

end CoherentMemory.Interconnect
