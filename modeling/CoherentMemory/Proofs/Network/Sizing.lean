import CoherentMemory.Proofs.Interconnect.Ports
import CoherentMemory.Proofs.Network.Latency

/-!
# The sizes of routers

What the detailed model holds for each router and link of a layout (`Pipelined.Sized`). A
router of a layout has a port at least, so that its buffer slots are too many exactly if their
true number does not fit in 64 bits (`routerModel_eq_ite`): the product of the factors before
the ports cannot leave 64 bits where the whole one does not. Routers are modelled in the order
of their numbers, and the first failure ends it (`exists_lowest_of_ofTopology_eq_error`).
`ofTopology_outcome` puts this together.
-/

namespace CoherentMemory.Network

open Interconnect

namespace Pipelined

variable {t : Topology} {v : Variant} {params : PipelinedParams}

/-- The buffer slots of a router, counted exactly: for each of its links, as many channels of
both classes as there are, each with its buffers. -/
def slotsAt (t : Topology) (params : PipelinedParams) (r : NodeId) : Nat :=
  t.degree r * (params.vcsPerClass.toNat *
    (params.buffersPerDataVc.toNat + params.buffersPerCtrlVc.toNat))

/-- The model of a router with its exact number of slots. -/
def sizedRouter (t : Topology) (v : Variant) (params : PipelinedParams) (r : Node) : RouterModel :=
  ⟨r.id, t.degree r.id, v.stages params, params.vcsPerClass, slotsAt t params r.id⟩

/-- A router with links has a model if its slots fit. Without any, they would be too many as
soon as those behind a single port are. -/
theorem routerModel_eq_ite {n : Node} (hlen : (t.linksOf n.id).length = t.degree n.id)
    (hpos : 0 < t.degree n.id) :
    routerModel t v params n = if slotsAt t params n.id < 2 ^ 64 then
      .ok (sizedRouter t v params n) else .error (.bufferOverflow n.id) := by
  have hslots (slots : Nat) : bufferSlots? params (t.degree n.id) = some slots ↔ _ :=
    bufferSlots?_eq_some hpos
  have hcomm : slotsPerPort params * t.degree n.id = slotsAt t params n.id := Nat.mul_comm _ _
  simp only [routerModel, hlen]
  split
  · rename_i slots hs
    obtain ⟨rfl, hlt⟩ := (hslots slots).mp hs
    rw [hcomm] at hlt ⊢
    exact (if_pos hlt).symm
  · rename_i hs
    refine (if_neg fun hlt => ?_).symm
    cases hs.symm.trans ((hslots _).mpr ⟨hcomm, hlt⟩)

/-- What the model `m` holds for the routers and links of a topology. -/
structure Sized (m : Pipelined) (t : Topology) (v : Variant) (params : PipelinedParams) : Prop where
  variant_eq : m.variant = v
  params_eq : m.params = params
  routers_eq : m.routers = t.routers.map (sizedRouter t v params)
  /-- Routers come in the order of their numbers. -/
  ordered : (m.routers.map RouterModel.node).Pairwise (· < ·)
  sum_ports : (m.routers.map RouterModel.ports).sum =
    t.links.countP (fun l => l.kind = .external) + 2 * t.links.countP fun l => l.kind = .internal
  links_eq : m.links = t.links.map fun l => ⟨l.a, l.b, l.latency, params.flitSize⟩

section Wiring

variable {cs : ControllerSet} {shape : Shape} {g : Grid} {position : Nat → Nat}
variable (hw : Wiring t cs shape g position) (hcs : 0 < cs.length)
include hw hcs

theorem routerModel_of_mem {n : Node} (hn : n ∈ t.routers) :
    routerModel t v params n = if slotsAt t params n.id < 2 ^ 64 then
      .ok (sizedRouter t v params n) else .error (.bufferOverflow n.id) := by
  rw [hw.routers_eq] at hn
  obtain ⟨p, hp, rfl⟩ := List.mem_map.mp hn
  have hlt := hw.router_lt (List.mem_range.mp hp)
  exact routerModel_eq_ite (length_linksOf (fun l => hw.ends_ne) hlt)
    (hw.degree_router hcs (Nat.le_add_right ..) hlt)

theorem exists_routerModel_iff {n : Node} (hn : n ∈ t.routers) :
    (∃ r, routerModel t v params n = .ok r) ↔ slotsAt t params n.id < 2 ^ 64 := by
  rw [routerModel_of_mem hw hcs hn]
  split
  · rename_i hlt
    exact iff_of_true ⟨_, rfl⟩ hlt
  · rename_i hlt
    exact iff_of_false (by rintro ⟨_, ⟨⟩⟩) hlt

theorem exists_ofTopology_eq_ok_iff : (∃ m, (ofTopology t v params).result = .ok m) ↔
    ∀ r ∈ t.routers, slotsAt t params r.id < 2 ^ 64 := by
  have models : (∃ m, (ofTopology t v params).result = .ok m) ↔
      ∃ ms, t.routers.mapM (routerModel t v params) = .ok ms := by
    rw [result_ofTopology]
    exact exists_map_iff
  rw [models, exists_mapM_iff]
  exact forall_congr' fun r => imp_congr_right fun hr => exists_routerModel_iff hw hcs hr

/-- The failure is that of the first router whose slots are too many. -/
theorem exists_lowest_of_ofTopology_eq_error {e : NetworkError}
    (h : (ofTopology t v params).result = .error e) :
    ∃ r ∈ t.routers, e = .bufferOverflow r.id ∧ 2 ^ 64 ≤ slotsAt t params r.id ∧
      ∀ r' ∈ t.routers, 2 ^ 64 ≤ slotsAt t params r'.id → r.id ≤ r'.id := by
  rw [result_ofTopology] at h
  rcases bind_eq_error.mp h with h | ⟨models, -, h⟩
  · obtain ⟨before, r, after, hrouters, hbefore, hr⟩ := exists_of_mapM_eq_error h
    have hmem : r ∈ t.routers := hrouters ▸ List.mem_append_right _ List.mem_cons_self
    rw [routerModel_of_mem hw hcs hmem] at hr
    split at hr
    · cases hr
    rename_i hover
    cases hr
    refine ⟨r, hmem, rfl, Nat.le_of_not_lt hover, fun r' hr' hle => ?_⟩
    have hord := hw.pairwise_id_routers
    rw [hrouters, List.map_append, List.map_cons] at hord
    have hafter := (List.pairwise_cons.mp (List.pairwise_append.mp hord).2.1).1
    rcases List.mem_append.mp (hrouters ▸ hr') with hb | hb
    · -- the slots of those before it fit
      have hlt := (exists_routerModel_iff hw hcs hr').mp (hbefore r' hb)
      exact absurd hlt (Nat.not_lt.mpr hle)
    · rcases List.mem_cons.mp hb with rfl | hb
      · exact Nat.le_refl _
      · exact Nat.le_of_lt (hafter _ (List.mem_map_of_mem hb))
  · cases h

theorem sized_of_ofTopology_eq_ok {m : Pipelined} (h : (ofTopology t v params).result = .ok m) :
    Sized m t v params := by
  have hfit := (exists_ofTopology_eq_ok_iff hw hcs).mp ⟨m, h⟩
  rw [result_ofTopology] at h
  obtain ⟨rs, hrs, e⟩ := bind_eq_ok.mp h
  cases e
  have hrouters : rs = t.routers.map (sizedRouter t v params) := by
    have hall : t.routers.mapM (routerModel t v params) =
        .ok (t.routers.map (sizedRouter t v params)) := by
      rw [mapM_eq_ok, List.map_map]
      refine List.map_congr_left fun r hr => ?_
      rw [routerModel_of_mem hw hcs hr, if_pos (hfit r hr)]
      rfl
    exact Except.ok.inj (hrs.symm.trans hall)
  have hnodes : rs.map RouterModel.node = t.routers.map Node.id := by
    rw [hrouters, List.map_map]
    rfl
  have hports : rs.map RouterModel.ports = t.routers.map fun r => t.degree r.id := by
    rw [hrouters, List.map_map]
    rfl
  exact {
    variant_eq := rfl
    params_eq := rfl
    routers_eq := hrouters
    ordered := hnodes ▸ hw.pairwise_id_routers
    sum_ports := hports ▸ hw.sum_degree_routers hcs
    links_eq := rfl }

end Wiring

/-- Over a layout the detailed model fails exactly if the true number of buffer slots of some
router does not fit in 64 bits, and then names the lowest such router. Otherwise it holds every
router with its ports and slots, in the order of their numbers, and every link. -/
theorem ofTopology_outcome {kind : Interconnect.Kind} {cs : ControllerSet} {shape : Shape}
    (h : layout kind cs shape = .ok t) (v : Variant) (params : PipelinedParams) :
    ((∃ e, (ofTopology t v params).result = .error e) ↔
      ∃ r ∈ t.routers, 2 ^ 64 ≤ slotsAt t params r.id) ∧
    (∀ e, (ofTopology t v params).result = .error e →
      ∃ r ∈ t.routers, e = .bufferOverflow r.id ∧ 2 ^ 64 ≤ slotsAt t params r.id ∧
        ∀ r' ∈ t.routers, 2 ^ 64 ≤ slotsAt t params r'.id → r.id ≤ r'.id) ∧
    ((∀ r ∈ t.routers, slotsAt t params r.id < 2 ^ 64) →
      ∃ m, (ofTopology t v params).result = .ok m ∧ Sized m t v params) := by
  obtain ⟨g, position, hw, -⟩ := layout_wiring h
  have hcs := layout_length_pos h
  have hlowest {e : NetworkError} (he : (ofTopology t v params).result = .error e) :=
    exists_lowest_of_ofTopology_eq_error hw hcs he
  refine ⟨⟨?_, ?_⟩, fun e => hlowest, fun hfit => ?_⟩
  · rintro ⟨e, he⟩
    obtain ⟨r, hr, -, hle, -⟩ := hlowest he
    exact ⟨r, hr, hle⟩
  · rintro ⟨r, hr, hle⟩
    cases hres : (ofTopology t v params).result with
    | error e => exact ⟨e, rfl⟩
    | ok m =>
      have hlt := (exists_ofTopology_eq_ok_iff hw hcs).mp ⟨m, hres⟩ r hr
      exact absurd hlt (Nat.not_lt.mpr hle)
  · obtain ⟨m, hm⟩ := (exists_ofTopology_eq_ok_iff hw hcs).mpr hfit
    exact ⟨m, hm, sized_of_ofTopology_eq_ok hw hcs hm⟩

/-- Two rows of three sequencers. With `2 ^ 62` slots behind a port the three ports of the
first router fit in 64 bits, but not the four of the next one. -/
theorem ofTopology_outcome_two_rows : ∃ t,
    layout .mesh ((List.range 6).map .sequencer) { rows := 2 } = .ok t ∧
    (∃ m, (ofTopology t .fixed {}).result = .ok m ∧ (m.routers.map RouterModel.ports).sum = 20) ∧
    (ofTopology t .fixed ⟨16, 0x80000000, 0x80000000, 0, 4⟩).result =
      .error (.bufferOverflow 7) := by
  have hg : meshGrid ((List.range 6).map .sequencer) 2 = .ok ⟨2, 3, by decide, by decide⟩ := rfl
  have h : layout .mesh ((List.range 6).map .sequencer) { rows := 2 } = .ok _ :=
    meshOf_of_meshGrid .mesh hg
  refine ⟨_, h, ?_, ?_⟩
  · obtain ⟨-, -, hfit⟩ := ofTopology_outcome h .fixed {}
    obtain ⟨m, hm, hsized⟩ := hfit (by decide)
    exact ⟨m, hm, hsized.sum_ports⟩
  · obtain ⟨hfails, hlowest, -⟩ :=
      ofTopology_outcome h .fixed ⟨16, 0x80000000, 0x80000000, 0, 4⟩
    obtain ⟨e, he⟩ := hfails.mpr ⟨⟨7, .router⟩, by decide, by decide⟩
    obtain ⟨r, hr, rfl, hover, hle⟩ := hlowest e he
    have hlow : ∀ r ∈ routerNodes 6 6, r.id ≤ 7 → r = ⟨6, .router⟩ ∨ r = ⟨7, .router⟩ := by
      decide
    rcases hlow r hr (hle ⟨7, .router⟩ (by decide) (by decide)) with rfl | rfl
    · exact absurd hover (by decide)
    · exact he

end Pipelined

end CoherentMemory.Network
