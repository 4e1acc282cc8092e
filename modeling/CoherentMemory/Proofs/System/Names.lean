import CoherentMemory.Proofs.Interconnect.Placement
import CoherentMemory.Proofs.System.Division
import CoherentMemory.Proofs.Text.Numerals

/-!
# The names of controllers

A name begins with the stem of the role and the decimal of the version, and what follows
does not begin with a digit, whatever the name of a device is (`Named`). So the name of a
controller tells its role and its version (`Named.role_version_eq`), and no two controllers
of a machine have the same name (`Division.names_nodup`). The name of a controller then
finds the router at its own link, in the topologies of all families (`controllers_names`).
-/

namespace CoherentMemory

open Interconnect Memory

/-- How the names of the controllers of a role begin. -/
def Role.stem : Role → String
  | .sequencer => "l1_cntrl"
  | .directory => "dir_cntrl"
  | .dma => "dma_cntrl"

/-- Two characters are enough to tell the stems apart. -/
theorem Role.eq_of_take_stem {r s : Role} (h : r.stem.toList.take 2 = s.stem.toList.take 2) :
    r = s := by
  cases r <;> cases s <;> first | rfl | exact absurd h (by decide)

theorem Role.take_stem_append (r : Role) (cs : List Char) :
    (r.stem.toList ++ cs).take 2 = r.stem.toList.take 2 :=
  List.take_append_of_le_length (by cases r <;> decide)

/-- The name is the stem of the role, the decimal of the version, and nothing that could
be taken for a part of it. -/
def Named (c : Controller) : Prop :=
  ∃ rest, c.name.toList = c.role.stem.toList ++ (Text.decimal c.version ++ rest) ∧
    ∀ d ∈ rest.head?, d.isDigit = false

/-- A name tells role and version. -/
theorem Named.role_version_eq {c d : Controller} (hc : Named c) (hd : Named d)
    (h : c.name = d.name) : c.role = d.role ∧ c.version = d.version := by
  obtain ⟨rest, hname, hrest⟩ := hc
  obtain ⟨rest', hname', hrest'⟩ := hd
  rw [h, hname'] at hname
  have hrole : d.role = c.role := by
    apply Role.eq_of_take_stem
    rw [← Role.take_stem_append, hname, Role.take_stem_append]
  rw [hrole] at hname
  exact ⟨hrole.symm,
    (Text.decimal_append_inj (List.append_cancel_left hname) hrest' hrest).symm⟩

theorem named_of_name_eq {c : Controller} (h : c.name = c.role.stem ++ toString c.version) :
    Named c := by
  refine ⟨[], ?_, by rintro _ ⟨⟩⟩
  rw [h, String.toList_append, Text.toList_toString, List.append_nil]

/-- Whatever the name of its device is, an underscore separates it from the version. -/
theorem named_deviceController (i : Nat) (device : Device) :
    Named (TwoState.deviceController i device) := by
  refine ⟨'_' :: device.name.toList, ?_, by rintro _ ⟨⟩; rfl⟩
  show ("dma_cntrl" ++ toString i ++ "_" ++ device.name).toList = _
  rw [String.toList_append, String.toList_append, String.toList_append, Text.toList_toString,
    List.append_assoc, List.append_assoc]
  rfl

/-! ## Lookup -/

/-- Where names differ, a controller is the first one with its name. -/
theorem findIdx?_name {cs : ControllerSet} (h : (cs.map Controller.name).Nodup) {i : Nat}
    {c : Controller} (hc : cs[i]? = some c) :
    cs.findIdx? (fun d => d.name = c.name) = some i := by
  obtain ⟨hi, rfl⟩ := List.getElem?_eq_some_iff.mp hc
  have hne := List.pairwise_iff_getElem.mp (List.pairwise_map.mp h)
  refine List.findIdx?_eq_some_iff_getElem.mpr ⟨hi, decide_eq_true rfl, fun j hj => ?_⟩
  simpa using hne j i (Nat.lt_trans hj hi) hi hj

namespace Interconnect

variable {t : Topology} {cs : ControllerSet} {shape : Shape}

/-- An endpoint has a link of its own, and its router is at the other end. -/
theorem Wiring.exists_link_endpoint {g : Grid} {position : Nat → Nat}
    (h : Wiring t cs shape g position) {i : Nat} (hi : i < cs.length) :
    ∃ l v, t.links.filter (fun l => l.a = i || l.b = i) = [l] ∧ l.other? i = some v ∧
      t.AttachesTo i v := by
  refine ⟨externalLink shape i (cs.length + position i), cs.length + position i, ?_, if_pos rfl,
    h.neighbours_endpoint hi, h.isRouter_router (h.position_lt i hi)⟩
  rw [← linksOf_eq_filter (fun l => h.ends_ne) (h.endpoint_lt hi), h.linksOf_endpoint hi]

/-- Where names differ, that of a controller finds the router at its own link. -/
theorem attachmentOf?_of_nodup {kind : Kind} (ht : layout kind cs shape = .ok t)
    (hnames : (cs.map Controller.name).Nodup) {i : Nat} {c : Controller} (hc : cs[i]? = some c) :
    ∃ l v, t.links.filter (fun l => l.a = i || l.b = i) = [l] ∧ l.other? i = some v ∧
      t.isRouter v = true ∧ t.attachmentOf? c.name = some v := by
  obtain ⟨g, position, hw, -⟩ := layout_wiring ht
  obtain ⟨l, v, hl, hother, hv⟩ := hw.exists_link_endpoint (List.getElem?_eq_some_iff.mp hc).1
  obtain ⟨w, hw, hfound⟩ := hw.attachmentOf?_eq_some (findIdx?_name hnames hc)
  exact ⟨l, v, hl, hother, hv.isRouter, hv.unique hw ▸ hfound⟩

end Interconnect

/-! ## Machines -/

namespace TwoState

variable {machine : MachineSettings} {memory : Range} {devices : List Device} {cs : ControllerSet}

namespace Division

variable (h : Division machine memory devices cs)
include h

theorem versions_eq (role : Role) : (cs.filter fun c => c.role = role).map Controller.version =
    List.range (cs.filter fun c => c.role = role).length := by
  refine List.ext_getElem (by simp) fun i hi _ => ?_
  rw [List.length_map] at hi
  rw [List.getElem_map, List.getElem_range]
  exact h.version_eq (List.getElem?_eq_getElem hi)

theorem named {c : Controller} (hc : c ∈ cs) : Named c := by
  rw [h.roles_eq, List.mem_append, List.mem_append] at hc
  rcases hc with (hc | hc) | hc
  · rw [h.sequencers_eq] at hc
    obtain ⟨i, -, rfl⟩ := List.mem_map.mp hc
    exact named_of_name_eq rfl
  · obtain ⟨i, hi, rfl⟩ := List.mem_iff_getElem.mp hc
    obtain ⟨r, hr, -⟩ := h.directory (h.directories_length ▸ hi)
    rw [List.getElem?_eq_getElem hi, Option.some_inj] at hr
    rw [hr]
    exact named_of_name_eq rfl
  · rw [h.dmaControllers_eq] at hc
    obtain ⟨i, hi, rfl⟩ := List.mem_mapIdx.mp hc
    exact named_deviceController i _

/-- Of two controllers with one name, role and version would be the same. -/
theorem names_nodup : (cs.map Controller.name).Nodup := by
  refine List.pairwise_map.mpr (List.pairwise_iff_getElem.mpr fun i j hi hj hij hname => ?_)
  obtain ⟨hrole, hversion⟩ := (h.named (List.getElem_mem hi)).role_version_eq
    (h.named (List.getElem_mem hj)) hname
  have hnodup : ((cs.filter fun c => c.role = cs[i].role).map Controller.version).Nodup := by
    rw [h.versions_eq]
    exact List.nodup_range
  have hpairwise := List.pairwise_filter.mp (List.pairwise_map.mp hnodup)
  exact List.pairwise_iff_getElem.mp hpairwise i j hi hj hij (decide_eq_true rfl)
    (decide_eq_true hrole.symm) hversion

end Division

/-- The controllers of a machine have different names, whatever the names of its devices
are, and in all their layouts the name of each one finds the router at the other end of
its own link. -/
theorem controllers_names (h : controllers machine memory devices = .ok cs) :
    (cs.map Controller.name).Nodup ∧
    ∀ kind shape t, layout kind cs shape = .ok t → ∀ i c, cs[i]? = some c →
      ∃ l v, t.links.filter (fun l => l.a = i || l.b = i) = [l] ∧ l.other? i = some v ∧
        t.isRouter v = true ∧ t.attachmentOf? c.name = some v := by
  have hnames := (division_of_controllers h).names_nodup
  exact ⟨hnames, fun _ _ _ ht _ _ => attachmentOf?_of_nodup ht hnames⟩

/-- Two devices with one name, which begins with a digit, and a device without a name. The
second device is found at the router of the sequencer. -/
theorem controllers_names_underscores : ∃ cs t,
    controllers {} ⟨0, 63, by decide, by decide⟩ [⟨"1_x"⟩, ⟨"1_x"⟩, ⟨""⟩] = .ok cs ∧
      layout .mesh cs {} = .ok t ∧ (cs.map Controller.name).Nodup ∧
        t.attachmentOf? "dma_cntrl1_1_x" = some 5 := by
  have h : controllers {} ⟨0, 63, by decide, by decide⟩ [⟨"1_x"⟩, ⟨"1_x"⟩, ⟨""⟩] =
    .ok [.sequencer 0, .directory 0 ⟨0, 63, by decide, by decide⟩, deviceController 0 ⟨"1_x"⟩,
      deviceController 1 ⟨"1_x"⟩, deviceController 2 ⟨""⟩] := by decide +kernel
  have hg : meshGrid [.sequencer 0, .directory 0 ⟨0, 63, by decide, by decide⟩,
    deviceController 0 ⟨"1_x"⟩, deviceController 1 ⟨"1_x"⟩, deviceController 2 ⟨""⟩] 1 =
      .ok ⟨1, 2, by decide, by decide⟩ := rfl
  obtain ⟨hnames, hfound⟩ := controllers_names h
  have ht : layout .mesh _ {} = .ok _ := meshOf_of_meshGrid .mesh hg
  obtain ⟨l, v, hl, hother, -, hv⟩ := hfound .mesh {} _ ht 3 _ rfl
  cases (show _ = [externalLink {} 3 5] from rfl).symm.trans hl
  cases hother
  exact ⟨_, _, h, ht, hnames, hv⟩

end TwoState

end CoherentMemory
