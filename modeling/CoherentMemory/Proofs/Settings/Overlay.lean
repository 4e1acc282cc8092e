import CoherentMemory.Settings.Decoder
import Mathlib

/-!
# Sections laid over others

What a configuration gives for something is laid over what was there before (`Form.Puts`). A
text or a number takes its place (`Form.ofHolds`), a section replaces the fields that it gives
and keeps the others (`Form.ofFields`). It gives them by name, in any order and among other
names, or by position; values that give the same fields agree (`Form.Agrees`), and it does not
matter which of them is laid over a section.

A decoder decodes a form if it accepts the values that fit and lays them over a default
(`Decodes`). For sections this is proved once (`Reads.decodes`), from what the decoder reads
for each field (`Reads`) and the decoders of the fields.
-/

namespace CoherentMemory.Overlay

open Data

variable {α σ : Type}

/-- A value that a JSON text can hold, and whose records give no name twice. -/
inductive Distinct : Value → Prop
  | null : Distinct .null
  | bool {b} : Distinct (.bool b)
  | integer {n} : Distinct (.integer n)
  | float {x} : Distinct (.float x)
  | text {s} : Distinct (.text s)
  | list {vs} : (∀ v ∈ vs, Distinct v) → Distinct (.list vs)
  | record {fields} : (fields.map Prod.fst).Nodup → (∀ p ∈ fields, Distinct p.2) →
      Distinct (.record fields)

/-- What may be given for something: which values fit, what they make of what was there before,
and which of them agree. -/
structure Form (α : Type) where
  Fits : Value → Prop
  /-- The value, laid over the first content, gives the second one. -/
  Puts : Value → α → α → Prop
  Agrees : Value → Value → Prop
  agrees_refl (v : Value) : Agrees v v
  agrees_symm {v w : Value} : Agrees v w → Agrees w v
  puts_of_agrees {v w : Value} {before after : α} : Agrees v w → Puts v before after →
    Puts w before after

/-- A field of a section. -/
structure Field (σ : Type) where
  name : String
  Content : Type
  get : σ → Content
  form : Form Content

/-- The names of fields in the order of their declaration. -/
def names (fields : List (Field σ)) : List String :=
  fields.map Field.name

/-- The value is a record, or a list of at most `count` values. -/
inductive IsSection (count : Nat) : Value → Prop
  | byName {given} : IsSection count (.record given)
  | byPosition {vs} : vs.length ≤ count → IsSection count (.list vs)

/-- The value gives `w` for the field `name` of a section with the field names `ns`. -/
inductive Gives (ns : List String) : Value → String → Value → Prop
  | byName {given name w} : (name, w) ∈ given → Gives ns (.record given) name w
  | byPosition {vs : List Value} {i : Nat} {name w} : ns[i]? = some name → vs[i]? = some w →
      Gives ns (.list vs) name w

namespace Form

/-- What stands for exactly one content takes the place of the one before. -/
def ofHolds (Holds : Value → α → Prop) : Form α where
  Fits v := ∃ x, Holds v x
  Puts v _ after := Holds v after
  Agrees v w := v = w
  agrees_refl _ := rfl
  agrees_symm := Eq.symm
  puts_of_agrees h := h ▸ id

variable (fields : List (Field σ))

/-- The section `after` has what the value gives, and what `before` has for all other fields. -/
def Overlays (v : Value) (before after : σ) : Prop :=
  ∀ f ∈ fields,
    (∀ w, Gives (names fields) v f.name w → f.form.Puts w (f.get before) (f.get after)) ∧
    ((∀ w, ¬Gives (names fields) v f.name w) → f.get after = f.get before)

/-- Whatever the first value gives for a field, the second gives something that agrees. -/
def GivesMore (v w : Value) : Prop :=
  ∀ f ∈ fields, ∀ x, Gives (names fields) v f.name x →
    ∃ y, Gives (names fields) w f.name y ∧ f.form.Agrees x y

theorem overlays_of_givesMore {fields : List (Field σ)} {v w : Value} {before after : σ}
    (hvw : GivesMore fields v w) (hwv : GivesMore fields w v) (h : Overlays fields v before after) :
    Overlays fields w before after := by
  intro f hf
  obtain ⟨hgiven, hkept⟩ := h f hf
  refine ⟨fun y hy => ?_, fun hno => hkept fun x hx => ?_⟩
  · obtain ⟨x, hx, hyx⟩ := hwv f hf y hy
    exact f.form.puts_of_agrees (f.form.agrees_symm hyx) (hgiven x hx)
  · obtain ⟨y, hy, -⟩ := hvw f hf x hx
    exact hno y hy

/-- The form of a section with the given fields. -/
def ofFields : Form σ where
  Fits v := IsSection fields.length v ∧
    ∀ f ∈ fields, ∀ w, Gives (names fields) v f.name w → f.form.Fits w
  Puts v before after := IsSection fields.length v ∧ Overlays fields v before after
  Agrees v w := v = w ∨ IsSection fields.length v ∧ IsSection fields.length w ∧
    GivesMore fields v w ∧ GivesMore fields w v
  agrees_refl _ := .inl rfl
  agrees_symm := by
    rintro v w (rfl | ⟨hv, hw, hvw, hwv⟩)
    · exact .inl rfl
    · exact .inr ⟨hw, hv, hwv, hvw⟩
  puts_of_agrees := by
    rintro v w before after (rfl | ⟨-, hw, hvw, hwv⟩) ⟨hv, h⟩
    · exact ⟨hv, h⟩
    · exact ⟨hw, overlays_of_givesMore hvw hwv h⟩

variable {fields}

/-! ## Values that agree -/

theorem agrees_of_gives {v w : Value} (hv : IsSection fields.length v)
    (hw : IsSection fields.length w)
    (h : ∀ f ∈ fields, ∀ x, Gives (names fields) v f.name x ↔ Gives (names fields) w f.name x) :
    (ofFields fields).Agrees v w :=
  .inr ⟨hv, hw, fun f hf x hx => ⟨x, (h f hf x).mp hx, f.form.agrees_refl x⟩,
    fun f hf x hx => ⟨x, (h f hf x).mpr hx, f.form.agrees_refl x⟩⟩

end Form

theorem gives_record_iff {ns : List String} {given : Fields} {name : String} {w : Value} :
    Gives ns (.record given) name w ↔ (name, w) ∈ given := by
  constructor
  · rintro (h | _)
    exact h
  · exact .byName

theorem gives_list_iff {ns : List String} {vs : List Value} {name : String} {w : Value} :
    Gives ns (.list vs) name w ↔ ∃ i : Nat, ns[i]? = some name ∧ vs[i]? = some w := by
  constructor
  · rintro (_ | ⟨hname, hw⟩)
    exact ⟨_, hname, hw⟩
  · rintro ⟨i, hname, hw⟩
    exact .byPosition hname hw

namespace Form

variable {fields : List (Field σ)}

/-- The order in which fields are given does not matter. -/
theorem agrees_perm {given given' : Fields} (h : given'.Perm given) :
    (ofFields fields).Agrees (.record given') (.record given) := by
  refine agrees_of_gives .byName .byName fun f _ x => ?_
  rw [gives_record_iff, gives_record_iff]
  exact h.mem_iff

/-- Names of no field do not matter. -/
theorem agrees_append {given others : Fields} (h : ∀ p ∈ others, p.1 ∉ names fields) :
    (ofFields fields).Agrees (.record (given ++ others)) (.record given) := by
  refine agrees_of_gives .byName .byName fun f hf x => ?_
  rw [gives_record_iff, gives_record_iff, List.mem_append, or_iff_left]
  exact fun hx => h _ hx (List.mem_map_of_mem hf)

/-- A list gives the first fields, as a record with their names does. -/
theorem agrees_zip {vs : List Value} (h : vs.length ≤ fields.length) :
    (ofFields fields).Agrees (.list vs) (.record ((names fields).zip vs)) := by
  refine agrees_of_gives (.byPosition h) .byName fun f _ x => ?_
  rw [gives_list_iff, gives_record_iff, List.mem_iff_getElem?]
  simp only [List.getElem?_zip_eq_some]

end Form

/-! ## Decoders -/

/-- The decoder accepts the values that fit, and lays them over `base`. -/
structure Decodes (form : Form α) (decode : Value → Option α) (base : α) : Prop where
  eq_some_iff {v : Value} (h : Distinct v) (x : α) : decode v = some x ↔ form.Puts v base x
  exists_iff {v : Value} (h : Distinct v) : (∃ x, decode v = some x) ↔ form.Fits v

/-- Values that agree are decoded alike. -/
theorem Decodes.congr {form : Form α} {decode : Value → Option α} {base : α}
    (hd : Decodes form decode base) {v w : Value} (hv : Distinct v) (hw : Distinct w)
    (h : form.Agrees v w) : decode v = decode w := by
  refine Option.ext fun x => ?_
  rw [hd.eq_some_iff hv, hd.eq_some_iff hw]
  exact ⟨form.puts_of_agrees h, form.puts_of_agrees (form.agrees_symm h)⟩

theorem decodes_ofHolds {Holds : Value → α → Prop} {decode : Value → Option α}
    (h : ∀ v x, decode v = some x ↔ Holds v x) (base : α) :
    Decodes (.ofHolds Holds) decode base where
  eq_some_iff _ x := h _ x
  exists_iff _ := exists_congr (h _)

/-- A field of a section with the decoder of what is given for it. Its default is what `base`
has there. -/
structure Reader (base : σ) extends Field σ where
  decode : Value → Option Content
  decodes : Decodes form decode (get base)

/-- What a section gives for a field at a position, or its default. -/
def Reader.read {base : σ} (r : Reader base) (s : Section) (i : Nat) : Option r.Content :=
  s.read i r.name r.decode (r.get base)

/-- The decoder reads the fields of a section, each at its position. -/
structure Reads {base : σ} (decode : Value → Option σ) (readers : List (Reader base)) :
    Prop where
  eq_some_iff (v : Value) (x : σ) : decode v = some x ↔
    ∃ s, Section.ofValue? .json readers.length v = some s ∧
      ∀ p ∈ readers.zipIdx, p.1.read s p.2 = some (p.1.get x)
  exists_iff (v : Value) : (∃ x, decode v = some x) ↔
    ∃ s, Section.ofValue? .json readers.length v = some s ∧
      ∀ p ∈ readers.zipIdx, ∃ c, p.1.read s p.2 = some c

/-- What it takes for a computation to have a value; it takes decoders apart from the front. -/
theorem bind_eq_some_iff {β : Type} {o : Option α} {f : α → Option β} {b : β} :
    (o >>= f) = some b ↔ ∃ a, o = some a ∧ f a = some b :=
  Option.bind_eq_some_iff

theorem exists_ofValue?_iff {count : Nat} {v : Value} (hv : Distinct v) :
    (∃ s, Section.ofValue? .json count v = some s) ↔ IsSection count v := by
  constructor
  · rintro ⟨s, hs⟩
    cases hv with
    | record => exact .byName
    | list =>
      refine .byPosition (Nat.le_of_not_lt fun hlt => ?_)
      simp [Section.ofValue?, hlt] at hs
    | _ => cases hs
  · intro h
    cases h with
    | byName => exact ⟨_, rfl⟩
    | @byPosition vs hle => exact ⟨.byPosition vs, by simp [Section.ofValue?, hle]⟩

theorem Gives.distinct {ns : List String} {v w : Value} {name : String} (h : Gives ns v name w)
    (hv : Distinct v) : Distinct w := by
  cases h with
  | byName hw =>
    cases hv with
    | record _ hgiven => exact hgiven _ hw
  | byPosition _ hw =>
    cases hv with
    | list hvs => exact hvs _ (List.mem_of_getElem? hw)

theorem mem_of_get?_fields {given : Fields} {name : String} {w : Value}
    (h : Fields.get? given name = some w) : (name, w) ∈ given := by
  obtain ⟨⟨name', w'⟩, hfind, rfl⟩ := Option.map_eq_some_iff.mp h
  have hname : name' = name := by simpa using List.find?_some hfind
  rw [← hname]
  exact List.mem_reverse.mp (List.mem_of_find?_eq_some hfind)

/-- Where no name is given twice, the last value of a name is the only one. -/
theorem get?_fields_iff {given : Fields} (h : (given.map Prod.fst).Nodup) {name : String}
    {w : Value} : Fields.get? given name = some w ↔ (name, w) ∈ given := by
  constructor
  · exact mem_of_get?_fields
  · intro hw
    cases hget : Fields.get? given name with
    | none =>
      have hno : ∀ p ∈ given, p.1 ≠ name := by simpa [Fields.get?] using hget
      exact absurd rfl (hno _ hw)
    | some w' =>
      have hp := List.inj_on_of_nodup_map h (mem_of_get?_fields hget) hw rfl
      rw [(Prod.mk.inj hp).2]

section Reading

variable {ns : List String} (hns : ns.Nodup) {v : Value} (hv : Distinct v) {s : Section}
  (hs : Section.ofValue? .json ns.length v = some s) {i : Nat} {name : String}
  (hi : ns[i]? = some name)
include hns hv hs hi

theorem get?_eq_some_iff {w : Value} : s.get? i name = some w ↔ Gives ns v name w := by
  cases hv with
  | record hnames =>
    cases hs
    rw [gives_record_iff]
    exact get?_fields_iff hnames
  | @list vs =>
    have hs : s = .byPosition vs := by
      simp only [Section.ofValue?] at hs
      split at hs
      · cases hs
      · exact (Option.some.inj hs).symm
    subst hs
    rw [gives_list_iff]
    constructor
    · exact fun hw => ⟨i, hi, hw⟩
    · rintro ⟨j, hj, hw⟩
      obtain ⟨_, hi⟩ := List.getElem?_eq_some_iff.mp hi
      obtain ⟨_, hj⟩ := List.getElem?_eq_some_iff.mp hj
      rw [hns.getElem_inj_iff.mp (hi.trans hj.symm)]
      exact hw
  | _ => cases hs

/-- A field has what is given for it, or else its default. -/
theorem read_eq_some_iff {form : Form α} {decode : Value → Option α} {base : α}
    (hd : Decodes form decode base) {x : α} : s.read i name decode base = some x ↔
      (∀ w, Gives ns v name w → form.Puts w base x) ∧ ((∀ w, ¬Gives ns v name w) → x = base) := by
  have hgives := fun w => get?_eq_some_iff hns hv hs hi (w := w)
  cases hget : s.get? i name with
  | none =>
    have hno : ∀ w, ¬Gives ns v name w := by simp [← hgives, hget]
    rw [Section.read_of_get?_none hget, Option.some.injEq, eq_comm]
    exact ⟨fun hx => ⟨fun w hw => absurd hw (hno w), fun _ => hx⟩, fun h => h.2 hno⟩
  | some w =>
    have hw : Gives ns v name w := (hgives w).mp hget
    rw [Section.read_of_get?_some hget, hd.eq_some_iff (hw.distinct hv)]
    constructor
    · refine fun hx => ⟨fun w' hw' => ?_, fun hno => absurd hw (hno w)⟩
      rw [← hgives, hget, Option.some.injEq] at hw'
      rwa [← hw']
    · exact fun h => h.1 w hw

theorem exists_read_iff {form : Form α} {decode : Value → Option α} {base : α}
    (hd : Decodes form decode base) :
    (∃ x, s.read i name decode base = some x) ↔ ∀ w, Gives ns v name w → form.Fits w := by
  have hgives := fun w => get?_eq_some_iff hns hv hs hi (w := w)
  cases hget : s.get? i name with
  | none =>
    rw [Section.read_of_get?_none hget]
    simp [← hgives, hget]
  | some w =>
    have hw : Gives ns v name w := (hgives w).mp hget
    rw [Section.read_of_get?_some hget, hd.exists_iff (hw.distinct hv)]
    simp [← hgives, hget]

end Reading

section Fields

variable {base : σ} {decode : Value → Option σ} {readers : List (Reader base)}

/-- What holds of each field at its position holds of the fields. -/
theorem forall_zipIdx_iff {P : Reader base × Nat → Prop} {Q : Field σ → Prop}
    (h : ∀ p ∈ readers.zipIdx, (P p ↔ Q p.1.toField)) :
    (∀ p ∈ readers.zipIdx, P p) ↔ ∀ f ∈ readers.map Reader.toField, Q f := by
  rw [List.forall_mem_map]
  constructor
  · intro hp r hr
    obtain ⟨i, hi⟩ := List.mem_iff_getElem?.mp hr
    have hmem : (r, i) ∈ readers.zipIdx := List.mem_zipIdx_iff_getElem?.mpr hi
    exact (h _ hmem).mp (hp _ hmem)
  · intro hq p hp
    have hr := List.mem_of_getElem? (List.mem_zipIdx_iff_getElem?.mp hp)
    exact (h p hp).mpr (hq p.1 hr)

/-- A decoder that reads the fields of a section decodes the section. -/
theorem Reads.decodes (h : Reads decode readers)
    (hnames : (names (readers.map Reader.toField)).Nodup) :
    Decodes (.ofFields (readers.map Reader.toField)) decode base := by
  have hlength : (names (readers.map Reader.toField)).length = readers.length := by simp [names]
  have hname : ∀ p ∈ readers.zipIdx,
      (names (readers.map Reader.toField))[p.2]? = some p.1.name := by
    intro p hp
    simp [names, List.mem_zipIdx_iff_getElem?.mp hp]
  constructor
  · intro v hv x
    rw [h.eq_some_iff]
    simp only [Form.ofFields, Form.Overlays]
    rw [List.length_map, ← exists_ofValue?_iff hv, ← exists_and_right]
    refine exists_congr fun s => and_congr_right fun hs => forall_zipIdx_iff fun p hp => ?_
    exact read_eq_some_iff hnames hv (hlength ▸ hs) (hname p hp) p.1.decodes
  · intro v hv
    rw [h.exists_iff]
    simp only [Form.ofFields]
    rw [List.length_map, ← exists_ofValue?_iff hv, ← exists_and_right]
    refine exists_congr fun s => and_congr_right fun hs => forall_zipIdx_iff fun p hp => ?_
    exact exists_read_iff hnames hv (hlength ▸ hs) (hname p hp) p.1.decodes

end Fields

/-! ## Sections -/

/-- A kind of section: its fields and its decoder. -/
structure SectionKind where
  Content : Type
  fields : List (Field Content)
  decode : Value → Option Content

/-- How fields are given makes no difference to the decoder. -/
structure SectionKind.Lenient (k : SectionKind) : Prop where
  /-- Their order does not matter. -/
  order {given given' : Fields} : Distinct (.record given) → given'.Perm given →
    k.decode (.record given') = k.decode (.record given)
  /-- Names of no field do not matter. -/
  others {given others : Fields} : Distinct (.record (given ++ others)) →
    (∀ p ∈ others, p.1 ∉ names k.fields) →
    k.decode (.record (given ++ others)) = k.decode (.record given)
  /-- A list gives the first fields, as a record with their names does. -/
  positions {vs : List Value} : Distinct (.list vs) → vs.length ≤ k.fields.length →
    k.decode (.list vs) = k.decode (.record ((names k.fields).zip vs))
  /-- A list that is longer than the fields is refused. -/
  excess {vs : List Value} : Distinct (.list vs) → k.fields.length < vs.length →
    k.decode (.list vs) = none

theorem Distinct.perm {given given' : Fields} (h : Distinct (.record given))
    (hperm : given'.Perm given) : Distinct (.record given') := by
  cases h with
  | record hnames hvalues =>
    exact .record ((hperm.map _).nodup_iff.mpr hnames) fun p hp => hvalues p (hperm.mem_iff.mp hp)

theorem Distinct.of_append {given others : Fields} (h : Distinct (.record (given ++ others))) :
    Distinct (.record given) := by
  cases h with
  | record hnames hvalues =>
    rw [List.map_append] at hnames
    exact .record hnames.of_append_left fun p hp => hvalues p (List.mem_append_left _ hp)

theorem Distinct.zip {ns : List String} {vs : List Value} (h : Distinct (.list vs))
    (hns : ns.Nodup) : Distinct (.record (ns.zip vs)) := by
  have hnames : ((ns.zip vs).map Prod.fst).Sublist ns := by
    rw [List.zip_eq_zip_take_min, List.map_fst_zip (by simp)]
    exact List.take_sublist _ _
  cases h with
  | list hvs => exact .record (hns.sublist hnames) fun p hp => hvs _ (List.of_mem_zip hp).2

theorem Decodes.lenient {k : SectionKind} {base : k.Content}
    (h : Decodes (.ofFields k.fields) k.decode base) (hnames : (names k.fields).Nodup) :
    k.Lenient where
  order hgiven hperm := h.congr (hgiven.perm hperm) hgiven (Form.agrees_perm hperm)
  others hgiven hothers := h.congr hgiven hgiven.of_append (Form.agrees_append hothers)
  positions hvs hle := h.congr hvs (hvs.zip hnames) (Form.agrees_zip hle)
  excess {vs} hvs hlt := by
    rw [Option.eq_none_iff_forall_ne_some]
    intro x hx
    obtain ⟨hsection, -⟩ := (h.eq_some_iff hvs x).mp hx
    cases hsection with
    | byPosition hle => exact absurd hle (Nat.not_le.mpr hlt)

end CoherentMemory.Overlay
