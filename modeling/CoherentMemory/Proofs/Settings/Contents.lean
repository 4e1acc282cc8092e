import CoherentMemory.Proofs.ClockGrammar
import CoherentMemory.Proofs.Memory.SizeGrammar
import CoherentMemory.Settings.Decoder

/-!
# What single values hold

The values from which a decoder gets a text, a number, a clock or a size. Each has exactly one
value for a text or a number (`text?_eq_some_iff`, `word64?_eq_some_iff`), and a clock and a
size have all texts that denote them (`clock?_eq_some_iff`, `size?_eq_some_iff`).
-/

namespace CoherentMemory

theorem toOption_eq_some_iff {ε α : Type} {x : Except ε α} {a : α} :
    x.toOption = some a ↔ x = .ok a := by
  cases x <;> simp [Except.toOption]

namespace Data.Value

theorem text?_eq_some_iff {v : Value} {s : String} : v.text? = some s ↔ v = .text s := by
  cases v <;> simp [text?]

theorem bool?_eq_some_iff {v : Value} {b : Bool} : v.bool? = some b ↔ v = .bool b := by
  cases v <;> simp [bool?]

theorem naturalBelow?_eq_some_iff {v : Value} {bound n : Nat} :
    v.naturalBelow? bound = some n ↔ n < bound ∧ v = .integer n := by
  cases v <;> simp [naturalBelow?]
  omega

theorem word32?_eq_some_iff {v : Value} {w : UInt32} :
    v.word32? = some w ↔ v = .integer w.toNat := by
  simp only [word32?, Option.map_eq_some_iff, naturalBelow?_eq_some_iff]
  constructor
  · rintro ⟨n, ⟨hlt, rfl⟩, rfl⟩
    rw [UInt32.toNat_ofNat_of_lt' hlt]
  · rintro rfl
    exact ⟨w.toNat, ⟨w.toNat_lt, rfl⟩, UInt32.ofNat_toNat⟩

theorem word64?_eq_some_iff {v : Value} {w : UInt64} :
    v.word64? = some w ↔ v = .integer w.toNat := by
  simp only [word64?, Option.map_eq_some_iff, naturalBelow?_eq_some_iff]
  constructor
  · rintro ⟨n, ⟨hlt, rfl⟩, rfl⟩
    rw [UInt64.toNat_ofNat_of_lt' hlt]
  · rintro rfl
    exact ⟨w.toNat, ⟨w.toNat_lt, rfl⟩, UInt64.ofNat_toNat⟩

end Data.Value

open Data

theorem Memory.Size.ofValue_eq_ok_iff {v : Value} {s : Memory.Size} :
    Memory.Size.ofValue v = .ok s ↔
      v = .integer s.bytes.toNat ∨ ∃ t, v = .text t ∧ Memory.Size.parse t = .ok s := by
  rw [← Value.word64?_eq_some_iff]
  cases v with
  | text t =>
    show (Memory.Size.parse t).mapError SizeMisfit.text = .ok s ↔ _
    cases ht : Memory.Size.parse t <;>
      simp [Except.mapError, Value.word64?, Value.naturalBelow?, ht]
  | integer n =>
    obtain ⟨bytes⟩ := s
    cases hn : (Value.integer n).word64? <;> simp [Memory.Size.ofValue, hn]
  | _ => simp [Memory.Size.ofValue, Value.word64?, Value.naturalBelow?]

namespace Decoder

theorem optionalText?_eq_some_iff {v : Value} {s : Option String} :
    optionalText? v = some s ↔ v = .null ∧ s = none ∨ ∃ t, v = .text t ∧ s = some t := by
  cases v <;> simp [optionalText?, eq_comm]

theorem clock?_eq_some_iff {v : Value} {c : Clock} :
    clock? v = some c ↔ ∃ t : String, v = .text t ∧
      Clock.Denotes (Text.trim t.toList) c.hertz ∧ c.hertz.isFinite = true ∧ 0 < c.hertz := by
  simp only [clock?, Clock.ofValue?, Option.bind_eq_some_iff, Option.map_eq_some_iff,
    Value.text?_eq_some_iff, toOption_eq_some_iff, ← Clock.parse_eq_ok_iff]
  constructor
  · rintro ⟨_, ⟨t, hv, rfl⟩, hc⟩
    exact ⟨t, hv, hc⟩
  · rintro ⟨t, hv, hc⟩
    exact ⟨_, ⟨t, hv, rfl⟩, hc⟩

theorem size?_eq_some_iff {v : Value} {s : Memory.Size} : size? v = some s ↔
    v = .integer s.bytes.toNat ∨
      ∃ t : String, v = .text t ∧ Memory.Size.Denotes (Text.trim t.toList) s.bytes.toNat := by
  simp only [← Memory.Size.parse_eq_ok_iff]
  exact toOption_eq_some_iff.trans Memory.Size.ofValue_eq_ok_iff

end Decoder

end CoherentMemory
