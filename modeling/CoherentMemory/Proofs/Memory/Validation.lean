import CoherentMemory.Proofs.Guarded.Machine
import CoherentMemory.Proofs.Memory.SizeText

/-!
# The check of the directories

The check compares what the directories own with physical memory, both as exact numbers
(`validate_exact`). A sum in 64 bits would not do: ranges that overlap can own `2 ^ 64`
bytes more than there are. In 128 bits no sum of fewer than `2 ^ 64` sizes wraps around.
The outcome depends on the directories alone, and not on their order.

A report of the check shows two texts that differ, since it is made of numbers that do, and
tells both numbers (`message_unambiguous`).
-/

namespace CoherentMemory.Memory

/-- The number of addresses in a range. -/
def Range.span (r : Range) : Nat :=
  r.last.toNat - r.first.toNat + 1

/-- The number of addresses that the directories own, each range for itself. -/
def owned (cs : ControllerSet) : Nat :=
  ((cs.directories.filterMap Controller.memory?).map Range.span).sum

theorem total_eq_owned (cs : ControllerSet) : total cs = owned cs := by
  have hspan : (fun r : Range => r.size.bytes.toNat) = Range.span := funext Range.toNat_size
  rw [← total_directories, total, bytesIn_eq_sum, hspan]
  rfl

theorem validate_eq (cs : ControllerSet) (memory : Range) : validate cs memory =
    if owned cs = memory.span then .ok memory.size else .error ⟨memory.span, owned cs⟩ := by
  rw [validate, total_eq_owned, Range.toNat_size]
  rfl

/-- The directories decide, in any order. -/
theorem validate_congr {cs ds : ControllerSet} (h : ds.directories.Perm cs.directories)
    (memory : Range) : validate ds memory = validate cs memory := by
  have htotal : total ds = total cs := by
    rw [← total_directories, total_perm h, total_directories]
  rw [validate, validate, htotal]

/-- No arithmetic fails in the check of fewer than `2 ^ 64` controllers, and it accepts
them exactly if their directories own as much as there is. Otherwise it reports both
numbers. Reordering the controllers changes nothing, nor does adding or removing any that
are no directories. -/
theorem validate_exact (cs : ControllerSet) (h : cs.length < 2 ^ 64) (memory : Range) :
    (Guarded.validate cs memory).run = .ok (validate cs memory) ∧
    (validate cs memory = .ok memory.size ↔ owned cs = memory.span) ∧
    (owned cs ≠ memory.span → validate cs memory = .error ⟨memory.span, owned cs⟩) ∧
    (∀ ds : ControllerSet, ds.Perm cs → validate ds memory = validate cs memory) ∧
    ∀ ds : ControllerSet, ds.directories.Perm cs.directories →
      validate ds memory = validate cs memory := by
  refine ⟨Guarded.validate_eq h memory, ?_, fun hne => ?_, fun ds hds => ?_,
    fun ds hds => validate_congr hds memory⟩
  · rw [validate_eq]
    split
    · rename_i heq
      exact iff_of_true rfl heq
    · rename_i hne
      exact iff_of_false (by rintro ⟨⟩) hne
  · rw [validate_eq, if_neg hne]
  · exact validate_congr (hds.filter _) memory

/-- Two overlapping directories that own `2 ^ 64` bytes more than the 256 there are, behind
a sequencer. -/
theorem validate_exact_overlapping :
    (Guarded.validate [.sequencer 0,
      .directory 0 ⟨0, 18446744073709551614, by decide, by decide⟩,
      .directory 1 ⟨0, 256, by decide, by decide⟩] ⟨0, 255, by decide, by decide⟩).run =
        .ok (.error ⟨256, 2 ^ 64 + 256⟩) := by
  obtain ⟨hrun, -, herror, -⟩ := validate_exact [.sequencer 0,
    .directory 0 ⟨0, 18446744073709551614, by decide, by decide⟩,
    .directory 1 ⟨0, 256, by decide, by decide⟩] (by decide) ⟨0, 255, by decide, by decide⟩
  rw [hrun, herror (by decide)]
  rfl

/-! ## Reports -/

theorem validate_eq_error_iff {cs : ControllerSet} {memory : Range} {m : Mismatch} :
    validate cs memory = .error m ↔ owned cs ≠ memory.span ∧ m = ⟨memory.span, owned cs⟩ := by
  rw [validate_eq]
  split
  · rename_i heq
    simp [heq]
  · rename_i hne
    simp [hne, eq_comm]

theorem toList_message (m : Mismatch) : m.message.toList =
    "directory memory mismatch: physical memory is ".toList ++ ((bytesText m.expected).toList ++
      (" but directories total ".toList ++ (bytesText m.actual).toList)) := by
  unfold Mismatch.message
  rw [String.toList_append, String.toList_append, String.toList_append, List.append_assoc,
    List.append_assoc]

/-- The text of the first number ends at the first blank after its beginning, so that no other
pair of numbers gives the same report. -/
theorem message_injective : Function.Injective Mismatch.message := by
  intro m m' h
  have htext := congrArg String.toList h
  rw [toList_message, toList_message] at htext
  have hrest := List.append_cancel_left htext
  have hfirst (n : Nat) (cs : List Char) :
      ((bytesText n).toList ++ (" but directories total ".toList ++ cs)).takeWhile
        (fun c => !Text.isBlank c) = (bytesText n).toList := by
    refine (Text.takeWhile_dropWhile_append (fun c hc => ?_) ?_).1
    · rw [isBlank_of_mem_bytesText hc]
      rfl
    · rintro c ⟨⟩
      decide
  have hexpected : (bytesText m.expected).toList = (bytesText m'.expected).toList := by
    rw [← hfirst m.expected, hrest, hfirst]
  rw [hexpected] at hrest
  have hactual := List.append_cancel_left (List.append_cancel_left hrest)
  obtain ⟨expected, actual⟩ := m
  obtain ⟨expected', actual'⟩ := m'
  rw [Mismatch.mk.injEq]
  exact ⟨bytesText_injective (String.toList_inj.mp hexpected),
    bytesText_injective (String.toList_inj.mp hactual)⟩

/-- Different numbers of bytes have different texts, of whatever size they are, and different
mismatches have different reports. The report of a failed check therefore shows two different
texts, for the size of physical memory and for what the directories own. -/
theorem message_unambiguous :
    Function.Injective bytesText ∧ Function.Injective Mismatch.message ∧
    ∀ (cs : ControllerSet) (memory : Range) (m : Mismatch), validate cs memory = .error m →
      ∃ expected actual, expected = bytesText memory.span ∧ actual = bytesText (owned cs) ∧
        m.message = "directory memory mismatch: physical memory is " ++ expected ++
          " but directories total " ++ actual ∧ expected ≠ actual := by
  refine ⟨bytesText_injective, message_injective, fun cs memory m h => ?_⟩
  obtain ⟨hne, rfl⟩ := validate_eq_error_iff.mp h
  exact ⟨_, _, rfl, rfl, rfl, fun htext => hne (bytesText_injective htext).symm⟩

/-- A total beyond 64 bits that a 64-bit sum would show as the size of physical memory. -/
theorem message_unambiguous_wrapped :
    validate [.directory 0 ⟨0, 18446744073709551614, by decide, by decide⟩,
      .directory 1 ⟨0, 256, by decide, by decide⟩] ⟨0, 255, by decide, by decide⟩ =
        .error ⟨256, 2 ^ 64 + 256⟩ ∧
    bytesText 256 ≠ bytesText (2 ^ 64 + 256) := by
  obtain ⟨-, -, hreport⟩ := message_unambiguous
  have herror : validate [.directory 0 ⟨0, 18446744073709551614, by decide, by decide⟩,
      .directory 1 ⟨0, 256, by decide, by decide⟩] ⟨0, 255, by decide, by decide⟩ =
        .error ⟨256, 2 ^ 64 + 256⟩ := rfl
  obtain ⟨expected, actual, rfl, rfl, -, hne⟩ := hreport _ _ _ herror
  exact ⟨herror, hne⟩

end CoherentMemory.Memory
