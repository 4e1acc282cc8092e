/-!
# Blank characters and trimming

`isBlank` is the Unicode property White_Space, twenty-five code points in ten
ranges. `trim` removes blanks from both ends of a text and nothing else.
-/

namespace CoherentMemory.Text

/-- The ranges of the Unicode property White_Space, in ascending order. -/
def blankRanges : List (Nat × Nat) :=
  [(0x9, 0xD), (0x20, 0x20), (0x85, 0x85), (0xA0, 0xA0), (0x1680, 0x1680), (0x2000, 0x200A),
    (0x2028, 0x2029), (0x202F, 0x202F), (0x205F, 0x205F), (0x3000, 0x3000)]

/-- White space, in the whole of Unicode. -/
def isBlank (c : Char) : Bool :=
  blankRanges.any fun r => r.1 ≤ c.toNat && c.toNat ≤ r.2

/-- The text without the blanks it begins with. -/
def trimStart (cs : List Char) : List Char :=
  cs.dropWhile isBlank

/-- The text without the blanks it ends with. -/
def trimEnd (cs : List Char) : List Char :=
  (cs.reverse.dropWhile isBlank).reverse

/-- The text without the blanks at its two ends. -/
def trim (cs : List Char) : List Char :=
  trimEnd (trimStart cs)

/-- `trim` on a string. -/
def trimmed (s : String) : String :=
  String.ofList (trim s.toList)

theorem trimStart_eq (cs : List Char) : cs = cs.takeWhile isBlank ++ trimStart cs :=
  List.takeWhile_append_dropWhile.symm

theorem trimEnd_eq_self {cs : List Char} (h : ∀ c ∈ cs.getLast?, isBlank c = false) :
    trimEnd cs = cs := by
  have e : cs.reverse.dropWhile isBlank = cs.reverse := by
    rw [List.getLast?_eq_head?_reverse] at h
    cases hr : cs.reverse with
    | nil => rfl
    | cons c ds =>
      rw [hr] at h
      exact List.dropWhile_cons_of_neg (Bool.eq_false_iff.mp (h c rfl))
  rw [trimEnd, e, List.reverse_reverse]

/-- A text without blanks is left as it is. -/
theorem trim_eq_self {cs : List Char} (h : ∀ c ∈ cs, isBlank c = false) : trim cs = cs := by
  have hstart : trimStart cs = cs := by
    cases cs with
    | nil => rfl
    | cons c cs => exact List.dropWhile_cons_of_neg (Bool.eq_false_iff.mp (h c List.mem_cons_self))
  rw [trim, hstart, trimEnd_eq_self fun c hc => h c (List.mem_of_getLast? hc)]

/-- What ends a text ends its last part. -/
theorem isBlank_getLast?_of_append {cs ds : List Char}
    (h : ∀ c ∈ (cs ++ ds).getLast?, isBlank c = false) : ∀ c ∈ ds.getLast?, isBlank c = false := by
  intro c hc
  refine h c ?_
  rw [List.getLast?_append, hc]
  rfl

/-- Where a text does not end with a blank, only those that it begins with are trimmed. -/
theorem takeWhile_append_trim {cs : List Char} (h : ∀ c ∈ cs.getLast?, isBlank c = false) :
    cs.takeWhile isBlank ++ trim cs = cs := by
  rw [trimStart_eq cs] at h
  rw [trim, trimEnd_eq_self (isBlank_getLast?_of_append h)]
  exact (trimStart_eq cs).symm

/-- No blank is left at the end of a trimmed text. -/
theorem isBlank_getLast?_trim (cs : List Char) : ∀ c ∈ (trim cs).getLast?, isBlank c = false := by
  intro c hc
  have h := List.head?_dropWhile_not isBlank (trimStart cs).reverse
  rw [trim, trimEnd, List.getLast?_reverse] at hc
  rw [hc] at h
  exact h

end CoherentMemory.Text
