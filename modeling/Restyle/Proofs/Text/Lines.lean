import Restyle.Proofs.FileName
import Restyle.Proofs.Path

/-!
# Lines

A line is a byte string without a line end.  Lines that are each ended can be told apart again
(`split_lines_iff`), so a text has only one list of lines (`lines_inj`).
-/

namespace Restyle

/-- Numbers hold no line end. -/
theorem lineEnd_not_mem_decimal (n : Nat) : (0x0A : UInt8) ∉ decimal n := by
  intro h
  have hdigit : '\n' ∈ Nat.toDigits 10 n := Utf8.mem_of_mem_encode (by decide) h
  exact absurd (Nat.isDigit_of_mem_toDigits (by decide) (by decide) hdigit) (by decide)

namespace Bytes

/-- Lines that are each ended are found again exactly if none of them has a line end in it. -/
theorem split_lines_iff {lines : List Bytes} :
    split 0x0A (lines.flatMap (· ++ [0x0A])) = lines ++ [[]] ↔ ∀ line ∈ lines, 0x0A ∉ line := by
  constructor
  · intro h line hline
    exact not_mem_of_mem_split (h ▸ List.mem_append_left _ hline)
  · intro h
    induction lines with
    | nil => rfl
    | cons line lines ih =>
        rw [List.forall_mem_cons] at h
        rw [List.flatMap_cons, List.append_assoc, List.singleton_append, split_append, split_of_not_mem h.1,
          ih h.2]
        rfl

/-- Lines without line ends are known from their text. -/
theorem lines_inj {lines lines' : List Bytes} (h : ∀ line ∈ lines, 0x0A ∉ line)
    (h' : ∀ line ∈ lines', 0x0A ∉ line)
    (heq : lines.flatMap (· ++ [0x0A]) = lines'.flatMap (· ++ [0x0A])) : lines = lines' := by
  have hsplit := congrArg (split 0x0A) heq
  rw [split_lines_iff.2 h, split_lines_iff.2 h'] at hsplit
  exact List.append_cancel_right hsplit

/-- Fields joined by a text without a byte hold it only if one of them does. -/
theorem not_mem_intercalate_iff {b : UInt8} {sep : Bytes} (hsep : b ∉ sep) {fields : List Bytes} :
    b ∉ sep.intercalate fields ↔ ∀ field ∈ fields, b ∉ field := by
  induction fields with
  | nil => simp
  | cons field fields ih =>
      cases fields with
      | nil => simp
      | cons next fields =>
          rw [List.intercalate_cons_cons, List.mem_append, List.mem_append, List.forall_mem_cons, ← ih]
          simp only [not_or, hsep, not_false_eq_true, and_true]

end Bytes

end Restyle
