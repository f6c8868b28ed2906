import Restyle.Proofs.FileName
import Restyle.Proofs.Job.Visits

/-!
# Names of traces

The trace of a stylesheet is stored under a name that starts with the number of the stylesheet, and the
number can be read off the name, however many digits it has (`number_of_traceName`).  A job numbers its
stylesheets one after the other, so as long as the traces in the report have lower numbers (`Numbered`) the
name of the next one is free.

* `exec_storeTrace`: a trace with a new number is stored.
-/

namespace Restyle.Job

/-! ### Numbers -/

/-- A number of at least four digits is zeros and its digits. -/
theorem fourDigits_eq_encode (n : Nat) : ∃ zeros, fourDigits n =
    Utf8.encode (List.replicate zeros '0' ++ Nat.toDigits 10 n) := by
  refine ⟨4 - (decimal n).length, ?_⟩
  have hzeros : ∀ k, List.replicate k (0x30 : UInt8) = Utf8.encode (List.replicate k '0') := by
    intro k
    induction k with
    | zero => rfl
    | succ k ih =>
        rw [List.replicate_succ, List.replicate_succ, ih]
        rfl
  rw [fourDigits, hzeros, decimal, Utf8.encode, Utf8.encode, Utf8.encode, List.flatMap_append]

/-- Zeros in front do not count. -/
theorem ofDigitChars_zeros (zeros : Nat) (digits : List Char) :
    Nat.ofDigitChars 10 (List.replicate zeros '0' ++ digits) 0 = Nat.ofDigitChars 10 digits 0 := by
  induction zeros with
  | zero => rfl
  | succ zeros ih => exact ih

/-- No two numbers are written alike. -/
theorem fourDigits_inj {n m : Nat} (h : fourDigits n = fourDigits m) : n = m := by
  obtain ⟨zeros, hn⟩ := fourDigits_eq_encode n
  obtain ⟨zeros', hm⟩ := fourDigits_eq_encode m
  have hdigits := Utf8.encode_inj.1 (hn.symm.trans (h.trans hm))
  have hvalue := congrArg (Nat.ofDigitChars 10 · 0) hdigits
  simpa only [ofDigitChars_zeros, Nat.ofDigitChars_toDigits (by decide : 1 < 10) (by decide)] using hvalue

theorem dash_not_mem_fourDigits (n : Nat) : (0x2D : UInt8) ∉ fourDigits n := by
  obtain ⟨zeros, hn⟩ := fourDigits_eq_encode n
  rw [hn]
  intro h
  have hmem : '-' ∈ List.replicate zeros '0' ++ Nat.toDigits 10 n := Utf8.mem_of_mem_encode (by decide) h
  rcases List.mem_append.1 hmem with hzero | hdigit
  · exact absurd (List.eq_of_mem_replicate hzero) (by decide)
  · exact absurd (Nat.isDigit_of_mem_toDigits (by decide) (by decide) hdigit) (by decide)

/-- **The number of a trace can be read off its name.** -/
theorem number_of_traceName {n m : Nat} {source source' : Bytes}
    (h : traceName n source = traceName m source') : n = m := by
  have hupTo : ∀ k rest, (fourDigits k ++ 0x2D :: rest).takeWhile (· != 0x2D) = fourDigits k := by
    intro k rest
    rw [List.takeWhile_append_of_pos]
    · simp
    · intro b hb
      rw [bne_iff_ne]
      rintro rfl
      exact dash_not_mem_fourDigits k hb
  simp only [traceName, List.append_assoc] at h
  have hnumbers := congrArg (List.takeWhile (· != 0x2D)) (List.append_cancel_left h)
  exact fourDigits_inj ((hupTo n _).symm.trans (hnumbers.trans (hupTo m _)))

/-! ### Storing -/

/-- The traces in the report, if there is one, have numbers below a bound. -/
def Numbered (bound : Nat) (report : Option Report) : Prop :=
  ∀ r ∈ report, ∀ i ∈ r.items, ∀ n source, i.1 = traceName n source → n < bound

/-- A higher bound holds as well. -/
theorem Numbered.mono {bound bound' : Nat} {report : Option Report} (h : Numbered bound report)
    (hle : bound ≤ bound') : Numbered bound' report :=
  fun r hr i hi n source hn => Nat.lt_of_lt_of_le (h r hr i hi n source hn) hle

/-- The name with the next number is free. -/
theorem Numbered.get?_eq_none {bound : Nat} {r : Report} (h : Numbered bound (some r)) (source : Bytes) :
    r.get? (traceName bound source) = none := by
  rw [Report.get?, List.lookup_eq_none_iff]
  rintro ⟨name, i⟩ hi
  rw [bne_iff_ne]
  intro hname
  exact absurd (h r rfl _ hi bound source hname.symm) (Nat.lt_irrefl bound)

/-- A trace under the next number leaves the one behind it free. -/
theorem Numbered.add {bound : Nat} {r : Report} (h : Numbered bound (some r)) (source : Bytes)
    (i : Report.Item) : Numbered (bound + 1) (some (r.add (traceName bound source) i)) := by
  rintro r' ⟨⟩ i hi n source' hn
  rcases List.mem_append.1 hi with hi | hi
  · exact Nat.lt_succ_of_lt (h r rfl i hi n source' hn)
  · obtain rfl := List.mem_singleton.1 hi
    exact Nat.lt_succ_of_le (Nat.le_of_eq (number_of_traceName hn).symm)

/-- **A trace with a new number is stored.** -/
theorem exec_storeTrace (source text : Bytes) {s : State} (h : Numbered s.1.count s.1.report) :
    ∃ report, exec (storeTrace source text) s = ([], ⟨s.1.count, report⟩, s.2) ∧
      Numbered (s.1.count + 1) report := by
  obtain ⟨⟨count, report⟩, w⟩ := s
  cases report with
  | none => exact ⟨none, rfl, by rintro r ⟨⟩⟩
  | some r =>
      refine ⟨some (r.add (traceName count source) { data := text }), ?_, h.add source _⟩
      have hget : exec (get : Run (StateM World) Progress) (⟨count, some r⟩, w) =
          (⟨count, some r⟩, ⟨count, some r⟩, w) := rfl
      rw [storeTrace, exec_bind, hget]
      dsimp only
      rw [Report.addData, h.get?_eq_none source]
      rfl

end Restyle.Job
