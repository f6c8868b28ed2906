import Restyle.Yaml.Printer

/-!
# Binary data read back

Bytes in base 64 are read back, also when their letters stand in lines (`decode?_encode`,
`decode?_inLines`).
-/

namespace Restyle.Base64

/-- A letter is read back as its number. -/
theorem value?_letter : ∀ n < 64, value? (letter n) = some n := by
  decide +kernel

theorem letter_mem (n : Nat) : letter n ∈ alphabet := by
  rw [letter, List.getD_eq_getElem?_getD]
  cases h : alphabet[n]? with
  | none => decide
  | some c => exact List.mem_of_getElem? h

/-- No letter is the sign for padding. -/
theorem letter_ne_pad (n : Nat) : letter n ≠ '=' := by
  have h := letter_mem n
  intro hpad
  rw [hpad] at h
  revert h
  decide

/-- Four letters that are no padding are three bytes. -/
theorem groups?_cons {a b c d : Char} {s : List Char} (hd : d ≠ '=') {w x y z : Nat} (ha : value? a = some w)
    (hb : value? b = some x) (hc : value? c = some y) (hv : value? d = some z) :
    groups? (a :: b :: c :: d :: s) = (groups? s).map fun rest =>
      let n := ((w * 64 + x) * 64 + y) * 64 + z
      UInt8.ofNat (n / 65536) :: UInt8.ofNat (n / 256) :: UInt8.ofNat n :: rest := by
  rw [groups?.eq_4 a b c d s (fun _ h => absurd h hd) (fun h _ => absurd h hd)]
  simp [ha, hb, hc, hv]
  cases groups? s <;> rfl

/-- Bytes are read back group by group. -/
theorem groups?_encode (s : Bytes) : groups? (encode s) = some s := by
  have byte : ∀ {b : UInt8} {n : Nat}, n % 256 = b.toNat → UInt8.ofNat n = b := by
    intro b n h
    rw [← UInt8.toNat_inj, UInt8.toNat_ofNat', ← h]
  fun_induction encode s with
  | case1 a b c s n ih =>
      have ha := a.toNat_lt
      have hb := b.toNat_lt
      have hc := c.toNat_lt
      rw [groups?_cons (letter_ne_pad _) (value?_letter _ (by omega)) (value?_letter _ (by omega))
        (value?_letter _ (by omega)) (value?_letter _ (by omega)), ih]
      simp only [Option.map_some, Option.some.injEq, List.cons.injEq]
      exact ⟨byte (by omega), byte (by omega), byte (by omega), trivial⟩
  | case2 a b n =>
      have ha := a.toNat_lt
      have hb := b.toNat_lt
      rw [groups?.eq_3 _ _ _ (letter_ne_pad _)]
      simp only [value?_letter (n / 4096) (by omega), value?_letter (n / 64 % 64) (by omega),
        value?_letter (n % 64) (by omega), Option.bind_eq_bind, Option.bind_some, Option.some.injEq,
        List.cons.injEq]
      exact ⟨byte (by omega), byte (by omega), trivial⟩
  | case3 a n =>
      have ha := a.toNat_lt
      rw [groups?]
      simp only [value?_letter (n / 64) (by omega), value?_letter (n % 64) (by omega), Option.bind_eq_bind,
        Option.bind_some, Option.some.injEq, List.cons.injEq]
      exact ⟨byte (by omega), trivial⟩
  | case4 => rfl

/-- A letter or the padding. -/
def isDigit (c : Char) : Bool :=
  c == '=' || alphabet.contains c

theorem isDigit_letter (n : Nat) : isDigit (letter n) = true := by
  simp [isDigit, letter_mem n]

/-- What is encoded is letters and padding. -/
theorem isDigit_encode (s : Bytes) : ∀ c ∈ encode s, isDigit c = true := by
  fun_induction encode s with
  | case1 a b c s n ih => simpa [isDigit_letter] using ih
  | case2 a b n => simpa [isDigit_letter] using (by decide : isDigit '=' = true)
  | case3 a n => simpa [isDigit_letter] using (by decide : isDigit '=' = true)
  | case4 => simp

theorem ne_of_isDigit {c : Char} (h : isDigit c = true) {x : Char} (hx : isDigit x = false) : c ≠ x := by
  rintro rfl
  rw [h] at hx
  cases hx

theorem filter_digits {s : List Char} (h : ∀ c ∈ s, isDigit c = true) :
    s.filter (fun c => c != '\n' && c != '\r') = s := by
  refine List.filter_eq_self.2 fun c hc => ?_
  simp [ne_of_isDigit (h c hc) (by decide : isDigit '\n' = false),
    ne_of_isDigit (h c hc) (by decide : isDigit '\r' = false)]

/-- **Data in base 64 is read back.** -/
theorem decode?_encode (s : Bytes) : decode? (encode s) = some s := by
  rw [decode?, filter_digits (isDigit_encode s), groups?_encode]

/-- Line ends are dropped before reading. -/
theorem filter_inLines {s : List Char} (h : ∀ c ∈ s, isDigit c = true) (fuel : Nat) :
    (Yaml.Printer.inLines fuel s).filter (fun c => c != '\n' && c != '\r') = s := by
  induction fuel generalizing s with
  | zero => exact filter_digits h
  | succ fuel ih =>
      rw [Yaml.Printer.inLines]
      split
      · next hnil => simpa using hnil.symm
      · have htake := filter_digits (s := s.take 70) fun c hc => h c (List.mem_of_mem_take hc)
        have hdrop := ih (s := s.drop 70) fun c hc => h c (List.mem_of_mem_drop hc)
        rw [List.filter_append, List.filter_cons_of_neg (by decide), htake, hdrop, List.take_append_drop]

/-- **Bytes are read back** from their lines. -/
theorem decode?_inLines (s : Bytes) (fuel : Nat) : decode? (Yaml.Printer.inLines fuel (encode s)) = some s := by
  rw [decode?, filter_inLines (isDigit_encode s), groups?_encode]

end Restyle.Base64
