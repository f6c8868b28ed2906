import Restyle.Deflate.Pack
import Restyle.Proofs.Text.Utf8

/-!
# Packed data is unpacked

Packing looks at its own result: if that does not unpack to the data, the data is written as it is.  So that
nothing is lost has to be shown only for the second way, blocks of data that is not packed
(`unpack_storedBlocks`).

* `unpack_pack`: what has been packed is unpacked again.
-/

namespace Restyle.Deflate

/-! ### Bits and bytes -/

namespace Bits

theorem ofBytes_cons (b : UInt8) (s : Bytes) : ofBytes (b :: s) = ofNat 8 b.toNat ++ ofBytes s := rfl

/-- There are eight bits in a byte. -/
theorem length_ofBytes (s : Bytes) : (ofBytes s).length = 8 * s.length := by
  induction s with
  | nil => rfl
  | cons b s ih =>
      rw [ofBytes_cons, List.length_append, length_ofNat, ih, List.length_cons]
      omega

/-- Bytes are read back from their bits. -/
theorem toBytes_ofBytes (s : Bytes) : toBytes (ofBytes s) = s := by
  induction s with
  | nil => rfl
  | cons b s ih =>
      have hb : toNat (ofNat 8 b.toNat) = b.toNat := by
        rw [toNat_ofNat]
        exact Nat.mod_eq_of_lt b.toNat_lt
      have hbyte : toBytes (ofNat 8 b.toNat ++ ofBytes s) =
          UInt8.ofNat (toNat (ofNat 8 b.toNat)) :: toBytes (ofBytes s) := rfl
      rw [ofBytes_cons, hbyte, hb, UInt8.ofNat_toNat, ih]

/-- Bits are read back from their number. -/
theorem ofNat_toNat (s : Bits) : ofNat s.length (toNat s) = s := by
  induction s with
  | nil => rfl
  | cons b s ih =>
      have hbit : ((toNat (b :: s)) % 2 == 1) = b := by
        cases b <;> simp [toNat]
      have hrest : toNat (b :: s) / 2 = toNat s := by
        have hlt := Bool.toNat_lt b
        rw [toNat]
        omega
      rw [List.length_cons, ofNat, hbit, hrest, ih]

/-- Whole bytes of bits. -/
theorem ofBytes_toBytes {s : Bits} (h : s.length % 8 = 0) : ofBytes (toBytes s) = s := by
  induction s using toBytes.induct with
  | case1 b₀ b₁ b₂ b₃ b₄ b₅ b₆ b₇ s ih =>
      have hs : s.length % 8 = 0 := by
        simp only [List.length_cons] at h
        omega
      have hbyte : ∀ t : Bits, t.length = 8 → ofNat 8 (UInt8.ofNat (toNat t)).toNat = t := by
        intro t ht
        have hlt : toNat t < 256 := by
          have := toNat_ofNat 8 (toNat t)
          rw [← ht, ofNat_toNat, ht] at this
          rw [this]
          exact Nat.mod_lt _ (by decide)
        rw [Utf8.toNat_byte hlt, ← ht, ofNat_toNat]
      rw [toBytes, ofBytes_cons, hbyte _ rfl, ih hs]
      rfl
  | case2 => rfl
  | case3 s hlong hne =>
      -- fewer than eight bits, but not none
      exfalso
      match s, hlong, hne, h with
      | [], _, hne, _ => exact hne rfl
      | [_], _, _, h | [_, _], _, _, h | [_, _, _], _, _, h | [_, _, _, _], _, _, h
      | [_, _, _, _, _], _, _, h | [_, _, _, _, _, _], _, _, h
      | [_, _, _, _, _, _, _], _, _, h => simp at h
      | b₀ :: b₁ :: b₂ :: b₃ :: b₄ :: b₅ :: b₆ :: b₇ :: s, hlong, _, _ =>
          exact hlong b₀ b₁ b₂ b₃ b₄ b₅ b₆ b₇ s rfl

end Bits

/-! ### Blocks that are not packed -/

namespace Reading

/-- A number is read from its bits, as far as its width goes. -/
theorem number_run (width n : Nat) (s : Bits) :
    (number width).run (Bits.ofNat width n ++ s) = pure (n % 1 <<< width, s) := by
  rw [number, StateT.run_bind, StateT.run_get, pure_bind, Bits.take?_ofNat_append]
  rfl

/-- Data that is not packed is read, whatever whole bytes follow it. -/
theorem stored_run (out : Array UInt8) {data : Bytes} (hdata : data.length ≤ maxStored) {rest : Bits}
    (hrest : rest.length % 8 = 0) :
    (stored out).run (padding 3 ++ (Bits.ofNat 16 data.length ++ (Bits.ofNat 16 (0xFFFF - data.length) ++
      (Bits.ofBytes data ++ rest)))) = pure (out ++ data.toArray, rest) := by
  have hmax : data.length ≤ 65535 := hdata
  have hwidth : ∀ n, n ≤ 65535 → n % 1 <<< 16 = n := fun n hn => Nat.mod_eq_of_lt (by omega)
  have halign : ∀ t : Bits, t.length % 8 = 0 → Bits.align (padding 3 ++ t) = t := by
    intro t ht
    have hpad : (padding 3).length = 5 := rfl
    have hfive : (padding 3 ++ t).length % 8 = (padding 3).length := by
      rw [List.length_append]
      omega
    rw [Bits.align, hfive, List.drop_left]
  have hlength := Bits.length_ofBytes data
  have htake : (Bits.ofBytes data ++ rest).take (8 * data.length) = Bits.ofBytes data := by
    rw [← hlength, List.take_left]
  have hdrop : (Bits.ofBytes data ++ rest).drop (8 * data.length) = rest := by
    rw [← hlength, List.drop_left]
  rw [stored, StateT.run_bind, StateT.run_modify, pure_bind, halign, StateT.run_bind, number_run, pure_bind,
    StateT.run_bind, number_run, pure_bind, hwidth _ hmax, hwidth _ (by omega), if_neg (by simp; omega),
    StateT.run_bind, StateT.run_get, pure_bind, if_neg, StateT.run_bind, StateT.run_set, pure_bind]
  · dsimp only
    rw [htake, hdrop, Bits.toBytes_ofBytes]
    rfl
  · rw [List.length_append, hlength]
    omega
  · simp only [List.length_append, Bits.length_ofNat, hlength]
    omega

/-- A block that is not packed is read, and then the blocks after it unless it is the last. -/
theorem blocks_storedBlock (fuel : Nat) (out : Array UInt8) {data : Bytes} (hdata : data.length ≤ maxStored)
    {rest : Bits} (hrest : rest.length % 8 = 0) (last : Bool) :
    (blocks (fuel + 1) out).run (storedBlock 0 last data ++ rest) =
      if last then pure (out ++ data.toArray, rest) else (blocks fuel (out ++ data.toArray)).run rest := by
  have hbits : storedBlock 0 last data ++ rest = Bits.ofNat 1 last.toNat ++ (Bits.ofNat 2 0 ++ (padding 3 ++
      (Bits.ofNat 16 data.length ++ (Bits.ofNat 16 (0xFFFF - data.length) ++ (Bits.ofBytes data ++ rest))))) := by
    cases last <;> simp [storedBlock, header, Bits.ofNat]
  have hblock : (block (fuel + 1) out).run (Bits.ofNat 2 0 ++ (padding 3 ++ (Bits.ofNat 16 data.length ++
      (Bits.ofNat 16 (0xFFFF - data.length) ++ (Bits.ofBytes data ++ rest))))) = pure (out ++ data.toArray, rest) := by
    rw [block, StateT.run_bind, number_run, pure_bind]
    exact stored_run out hdata hrest
  rw [hbits, blocks, StateT.run_bind, number_run, pure_bind, StateT.run_bind, hblock, pure_bind]
  cases last <;> rfl

end Reading

/-- A stored block has five bytes before its data. -/
theorem length_storedBlock (last : Bool) (data : Bytes) :
    (storedBlock 0 last data).length = 40 + 8 * data.length := by
  simp [storedBlock, header, padding, Bits.length_ofNat, Bits.length_ofBytes]
  omega

/-- Blocks that are not packed are whole bytes, and no fewer than their data. -/
theorem length_storedBlocks {fuel : Nat} {data : Bytes} (h : data.length ≤ fuel) :
    (storedBlocks fuel data).length % 8 = 0 ∧ data.length ≤ (storedBlocks fuel data).length := by
  induction fuel generalizing data with
  | zero =>
      rw [storedBlocks, length_storedBlock]
      omega
  | succ fuel ih =>
      rw [storedBlocks]
      split
      · rw [length_storedBlock]
        omega
      · rename_i hlong
        have hmax : maxStored = 65535 := rfl
        have hdrop : (data.drop maxStored).length = data.length - maxStored := List.length_drop
        have htake : (data.take maxStored).length = min maxStored data.length := List.length_take
        have hfuel : (data.drop maxStored).length ≤ fuel := by omega
        have hrest := ih hfuel
        rw [List.length_append, length_storedBlock]
        omega

/-- **Stored blocks are read** until the last of them. -/
theorem blocks_storedBlocks {fuel k : Nat} {data : Bytes} (h : data.length ≤ fuel) (hk : fuel < k)
    (out : Array UInt8) :
    (Reading.blocks k out).run (storedBlocks fuel data) = pure (out ++ data.toArray, []) := by
  -- the fuel of the writer bounds the number of blocks, and a reader that has more comes to the last one
  induction fuel generalizing data k out with
  | zero =>
      obtain ⟨k, rfl⟩ := Nat.exists_eq_succ_of_ne_zero (Nat.ne_zero_of_lt hk)
      have hdata : data.length ≤ maxStored := by omega
      rw [storedBlocks, List.take_of_length_le hdata, ← List.append_nil (storedBlock 0 true data),
        Reading.blocks_storedBlock k out hdata rfl, if_pos rfl]
  | succ fuel ih =>
      obtain ⟨k, rfl⟩ := Nat.exists_eq_succ_of_ne_zero (Nat.ne_zero_of_lt hk)
      rw [storedBlocks]
      split
      · rename_i hdata
        rw [← List.append_nil (storedBlock 0 true data), Reading.blocks_storedBlock k out hdata rfl, if_pos rfl]
      · have hmax : maxStored = 65535 := rfl
        have hrest : (data.drop maxStored).length ≤ fuel := by
          rw [List.length_drop]
          omega
        rw [Reading.blocks_storedBlock k out (List.length_take_le _ _) (length_storedBlocks hrest).1,
          if_neg (by decide), ih hrest (by omega), Array.append_assoc]
        have hpieces : (data.take maxStored).toArray ++ (data.drop maxStored).toArray = data.toArray := by
          rw [List.append_toArray, List.take_append_drop]
        rw [hpieces]

/-! ### Packing -/

/-- Data is unpacked from its stored blocks. -/
theorem unpack_storedBlocks (data : Bytes) :
    unpack (Bits.toBytes (storedBlocks data.length data)) = .ok data := by
  have hlength := length_storedBlocks (Nat.le_refl data.length)
  have hblocks := blocks_storedBlocks (Nat.le_refl data.length) (Nat.lt_succ_of_le hlength.2) #[]
  rw [unpack, Bits.ofBytes_toBytes hlength.1, hblocks]
  simp [pure, Except.pure]

/-- Nothing is lost in packing. -/
theorem unpack_pack (data : Bytes) : unpack (pack data).bytes = .ok data := by
  rw [pack]
  dsimp only
  split
  · rename_i out hout
    split
    · rename_i heq
      rw [hout, eq_of_beq heq]
    · exact unpack_storedBlocks data
  · exact unpack_storedBlocks data

end Restyle.Deflate
