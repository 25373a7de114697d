import Ironhide.Proofs.Checksum
import Ironhide.Proofs.HeaderCopies

namespace Ironhide.Proofs.SelfCheck
open Model Lib.Bytes Lib.OnesComplement PacketUtils Checksum HeaderCopies

/-- A field that is written back as it was leaves the buffer as it was. -/
theorem writeAt_read16 {m : List Byte} {off : Nat} (h : off + 2 ≤ m.length) :
    writeAt m off (le16 (read16 m off)) = m := by
  have hdrop : m.drop off = read8 m off :: read8 m (off+1) :: m.drop (off + 2) := by
    rw [List.drop_eq_getElem_cons (by omega), List.drop_eq_getElem_cons (by omega),
      read8_getElem (by omega), read8_getElem (by omega)]
  rw [writeAt, List.append_assoc, le16_read16]
  have hrest : [read8 m off, read8 m (off+1)] ++ m.drop (off + 2) = m.drop off := hdrop.symm
  exact (congrArg (m.take off ++ ·) hrest).trans (List.take_append_drop off m)

/-- A field at an even offset is one of the words. -/
theorem total_writeAt {m : List Byte} {off : Nat} (heven : 2 ∣ off) (h : off ≤ m.length)
    (v : BitVec 16) :
    total (leWords (writeAt m off (le16 v))) =
      v.toNat + (total (leWords (m.take off)) + total (leWords (m.drop (off + 2)))) := by
  have hlen : (m.take off).length = off := List.length_take_of_le h
  rw [writeAt, List.append_assoc, leWords_append (by rwa [hlen]), total_append, le16_length,
    leWords_le16, total_cons]
  omega

/-- Where there was zero, a value adds itself to the words. -/
theorem total_filled {m : List Byte} {off : Nat} (heven : 2 ∣ off) (h : off + 2 ≤ m.length)
    (hzero : read16 m off = 0) (v : BitVec 16) :
    total (leWords (writeAt m off (le16 v))) = total (v :: leWords m) := by
  have hm := total_writeAt heven (Nat.le_of_add_right_le h) (read16 m off)
  rw [writeAt_read16 h, hzero] at hm
  have h0 : (0 : BitVec 16).toNat = 0 := rfl
  rw [total_writeAt heven (Nat.le_of_add_right_le h) v, total_cons, hm, h0, Nat.zero_add]

/-- A buffer with its own checksum in a field that was zero sums up to zero. -/
theorem csum_filled {m : List Byte} {off : Nat} (hlen : m.length ≤ 131074) (heven : 2 ∣ off)
    (h : off + 2 ≤ m.length) (hzero : read16 m off = 0) :
    csum (writeAt m off (le16 (csum m m.length))) m.length = 0 := by
  have hsame : (writeAt m off (le16 (csum m m.length))).length = m.length :=
    writeAt_length m off _ h
  have hcheck : sum (leWords (writeAt m off (le16 (csum m m.length)))) = BitVec.allOnes 16 := by
    rw [csum_eq hlen]
    exact (sum_congr (by decide) (total_filled heven h hzero _)).trans
      (sum_check (by decide) (leWords m))
  calc csum (writeAt m off (le16 (csum m m.length))) m.length
      = csum (writeAt m off (le16 (csum m m.length)))
          (writeAt m off (le16 (csum m m.length))).length := by rw [hsame]
    _ = ~~~ sum (leWords (writeAt m off (le16 (csum m m.length)))) := csum_eq (by omega)
    _ = ~~~ BitVec.allOnes 16 := by rw [hcheck]
    _ = 0 := BitVec.not_allOnes

/-- `csum` is the Internet checksum: the complement of the ones'-complement sum of
the little-endian words, which a buffer that carries it passes. -/
theorem csum_internet :
    (∀ m : List Byte, m.length ≤ 131074 →
      csum m m.length = ~~~ sum (leWords m) ∧
      (sum (leWords m)).toNat = endAround 16 (total (leWords m))) ∧
    (∀ (m : List Byte) (off : Nat), m.length ≤ 131074 → 2 ∣ off → off + 2 ≤ m.length →
      read16 m off = 0 → csum (writeAt m off (le16 (csum m m.length))) m.length = 0) := by
  constructor
  · intro m hlen
    refine ⟨csum_eq hlen, ?_⟩
    exact (sum_toNat (w := 16) (by decide) (leWords m)).trans
      (endAround_eq_reduce (by decide) _).symm
  · intro m off hlen heven h hzero
    exact csum_filled hlen heven h hzero

/-- Five bytes with their checksum in front. -/
theorem odd_buffer_checked :
    csum (writeAt [0, 0, 0xff, 0xff, 0x61] 0 (le16 (csum [0, 0, 0xff, 0xff, 0x61] 5))) 5 = 0 :=
  csum_internet.2 [0, 0, 0xff, 0xff, 0x61] 0 (by decide) (Nat.dvd_zero 2) (by decide) rfl

end Ironhide.Proofs.SelfCheck
