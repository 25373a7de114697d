import Ironhide.Proofs.HeaderCopies

namespace Ironhide.Proofs.Lossless
open Model Lib.Bytes PacketUtils SfcUtilities Framing HeaderCopies

/-- The five bit-fields of the first word, put back together, are the word. -/
theorem join_base (w : BitVec 16) :
    w.extractLsb' 10 6 ++ w.extractLsb' 4 6 ++ w.extractLsb' 3 1 ++ w.extractLsb' 2 1 ++
      w.extractLsb' 0 2 = w := by
  rw [BitVec.extractLsb'_append_extractLsb'_eq_extractLsb' (by decide),
    BitVec.extractLsb'_append_extractLsb'_eq_extractLsb' (by decide),
    BitVec.extractLsb'_append_extractLsb'_eq_extractLsb' (by decide)]
  exact BitVec.extractLsb'_append_extractLsb'

/-- The path identifier and the index. -/
theorem join_path (w : BitVec 32) : w.extractLsb' 24 8 ++ w.extractLsb' 0 24 = w :=
  BitVec.extractLsb'_append_extractLsb'

/-- The direction flag, the 24 bits above it, and the seven that have no name. -/
theorem join_last (w : BitVec 32) :
    w.extractLsb' 25 7 ++ w.extractLsb' 1 24 ++ w.extractLsb' 0 1 = w := by
  rw [BitVec.extractLsb'_append_extractLsb'_eq_extractLsb' (by decide)]
  exact BitVec.extractLsb'_append_extractLsb'

/-- The bytes a packet starts with are those its loads see. -/
theorem map_read8 {m : List Byte} {n : Nat} (h : n ≤ m.length) :
    (List.range n).map (read8 m) = m.take n := by
  have hlen : ((List.range n).map (read8 m)).length = (m.take n).length := by
    simp [h]
  apply List.ext_getElem hlen
  intro i hi hi'
  have hin : i < m.length := by
    rw [List.length_take] at hi'
    omega
  rw [List.getElem_map, List.getElem_range, List.getElem_take, read8_getElem hin]

/-- Every bit of the 24 bytes is in some field, the unnamed ones included. -/
theorem bytes_read {m : List Byte} (h : headerSize ≤ m.length) :
    (SfcHeader.read m).bytes = m.take headerSize := by
  have hloads : (SfcHeader.read m).bytes = (List.range headerSize).map (read8 m) := by
    simp only [SfcHeader.bytes, SfcHeader.read, join_base, join8, join_path, join_last,
      le16_read16, le32_read32]
    rfl
  rw [hloads, map_read8 h]

theorem prependHeader_whole (h : SfcHeader) (payload : List Byte) :
    prependHeader payload payload.length h = h.bytes ++ payload := by
  rw [prependHeader, List.take_length]

/-- A packet as long as its header has a payload, empty or not. -/
theorem retrievePayload_whole {m : List Byte} (h : headerSize ≤ m.length) :
    retrievePayload m m.length = some (m.drop headerSize) := by
  have hlen : (m.drop headerSize).length = m.length - headerSize := List.length_drop
  rw [retrievePayload, if_neg (Nat.not_lt.mpr h), ← hlen, List.take_length]

theorem prepended_parts (h : SfcHeader) (payload : List Byte) :
    retrieveHeader (prependHeader payload payload.length h) = h ∧
    retrievePayload (prependHeader payload payload.length h) (headerSize + payload.length) =
      some payload := by
  have hlen : (h.bytes ++ payload).length = headerSize + payload.length := by
    rw [List.length_append, bytes_length]
  rw [prependHeader_whole]
  constructor
  · exact retrieveHeader_append h payload
  · rw [← hlen, retrievePayload_whole (by omega), drop_bytes_append]

theorem prepended_again {m : List Byte} (h : headerSize ≤ m.length) :
    prependHeader (m.drop headerSize) (m.drop headerSize).length (retrieveHeader m) = m := by
  have hheader : retrieveHeader m = SfcHeader.read m := by
    have hparts : (SfcHeader.read m).bytes ++ m.drop headerSize = m := by
      rw [bytes_read h, List.take_append_drop]
    have hback := retrieveHeader_append (SfcHeader.read m) (m.drop headerSize)
    rwa [hparts] at hback
  rw [prependHeader_whole, hheader, bytes_read h, List.take_append_drop]

/-- What is framed is unframed as it was, and a packet of at least 24 bytes is
framed again, bit for bit, from what was read out of it. -/
theorem framing_lossless :
    (∀ (h : SfcHeader) (payload : List Byte),
      retrieveHeader (prependHeader payload payload.length h) = h ∧
      retrievePayload (prependHeader payload payload.length h) (headerSize + payload.length) =
        some payload) ∧
    (∀ m : List Byte, headerSize ≤ m.length → ∃ payload,
      retrievePayload m m.length = some payload ∧
      prependHeader payload payload.length (retrieveHeader m) = m) := by
  refine ⟨prepended_parts, fun m h => ?_⟩
  exact ⟨m.drop headerSize, retrievePayload_whole h, prepended_again h⟩

/-- Of a packet of set bits every field is full. -/
theorem ones_reframed : ∃ payload,
    retrievePayload (List.replicate 26 0xff) 26 = some payload ∧
    prependHeader payload payload.length (retrieveHeader (List.replicate 26 0xff)) =
      List.replicate 26 0xff :=
  framing_lossless.2 (List.replicate 26 0xff) (by decide)

end Ironhide.Proofs.Lossless
