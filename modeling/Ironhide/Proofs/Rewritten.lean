import Ironhide.Model.SfcFixedLengthHeader
import Ironhide.Proofs.EndToEnd
import Ironhide.Proofs.Lossless

namespace Ironhide.Proofs.Rewritten
open Model Lib.Bytes Lib.Passing PacketUtils SfcUtilities
open SfcFixedLengthHeader (Setter ofBytes)
open Framing Lossless Translation EndToEnd

theorem toNat_narrowed {w n : Nat} (hn : n ≤ w) (x : BitVec w) :
    ((x.setWidth n).setWidth w).toNat = x.toNat % 2^n := by
  rw [BitVec.toNat_setWidth, BitVec.toNat_setWidth, Nat.mod_eq_of_lt]
  exact (Nat.mod_lt _ (Nat.two_pow_pos n)).trans_le (Nat.pow_le_pow_right Nat.two_pos hn)

/-- An element reads out of a header what the endpoint has put in, as far as it fits. -/
theorem created_read (servicePathId serviceIndex saddr daddr : BitVec 32) (source dest ttl : BitVec 16)
    (direction : Byte) (packet : List Byte) :
    let header := createHeader servicePathId serviceIndex (intToIp saddr) source (intToIp daddr) dest ttl
      direction
    let h := ofBytes (prependHeader packet packet.length header)
    h.getServicePathId.toNat = servicePathId.toNat % 2^24 ∧
      h.getServiceIndex.toNat = serviceIndex.toNat % 2^8 ∧
      (h.getSourceIpAddress, h.getSourcePort) = (intToIp saddr, source) ∧
      (h.getDestinationIpAddress, h.getDestinationPort) = (intToIp daddr, dest) ∧
      h.getDirectionFlag.toNat = direction.toNat % 2 ∧ h.getTtl.toNat = ttl.toNat % 2^6 := by
  intro header h
  have hread : h.header = header := by
    change retrieveHeader (prependHeader packet packet.length header) = header
    rw [prependHeader_whole, retrieveHeader_append]
  have haddr (w : BitVec 32) : intToIp (ipToInt (intToIp w)) = intToIp w :=
    congrArg intToIp (Lib.Text.inetAddr_inetNtoa w)
  refine ⟨?_, ?_, ?_, ?_, ?_, ?_⟩
  · rw [SfcFixedLengthHeader.getServicePathId, hread]
    exact toNat_narrowed (by simp) _
  · rw [SfcFixedLengthHeader.getServiceIndex, hread]
    exact toNat_narrowed (by simp) _
  · rw [SfcFixedLengthHeader.getSourceIpAddress, SfcFixedLengthHeader.getSourcePort, hread]
    exact Prod.ext (haddr saddr) rfl
  · rw [SfcFixedLengthHeader.getDestinationIpAddress, SfcFixedLengthHeader.getDestinationPort, hread]
    exact Prod.ext (haddr daddr) rfl
  · rw [SfcFixedLengthHeader.getDirectionFlag, hread]
    exact toNat_narrowed (by simp) _
  · rw [SfcFixedLengthHeader.getTtl, hread]
    exact toNat_narrowed (by simp) _

/-- A frame with its header read, changed and put back in front of the payload. -/
def rewrite (frame : List Byte) (calls : List Setter) : Option (List Byte) := do
  let payload ← retrievePayload frame frame.length
  some (prependHeader payload payload.length (calls.foldl SfcFixedLengthHeader.set (ofBytes frame)).getHeader)

def indexOf : Setter → Option (BitVec 32)
  | .serviceIndex serviceIndex => some serviceIndex
  | .ttl _ => none

def ttlOf : Setter → Option (BitVec 16)
  | .serviceIndex _ => none
  | .ttl ttl => some ttl

/-- The header with the index and the TTL that were set last, as far as they fit. -/
def lastSet (header : SfcHeader) (calls : List Setter) : SfcHeader :=
  { header with
    si := ((calls.filterMap indexOf).getLast?.map (BitVec.setWidth 8)).getD header.si
    ttl := ((calls.filterMap ttlOf).getLast?.map (BitVec.setWidth 6)).getD header.ttl }

/-- A value that is set first counts when no other is set. -/
theorem getD_last_cons {v w : Nat} (x : BitVec v) (xs : List (BitVec v)) (y : BitVec w) :
    ((x :: xs).getLast?.map (BitVec.setWidth w)).getD y =
      (xs.getLast?.map (BitVec.setWidth w)).getD (x.setWidth w) := by
  rw [List.getLast?_cons]
  cases xs.getLast? <;> rfl

theorem lastSet_cons (header : SfcHeader) (call : Setter) (calls : List Setter) :
    lastSet header (call :: calls) = lastSet (SfcFixedLengthHeader.set ⟨header⟩ call).header calls := by
  cases call with
  | serviceIndex serviceIndex =>
    have hsi := getD_last_cons serviceIndex (calls.filterMap indexOf) header.si
    exact congrArg (fun si => { lastSet header calls with si }) hsi
  | ttl ttl =>
    have httl := getD_last_cons ttl (calls.filterMap ttlOf) header.ttl
    exact congrArg (fun ttl => { lastSet header calls with ttl }) httl

theorem foldl_set (h : SfcFixedLengthHeader) (calls : List Setter) :
    calls.foldl SfcFixedLengthHeader.set h = ⟨lastSet h.header calls⟩ := by
  induction calls generalizing h with
  | nil => rfl
  | cons call calls ih => rw [List.foldl_cons, ih, lastSet_cons]

/-- Only a frame without a whole header cannot be rewritten. -/
theorem rewrite_eq_none_iff {frame : List Byte} {calls : List Setter} :
    rewrite frame calls = none ↔ frame.length < headerSize := by
  unfold rewrite retrievePayload
  split <;> simp [*]

theorem rewrite_eq {frame : List Byte} (h : headerSize ≤ frame.length) (calls : List Setter) :
    rewrite frame calls = some ((lastSet (retrieveHeader frame) calls).bytes ++
      frame.drop headerSize) := by
  rw [rewrite, retrievePayload_whole h, foldl_set]
  change some (prependHeader (frame.drop headerSize) (frame.drop headerSize).length
    (lastSet (retrieveHeader frame) calls)) = _
  rw [prependHeader_whole]

theorem lastSet_lastSet (header : SfcHeader) (calls calls' : List Setter) :
    lastSet (lastSet header calls) calls' = lastSet header (calls ++ calls') := by
  have happend := foldl_set ⟨header⟩ (calls ++ calls')
  rw [List.foldl_append, foldl_set ⟨header⟩ calls, foldl_set] at happend
  exact congrArg SfcFixedLengthHeader.header happend

/-- One rewriting after the other is one with all the calls. -/
theorem foldlM_rewrite {frame : List Byte} (h : headerSize ≤ frame.length)
    (visits : List (List Setter)) :
    visits.foldlM rewrite frame = some ((lastSet (retrieveHeader frame) visits.flatten).bytes ++
      frame.drop headerSize) := by
  induction visits generalizing frame with
  | nil =>
    have hheader : retrieveHeader frame = SfcHeader.read (frame.take headerSize) := rfl
    have hback := bytes_read (m := frame.take headerSize) (by simp [h])
    rw [List.take_take, Nat.min_self, ← hheader] at hback
    change some frame = some ((retrieveHeader frame).bytes ++ frame.drop headerSize)
    rw [hback, List.take_append_drop]
  | cons calls visits ih =>
    rw [List.foldlM_cons, rewrite_eq h]
    change visits.foldlM rewrite ((lastSet (retrieveHeader frame) calls).bytes ++
      frame.drop headerSize) = _
    rw [ih (by simp), retrieveHeader_append, drop_bytes_append, lastSet_lastSet,
      List.flatten_cons]

/-- The elements of a chain, each of which changes the index and the TTL of a
frame as often as it likes, keep the frame's length, its packet, its ends and the
key that both endpoints rebuild from it; the index and the TTL are those set
last. Only frames shorter than a header are not carried. -/
theorem rewritten_carried (frame : List Byte) (visits : List (List Setter)) :
    (visits.foldlM rewrite frame = none ↔ visits ≠ [] ∧ frame.length < headerSize) ∧
    ∀ frame', visits.foldlM rewrite frame = some frame' →
      frame'.length = frame.length ∧
      retrieveHeader frame' = lastSet (retrieveHeader frame) visits.flatten ∧
      (∀ prt, headerEntry (retrieveHeader frame') prt = headerEntry (retrieveHeader frame) prt) ∧
      (frame.length ≤ bufferSize → Carried frame frame') := by
  by_cases hlong : headerSize ≤ frame.length
  · rw [foldlM_rewrite hlong]
    constructor
    · simp only [reduceCtorEq, false_iff, not_and, not_lt]
      exact fun _ => hlong
    · rintro _ ⟨⟩
      have hlength : ((lastSet (retrieveHeader frame) visits.flatten).bytes ++
          frame.drop headerSize).length = frame.length := by
        rw [List.length_append, bytes_length, List.length_drop]
        omega
      refine ⟨hlength, retrieveHeader_append .., fun prt => ?_, fun hfits => ⟨?_, ?_, ?_⟩⟩
      · rw [retrieveHeader_append]
        rfl
      · rw [drop_bytes_append]
      · rw [retrieveHeader_append]
        rfl
      · exact hlength.trans_le hfits
  · cases visits with
    | nil =>
      constructor
      · simp
      · rintro _ ⟨⟩
        exact ⟨rfl, rfl, fun _ => rfl, fun hfits => ⟨rfl, rfl, hfits⟩⟩
    | cons calls visits =>
      have hnone : (calls :: visits).foldlM rewrite frame = none := by
        rw [List.foldlM_cons, rewrite_eq_none_iff.mpr (Nat.lt_of_not_le hlong)]
        rfl
      rw [hnone]
      constructor
      · simpa using hlong
      · rintro _ ⟨⟩

example : rewrite (List.replicate 24 0) [.ttl 65, .serviceIndex 257, .ttl 66] =
    some ([0x20, 0, 0, 0, 0, 0, 0, 1] ++ List.replicate 16 0) := by decide

end Ironhide.Proofs.Rewritten
