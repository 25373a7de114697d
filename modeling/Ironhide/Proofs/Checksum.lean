import Ironhide.Lib.OnesComplement
import Ironhide.Proofs.Exiting

namespace Ironhide.Proofs.Checksum
open Model Lib.Bytes Lib.Text Lib.OnesComplement PacketUtils Framing Exiting

/-- `wordSum` adds up the little-endian words. -/
theorem wordSum_eq (m : List Byte) : wordSum m = total (leWords m) := by
  induction m using wordSum.induct with
  | case1 b₀ b₁ m ih => simp only [wordSum, leWords, total_cons, ih]
  | case2 b =>
    rw [wordSum, leWords, total_cons, total_nil, toNat_append]
    simp
  | case3 => rfl

theorem wordSum_append {m : List Byte} (heven : 2 ∣ m.length) (m' : List Byte) :
    wordSum (m ++ m') = wordSum m + wordSum m' := by
  simp only [wordSum_eq, leWords_append heven, total_append]

/-- `csum` folds twice, which is enough as long as the words, 65537 at most, add up
to less than 2^32. -/
theorem csum_eq {m : List Byte} (hlen : m.length ≤ 131074) :
    csum m m.length = ~~~ sum (leWords m) := by
  have hle := total_le (leWords m)
  have hwords := leWords_length_le m
  have hlt : wordSum m < 2^16 * 2^16 := by
    rw [wordSum_eq]
    omega
  have hfold : (wordSum m / 2^16 + wordSum m % 2^16 +
      (wordSum m / 2^16 + wordSum m % 2^16) / 2^16) % 2^16 = fold 16 (fold 16 (wordSum m)) := by
    simp only [fold]
    omega
  have hval : BitVec.ofNat 16 (wordSum m / 2^16 + wordSum m % 2^16 +
      (wordSum m / 2^16 + wordSum m % 2^16) / 2^16) = sum (leWords m) := by
    apply BitVec.eq_of_toNat_eq
    rw [BitVec.toNat_ofNat, hfold, fold_fold (by decide) hlt, sum_toNat (by decide), wordSum_eq]
  simp only [csum, List.take_length, hval]

theorem csum_append (m m' : List Byte) : csum (m ++ m') m.length = csum m m.length := by
  simp only [csum, List.take_left, List.take_length]

/-- A 16-bit field, in the words of its buffer. -/
theorem leWords_le16 (v : BitVec 16) (m : List Byte) : leWords (le16 v ++ m) = v :: leWords m := by
  change (v.extractLsb' 8 8 ++ v.extractLsb' 0 8) :: leWords m = _
  rw [join16]

def checkedIp (h : Iphdr) (c : BitVec 16) : Iphdr := { h with check := c }

def checkedUdp (h : Udphdr) (c : BitVec 16) : Udphdr := { h with check := c }

section Writes
variable (iph : Iphdr) (udph : Udphdr) (body m : List Byte) (c : BitVec 16)

theorem write_ip : writeAt (List.replicate 28 0 ++ body) 0 iph.bytes =
    iph.bytes ++ (List.replicate 8 0 ++ body) := rfl

theorem write_ip_check : writeAt (iph.bytes ++ m) 10 (le16 c) = (checkedIp iph c).bytes ++ m :=
  rfl

theorem write_udp : writeAt (iph.bytes ++ (List.replicate 8 0 ++ body)) 20 udph.bytes =
    iph.bytes ++ (udph.bytes ++ body) := rfl

theorem write_udp_check : writeAt (iph.bytes ++ (udph.bytes ++ body)) 26 (le16 c) =
    iph.bytes ++ ((checkedUdp udph c).bytes ++ body) := rfl

theorem behind_ip : (iph.bytes ++ m).drop 20 = m := rfl

/-- A UDP segment ends where its payload does. -/
theorem take_segment {placed : List Byte} {n : Nat} (h : placed.length = n) :
    (udph.bytes ++ (placed ++ m)).take (udpHdrLen + n) = udph.bytes ++ placed := by
  rw [← List.append_assoc]
  apply List.take_left'
  rw [List.length_append, h]
  rfl

end Writes

section Layout
variable (data : List Byte) (dataLen : Nat) (sourceIp destIp : String)
  (sourcePort destPort : BitVec 16) (datagram : List Byte)

def pseudoHeader : PseudoHeader where
  sourceAddress := inetAddr sourceIp
  destAddress := inetAddr destIp
  placeholder := 0
  protocol := 17
  udpLength := htons (BitVec.ofNat 16 (udpHdrLen + dataLen))

def stale : List Byte := (writeAt datagram 0 (List.replicate 4096 0)).drop (28 + dataLen)

/-- The IP checksum of the source: the buffer up to the total length, as it is
when the IP header is filled in. -/
def ipCheck : BitVec 16 :=
  csum ((forgedIphdr dataLen sourceIp destIp).bytes ++ (List.replicate 8 0 ++
    (strncpy data dataLen ++ stale dataLen datagram))) (forgedIphdr dataLen sourceIp destIp).totLen.toNat

def pseudogram : List Byte :=
  (pseudoHeader dataLen sourceIp destIp).bytes ++
    ((forgedUdphdr dataLen sourcePort destPort).bytes ++ strncpy data dataLen)

def udpCheck : BitVec 16 := ~~~ sum (leWords (pseudogram data dataLen sourceIp destIp sourcePort destPort))

theorem withPayload_layout :
    withPayload data dataLen datagram =
      List.replicate 28 0 ++ (strncpy data dataLen ++ stale dataLen datagram) := by
  have hzero : (writeAt datagram 0 (List.replicate 4096 0)).take 28 = List.replicate 28 0 := by
    rw [writeAt, List.take_zero, List.nil_append,
      List.take_append_of_le_length (by rw [List.length_replicate]; decide), List.take_replicate]
    rfl
  change (writeAt datagram 0 (List.replicate 4096 0)).take 28 ++ strncpy data dataLen ++
    (writeAt datagram 0 (List.replicate 4096 0)).drop (28 + (strncpy data dataLen).length) = _
  rw [hzero, strncpy_length, List.append_assoc]
  rfl

theorem pseudogram_length :
    (pseudogram data dataLen sourceIp destIp sourcePort destPort).length = 12 + udpHdrLen + dataLen := by
  have hudp : (forgedUdphdr dataLen sourcePort destPort).bytes.length = udpHdrLen := rfl
  have hpsh : (pseudoHeader dataLen sourceIp destIp).bytes.length = 12 := rfl
  rw [pseudogram, List.length_append, List.length_append, strncpy_length, hudp, hpsh, Nat.add_assoc]

/-- The whole datagram: both headers with their checksums, the placed payload,
and what was behind it. -/
theorem forged_layout (hn : 28 + dataLen ≤ bufferSize) :
    forgeIpUdpPkt data dataLen sourceIp destIp sourcePort destPort datagram =
      (checkedIp (forgedIphdr dataLen sourceIp destIp)
        (ipCheck data dataLen sourceIp destIp datagram)).bytes ++
      ((checkedUdp (forgedUdphdr dataLen sourcePort destPort)
        (udpCheck data dataLen sourceIp destIp sourcePort destPort)).bytes ++
      (strncpy data dataLen ++ stale dataLen datagram)) := by
  have hlen := pseudogram_length data dataLen sourceIp destIp sourcePort destPort
  have hcheck : csum (pseudogram data dataLen sourceIp destIp sourcePort destPort)
      (12 + udpHdrLen + dataLen) = udpCheck data dataLen sourceIp destIp sourcePort destPort := by
    rw [← hlen]
    apply csum_eq
    rw [hlen, udpHdrLen]
    rw [bufferSize] at hn
    omega
  -- the source's writes, from the placed payload on
  have hwrites : forgeIpUdpPkt data dataLen sourceIp destIp sourcePort destPort datagram =
      let m₁ := writeAt (withPayload data dataLen datagram) 0 (forgedIphdr dataLen sourceIp destIp).bytes
      let m₂ := writeAt m₁ 10 (le16 (csum m₁ (forgedIphdr dataLen sourceIp destIp).totLen.toNat))
      let m₃ := writeAt m₂ 20 (forgedUdphdr dataLen sourcePort destPort).bytes
      writeAt m₃ 26 (le16 (csum ((pseudoHeader dataLen sourceIp destIp).bytes ++
        (m₃.drop 20).take (udpHdrLen + dataLen)) (12 + udpHdrLen + dataLen))) := rfl
  rw [pseudogram] at hcheck
  simp only [hwrites, withPayload_layout, write_ip, write_ip_check, write_udp, behind_ip,
    take_segment _ _ (strncpy_length data dataLen), write_udp_check, hcheck]
  rfl

end Layout

section Read

theorem iphdr_read_bytes (h : Iphdr) (rest : List Byte) : Iphdr.read (h.bytes ++ rest) = h := by
  have ihl : (read8 (h.bytes ++ rest) 0).extractLsb' 0 4 = h.ihl := BitVec.extractLsb'_append_eq_right
  have version : (read8 (h.bytes ++ rest) 0).extractLsb' 4 4 = h.version :=
    field_above (by decide) BitVec.extractLsb'_eq_self
  have totLen : read16 (h.bytes ++ rest) 2 = h.totLen := join16 _
  have id : read16 (h.bytes ++ rest) 4 = h.id := join16 _
  have fragOff : read16 (h.bytes ++ rest) 6 = h.fragOff := join16 _
  have check : read16 (h.bytes ++ rest) 10 = h.check := join16 _
  have saddr : read32 (h.bytes ++ rest) 12 = h.saddr := join32 _
  have daddr : read32 (h.bytes ++ rest) 16 = h.daddr := join32 _
  simp only [Iphdr.read, ihl, version, totLen, id, fragOff, check, saddr, daddr]
  rfl

theorem udphdr_read_bytes (h : Udphdr) (rest : List Byte) : Udphdr.read (h.bytes ++ rest) = h := by
  have source : read16 (h.bytes ++ rest) 0 = h.source := join16 _
  have dest : read16 (h.bytes ++ rest) 2 = h.dest := join16 _
  have len : read16 (h.bytes ++ rest) 4 = h.len := join16 _
  have check : read16 (h.bytes ++ rest) 6 = h.check := join16 _
  simp only [Udphdr.read, source, dest, len, check]

variable (iph : Iphdr) (udph : Udphdr) (body : List Byte)

theorem ipPktLen_bytes (h : iph.ihl = 5) (rest : List Byte) : ipPktLen (iph.bytes ++ rest) = 20 := by
  have htake : (iph.bytes ++ rest).take ipHdrLen = iph.bytes ++ [] := rfl
  rw [ipPktLen, htake, iphdr_read_bytes, h]
  rfl

/-- Two headers without options are read back from in front of their payload. -/
theorem retrieveIpUdpHeader_bytes (h : iph.ihl = 5) :
    (retrieveIpUdpHeader (iph.bytes ++ (udph.bytes ++ body))).value = (iph, udph) := by
  have hip : (iph.bytes ++ (udph.bytes ++ body)).take 20 = iph.bytes ++ [] := rfl
  have hudp : ((iph.bytes ++ (udph.bytes ++ body)).drop 20).take udpHdrLen = udph.bytes ++ [] := rfl
  simp only [retrieveIpUdpHeader, ipPktLen_bytes iph h, hip, hudp, iphdr_read_bytes,
    udphdr_read_bytes]

end Read

theorem wordSum_le16 (v : BitVec 16) (m : List Byte) : wordSum (le16 v ++ m) = v.toNat + wordSum m := by
  simp only [wordSum_eq, leWords_le16, total_cons]

/-- The words of a UDP segment behind its pseudo-header: the sum is one of fields. -/
theorem wordSum_segment (psh : PseudoHeader) (udph : Udphdr) (body : List Byte) :
    wordSum (psh.bytes ++ (udph.bytes ++ body)) =
      wordSum (le32 psh.sourceAddress) + wordSum (le32 psh.destAddress) +
        wordSum [psh.placeholder, psh.protocol] + psh.udpLength.toNat + udph.source.toNat +
        udph.dest.toNat + udph.len.toNat + udph.check.toNat + wordSum body := by
  have hword (w : BitVec 32) : 2 ∣ (le32 w).length := ⟨2, rfl⟩
  have hpair : 2 ∣ [psh.placeholder, psh.protocol].length := Nat.dvd_refl 2
  simp only [PseudoHeader.bytes, Udphdr.bytes, List.append_assoc, wordSum_append (hword _),
    wordSum_append hpair, wordSum_le16]
  omega

/-- The words a UDP checksum is about: addresses, protocol, length (twice), ports
and the payload as placed, in memory order. -/
def segmentSum (data : List Byte) (dataLen : Nat) (saddr daddr : BitVec 32)
    (sourcePort destPort : BitVec 16) : Nat :=
  wordSum (le32 saddr) + wordSum (le32 daddr) + wordSum [0, 17] +
    2 * (htons (BitVec.ofNat 16 (8 + dataLen))).toNat + (htons sourcePort).toNat +
    (htons destPort).toNat + wordSum (strncpy data dataLen)

section Forged
variable (data : List Byte) (dataLen : Nat) (saddr daddr : BitVec 32)
  (sourcePort destPort : BitVec 16) (datagram : List Byte)

theorem total_pseudogram :
    total (leWords (pseudogram data dataLen (intToIp saddr) (intToIp daddr) sourcePort destPort)) =
      segmentSum data dataLen saddr daddr sourcePort destPort := by
  rw [← wordSum_eq, pseudogram, wordSum_segment]
  simp only [pseudoHeader, forgedUdphdr, intToIp, inetAddr_inetNtoa, segmentSum, udpHdrLen]
  have hzero : (0 : BitVec 16).toNat = 0 := rfl
  omega

theorem segmentSum_pos : 0 < segmentSum data dataLen saddr daddr sourcePort destPort := by
  have hprotocol : wordSum [0, 17] = 4352 := by decide
  unfold segmentSum
  omega

/-- The datagram, read by a receiver. -/
theorem retrieveIpUdpHeader_forged (hn : 28 + dataLen ≤ bufferSize) :
    (retrieveIpUdpHeader (forgeIpUdpPkt data dataLen (intToIp saddr) (intToIp daddr) sourcePort
      destPort datagram)).value =
      (checkedIp (forgedIphdr dataLen (intToIp saddr) (intToIp daddr))
          (ipCheck data dataLen (intToIp saddr) (intToIp daddr) datagram),
        checkedUdp (forgedUdphdr dataLen sourcePort destPort)
          (udpCheck data dataLen (intToIp saddr) (intToIp daddr) sourcePort destPort)) := by
  rw [forged_layout _ _ _ _ _ _ _ hn]
  exact retrieveIpUdpHeader_bytes _ _ _ rfl

def receiverHeader (headers : Iphdr × Udphdr) : PseudoHeader where
  sourceAddress := headers.1.saddr
  destAddress := headers.1.daddr
  placeholder := 0
  protocol := headers.1.protocol
  udpLength := headers.2.len

/-- The sum of RFC 768 as a receiver takes it: of the pseudo-header and the UDP
segment, in network order. -/
def receiverSum (m : List Byte) : BitVec 16 :=
  let headers := (retrieveIpUdpHeader m).value
  sum (beWords ((receiverHeader headers).bytes ++
    (m.drop (ipPktLen m)).take (htons headers.2.len).toNat))

theorem receiverHeader_forged (sourceIp destIp : String) (c₁ c₂ : BitVec 16) :
    receiverHeader (checkedIp (forgedIphdr dataLen sourceIp destIp) c₁,
      checkedUdp (forgedUdphdr dataLen sourcePort destPort) c₂) =
      pseudoHeader dataLen sourceIp destIp := rfl

/-- The length field counts the UDP header and the payload. -/
theorem udpLength_toNat (hn : 28 + dataLen ≤ bufferSize) :
    (htons (forgedUdphdr dataLen sourcePort destPort).len).toNat = udpHdrLen + dataLen := by
  rw [bufferSize] at hn
  simp only [forgedUdphdr, htons_htons, BitVec.toNat_ofNat, udpHdrLen]
  omega

/-- The checksum is one more word of the sum. -/
theorem wordSum_checked (psh : PseudoHeader) {udph : Udphdr} (h0 : udph.check = 0)
    (c : BitVec 16) (body : List Byte) :
    wordSum (psh.bytes ++ ((checkedUdp udph c).bytes ++ body)) =
      c.toNat + wordSum (psh.bytes ++ (udph.bytes ++ body)) := by
  have hzero : udph.check.toNat = 0 := congrArg BitVec.toNat h0
  rw [wordSum_segment, wordSum_segment]
  simp only [checkedUdp]
  omega

/-- A receiver sums up what the source summed up, and the checksum. -/
theorem receiverSum_forged (hn : 28 + dataLen ≤ bufferSize) :
    receiverSum (forgeIpUdpPkt data dataLen (intToIp saddr) (intToIp daddr) sourcePort destPort
      datagram) = 0xffff := by
  let c := udpCheck data dataLen (intToIp saddr) (intToIp daddr) sourcePort destPort
  let words := leWords (pseudogram data dataLen (intToIp saddr) (intToIp daddr) sourcePort destPort)
  have hread := retrieveIpUdpHeader_forged data dataLen saddr daddr sourcePort destPort datagram hn
  have hlen : (htons (checkedUdp (forgedUdphdr dataLen sourcePort destPort) c).len).toNat =
    udpHdrLen + dataLen := udpLength_toNat dataLen sourcePort destPort hn
  have htotal : total (leWords ((pseudoHeader dataLen (intToIp saddr) (intToIp daddr)).bytes ++
      ((checkedUdp (forgedUdphdr dataLen sourcePort destPort) c).bytes ++ strncpy data dataLen))) =
      total (c :: words) := by
    rw [total_cons, ← wordSum_eq, ← wordSum_eq]
    exact wordSum_checked _ rfl c _
  have hne : total words ≠ 0 := by
    rw [total_pseudogram]
    exact Nat.ne_of_gt (segmentSum_pos data dataLen saddr daddr sourcePort destPort)
  simp only [receiverSum, hread, receiverHeader_forged]
  rw [forged_layout _ _ _ _ _ _ _ hn, ipPktLen_bytes _ rfl, behind_ip, hlen,
    take_segment _ _ (strncpy_length data dataLen)]
  apply (sum_beWords_iff (h := 8) (by decide) _).mpr
  exact (sum_congr (by decide) htotal).trans ((sum_check_iff (by decide) hne).mpr rfl)

/-- The complement of a sum is zero when the sum is zero in ones' complement, but
not zero itself. -/
theorem udpCheck_eq_zero_iff :
    udpCheck data dataLen (intToIp saddr) (intToIp daddr) sourcePort destPort = 0 ↔
      65535 ∣ segmentSum data dataLen saddr daddr sourcePort destPort := by
  have hpos := segmentSum_pos data dataLen saddr daddr sourcePort destPort
  have hones {v : BitVec 16} : ~~~v = 0 ↔ v = BitVec.allOnes 16 := by
    rw [← BitVec.not_zero, BitVec.not_eq_comm]
    rfl
  rw [udpCheck, hones, sum_eq_allOnes_iff (by decide), total_pseudogram]
  exact ⟨fun hparts => hparts.2, fun hd => ⟨Nat.ne_of_gt hpos, hd⟩⟩

end Forged

/-- A forged datagram carries the addresses and ports it was forged for, and its
UDP checksum is the one a receiver expects. -/
theorem forged_udp_valid (data : List Byte) (dataLen : Nat) (hn : dataLen ≤ 65507)
    (saddr daddr : BitVec 32) (sourcePort destPort : BitVec 16) (datagram : List Byte) :
    let m := forgeIpUdpPkt data dataLen (intToIp saddr) (intToIp daddr) sourcePort destPort datagram
    let headers := retrieveIpUdpHeader m
    headers.inBounds = true ∧ headers.value.1.saddr = saddr ∧ headers.value.1.daddr = daddr ∧
      headers.value.2.source = htons sourcePort ∧ headers.value.2.dest = htons destPort ∧
      udpPacketHeaderSize m = 28 ∧
      headers.value.2.len = htons (BitVec.ofNat 16 (8 + dataLen)) ∧ receiverSum m = 0xffff := by
  intro m headers
  have hbuf : 28 + dataLen ≤ bufferSize := by
    rw [bufferSize]
    omega
  have hlen : ipPktLen m = 20 := by
    change ipPktLen (forgeIpUdpPkt _ _ _ _ _ _ _) = 20
    rw [forged_layout _ _ _ _ _ _ _ hbuf, ipPktLen_bytes _ rfl]
  have hread : headers.value = _ :=
    retrieveIpUdpHeader_forged data dataLen saddr daddr sourcePort destPort datagram hbuf
  have haddr (w : BitVec 32) : inetAddr (intToIp w) = w := inetAddr_inetNtoa w
  rw [hread]
  refine ⟨?_, ?_, ?_, rfl, rfl, ?_, rfl,
    receiverSum_forged data dataLen saddr daddr sourcePort destPort datagram hbuf⟩
  · rw [retrieveIpUdpHeader_inBounds, hlen]
    rfl
  · simp only [checkedIp, forgedIphdr, haddr]
  · simp only [checkedIp, forgedIphdr, haddr]
  · rw [udpPacketHeaderSize, hlen]
    rfl

theorem forged_udp_valid_one_byte :
    let m := forgeIpUdpPkt [0x61] 1 (intToIp 0x0900000a) (intToIp 0x0101000a) 57000 80
      (List.replicate bufferSize 0)
    let headers := retrieveIpUdpHeader m
    headers.inBounds = true ∧ headers.value.1.saddr = 0x0900000a ∧
      headers.value.1.daddr = 0x0101000a ∧
      headers.value.2.source = htons 57000 ∧ headers.value.2.dest = htons 80 ∧
      udpPacketHeaderSize m = 28 ∧
      headers.value.2.len = htons (BitVec.ofNat 16 (8 + 1)) ∧ receiverSum m = 0xffff :=
  forged_udp_valid [0x61] 1 (by decide) 0x0900000a 0x0101000a 57000 80 _

/-- The UDP checksum is left zero for exactly the datagrams whose words sum to a
multiple of 65535. -/
theorem forged_check_nonzero_iff (data : List Byte) (dataLen : Nat)
    (hn : 28 + dataLen ≤ bufferSize) (saddr daddr : BitVec 32) (sourcePort destPort : BitVec 16)
    (datagram : List Byte) :
    (retrieveIpUdpHeader (forgeIpUdpPkt data dataLen (intToIp saddr) (intToIp daddr) sourcePort
      destPort datagram)).value.2.check ≠ 0 ↔
      ¬ 65535 ∣ segmentSum data dataLen saddr daddr sourcePort destPort := by
  rw [retrieveIpUdpHeader_forged data dataLen saddr daddr sourcePort destPort datagram hn]
  exact not_congr (udpCheck_eq_zero_iff data dataLen saddr daddr sourcePort destPort)

/-- From port 57000 of 10.0.0.9 to port 43817 of 10.0.1.1. -/
theorem forged_check_zero :
    ¬ (retrieveIpUdpHeader (forgeIpUdpPkt [0x61] 1 (intToIp 0x0900000a) (intToIp 0x0101000a) 57000
      43817 (List.replicate bufferSize 0))).value.2.check ≠ 0 := by
  rw [retrieveIpUdpHeader_forged _ _ _ _ _ _ _ (by decide)]
  intro h
  exact h ((udpCheck_eq_zero_iff [0x61] 1 0x0900000a 0x0101000a 57000 43817).mpr (by decide))

theorem forged_check_nonzero_http :
    (retrieveIpUdpHeader (forgeIpUdpPkt [0x61] 1 (intToIp 0x0900000a) (intToIp 0x0101000a) 57000
      80 (List.replicate bufferSize 0))).value.2.check ≠ 0 ↔
      ¬ 65535 ∣ segmentSum [0x61] 1 0x0900000a 0x0101000a 57000 80 :=
  forged_check_nonzero_iff [0x61] 1 (by decide) 0x0900000a 0x0101000a 57000 80 _

section IpHeader
variable (data : List Byte) (dataLen : Nat) (saddr daddr : BitVec 32)
  (sourcePort destPort : BitVec 16) (datagram : List Byte)

def ipSummed : List Byte :=
  (forgedIphdr dataLen (intToIp saddr) (intToIp daddr)).bytes ++
    (List.replicate 8 0 ++ strncpy data dataLen)

theorem ipCheck_eq (hn : 28 + dataLen < bufferSize) :
    ipCheck data dataLen (intToIp saddr) (intToIp daddr) datagram =
      ~~~ sum (leWords (ipSummed data dataLen saddr daddr)) := by
  have hlen : (ipSummed data dataLen saddr daddr).length = 28 + dataLen := by
    rw [ipSummed, List.length_append, List.length_append, strncpy_length, ← Nat.add_assoc]
    rfl
  have htot : (forgedIphdr dataLen (intToIp saddr) (intToIp daddr)).totLen.toNat = 28 + dataLen := by
    simp only [forgedIphdr, BitVec.toNat_ofNat]
    exact Nat.mod_eq_of_lt hn
  have hle : (ipSummed data dataLen saddr daddr).length ≤ 131074 := by
    rw [bufferSize] at hn
    omega
  have harea : ipCheck data dataLen (intToIp saddr) (intToIp daddr) datagram =
      csum (ipSummed data dataLen saddr daddr ++ stale dataLen datagram)
        (ipSummed data dataLen saddr daddr).length := by
    simp only [ipCheck, htot, hlen]
    simp only [ipSummed, List.append_assoc]
  rw [harea, csum_append, csum_eq hle]

/-- The words of an IP header: its checksum is one of them. -/
theorem wordSum_checkedIp {iph : Iphdr} (h0 : iph.check = 0) (c : BitVec 16) :
    wordSum (checkedIp iph c).bytes = c.toNat + wordSum iph.bytes := by
  have hzero : iph.check.toNat = 0 := congrArg BitVec.toNat h0
  have hword (w : BitVec 32) : 2 ∣ (le32 w).length := ⟨2, rfl⟩
  have hpair (a b : Byte) : 2 ∣ [a, b].length := Nat.dvd_refl 2
  simp only [Iphdr.bytes, checkedIp, List.append_assoc, wordSum_append (hpair _ _),
    wordSum_append (hword _), wordSum_le16]
  omega

theorem wordSum_forgedIphdr_pos (sourceIp destIp : String) :
    0 < wordSum (forgedIphdr dataLen sourceIp destIp).bytes := by
  have hfirst : (forgedIphdr dataLen sourceIp destIp).bytes =
    [4#4 ++ 5#4, 0] ++ (forgedIphdr dataLen sourceIp destIp).bytes.drop 2 := rfl
  have hvalue : wordSum [4#4 ++ 5#4, 0] = 69 := by decide
  have heven : 2 ∣ [4#4 ++ 5#4, (0 : Byte)].length := Nat.dvd_refl 2
  rw [hfirst, wordSum_append heven, hvalue]
  omega

theorem wordSum_ipSummed :
    wordSum (ipSummed data dataLen saddr daddr) =
      wordSum (forgedIphdr dataLen (intToIp saddr) (intToIp daddr)).bytes +
        wordSum (strncpy data dataLen) := by
  have heven : 2 ∣ (forgedIphdr dataLen (intToIp saddr) (intToIp daddr)).bytes.length := ⟨10, rfl⟩
  have heven' : 2 ∣ (List.replicate 8 (0 : Byte)).length := ⟨4, rfl⟩
  have hzero : wordSum (List.replicate 8 0) = 0 := by decide
  rw [ipSummed, wordSum_append heven, wordSum_append heven', hzero, Nat.zero_add]

/-- The header's checksum also covers the payload, so the header alone is right
when the payload contributes nothing. -/
theorem ipHeaderSum_iff (hn : 28 + dataLen < bufferSize) :
    sum (beWords ((forgeIpUdpPkt data dataLen (intToIp saddr) (intToIp daddr) sourcePort destPort
      datagram).take ipHdrLen)) = 0xffff ↔ 65535 ∣ wordSum (strncpy data dataLen) := by
  have hc := ipCheck_eq data dataLen saddr daddr datagram hn
  generalize hi : forgedIphdr dataLen (intToIp saddr) (intToIp daddr) = iph
  generalize hk : ipCheck data dataLen (intToIp saddr) (intToIp daddr) datagram = c at hc
  have h0 : iph.check = 0 := hi ▸ rfl
  have hpos : 0 < wordSum iph.bytes := hi ▸ wordSum_forgedIphdr_pos dataLen _ _
  have hsummed : wordSum (ipSummed data dataLen saddr daddr) =
      wordSum iph.bytes + wordSum (strncpy data dataLen) :=
    hi ▸ wordSum_ipSummed data dataLen saddr daddr
  have htake (rest : List Byte) : ((checkedIp iph c).bytes ++ rest).take ipHdrLen =
    (checkedIp iph c).bytes := rfl
  have horder : sum (beWords (checkedIp iph c).bytes) = 0xffff ↔
      sum (leWords (checkedIp iph c).bytes) = BitVec.allOnes 16 :=
    sum_beWords_iff (h := 8) (by decide) (checkedIp iph c).bytes
  have htotal : total (leWords (checkedIp iph c).bytes) = total (c :: leWords iph.bytes) := by
    rw [total_cons, ← wordSum_eq, ← wordSum_eq]
    exact wordSum_checkedIp h0 c
  have hne : total (leWords iph.bytes) ≠ 0 := by
    rw [← wordSum_eq]
    omega
  rw [forged_layout _ _ _ _ _ _ _ (Nat.le_of_lt hn), hi, hk, htake, horder,
    sum_congr (by decide) htotal, hc, sum_check_iff (by decide) hne, ← wordSum_eq, ← wordSum_eq,
    hsummed]
  exact Nat.add_modEq_left_iff

/-- A number in host order is read in network order as itself when its two bytes
are equal. -/
theorem htons_toNat_iff {n : Nat} (hn : n < 2^16) :
    (htons (BitVec.ofNat 16 n)).toNat = n ↔ 257 ∣ n := by
  have hlow : ((BitVec.ofNat 16 n).extractLsb' 0 8).toNat = n % 256 := by
    simp only [BitVec.extractLsb'_toNat, BitVec.toNat_ofNat, Nat.shiftRight_zero]
    omega
  have hhigh : ((BitVec.ofNat 16 n).extractLsb' 8 8).toNat = n / 256 := by
    simp only [BitVec.extractLsb'_toNat, BitVec.toNat_ofNat, Nat.shiftRight_eq_div_pow]
    omega
  have hval : (htons (BitVec.ofNat 16 n)).toNat = n % 256 * 256 + n / 256 := by
    rw [htons, toNat_append (h := 8), hlow, hhigh]
    rfl
  rw [hval]
  omega

theorem totLen_iff (hn : 28 + dataLen < bufferSize) :
    (htons (read16 (forgeIpUdpPkt data dataLen (intToIp saddr) (intToIp daddr) sourcePort destPort
      datagram) 2)).toNat = 28 + dataLen ↔ 257 ∣ 28 + dataLen := by
  have hread : read16 (forgeIpUdpPkt data dataLen (intToIp saddr) (intToIp daddr) sourcePort
      destPort datagram) 2 = BitVec.ofNat 16 (28 + dataLen) := by
    rw [forged_layout _ _ _ _ _ _ _ (Nat.le_of_lt hn)]
    exact congrArg Iphdr.totLen (iphdr_read_bytes _ _)
  rw [hread]
  exact htons_toNat_iff hn

end IpHeader

/-- The forged IP header is valid for exactly the payloads whose words, as placed,
sum to a multiple of 65535 and whose total length has two equal bytes. -/
theorem forged_ip_valid_iff (data : List Byte) (dataLen : Nat) (hn : dataLen ≤ 65507)
    (saddr daddr : BitVec 32) (sourcePort destPort : BitVec 16) (datagram : List Byte) :
    let m := forgeIpUdpPkt data dataLen (intToIp saddr) (intToIp daddr) sourcePort destPort datagram
    (sum (beWords (m.take ipHdrLen)) = 0xffff ∧ (htons (read16 m 2)).toNat = 28 + dataLen) ↔
      65535 ∣ wordSum (strncpy data dataLen) ∧ 257 ∣ 28 + dataLen := by
  have hbuf : 28 + dataLen < bufferSize := by
    rw [bufferSize]
    omega
  exact and_congr (ipHeaderSum_iff data dataLen saddr daddr sourcePort destPort datagram hbuf)
    (totLen_iff data dataLen saddr daddr sourcePort destPort datagram hbuf)

/-- With one byte of payload both parts are wrong. -/
theorem forged_ip_invalid :
    let m := forgeIpUdpPkt [0x61] 1 (intToIp 0x0900000a) (intToIp 0x0101000a) 57000 80
      (List.replicate bufferSize 0)
    ¬ sum (beWords (m.take ipHdrLen)) = 0xffff ∧ ¬ (htons (read16 m 2)).toNat = 28 + 1 := by
  constructor
  · rw [ipHeaderSum_iff _ _ _ _ _ _ _ (by decide)]
    decide
  · rw [totLen_iff _ _ _ _ _ _ _ (by decide)]
    decide

/-- With 229 zero bytes of payload both are right. -/
theorem forged_ip_valid_zeros :
    let m := forgeIpUdpPkt [] 229 (intToIp 0x0900000a) (intToIp 0x0101000a) 57000 80
      (List.replicate bufferSize 0)
    sum (beWords (m.take ipHdrLen)) = 0xffff ∧ (htons (read16 m 2)).toNat = 28 + 229 :=
  (forged_ip_valid_iff [] 229 (by decide) 0x0900000a 0x0101000a 57000 80 _).mpr
    ⟨by decide +kernel, by decide⟩

end Ironhide.Proofs.Checksum
