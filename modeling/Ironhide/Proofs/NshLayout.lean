import Ironhide.Proofs.Framing

namespace Ironhide.Proofs.NshLayout
open Model Lib.Bytes SfcUtilities Framing

/-- The base header and the service path header of the draft that
`sfcheaderstruct.h` cites. -/
structure Nsh where
  version : BitVec 2
  oam : BitVec 1
  unassigned : BitVec 1
  ttl : BitVec 6
  length : BitVec 6
  unassigned' : BitVec 4
  mdType : BitVec 4
  nextProtocol : BitVec 8
  servicePathId : BitVec 24
  serviceIndex : BitVec 8
  deriving DecidableEq, Repr

def readBe32 (m : List Byte) (i : Nat) : BitVec 32 :=
  read8 m i ++ read8 m (i + 1) ++ read8 m (i + 2) ++ read8 m (i + 3)

def Nsh.read (m : List Byte) : Nsh where
  version := (readBe32 m 0).extractLsb' 30 2
  oam := (readBe32 m 0).extractLsb' 29 1
  unassigned := (readBe32 m 0).extractLsb' 28 1
  ttl := (readBe32 m 0).extractLsb' 22 6
  length := (readBe32 m 0).extractLsb' 16 6
  unassigned' := (readBe32 m 0).extractLsb' 12 4
  mdType := (readBe32 m 0).extractLsb' 8 4
  nextProtocol := (readBe32 m 0).extractLsb' 0 8
  servicePathId := (readBe32 m 4).extractLsb' 8 24
  serviceIndex := (readBe32 m 4).extractLsb' 0 8

/-- What an SFC node reads, when a header was made from these values. -/
structure Follows (n : Nsh) (servicePathId serviceIndex : BitVec 32) (ttl : BitVec 16) : Prop where
  version : n.version = 0
  ttl : n.ttl.toNat = ttl.toNat
  mdType : n.mdType = 1
  nextProtocol : n.nextProtocol = 1
  servicePathId : n.servicePathId.toNat = servicePathId.toNat
  serviceIndex : n.serviceIndex.toNat = serviceIndex.toNat
  -- six words of four bytes
  length : n.length = 6

/-- What is in the place of each field: the bit-fields of the struct start at the
other end of their bytes, and the path id is in host order. -/
theorem read_bytes_nsh (h : SfcHeader) (rest : List Byte) :
    Nsh.read (h.bytes ++ rest) = {
      version := h.ttl.extractLsb' 2 2
      oam := h.ttl.extractLsb' 1 1
      unassigned := h.ttl.extractLsb' 0 1
      ttl := h.u1 ++ h.oam ++ h.ver ++ h.len.extractLsb' 4 2
      length := h.len.extractLsb' 0 4 ++ h.ttl.extractLsb' 4 2
      unassigned' := h.mdType
      mdType := h.u2
      nextProtocol := h.prot
      servicePathId := h.pId.extractLsb' 0 8 ++ h.pId.extractLsb' 8 8 ++ h.pId.extractLsb' 16 8
      serviceIndex := h.si } := by
  have base : readBe32 (h.bytes ++ rest) 0 = (h.len ++ h.ttl ++ h.u1 ++ h.oam ++ h.ver).extractLsb' 0 8 ++
      (h.len ++ h.ttl ++ h.u1 ++ h.oam ++ h.ver).extractLsb' 8 8 ++ (h.mdType ++ h.u2) ++ h.prot := rfl
  have path : readBe32 (h.bytes ++ rest) 4 = (h.si ++ h.pId).extractLsb' 0 8 ++
      (h.si ++ h.pId).extractLsb' 8 8 ++ (h.si ++ h.pId).extractLsb' 16 8 ++
        (h.si ++ h.pId).extractLsb' 24 8 := rfl
  simp only [Nsh.read, base, path, Nsh.mk.injEq]
  -- the place of each bit of each field
  refine ⟨?_, ?_, ?_, ?_, ?_, ?_, ?_, ?_, ?_, ?_⟩
  all_goals
    apply BitVec.eq_of_getLsbD_eq
    intro i hi
    simp only [BitVec.getLsbD_append, BitVec.getLsbD_extractLsb']
    grind

section Created
variable (servicePathId serviceIndex : BitVec 32) (source dest : String)
  (sourcePort destPort ttl : BitVec 16) (direction : Byte) (pkt : List Byte) (size : Nat)

def created : Nsh :=
  Nsh.read (prependHeader pkt size (createHeader servicePathId serviceIndex source sourcePort dest
    destPort ttl direction))

theorem created_eq :
    created servicePathId serviceIndex source dest sourcePort destPort ttl direction pkt size = {
      version := (ttl.setWidth 6).extractLsb' 2 2
      oam := (ttl.setWidth 6).extractLsb' 1 1
      unassigned := (ttl.setWidth 6).extractLsb' 0 1
      ttl := 0
      length := 0#4 ++ (ttl.setWidth 6).extractLsb' 4 2
      unassigned' := 1
      mdType := 0
      nextProtocol := 1
      servicePathId := (servicePathId.setWidth 24).extractLsb' 0 8 ++
        (servicePathId.setWidth 24).extractLsb' 8 8 ++ (servicePathId.setWidth 24).extractLsb' 16 8
      serviceIndex := serviceIndex.setWidth 8 } := by
  have httl : (0 : BitVec 1) ++ (0 : BitVec 1) ++ (0 : BitVec 2) ++ (0 : BitVec 6).extractLsb' 4 2 = 0 := by
    decide
  have hlen : (0 : BitVec 6).extractLsb' 0 4 = 0#4 := by decide
  rw [created, prependHeader, read_bytes_nsh]
  simp only [createHeader, httl, hlen]

/-- No header is read as it was made: its MD type is read as 0 and its length as
three words at most. -/
theorem layout_never_followed :
    ¬ Follows (created servicePathId serviceIndex source dest sourcePort destPort ttl direction pkt size)
      servicePathId serviceIndex ttl ∧
    (created servicePathId serviceIndex source dest sourcePort destPort ttl direction pkt size).mdType = 0 ∧
    (created servicePathId serviceIndex source dest sourcePort destPort ttl direction pkt size).length.toNat < 4 := by
  rw [created_eq]
  refine ⟨fun h => ?_, rfl, ?_⟩
  · cases h.mdType
  · change (0#4 ++ (ttl.setWidth 6).extractLsb' 4 2).toNat < 4
    rw [BitVec.toNat_append, BitVec.toNat_zero, Nat.zero_shiftLeft, Nat.zero_or]
    exact BitVec.isLt _

end Created

/-- A header for path 7 with ttl 3 is read as one with path 458752, ttl 0 and no length. -/
theorem path_7_misread :
    created 7 0 "10.0.0.1" "10.0.1.1" 0x8813 0x5000 3 0 [] 0 =
      ⟨0, 1, 1, 0, 0, 1, 0, 1, 458752, 0⟩ ∧
    ¬ Follows (created 7 0 "10.0.0.1" "10.0.1.1" 0x8813 0x5000 3 0 [] 0) 7 0 3 := by
  have hread : created 7 0 "10.0.0.1" "10.0.1.1" 0x8813 0x5000 3 0 [] 0 =
      ⟨0, 1, 1, 0, 0, 1, 0, 1, 458752, 0⟩ := by
    rw [created_eq]
    decide
  refine ⟨hread, fun h => ?_⟩
  rw [hread] at h
  cases h.mdType

end Ironhide.Proofs.NshLayout
