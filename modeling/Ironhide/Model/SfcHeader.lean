import Ironhide.Model.PacketUtils

namespace Ironhide.Model
open Lib.Bytes PacketUtils

/-- `struct sfc_header`, packed, with bit-fields allocated from the least
significant bit on. `pad` is the seven bits no field names. -/
structure SfcHeader where
  ver : BitVec 2
  oam : BitVec 1
  u1 : BitVec 1
  ttl : BitVec 6
  len : BitVec 6
  u2 : BitVec 4
  mdType : BitVec 4
  prot : Byte
  pId : BitVec 24
  si : BitVec 8
  sourceAddress : BitVec 32
  destinationAddress : BitVec 32
  sourcePort : BitVec 16
  destinationPort : BitVec 16
  directionFlag : BitVec 1
  other : BitVec 24
  pad : BitVec 7
  deriving DecidableEq, Repr

namespace SfcHeader

def bytes (h : SfcHeader) : List Byte :=
  le16 (h.len ++ h.ttl ++ h.u1 ++ h.oam ++ h.ver) ++ [h.mdType ++ h.u2, h.prot] ++
    le32 (h.si ++ h.pId) ++ le32 h.sourceAddress ++ le32 h.destinationAddress ++
    le16 h.sourcePort ++ le16 h.destinationPort ++ le32 (h.pad ++ h.other ++ h.directionFlag)

/-- The struct whose memory the first 24 bytes are. -/
def read (m : List Byte) : SfcHeader where
  ver := (read16 m 0).extractLsb' 0 2
  oam := (read16 m 0).extractLsb' 2 1
  u1 := (read16 m 0).extractLsb' 3 1
  ttl := (read16 m 0).extractLsb' 4 6
  len := (read16 m 0).extractLsb' 10 6
  u2 := (read8 m 2).extractLsb' 0 4
  mdType := (read8 m 2).extractLsb' 4 4
  prot := read8 m 3
  pId := (read32 m 4).extractLsb' 0 24
  si := (read32 m 4).extractLsb' 24 8
  sourceAddress := read32 m 8
  destinationAddress := read32 m 12
  sourcePort := read16 m 16
  destinationPort := read16 m 18
  directionFlag := (read32 m 20).extractLsb' 0 1
  other := (read32 m 20).extractLsb' 1 24
  pad := (read32 m 20).extractLsb' 25 7

end SfcHeader

namespace SfcUtilities

def headerSize : Nat := 24

def createHeader (servicePathId serviceIndex : BitVec 32) (sourceAddress : String)
    (sourcePort : BitVec 16) (destAddress : String) (destPort : BitVec 16) (ttl : BitVec 16)
    (direction : Byte) : SfcHeader where
  ver := 0
  oam := 0
  u1 := 0
  ttl := ttl.setWidth 6
  len := 0
  u2 := 0
  mdType := 1
  prot := 1
  pId := servicePathId.setWidth 24
  si := serviceIndex.setWidth 8
  sourceAddress := ipToInt sourceAddress
  sourcePort := sourcePort
  destinationAddress := ipToInt destAddress
  destinationPort := destPort
  directionFlag := direction.setWidth 1
  other := 0
  pad := 0

def prependHeader (noHeaderPkt : List Byte) (pktSize : Nat) (header : SfcHeader) : List Byte :=
  header.bytes ++ noHeaderPkt.take pktSize

def retrieveHeader (packet : List Byte) : SfcHeader := SfcHeader.read (packet.take headerSize)

/-- `retrieve_payload`. Of a packet shorter than the header the unsigned length
wraps around, and allocating that many bytes throws. -/
def retrievePayload (packet : List Byte) (size : Nat) : Option (List Byte) :=
  if size < headerSize then none
  else some ((packet.drop headerSize).take (size - headerSize))

end SfcUtilities

end Ironhide.Model
