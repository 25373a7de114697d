import Ironhide.Model.SfcHeader

namespace Ironhide.Model
open Lib.Bytes PacketUtils SfcUtilities

/-- `SFCFixedLengthHeader`, what an element of the chain handles a header with. -/
structure SfcFixedLengthHeader where
  header : SfcHeader
  deriving DecidableEq, Repr

namespace SfcFixedLengthHeader

/-- Both constructors, which differ in the kind of pointer to the bytes. -/
def ofBytes (byteArray : List Byte) : SfcFixedLengthHeader := ⟨retrieveHeader byteArray⟩

def getServicePathId (h : SfcFixedLengthHeader) : BitVec 32 := h.header.pId.setWidth 32

def getServiceIndex (h : SfcFixedLengthHeader) : BitVec 32 := h.header.si.setWidth 32

def getSourceIpAddress (h : SfcFixedLengthHeader) : String := intToIp h.header.sourceAddress

def getDestinationIpAddress (h : SfcFixedLengthHeader) : String :=
  intToIp h.header.destinationAddress

def getSourcePort (h : SfcFixedLengthHeader) : BitVec 16 := h.header.sourcePort

def getDestinationPort (h : SfcFixedLengthHeader) : BitVec 16 := h.header.destinationPort

def getDirectionFlag (h : SfcFixedLengthHeader) : Byte := h.header.directionFlag.setWidth 8

def getTtl (h : SfcFixedLengthHeader) : BitVec 16 := h.header.ttl.setWidth 16

def setServiceIndex (h : SfcFixedLengthHeader) (serviceIndex : BitVec 32) : SfcFixedLengthHeader :=
  ⟨{ h.header with si := serviceIndex.setWidth 8 }⟩

def setTtl (h : SfcFixedLengthHeader) (ttl : BitVec 16) : SfcFixedLengthHeader :=
  ⟨{ h.header with ttl := ttl.setWidth 6 }⟩

def getHeader (h : SfcFixedLengthHeader) : SfcHeader := h.header

inductive Setter where
  | serviceIndex (serviceIndex : BitVec 32)
  | ttl (ttl : BitVec 16)
  deriving DecidableEq, Repr

def set (h : SfcFixedLengthHeader) : Setter → SfcFixedLengthHeader
  | .serviceIndex serviceIndex => h.setServiceIndex serviceIndex
  | .ttl ttl => h.setTtl ttl

end SfcFixedLengthHeader

end Ironhide.Model
