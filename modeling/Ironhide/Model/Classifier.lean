import Ironhide.Model.PacketUtils
import Ironhide.Model.DbQuery

namespace Ironhide.Model.Classifier
open Lib.Bytes PacketUtils

inductive PktType where
  | default
  | tcp
  | udp
  deriving DecidableEq, Repr

/-- `Mapper::set_pkt` on a fresh mapper, whose type is `DEFAULT`. -/
def setPkt (pkt : List Byte) (pktLen : Nat) : Copied PktType :=
  if pktLen > ipHdrLen then
    let hIp := retrieveIpHeader pkt
    let type := if hIp.value.protocol = 6 then PktType.tcp
      else if hIp.value.protocol = 17 then PktType.udp
      else PktType.default
    ⟨type, hIp.copies⟩
  else ⟨.default, []⟩

/-- `sfc_map`, once `classify_pkt` has set its two entries. -/
def sfcMap : PktType → Option String
  | .default => none
  | .tcp => some "0"
  | .udp => some "0"

/-- `classify_pkt`; `std::map::at` throws on a missing key. -/
def classifyPkt (pkt : List Byte) (pktLen : Nat) : Copied (Except Exn String) :=
  let m := setPkt pkt pktLen
  ⟨match sfcMap m.value with
    | some sfcid => .ok sfcid
    | none => .error .outOfRange, m.copies⟩

end Ironhide.Model.Classifier
