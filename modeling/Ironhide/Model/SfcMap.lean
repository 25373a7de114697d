import Ironhide.Model.Classifier
import Ironhide.Lib.StdMap
import Ironhide.Lib.Threads

namespace Ironhide.Model.Classifier
open Lib.Bytes Lib.Program Lib.StdMap Lib.Threads

def PktType.value : PktType → Nat
  | .default => 0
  | .tcp => 1
  | .udp => 2

def mapperLt (a b : PktType) : Bool := a.value < b.value

def defaultUdpMapper : PktType := .udp

def defaultTcpMapper : PktType := .tcp

/-- What `classify_pkt` does to the static `sfc_map`: `operator[]`, a store to the
place that this gives, and `at`. -/
inductive MapOp where
  | index (m : PktType)
  | store (m : PktType) (sfcid : String)
  | atKey (m : PktType)
  deriving DecidableEq, Repr

/-- `at` gives `none` when it throws. A null pointer is `some none`. -/
abbrev MapReply : MapOp → Type
  | .atKey _ => Option (Option String)
  | _ => Unit

/-- `classify_pkt` after `set_pkt`, with the map as it is used by all threads. -/
def classify (m : PktType) : Prog MapOp MapReply Exn (Option String) := do
  Prog.perform (MapOp.index defaultUdpMapper)
  Prog.perform (MapOp.store defaultUdpMapper "0")
  Prog.perform (MapOp.index defaultTcpMapper)
  Prog.perform (MapOp.store defaultTcpMapper "0")
  match ← Prog.perform (MapOp.atKey m) with
  | some sfcid => pure sfcid
  | none => .throw .outOfRange

variable (T : MapOps PktType)

/-- One operation on the map. `operator[]` puts a null pointer under a new key. -/
def Performs (s : T.M (Option String)) : (o : MapOp) → MapReply o → T.M (Option String) → Prop
  | .index m, _, s' => s' = T.insert s m none
  | .store m sfcid, _, s' => s' = T.assign s m (some sfcid)
  | .atKey m, r, s' => s' = s ∧ r = T.find s m

def system : System (T.M (Option String)) (List Byte × Nat) MapOp MapReply Exn (Option String) where
  start g := classify (setPkt g.1 g.2).value
  perform s _ o r s' born := Performs T s o r s' ∧ born = []
  arrive s s' _ := s' = s
  fatal _ := True

end Ironhide.Model.Classifier
