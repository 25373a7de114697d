import Ironhide.Lib.Text

namespace Ironhide.Model
open Lib.Text

inductive Exn where
  | failure (what : String)
  | outOfRange
  | invalidArgument
  | lengthError
  | json
  deriving DecidableEq, Repr

def stoi (s : String) : Except Exn Int :=
  match Lib.Text.stoi s with
  | .ok v => .ok v
  | .error .invalidArgument => .error .invalidArgument
  | .error .outOfRange => .error .outOfRange

theorem stoi_decimal (n : Nat) (h : n < 2^31) :
    stoi (String.ofList (decimal n)) = .ok (n : Int) := by
  simp [stoi, Lib.Text.stoi_decimal n h]

def toString (n : Nat) : String := String.ofList (decimal n)

theorem toString_injective {m n : Nat} (h : toString m = toString n) : m = n :=
  decimal_injective (String.ofList_injective h)

/-- A `const char*` argument: the text up to its first zero character. -/
def cStr (s : String) : String := String.ofList (s.toList.takeWhile (· ≠ '\x00'))

inductive EndpointType where
  | ingressT
  | egressT
  deriving DecidableEq, Repr

inductive ProtocolType where
  | tcp
  | udp
  deriving DecidableEq, Repr

/-- The enumerator's value, by which `<` on the enum compares. -/
def ProtocolType.value : ProtocolType → Nat
  | .tcp => 0
  | .udp => 1

theorem ProtocolType.value_injective {a b : ProtocolType} (h : a.value = b.value) : a = b := by
  cases a <;> cases b <;> simp_all [value]

structure Address where
  address : String
  port : BitVec 16
  hasHttpPrefix : Bool
  deriving DecidableEq, Repr

def Address.ofParts (newAddress : String) (newPort : BitVec 16) : Address :=
  { address := newAddress, port := newPort, hasHttpPrefix := newAddress.startsWith "http://" }

/-- `DBQuery::Endpoint` -/
structure DbEndpoint where
  ip : String
  socketId : String
  typeOfProxy : EndpointType
  deriving DecidableEq, Repr

/-- `DBQuery::Query`. `type` is set only by the constructor without endpoints. -/
structure Query where
  itemId : String
  ipSrc : String
  ipDst : String
  portSrc : BitVec 16
  portDst : BitVec 16
  prt : ProtocolType
  idSfc : String
  endpoints : List DbEndpoint
  type : Option EndpointType
  deriving DecidableEq, Repr

inductive Request where
  | createEntry (query : Query)
  | updateEndpoint (query : Query) (toAdd : DbEndpoint)
  | deleteEntry (id : String)
  deriving DecidableEq, Repr

end Ironhide.Model
