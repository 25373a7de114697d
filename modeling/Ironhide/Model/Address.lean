import Ironhide.Model.DbQuery

namespace Ironhide.Model
open Lib.Text

def npos : BitVec 64 := BitVec.allOnes 64

def findFirstOf (cs : List Char) (c : Char) : BitVec 64 :=
  if c ∈ cs then BitVec.ofNat 64 (cs.idxOf c) else npos

/-- `substr`, which refuses a start behind the end and cuts a count that is too large. -/
def substr (cs : List Char) (pos n : BitVec 64) : Except Exn (List Char) :=
  if cs.length < pos.toNat then .error .outOfRange
  else .ok ((cs.drop pos.toNat).take n.toNat)

def stoul (cs : List Char) : Except Exn (BitVec 64) :=
  match Lib.Text.stoul cs with
  | .ok v => .ok v
  | .error .invalidArgument => .error .invalidArgument
  | .error .outOfRange => .error .outOfRange

def portSeparator : Char := ':'

def pathSeparator : Char := '/'

def httpPrefix : List Char := ['h', 't', 't', 'p', ':', '/', '/']

def prefixCheck (address : List Char) : Bool := httpPrefix.isPrefixOf address

def addressParse (url : List Char) : Except Exn (List Char × BitVec 16) := do
  let found := findFirstOf url portSeparator
  let address ← substr url 0 found
  let found1 := findFirstOf url pathSeparator
  let port ← stoul (← substr url (found + 1) (found1 - found - 1))
  .ok (address, port.setWidth 16)

/-- `Address(complete_address)` -/
def Address.parse (completeAddress : String) : Except Exn Address := do
  let cs := completeAddress.toList
  if prefixCheck cs then
    let found := findFirstOf cs pathSeparator
    let _protocol ← substr cs 0 found
    let urlNew ← substr cs (found + 3) npos
    let (address, port) ← addressParse urlNew
    .ok ⟨String.ofList address, port, true⟩
  else
    let (address, port) ← addressParse cs
    .ok ⟨String.ofList address, port, false⟩

def Address.getUrl (a : Address) : String :=
  String.ofList ((if a.hasHttpPrefix then [] else httpPrefix) ++ a.address.toList ++
    [portSeparator] ++ decimal a.port.toNat ++ [pathSeparator])

/-- Both constructors test for the same prefix. -/
theorem Address.ofParts_hasHttpPrefix (newAddress : String) (newPort : BitVec 16) :
    (Address.ofParts newAddress newPort).hasHttpPrefix = prefixCheck newAddress.toList := by
  rw [Bool.eq_iff_iff, prefixCheck, List.isPrefixOf_iff_prefix]
  simp [Address.ofParts, httpPrefix]

end Ironhide.Model
