import Ironhide.Model.ConnectionEntry
import Ironhide.Model.PacketUtils

namespace Ironhide.Model
open Lib.StdMap

/-- `struct sockaddr_in`, without its padding. -/
structure SockaddrIn where
  sinFamily : BitVec 16
  sinPort : BitVec 16
  sinAddr : BitVec 32
  deriving DecidableEq, Repr

def SockaddrIn.zero : SockaddrIn := ⟨0, 0, 0⟩

/-- What stands for a descriptor. The code only has the number; a system that
reuses numbers may carry along what the number was obtained for. -/
class Descriptor (φ : Type) where
  num : φ → Int
  notFound : φ
  num_notFound : num notFound = -1

instance : Descriptor Int := ⟨id, -1, rfl⟩

attribute [simp] Descriptor.num_notFound

@[simp] theorem notFound_int : (Descriptor.notFound : Int) = -1 := rfl

def fdToString {φ : Type} [Descriptor φ] (fd : φ) : String :=
  let n := Descriptor.num fd
  if n < 0 then "-" ++ toString n.natAbs else toString n.natAbs

/-- `endpoint::Endpoint`, over any implementation of the two maps. -/
structure Endpoint (T : MapOps ConnectionEntry) (φ : Type) where
  connectionMap : T.M (φ × SockaddrIn)
  mapToRemote : T.M String
  myIp : String
  extPort : BitVec 16
  intPort : BitVec 16

/-- How a table operation ended, the endpoint it left, what it asked roulette. -/
structure Outcome (T : MapOps ConnectionEntry) (φ : Type) where
  result : Except Exn Unit
  endpoint : Endpoint T φ
  request : Option Request

namespace Endpoint

variable {T : MapOps ConnectionEntry} {φ : Type}

def new (T : MapOps ConnectionEntry) (φ : Type) (myIp : String) (extPort intPort : BitVec 16) :
    Endpoint T φ :=
  { connectionMap := T.empty, mapToRemote := T.empty, myIp, extPort, intPort }

section Operations
variable [Descriptor φ]

def dbEndpoint (e : Endpoint T φ) (fd : φ) (endpoint : EndpointType) : DbEndpoint where
  ip := e.myIp ++ ":" ++ toString e.intPort.toNat
  socketId := fdToString fd
  typeOfProxy := endpoint

/-- `add_entry`, when `create_entry` answers `answer`. -/
def addEntry (e : Endpoint T φ) (ce : ConnectionEntry) (fd : φ) (sockin : SockaddrIn)
    (endpoint : EndpointType) (protocol : ProtocolType) (answer : Except Exn String) :
    Outcome T φ :=
  let e₁ := { e with connectionMap := T.insert e.connectionMap ce (fd, sockin) }
  let request : Request := .createEntry {
    itemId := ""
    ipSrc := ce.ipSrc
    ipDst := ce.ipDst
    portSrc := ce.portSrc
    portDst := ce.portDst
    prt := protocol
    idSfc := ce.sfcid
    endpoints := [e.dbEndpoint fd endpoint]
    type := none }
  match answer with
  | .error x => ⟨.error x, e₁, some request⟩
  | .ok response =>
    if response = "" then ⟨.ok (), e₁, some request⟩
    else ⟨.ok (), { e₁ with mapToRemote := T.assign e₁.mapToRemote ce response }, some request⟩

def updateEntry (e : Endpoint T φ) (ce : ConnectionEntry) (fd : φ) (sockin : SockaddrIn)
    (endpoint : EndpointType) (answer : Except Exn Bool) : Outcome T φ :=
  let request : Request := .updateEndpoint {
    itemId := ""
    ipSrc := ce.ipSrc
    ipDst := ce.ipDst
    portSrc := ce.portSrc
    portDst := ce.portDst
    prt := ce.prt
    idSfc := ce.sfcid
    endpoints := []
    type := some .ingressT } (e.dbEndpoint fd endpoint)
  match answer with
  | .error x => ⟨.error x, e, some request⟩
  | .ok _ =>
    ⟨.ok (), { e with connectionMap := T.insert e.connectionMap ce (fd, sockin) }, some request⟩

def deleteEntry (e : Endpoint T φ) (ce : ConnectionEntry) (answer : Except Exn Bool) :
    Outcome T φ :=
  match T.find e.connectionMap ce with
  | none => ⟨.ok (), e, none⟩
  | some _ =>
    let e₁ := { e with connectionMap := T.erase e.connectionMap ce }
    -- `map_to_remote[ce]` puts an empty id in when there is none
    let id := (T.find e₁.mapToRemote ce).getD ""
    let e₂ := { e₁ with mapToRemote := T.insert e₁.mapToRemote ce "" }
    let request : Request := .deleteEntry (cStr id)
    match answer with
    | .error x => ⟨.error x, e₂, some request⟩
    | .ok _ => ⟨.ok (), { e₂ with mapToRemote := T.erase e₂.mapToRemote ce }, some request⟩

def retrieveConnection2 (e : Endpoint T φ) (ce : ConnectionEntry) : φ × SockaddrIn :=
  match T.find e.connectionMap ce with
  | none => (Descriptor.notFound, SockaddrIn.zero)
  | some sock => sock

theorem retrieveConnection2_found {e : Endpoint T φ} {ce : ConnectionEntry}
    {sock : φ × SockaddrIn} (h : T.find e.connectionMap ce = some sock) :
    e.retrieveConnection2 ce = sock := by
  unfold retrieveConnection2
  rw [h]

/-- `add_entry` has put its node in whatever roulette answers. -/
@[simp] theorem connectionMap_addEntry (e : Endpoint T φ) (ce : ConnectionEntry) (fd : φ)
    (sockin : SockaddrIn) (endpoint : EndpointType) (protocol : ProtocolType)
    (answer : Except Exn String) :
    (e.addEntry ce fd sockin endpoint protocol answer).endpoint.connectionMap =
      T.insert e.connectionMap ce (fd, sockin) := by
  cases answer with
  | error x => rfl
  | ok response => by_cases h : response = "" <;> simp [addEntry, h]

theorem connectionMap_updateEntry (e : Endpoint T φ) (ce : ConnectionEntry) (fd : φ)
    (sockin : SockaddrIn) (endpoint : EndpointType) (answer : Except Exn Bool) :
    (e.updateEntry ce fd sockin endpoint answer).endpoint.connectionMap =
      match answer with
      | .error _ => e.connectionMap
      | .ok _ => T.insert e.connectionMap ce (fd, sockin) := by
  cases answer <;> rfl

omit [Descriptor φ] in
/-- `delete_entry` has taken a node that was there out whatever roulette answers. -/
theorem connectionMap_deleteEntry (e : Endpoint T φ) (ce : ConnectionEntry)
    (answer : Except Exn Bool) :
    (e.deleteEntry ce answer).endpoint.connectionMap =
      match T.find e.connectionMap ce with
      | none => e.connectionMap
      | some _ => T.erase e.connectionMap ce := by
  simp only [deleteEntry]
  cases hf : T.find e.connectionMap ce with
  | none => rfl
  | some sock => cases answer <;> rfl

end Operations

end Endpoint

end Ironhide.Model
