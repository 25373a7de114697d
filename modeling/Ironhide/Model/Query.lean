import Ironhide.Lib.Json
import Ironhide.Model.UrlBuilder

namespace Ironhide.Model
open Lib.Text Lib.Json

def sanitize (toSanitize : String) : String :=
  String.ofList (toSanitize.toList.map fun c => if c = '\x00' then ' ' else c)

def EndpointType.ipKey : EndpointType → String
  | .ingressT => "ipIngress"
  | .egressT => "ipEgress"

def EndpointType.socketKey : EndpointType → String
  | .ingressT => "socketIdIngress"
  | .egressT => "socketIdEgress"

def ProtocolType.text : ProtocolType → String
  | .tcp => "tcp"
  | .udp => "udp"

def DbEndpoint.toJson (e : DbEndpoint) (json : JsonCpp) : String :=
  let res := Value.insert e.typeOfProxy.ipKey (.string e.ip) []
  let res := Value.insert e.typeOfProxy.socketKey (.string e.socketId) res
  sanitize (json.toStyledString (.object res))

/-- The members of an endpoint, over those that are there. -/
def DbEndpoint.addTo (res : List (String × Value)) (e : DbEndpoint) : List (String × Value) :=
  Value.insert e.typeOfProxy.ipKey (.string e.ip)
    (Value.insert e.typeOfProxy.socketKey (.string e.socketId) res)

namespace Query

def getEndpoint (q : Query) (endpoint : EndpointType) : Except Raised DbEndpoint :=
  match q.endpoints.find? fun e => e.typeOfProxy = endpoint with
  | some e => .ok e
  | none => .error (.endpointNotFound "Endpoint not found")

/-- The members of the object that `to_json` writes; the item's id is not among them. -/
def members (q : Query) : List (String × Value) :=
  let res := Value.insert "ipSrc" (.string q.ipSrc) []
  let res := Value.insert "ipDst" (.string q.ipDst) res
  let res := Value.insert "portSrc" (.int q.portSrc.toNat) res
  let res := Value.insert "portDst" (.int q.portDst.toNat) res
  let res := Value.insert "idSfc" (.string q.idSfc) res
  let res := Value.insert "protocol" (.string q.prt.text) res
  q.endpoints.foldl DbEndpoint.addTo res

def toJson (q : Query) (json : JsonCpp) : String :=
  sanitize (json.toStyledString (.object q.members))

/-- The paths that follow the role, from either branch of `to_url`. -/
def addFields (q : Query) (b : UrlBuilder) : Except Raised UrlBuilder := do
  let b ← b.addPath q.ipSrc
  let b ← b.addPath q.ipDst
  let b ← b.addPath (Model.toString q.portSrc.toNat)
  let b ← b.addPath (Model.toString q.portDst.toNat)
  let b ← b.addPath q.idSfc
  b.addPath q.prt.text

def toUrl (q : Query) : Except Raised String := do
  let b ← UrlBuilder.empty.addPath endpointPrefix
  match q.endpoints with
  | [] =>
    let b ← b.addPath (if q.type = some .ingressT then "ingress" else "egress")
    let b ← q.addFields b
    .ok b.build
  | [e] =>
    -- the role asked for is the other one
    let b ← b.addPath (if e.typeOfProxy = .ingressT then "egress" else "ingress")
    let b ← q.addFields b
    let b ← b.addPath e.ip
    let b ← b.addPath e.socketId
    .ok b.build
  | _ => .error (.queryAmbiguous "More than one endpoint for thisquery: which shouldI use?")

end Query

/-- `Query::Builder`, from `Builder()`, which leaves zeros in its numbers. -/
structure Builder where
  itemId : String
  ipSrc : String
  ipDst : String
  portSrc : BitVec 16
  portDst : BitVec 16
  prt : ProtocolType
  idSfc : String
  type : EndpointType
  endpoints : List DbEndpoint
  deriving DecidableEq, Repr

inductive Setting where
  | itemId (itemId : String)
  | ipSrc (ipSrc : String)
  | ipDst (ipDst : String)
  | portSrc (portSrc : BitVec 16)
  | portDst (portDst : BitVec 16)
  | protocol (prt : ProtocolType)
  | idSfc (idSfc : String)
  | endpoint (endpoint : DbEndpoint)
  | endpointType (type : EndpointType)
  deriving DecidableEq, Repr

namespace Builder

def new : Builder :=
  { itemId := "", ipSrc := "", ipDst := "", portSrc := 0, portDst := 0, prt := .tcp, idSfc := "",
    type := .ingressT, endpoints := [] }

/-- `set_endpoint`: the endpoint goes to the end, in the place of the one of its type. -/
def setEndpoint (b : Builder) (endpoint : DbEndpoint) : Builder :=
  { b with endpoints :=
      b.endpoints.eraseP (fun e => e.typeOfProxy = endpoint.typeOfProxy) ++ [endpoint] }

def set (b : Builder) : Setting → Builder
  | .itemId itemId => { b with itemId }
  | .ipSrc ipSrc => { b with ipSrc }
  | .ipDst ipDst => { b with ipDst }
  | .portSrc portSrc => { b with portSrc }
  | .portDst portDst => { b with portDst }
  | .protocol prt => { b with prt }
  | .idSfc idSfc => { b with idSfc }
  | .endpoint endpoint => b.setEndpoint endpoint
  | .endpointType type => { b with type }

def build (b : Builder) : Query :=
  { itemId := b.itemId, ipSrc := b.ipSrc, ipDst := b.ipDst, portSrc := b.portSrc,
    portDst := b.portDst, prt := b.prt, idSfc := b.idSfc, endpoints := b.endpoints,
    type := if b.endpoints = [] then some b.type else none }

end Builder

def built (calls : List Setting) : Query := (calls.foldl Builder.set .new).build

end Ironhide.Model
