import Ironhide.Lib.Program
import Ironhide.Model.Query

namespace Ironhide.Model.Roulette
open Lib.Json Lib.Program

/-- The options that a request sets; what is received goes to `curl_callback`. -/
inductive Setopt (ℓ : Type) where
  | httpHeader (header : Option ℓ)
  | url (url : String)
  | customRequest (method : String)
  | writeFunction
  | writeData
  | postFields (data : String)

/-- The calls of libcurl that a request is made of, over its handles and its lists. -/
inductive Op (η ℓ : Type) where
  | easyInit
  | slistAppend (list : Option ℓ) (text : String)
  | setopt (curl : η) (option : Setopt ℓ)
  | perform (curl : η)
  | slistFreeAll (list : Option ℓ)
  | easyCleanup (curl : η)

/-- What comes back: null for want of memory, and from `curl_easy_perform` the code
and the pieces of the reply's body in the order of the callbacks. -/
abbrev Reply (η ℓ : Type) : Op η ℓ → Type
  | .easyInit => Option η
  | .slistAppend .. => Option ℓ
  | .perform .. => Nat × List String
  | .setopt .. | .slistFreeAll .. | .easyCleanup .. => Unit

abbrev Calls (η ℓ α : Type) := Prog (Op η ℓ) (Reply η ℓ) Raised α

variable {η ℓ : Type} {α : Type}

def raise : Except Raised α → Calls η ℓ α
  | .ok a => .ret a
  | .error e => .throw e

def curleOk : Nat := 0

def setopt (curl : η) (option : Setopt ℓ) : Calls η ℓ Unit := Prog.perform (Op.setopt curl option)

def initLocalRes : Calls η ℓ η := do
  match ← Prog.perform Op.easyInit with
  | none => .throw .exitFailure
  | some curl => .ret curl

def clearLocalRes (curl : η) : Calls η ℓ Unit := Prog.perform (Op.easyCleanup curl)

def curlReqHandle (req : η → Calls η ℓ α) : Calls η ℓ α := do
  let curl ← initLocalRes
  let res ← req curl
  clearLocalRes curl
  .ret res

def curlCallback (data piece : String) : String := data ++ piece

def requestUrl (rouletteAddr : Address) (paths : List String) : Except Raised String := do
  let b ← paths.foldlM UrlBuilder.addPath (UrlBuilder.empty.setAddress rouletteAddr)
  .ok b.build

def contentType : String := "Content-Type: application/json"

def handleReq (res : Nat) (cb : Except Raised Bool) : Except Raised Bool :=
  if res ≠ curleOk then
    .error (.exn (.failure "Error while making the requestto route backend"))
  else cb

section Json
variable (json : JsonCpp)

def logic : Option α → Except Raised α
  | some a => .ok a
  | none => .error (.exn .json)

def textAt (v : Value) (key : String) : Except Raised String := do
  logic (json.asString (← logic (json.member v key)))

def portAt (v : Value) (key : String) : Except Raised (BitVec 16) := do
  let n ← logic (json.asUInt (← logic (json.member v key)))
  .ok (n.setWidth 16)

def isOpOk (req : String) : Except Raised Bool :=
  match json.parse req with
  | none => .error (.exn (.failure "Error while parsing the JSON reply"))
  | some response => do
    let result ← logic (json.member response "result")
    .ok (result.isText "ok")

/-- The reply that `is_op_ok` has seen, read again. -/
def response (req : String) : Value := (json.parse req).getD .null

/-- What `get_entry` makes of the content: always with both endpoints. -/
def entryOf (content : Value) : Except Raised Query := do
  let protocol ← logic (json.member content "protocol")
  let prt : ProtocolType := if protocol.isText "tcp" then .tcp else .udp
  let ingress : DbEndpoint :=
    ⟨← textAt json content EndpointType.ingressT.ipKey,
      ← textAt json content EndpointType.ingressT.socketKey, .ingressT⟩
  let egress : DbEndpoint :=
    ⟨← textAt json content EndpointType.egressT.ipKey,
      ← textAt json content EndpointType.egressT.socketKey, .egressT⟩
  let itemId ← textAt json (← logic (json.member content "_id")) "$oid"
  let idSfc ← textAt json content "idSfc"
  let ipSrc ← textAt json content "ipSrc"
  let ipDst ← textAt json content "ipDst"
  let portSrc ← portAt json content "portSrc"
  let portDst ← portAt json content "portDst"
  .ok (built [.itemId itemId, .idSfc idSfc, .ipSrc ipSrc, .ipDst ipDst, .portSrc portSrc,
    .portDst portDst, .protocol prt, .endpoint ingress, .endpoint egress])

def routeOf (address : Value) : Except Raised Address := do
  let url ← textAt json address "url"
  let port ← portAt json address "port"
  .ok (Address.ofParts url port)

variable (rouletteAddr : Address)

def createEntry (query : Query) : Calls η ℓ String :=
  curlReqHandle fun curl => do
    let reqAddr ← raise (requestUrl rouletteAddr [endpointPrefix])
    let jsonQuery := query.toJson json
    let header ← Prog.perform (Op.slistAppend none contentType)
    setopt curl (.httpHeader header)
    setopt curl (.url (cStr reqAddr))
    setopt curl (.customRequest "PUT")
    setopt curl .writeFunction
    setopt curl .writeData
    setopt curl (.postFields (cStr jsonQuery))
    let (res, pieces) ← Prog.perform (Op.perform curl)
    let reqDataRes := pieces.foldl curlCallback ""
    let _ ← Prog.perform (Op.slistFreeAll header)
    raise do
      if ← handleReq res (isOpOk json reqDataRes) then
        textAt json (← logic (json.member (response json reqDataRes) "content")) "id"
      else .ok ""

def updateEndpoint (query : Query) (toAdd : DbEndpoint) : Calls η ℓ Bool :=
  curlReqHandle fun curl => do
    let q ← raise query.toUrl
    let reqAddr ← raise (requestUrl rouletteAddr [q])
    let jsonData := toAdd.toJson json
    let header ← Prog.perform (Op.slistAppend none contentType)
    setopt curl (.httpHeader header)
    setopt curl (.url (cStr reqAddr))
    setopt curl (.customRequest "PUT")
    setopt curl .writeFunction
    setopt curl .writeData
    setopt curl (.postFields (cStr jsonData))
    let (res, pieces) ← Prog.perform (Op.perform curl)
    let reqDataRes := pieces.foldl curlCallback ""
    raise (handleReq res (isOpOk json reqDataRes))

def getEntry (id : String) : Calls η ℓ Query :=
  curlReqHandle fun curl => do
    let reqAddr ← raise (requestUrl rouletteAddr [endpointPrefix, id])
    setopt curl (.url (cStr reqAddr))
    setopt curl (.customRequest "GET")
    setopt curl .writeFunction
    setopt curl .writeData
    let (res, pieces) ← Prog.perform (Op.perform curl)
    let reqDataRes := pieces.foldl curlCallback ""
    raise do
      if ← handleReq res (isOpOk json reqDataRes) then
        entryOf json (← logic (json.member (response json reqDataRes) "content"))
      else .ok (built [])

def deleteEntry (id : String) : Calls η ℓ Bool :=
  curlReqHandle fun curl => do
    let reqAddr ← raise (requestUrl rouletteAddr [endpointPrefix, id])
    setopt curl (.url (cStr reqAddr))
    setopt curl (.customRequest "DELETE")
    setopt curl .writeFunction
    setopt curl .writeData
    let (res, pieces) ← Prog.perform (Op.perform curl)
    let reqDataRes := pieces.foldl curlCallback ""
    raise (handleReq res (isOpOk json reqDataRes))

def getRouteList (pId : BitVec 32) : Calls η ℓ (List Address) :=
  curlReqHandle fun curl => do
    let reqAddr ← raise (requestUrl rouletteAddr [routePrefix, Model.toString pId.toNat])
    setopt curl (.customRequest "GET")
    setopt curl (.url (cStr reqAddr))
    setopt curl .writeFunction
    setopt curl .writeData
    let (res, pieces) ← Prog.perform (Op.perform curl)
    let reqDataRes := pieces.foldl curlCallback ""
    raise do
      if ← handleReq res (isOpOk json reqDataRes) then
        let content ← logic (json.member (response json reqDataRes) "content")
        let si ← logic (json.member content "si")
        si.items.mapM (routeOf json)
      else .ok []

end Json

inductive Operation where
  | createEntry (query : Query)
  | updateEndpoint (query : Query) (toAdd : DbEndpoint)
  | getEntry (id : String)
  | deleteEntry (id : String)
  | getRouteList (pId : BitVec 32)

namespace Operation

abbrev Result : Operation → Type
  | createEntry _ => String
  | updateEndpoint .. | deleteEntry _ => Bool
  | getEntry _ => Query
  | getRouteList _ => List Address

def run (json : JsonCpp) (rouletteAddr : Address) : (o : Operation) → Calls η ℓ o.Result
  | createEntry query => Roulette.createEntry json rouletteAddr query
  | updateEndpoint query toAdd => Roulette.updateEndpoint json rouletteAddr query toAdd
  | getEntry id => Roulette.getEntry json rouletteAddr id
  | deleteEntry id => Roulette.deleteEntry json rouletteAddr id
  | getRouteList pId => Roulette.getRouteList json rouletteAddr pId

end Operation

end Ironhide.Model.Roulette
