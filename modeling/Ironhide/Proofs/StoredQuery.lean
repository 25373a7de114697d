import Ironhide.Proofs.Requests
import Mathlib.Data.List.Nodup

namespace Ironhide.Proofs.StoredQuery
open Model Lib.Json Roulette Replies Requests

def OneOfEach (endpoints : List DbEndpoint) : Prop := (endpoints.map DbEndpoint.typeOfProxy).Nodup

theorem not_mem_eraseP {endpoints : List DbEndpoint} (h : OneOfEach endpoints) (t : EndpointType) :
    t ∉ (endpoints.eraseP fun e => e.typeOfProxy = t).map DbEndpoint.typeOfProxy := by
  induction endpoints with
  | nil => simp
  | cons e endpoints ih =>
    obtain ⟨he, hrest⟩ := List.nodup_cons.mp h
    by_cases ht : e.typeOfProxy = t
    · rw [List.eraseP_cons_of_pos (by simpa using ht), ← ht]
      exact he
    · rw [List.eraseP_cons_of_neg (by simpa using ht), List.map_cons, List.mem_cons, not_or]
      exact ⟨fun heq => ht heq.symm, ih hrest⟩

theorem oneOfEach_setEndpoint {b : Builder} (h : OneOfEach b.endpoints) (endpoint : DbEndpoint) :
    OneOfEach (b.setEndpoint endpoint).endpoints := by
  have hkept : OneOfEach (b.endpoints.eraseP fun e => e.typeOfProxy = endpoint.typeOfProxy) :=
    h.sublist ((List.eraseP_sublist).map _)
  change (List.map _ (_ ++ [endpoint])).Nodup
  rw [List.map_append, List.map_singleton, ← List.concat_eq_append]
  exact hkept.concat (not_mem_eraseP h _)

theorem oneOfEach_built (calls : List Setting) : OneOfEach (built calls).endpoints := by
  have hset : ∀ (b : Builder), OneOfEach b.endpoints →
      OneOfEach (calls.foldl Builder.set b).endpoints := by
    induction calls with
    | nil => exact fun b h => h
    | cons call calls ih =>
      intro b h
      refine ih (b.set call) ?_
      cases call with
      | endpoint endpoint => exact oneOfEach_setEndpoint h endpoint
      | _ => exact h
  exact hset .new List.nodup_nil

section Members
variable {res : List (String × Value)} {endpoints : List DbEndpoint}

theorem ipKey_injective {t t' : EndpointType} (h : t.ipKey = t'.ipKey) : t = t' := by
  cases t <;> cases t' <;> first | rfl | exact absurd h (by decide)

theorem socketKey_injective {t t' : EndpointType} (h : t.socketKey = t'.socketKey) : t = t' := by
  cases t <;> cases t' <;> first | rfl | exact absurd h (by decide)

theorem ipKey_ne_socketKey (t t' : EndpointType) : t.ipKey ≠ t'.socketKey := by
  cases t <;> cases t' <;> decide

theorem lookup_ip (e : DbEndpoint) (t : EndpointType) :
    (e.addTo res).lookup t.ipKey =
      if e.typeOfProxy = t then some (.string e.ip) else res.lookup t.ipKey := by
  rw [DbEndpoint.addTo, Value.lookup_insert, Value.lookup_insert, if_neg (ipKey_ne_socketKey _ _)]
  by_cases h : e.typeOfProxy = t
  · rw [if_pos (by rw [h]), if_pos h]
  · rw [if_neg fun heq => h (ipKey_injective heq).symm, if_neg h]

theorem lookup_socket (e : DbEndpoint) (t : EndpointType) :
    (e.addTo res).lookup t.socketKey =
      if e.typeOfProxy = t then some (.string e.socketId) else res.lookup t.socketKey := by
  rw [DbEndpoint.addTo, Value.lookup_insert, Value.lookup_insert,
    if_neg (ipKey_ne_socketKey _ _).symm]
  by_cases h : e.typeOfProxy = t
  · rw [if_pos (by rw [h]), if_pos h]
  · rw [if_neg fun heq => h (socketKey_injective heq).symm, if_neg h]

def ofType (endpoints : List DbEndpoint) (t : EndpointType) : Option DbEndpoint :=
  endpoints.find? fun e => e.typeOfProxy = t

theorem ofType_eq_none {t : EndpointType} (h : t ∉ endpoints.map DbEndpoint.typeOfProxy) :
    ofType endpoints t = none := by
  rw [ofType, List.find?_eq_none]
  intro e he
  simpa using fun heq => h (List.mem_map.mpr ⟨e, he, heq⟩)

/-- A member that each endpoint sets for its type is the one that the endpoint of the
type has set. -/
theorem lookup_foldl {key : EndpointType → String} {text : DbEndpoint → String}
    (hadd : ∀ res (e : DbEndpoint) t, (e.addTo res).lookup (key t) =
      if e.typeOfProxy = t then some (.string (text e)) else res.lookup (key t))
    (h : OneOfEach endpoints) (t : EndpointType) :
    (endpoints.foldl DbEndpoint.addTo res).lookup (key t) =
      match ofType endpoints t with
      | some e => some (.string (text e))
      | none => res.lookup (key t) := by
  induction endpoints generalizing res with
  | nil => rfl
  | cons e endpoints ih =>
    obtain ⟨he, hrest⟩ := List.nodup_cons.mp h
    rw [List.foldl_cons, ih hrest, hadd]
    by_cases ht : e.typeOfProxy = t
    · have hfound : ofType (e :: endpoints) t = some e := List.find?_cons_of_pos (by simpa using ht)
      rw [hfound, ofType_eq_none (ht ▸ he), if_pos ht]
    · have hskip : ofType (e :: endpoints) t = ofType endpoints t :=
        List.find?_cons_of_neg (by simpa using ht)
      rw [hskip, if_neg ht]

theorem lookup_foldl_other {key : String} (hkey : ∀ t : EndpointType, key ≠ t.ipKey ∧ key ≠ t.socketKey)
    (endpoints : List DbEndpoint) (res : List (String × Value)) :
    (endpoints.foldl DbEndpoint.addTo res).lookup key = res.lookup key := by
  induction endpoints generalizing res with
  | nil => rfl
  | cons e endpoints ih =>
    rw [List.foldl_cons, ih, DbEndpoint.addTo, Value.lookup_insert, Value.lookup_insert,
      if_neg (hkey _).1, if_neg (hkey _).2]

end Members

structure Written (q : Query) (members : List (String × Value)) : Prop where
  ipSrc : members.lookup "ipSrc" = some (.string q.ipSrc)
  ipDst : members.lookup "ipDst" = some (.string q.ipDst)
  portSrc : members.lookup "portSrc" = some (.int q.portSrc.toNat)
  portDst : members.lookup "portDst" = some (.int q.portDst.toNat)
  idSfc : members.lookup "idSfc" = some (.string q.idSfc)
  protocol : members.lookup "protocol" = some (.string q.prt.text)
  ip : ∀ t : EndpointType, members.lookup t.ipKey =
    (ofType q.endpoints t).map fun e => .string e.ip
  socketId : ∀ t : EndpointType, members.lookup t.socketKey =
    (ofType q.endpoints t).map fun e => .string e.socketId

theorem written_members {q : Query} (h : OneOfEach q.endpoints) : Written q q.members := by
  have hplain : ∀ t : EndpointType, ∀ key ∈ ["ipSrc", "ipDst", "portSrc", "portDst", "idSfc", "protocol"],
      key ≠ t.ipKey ∧ key ≠ t.socketKey := by
    intro t
    cases t <;> decide
  have hother : ∀ key ∈ ["ipSrc", "ipDst", "portSrc", "portDst", "idSfc", "protocol"],
      q.members.lookup key = _ := fun key hkey =>
    lookup_foldl_other (fun t => hplain t key hkey) q.endpoints _
  refine ⟨?_, ?_, ?_, ?_, ?_, ?_, fun t => ?_, fun t => ?_⟩
  iterate 6
    · rw [hother _ (by simp)]
      simp [Value.lookup_insert]
  · rw [Query.members, lookup_foldl (fun _ => lookup_ip) h]
    cases ofType q.endpoints t with
    | some e => rfl
    | none => cases t <;> simp [Value.lookup_insert, EndpointType.ipKey]
  · rw [Query.members, lookup_foldl (fun _ => lookup_socket) h]
    cases ofType q.endpoints t with
    | some e => rfl
    | none => cases t <;> simp [Value.lookup_insert, EndpointType.socketKey]

section Entry
variable {json : JsonCpp} {q : Query} {members : List (String × Value)}

/-- The content that the server sends: with its own id besides. -/
def withId (oid : String) (members : List (String × Value)) : Value :=
  .object (Value.insert "_id" (.object [("$oid", .string oid)]) members)

theorem member_withId (oid : String) (members : List (String × Value)) {key : String}
    (h : key ≠ "_id") :
    (withId oid members).member key = (members.lookup key).getD .null := by
  rw [withId, Value.member, Value.lookup_insert, if_neg h]

theorem member_ok {v : Value} (hkeyed : v.keyed = true) (key : String) :
    logic (json.member v key) = .ok (v.member key) := by
  rw [json.member_eq, if_pos hkeyed]
  rfl

theorem textAt_of_member {v : Value} {key s : String} (hkeyed : v.keyed = true)
    (h : v.member key = .string s) : textAt json v key = .ok s := by
  rw [textAt, member_ok hkeyed, h]
  change logic (json.asString (.string s)) = _
  rw [json.asString_string]
  rfl

theorem textAt_missing {v : Value} {key : String} (hkeyed : v.keyed = true)
    (h : v.member key = .null) : textAt json v key = .ok "" := by
  rw [textAt, member_ok hkeyed, h]
  change logic (json.asString .null) = _
  rw [json.asString_null]
  rfl

theorem portAt_of_member {v : Value} {key : String} {port : BitVec 16} (hkeyed : v.keyed = true)
    (h : v.member key = .int port.toNat) : portAt json v key = .ok port := by
  have hwide : (port.setWidth 32).toNat = port.toNat := by
    rw [BitVec.toNat_setWidth]
    have := port.isLt
    omega
  rw [portAt, member_ok hkeyed, h, ← hwide]
  change (logic (json.asUInt (.int (port.setWidth 32).toNat)) >>= fun n => .ok (n.setWidth 16)) = _
  rw [json.asUInt_int]
  change Except.ok ((port.setWidth 32).setWidth 16) = Except.ok port
  rw [BitVec.setWidth_setWidth_of_le _ (by decide), BitVec.setWidth_eq]

/-- The endpoint that `get_entry` sets for a type: of empty strings, where there is none. -/
def orEmpty (endpoints : List DbEndpoint) (t : EndpointType) : DbEndpoint :=
  match ofType endpoints t with
  | some e => ⟨e.ip, e.socketId, t⟩
  | none => ⟨"", "", t⟩

theorem textAt_found {key : String} {text : DbEndpoint → String} {found : Option DbEndpoint}
    (hkey : key ≠ "_id") (h : members.lookup key = found.map fun e => .string (text e)) (oid : String) :
    textAt json (withId oid members) key = .ok ((found.map text).getD "") := by
  have hmember := member_withId oid members hkey
  rw [h] at hmember
  cases found with
  | none => exact textAt_missing rfl hmember
  | some e => exact textAt_of_member rfl hmember

theorem textAt_ip (h : Written q members) (oid : String) (t : EndpointType) :
    textAt json (withId oid members) t.ipKey = .ok (orEmpty q.endpoints t).ip := by
  have htext : (orEmpty q.endpoints t).ip = ((ofType q.endpoints t).map DbEndpoint.ip).getD "" := by
    unfold orEmpty
    cases ofType q.endpoints t <;> rfl
  rw [htext]
  exact textAt_found (by cases t <;> decide) (h.ip t) oid

theorem textAt_socket (h : Written q members) (oid : String) (t : EndpointType) :
    textAt json (withId oid members) t.socketKey = .ok (orEmpty q.endpoints t).socketId := by
  have htext : (orEmpty q.endpoints t).socketId =
      ((ofType q.endpoints t).map DbEndpoint.socketId).getD "" := by
    unfold orEmpty
    cases ofType q.endpoints t <;> rfl
  rw [htext]
  exact textAt_found (by cases t <;> decide) (h.socketId t) oid

theorem text_at {oid key s : String} (hkey : key ≠ "_id") (h : members.lookup key = some (.string s)) :
    textAt json (withId oid members) key = .ok s :=
  textAt_of_member rfl (by rw [member_withId _ _ hkey, h]; rfl)

theorem port_at {oid key : String} {port : BitVec 16} (hkey : key ≠ "_id")
    (h : members.lookup key = some (.int port.toNat)) :
    portAt json (withId oid members) key = .ok port :=
  portAt_of_member rfl (by rw [member_withId _ _ hkey, h]; rfl)

theorem isText_tcp (prt : ProtocolType) :
    (if (Value.string prt.text).isText "tcp" = true then ProtocolType.tcp else .udp) = prt := by
  cases prt <;> rfl

/-- The entry that comes back has every field, and an endpoint of either type. -/
theorem entryOf_withId (h : Written q members) (oid : String) :
    entryOf json (withId oid members) = .ok (built [.itemId oid, .idSfc q.idSfc, .ipSrc q.ipSrc,
      .ipDst q.ipDst, .portSrc q.portSrc, .portDst q.portDst, .protocol q.prt,
      .endpoint ⟨(orEmpty q.endpoints .ingressT).ip, (orEmpty q.endpoints .ingressT).socketId, .ingressT⟩,
      .endpoint ⟨(orEmpty q.endpoints .egressT).ip, (orEmpty q.endpoints .egressT).socketId, .egressT⟩]) := by
  have hprotocol : logic (json.member (withId oid members) "protocol") = .ok (.string q.prt.text) := by
    rw [member_ok rfl, member_withId _ _ (by decide), h.protocol]
    rfl
  have hmember : (withId oid members).member "_id" = .object [("$oid", .string oid)] := by
    rw [withId, Value.member, Value.lookup_insert, if_pos rfl]
    rfl
  have hid : logic (json.member (withId oid members) "_id") = .ok (.object [("$oid", .string oid)]) := by
    rw [member_ok rfl, hmember]
  have hoid : textAt json (.object [("$oid", .string oid)]) "$oid" = .ok oid :=
    textAt_of_member rfl rfl
  simp only [entryOf, hprotocol, hid, hoid, textAt_ip h, textAt_socket h, text_at (by decide) h.idSfc,
    text_at (by decide) h.ipSrc, text_at (by decide) h.ipDst, port_at (by decide) h.portSrc,
    port_at (by decide) h.portDst, bind, Except.bind, isText_tcp]

end Entry

/-- The entry says of the connection what the query said. -/
structure SameQuery (q entry : Query) : Prop where
  ipSrc : entry.ipSrc = q.ipSrc
  ipDst : entry.ipDst = q.ipDst
  portSrc : entry.portSrc = q.portSrc
  portDst : entry.portDst = q.portDst
  idSfc : entry.idSfc = q.idSfc
  prt : entry.prt = q.prt
  endpoints : ∀ type, entry.getEndpoint type = q.getEndpoint type

/-- The reply says ok, and its content is the object that `to_json` wrote, with the
server's id. What it wrote has no zero character in it and reads back. -/
structure Stored (json : JsonCpp) (q : Query) (oid body : String) : Prop where
  noNul : '\x00' ∉ (json.toStyledString (.object q.members)).toList
  roundTrip : json.parse (json.toStyledString (.object q.members)) = some (.object q.members)
  reply : ∃ reply members, json.parse body = some (.object reply) ∧
    reply.lookup "result" = some (.string "ok") ∧
    json.parse (q.toJson json) = some (.object members) ∧
    reply.lookup "content" = some (withId oid members)

theorem sanitize_of_noNul {s : String} (h : '\x00' ∉ s.toList) : sanitize s = s := by
  have hkeep : ∀ c ∈ s.toList, (if c = '\x00' then ' ' else c) = c := by
    intro c hc
    exact if_neg fun heq => h (by rwa [heq] at hc)
  have hmap : s.toList.map (fun c => if c = '\x00' then ' ' else c) = s.toList :=
    (List.map_congr_left hkeep).trans (List.map_id' _)
  rw [sanitize, hmap, String.ofList_toList]

section GetEntry
variable {json : JsonCpp} {q : Query} {oid body : String}

def entry (q : Query) (oid : String) : Query :=
  built [.itemId oid, .idSfc q.idSfc, .ipSrc q.ipSrc, .ipDst q.ipDst, .portSrc q.portSrc,
    .portDst q.portDst, .protocol q.prt,
    .endpoint ⟨(orEmpty q.endpoints .ingressT).ip, (orEmpty q.endpoints .ingressT).socketId, .ingressT⟩,
    .endpoint ⟨(orEmpty q.endpoints .egressT).ip, (orEmpty q.endpoints .egressT).socketId, .egressT⟩]

theorem conclude_stored (hone : OneOfEach q.endpoints) (h : Stored json q oid body) (id : String) :
    conclude json (.getEntry id) curleOk body = .ok (entry q oid) := by
  obtain ⟨reply, members, hparse, hresult, hmembers, hcontent⟩ := h.reply
  have hsame : members = q.members := by
    rw [Query.toJson, sanitize_of_noNul h.noNul, h.roundTrip] at hmembers
    cases hmembers
    rfl
  subst hsame
  have hok : isOpOk json body = .ok true := by
    rw [isOpOk, hparse]
    change (logic (json.member (.object reply) "result") >>= fun result =>
      .ok (result.isText "ok")) = _
    rw [member_ok rfl, Value.member, hresult]
    rfl
  have hresponse : response json body = .object reply := by
    rw [response, hparse]
    rfl
  have hread : logic (json.member (.object reply) "content") = .ok (withId oid q.members) := by
    rw [member_ok rfl, Value.member, hcontent]
    rfl
  have hreq : handleReq curleOk (isOpOk json body) = .ok true := by
    rw [handleReq, if_neg (by simp), hok]
  rw [conclude, hreq, hresponse]
  change (logic (json.member (.object reply) "content") >>= entryOf json) = _
  rw [hread]
  exact entryOf_withId (written_members hone) oid

theorem getEndpoint_entry (q : Query) (oid : String) (t : EndpointType) :
    (entry q oid).getEndpoint t =
      .ok ⟨(orEmpty q.endpoints t).ip, (orEmpty q.endpoints t).socketId, t⟩ := by
  cases t <;> rfl

/-- An endpoint comes back when there is one; a missing one comes back as well. -/
theorem getEndpoint_entry_iff (q : Query) (oid : String) (t : EndpointType) :
    (entry q oid).getEndpoint t = q.getEndpoint t ↔ ∃ e ∈ q.endpoints, e.typeOfProxy = t := by
  have hq : q.getEndpoint t = match ofType q.endpoints t with
    | some e => .ok e
    | none => .error (.endpointNotFound "Endpoint not found") := rfl
  rw [getEndpoint_entry, hq, orEmpty]
  cases hfound : ofType q.endpoints t with
  | none =>
    have hnone := List.find?_eq_none.mp hfound
    refine iff_of_false (by simp) fun h => ?_
    obtain ⟨e, he, ht⟩ := h
    exact hnone e he (by simpa using ht)
  | some e =>
    have htype : e.typeOfProxy = t := by simpa using List.find?_some hfound
    subst htype
    exact iff_of_true rfl ⟨e, List.mem_of_find?_eq_some hfound, rfl⟩

end GetEntry

/-- A stored query reads back as it was written when it has endpoints of both types. -/
theorem reads_back_iff {η ℓ : Type} (json : JsonCpp) (addr : Address) (calls : List Setting)
    (id oid : String) (w : Service η ℓ) (hcode : w.code = curleOk)
    (hstored : Stored json (built calls) oid w.body) :
    (∃ entry, (((Operation.getEntry id).run json addr).exec Service.answer w).2 = .ok entry ∧
      SameQuery (built calls) entry) ↔
    ∀ type, ∃ e ∈ (built calls).endpoints, e.typeOfProxy = type := by
  have hends : (((Operation.getEntry id).run json addr).exec Service.answer w).2 =
      .ok (entry (built calls) oid) := by
    rw [run_ends json addr (.getEntry id) trivial, hcode]
    exact conclude_stored (oneOfEach_built calls) hstored id
  rw [hends]
  constructor
  · intro h type
    obtain ⟨found, heq, hsame⟩ := h
    cases heq
    exact (getEndpoint_entry_iff _ oid type).mp (hsame.endpoints type)
  · intro h
    exact ⟨_, rfl, rfl, rfl, rfl, rfl, rfl, rfl, fun type =>
      (getEndpoint_entry_iff _ oid type).mpr (h type)⟩

section Sample
variable {calls : List Setting} {text body : String}

def replyWith (calls : List Setting) : List (String × Value) :=
  [("content", withId "5e" (built calls).members), ("result", .string "ok")]

def parseOf (calls : List Setting) (text body s : String) : Option Value :=
  if s = text then some (.object (built calls).members)
  else if s = body then some (.object (replyWith calls))
  else none

/-- A library that writes a query as the text, and reads the text and the reply. -/
def jsonOf (calls : List Setting) (text body : String) : JsonCpp :=
  JsonCpp.ofText (parseOf calls text body) fun _ => text

theorem jsonOf_stored (hnoNul : '\x00' ∉ text.toList) (hne : body ≠ text) :
    Stored (jsonOf calls text body) (built calls) "5e" body := by
  have hparse : parseOf calls text body text = some (.object (built calls).members) := by
    rw [parseOf, if_pos rfl]
  have hbody : parseOf calls text body body = some (.object (replyWith calls)) := by
    rw [parseOf, if_neg hne, if_pos rfl]
  have hwrite : ∀ v, (jsonOf calls text body).toStyledString v = text := fun _ => rfl
  have hread : ∀ s, (jsonOf calls text body).parse s = parseOf calls text body s := fun _ => rfl
  have hjson : (built calls).toJson (jsonOf calls text body) = text := by
    rw [Query.toJson, hwrite, sanitize_of_noNul hnoNul]
  refine ⟨?_, ?_, replyWith calls, (built calls).members, ?_, ?_, ?_, ?_⟩
  · rw [hwrite]
    exact hnoNul
  · rw [hwrite, hread]
    exact hparse
  · rw [hread]
    exact hbody
  · simp [replyWith, Value.lookup_cons]
  · rw [hjson, hread]
    exact hparse
  · simp [replyWith]

def serviceOf (body : String) : Service Nat Nat := ⟨4, none, curleOk, [body]⟩

theorem serviceOf_body : (serviceOf body).body = body := by
  simp [Service.body, serviceOf, curlCallback]

end Sample

def bothCalls : List Setting :=
  [.ipSrc "10.0.0.1", .ipDst "10.0.1.1", .portSrc 5001, .portDst 80, .protocol .tcp, .idSfc "7",
    .endpoint ⟨"10.0.2.1", "4", .egressT⟩, .endpoint ⟨"10.0.2.2", "5", .ingressT⟩]

def bothText : String :=
  "\x7b\n\t\"idSfc\" : \"7\",\n\t\"ipDst\" : \"10.0.1.1\",\n\t\"ipEgress\" : \"10.0.2.1\",\n" ++
  "\t\"ipIngress\" : \"10.0.2.2\",\n\t\"ipSrc\" : \"10.0.0.1\",\n\t\"portDst\" : 80,\n" ++
  "\t\"portSrc\" : 5001,\n\t\"protocol\" : \"tcp\",\n\t\"socketIdEgress\" : \"4\",\n" ++
  "\t\"socketIdIngress\" : \"5\"\n\x7d\n"

def bothBody : String :=
  "\x7b\"content\": \x7b\"_id\": \x7b\"$oid\": \"5e\"\x7d, \"idSfc\": \"7\", " ++
  "\"ipDst\": \"10.0.1.1\", \"ipEgress\": \"10.0.2.1\", \"ipIngress\": \"10.0.2.2\", " ++
  "\"ipSrc\": \"10.0.0.1\", \"portDst\": 80, \"portSrc\": 5001, \"protocol\": \"tcp\", " ++
  "\"socketIdEgress\": \"4\", \"socketIdIngress\": \"5\"\x7d, \"result\": \"ok\"\x7d"

theorem both_read_back :
    ∃ entry, (((Operation.getEntry "5e").run (jsonOf bothCalls bothText bothBody)
        ⟨"10.0.3.1", 80, false⟩).exec Service.answer (serviceOf bothBody)).2 = .ok entry ∧
      SameQuery (built bothCalls) entry := by
  have hstored : Stored (jsonOf bothCalls bothText bothBody) (built bothCalls) "5e"
      (serviceOf bothBody).body := by
    rw [serviceOf_body]
    exact jsonOf_stored (by decide +kernel) (by decide +kernel)
  refine (reads_back_iff _ _ bothCalls "5e" "5e" (serviceOf bothBody) rfl hstored).mpr fun type => ?_
  cases type <;> decide +kernel

def sampleCalls : List Setting :=
  [.ipSrc "10.0.0.1", .ipDst "10.0.1.1", .portSrc 5001, .portDst 80, .protocol .tcp, .idSfc "7",
    .endpoint ⟨"10.0.2.1", "4", .egressT⟩]

def sampleText : String :=
  "\x7b\n\t\"idSfc\" : \"7\",\n\t\"ipDst\" : \"10.0.1.1\",\n\t\"ipEgress\" : \"10.0.2.1\",\n" ++
  "\t\"ipSrc\" : \"10.0.0.1\",\n\t\"portDst\" : 80,\n\t\"portSrc\" : 5001,\n" ++
  "\t\"protocol\" : \"tcp\",\n\t\"socketIdEgress\" : \"4\"\n\x7d\n"

def sampleBody : String :=
  "\x7b\"content\": \x7b\"_id\": \x7b\"$oid\": \"5e\"\x7d, \"idSfc\": \"7\", " ++
  "\"ipDst\": \"10.0.1.1\", \"ipEgress\": \"10.0.2.1\", \"ipSrc\": \"10.0.0.1\", " ++
  "\"portDst\": 80, \"portSrc\": 5001, \"protocol\": \"tcp\", \"socketIdEgress\": \"4\"\x7d, " ++
  "\"result\": \"ok\"\x7d"

def sampleJson : JsonCpp := jsonOf sampleCalls sampleText sampleBody

def sampleService : Service Nat Nat := serviceOf sampleBody

theorem sample_stored : Stored sampleJson (built sampleCalls) "5e" sampleService.body := by
  rw [sampleService, serviceOf_body]
  exact jsonOf_stored (by decide +kernel) (by decide +kernel)

/-- The missing endpoint comes back with an empty address. -/
theorem endpoint_made_up :
    let out := (((Operation.getEntry "5e").run sampleJson ⟨"10.0.3.1", 80, false⟩).exec
      Service.answer sampleService).2
    out = .ok (entry (built sampleCalls) "5e") ∧
    (entry (built sampleCalls) "5e").getEndpoint .ingressT = .ok ⟨"", "", .ingressT⟩ ∧
    (built sampleCalls).getEndpoint .ingressT = .error (.endpointNotFound "Endpoint not found") ∧
    ¬ ∃ entry, out = .ok entry ∧ SameQuery (built sampleCalls) entry := by
  intro out
  have hout : out = .ok (entry (built sampleCalls) "5e") :=
    (run_ends sampleJson _ (.getEntry "5e") trivial sampleService).trans
      (conclude_stored (oneOfEach_built sampleCalls) sample_stored "5e")
  refine ⟨hout, rfl, rfl, fun h => ?_⟩
  obtain ⟨found, heq, hsame⟩ := h
  rw [hout] at heq
  cases heq
  cases hsame.endpoints .ingressT

end Ironhide.Proofs.StoredQuery
