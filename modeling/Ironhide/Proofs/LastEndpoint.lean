import Ironhide.Proofs.StoredQuery
import Mathlib.Data.List.Induction

namespace Ironhide.Proofs.LastEndpoint
open Model Lib.Json StoredQuery

def given : Setting → Option DbEndpoint
  | .endpoint e => some e
  | _ => none

/-- The endpoint of the last `set_endpoint` call with one of the type. -/
def lastSet (calls : List Setting) (t : EndpointType) : Option DbEndpoint :=
  ofType (calls.filterMap given).reverse t

def others (calls : List Setting) : List Setting := calls.filter fun call => given call = none

theorem lastSet_endpoint (calls : List Setting) (e : DbEndpoint) (t : EndpointType) :
    lastSet (calls ++ [.endpoint e]) t = if e.typeOfProxy = t then some e else lastSet calls t := by
  have hlast : (List.filterMap given (calls ++ [.endpoint e])).reverse =
      e :: (calls.filterMap given).reverse := by
    rw [List.filterMap_append, List.reverse_append]
    rfl
  rw [lastSet, hlast, ofType, List.find?_cons]
  by_cases ht : e.typeOfProxy = t
  · simp [ht]
  · simp [ht, lastSet, ofType]

theorem lastSet_other (calls : List Setting) {call : Setting} (h : given call = none)
    (t : EndpointType) : lastSet (calls ++ [call]) t = lastSet calls t := by
  rw [lastSet, List.filterMap_append, List.filterMap_cons_none h, List.filterMap_nil,
    List.append_nil, lastSet]

/-- To erase the endpoint of one type leaves that of every other. -/
theorem ofType_eraseP {t t' : EndpointType} (h : t' ≠ t) (endpoints : List DbEndpoint) :
    ofType (endpoints.eraseP fun e => e.typeOfProxy = t') t = ofType endpoints t := by
  induction endpoints with
  | nil => rfl
  | cons e endpoints ih =>
    by_cases he : e.typeOfProxy = t'
    · have hne : ¬ e.typeOfProxy = t := fun heq => h (he.symm.trans heq)
      rw [List.eraseP_cons_of_pos (by simpa using he), ofType, ofType,
        List.find?_cons_of_neg (by simpa using hne)]
    · rw [List.eraseP_cons_of_neg (by simpa using he), ofType, ofType, List.find?_cons,
        List.find?_cons]
      split
      · rfl
      · exact ih

theorem ofType_setEndpoint {b : Builder} (h : OneOfEach b.endpoints) (e : DbEndpoint)
    (t : EndpointType) :
    ofType (b.setEndpoint e).endpoints t =
      if e.typeOfProxy = t then some e else ofType b.endpoints t := by
  have happend : ofType (b.setEndpoint e).endpoints t =
      (ofType (b.endpoints.eraseP fun e' => e'.typeOfProxy = e.typeOfProxy) t).or
        (ofType [e] t) := List.find?_append
  rw [happend]
  by_cases ht : e.typeOfProxy = t
  · rw [if_pos ht, ht, ofType_eq_none (not_mem_eraseP h t), Option.none_or, ofType]
    simp [ht]
  · have hnot : ofType [e] t = none := ofType_eq_none (by simpa using Ne.symm ht)
    rw [if_neg ht, ofType_eraseP ht, hnot, Option.or_none]

/-- What the builder keeps is, type by type, what was set last. -/
theorem ofType_built (calls : List Setting) (t : EndpointType) :
    ofType (built calls).endpoints t = lastSet calls t := by
  induction calls using List.reverseRecOn with
  | nil => rfl
  | append_singleton calls call ih =>
    have hstep : (built (calls ++ [call])).endpoints =
        ((calls.foldl Builder.set .new).set call).endpoints := by
      rw [built, List.foldl_append]
      rfl
    rw [hstep]
    cases call with
    | endpoint e =>
      rw [lastSet_endpoint, ← ih]
      exact ofType_setEndpoint (oneOfEach_built calls) e t
    | _ =>
      rw [lastSet_other calls rfl, ← ih]
      rfl

theorem getEndpoint_built (calls : List Setting) (t : EndpointType) :
    (built calls).getEndpoint t = match lastSet calls t with
      | some e => .ok e
      | none => .error (.endpointNotFound "Endpoint not found") := by
  rw [← ofType_built]
  rfl

theorem mem_iff_ofType {endpoints : List DbEndpoint} (h : OneOfEach endpoints) (e : DbEndpoint) :
    e ∈ endpoints ↔ ofType endpoints e.typeOfProxy = some e := by
  constructor
  · intro he
    induction endpoints with
    | nil => simp at he
    | cons e' endpoints ih =>
      obtain ⟨he', hrest⟩ := List.nodup_cons.mp h
      rcases List.mem_cons.mp he with rfl | he
      · exact List.find?_cons_of_pos (by simp)
      · have hne : ¬ e'.typeOfProxy = e.typeOfProxy :=
          fun heq => he' (List.mem_map.mpr ⟨e, he, heq.symm⟩)
        rw [ofType, List.find?_cons_of_neg (by simpa using hne)]
        exact ih hrest he
  · exact fun he => List.mem_of_find?_eq_some he

section Members
variable {res : List (String × Value)} {endpoints endpoints' : List DbEndpoint}

/-- Endpoints of two types have no member in common. -/
theorem addTo_comm {e e' : DbEndpoint} (h : e.typeOfProxy ≠ e'.typeOfProxy) :
    DbEndpoint.addTo (DbEndpoint.addTo res e) e' = DbEndpoint.addTo (DbEndpoint.addTo res e') e := by
  have hip : e'.typeOfProxy.ipKey ≠ e.typeOfProxy.ipKey := fun heq => h (ipKey_injective heq).symm
  have hsocket : e'.typeOfProxy.socketKey ≠ e.typeOfProxy.socketKey :=
    fun heq => h (socketKey_injective heq).symm
  simp only [DbEndpoint.addTo]
  rw [Value.insert_comm _ _ _ (ipKey_ne_socketKey _ _).symm, Value.insert_comm _ _ _ hsocket,
    Value.insert_comm _ _ _ hip, Value.insert_comm _ _ _ (ipKey_ne_socketKey _ _)]

/-- One endpoint of each type gives the same members in either order. -/
theorem foldl_addTo (h : OneOfEach endpoints) (h' : OneOfEach endpoints')
    (hsame : ∀ t, ofType endpoints t = ofType endpoints' t) :
    endpoints.foldl DbEndpoint.addTo res = endpoints'.foldl DbEndpoint.addTo res := by
  have hperm : endpoints.Perm endpoints' := by
    rw [List.perm_ext_iff_of_nodup (List.Nodup.of_map _ h) (List.Nodup.of_map _ h')]
    intro e
    rw [mem_iff_ofType h, mem_iff_ofType h', hsame]
  apply hperm.foldl_eq'
  intro e he e' he' res
  by_cases heq : e = e'
  · rw [heq]
  · exact addTo_comm fun ht => heq (List.inj_on_of_nodup_map h he he' ht)

end Members

def plain (b : Builder) : Builder := { b with endpoints := [] }

theorem plain_set {b b' : Builder} (h : plain b = plain b') (call : Setting) :
    plain (b.set call) = plain (b'.set call) := by
  obtain ⟨itemId, ipSrc, ipDst, portSrc, portDst, prt, idSfc, type, endpoints⟩ := b
  simp only [plain, Builder.mk.injEq] at h
  obtain ⟨rfl, rfl, rfl, rfl, rfl, rfl, rfl, rfl, -⟩ := h
  cases call <;> rfl

/-- Only the endpoints of a builder depend on the calls that give one. -/
theorem plain_foldl (calls : List Setting) {b b' : Builder} (h : plain b = plain b') :
    plain (calls.foldl Builder.set b) = plain ((others calls).foldl Builder.set b') := by
  induction calls generalizing b b' with
  | nil => exact h
  | cons call calls ih =>
    by_cases hcall : given call = none
    · have hkept : others (call :: calls) = call :: others calls :=
        List.filter_cons_of_pos (by simpa using hcall)
      rw [hkept]
      exact ih (plain_set h call)
    · have hskip : others (call :: calls) = others calls :=
        List.filter_cons_of_neg (by simpa using hcall)
      rw [hskip]
      cases call with
      | endpoint e => exact ih (b := b.setEndpoint e) h
      | _ => exact absurd rfl hcall

/-- What `to_json` writes is told by the other fields and the endpoint of each type. -/
theorem toJson_build {b b' : Builder} (json : JsonCpp) (hplain : plain b = plain b')
    (h : OneOfEach b.endpoints) (h' : OneOfEach b'.endpoints)
    (hsame : ∀ t, ofType b.endpoints t = ofType b'.endpoints t) :
    b.build.toJson json = b'.build.toJson json := by
  have hmembers : b.build.members = b'.build.members := by
    simp only [plain, Builder.mk.injEq] at hplain
    obtain ⟨-, hsrc, hdst, hport, hport', hprt, hid, -, -⟩ := hplain
    simp only [Query.members, Builder.build, hsrc, hdst, hport, hport', hprt, hid]
    exact foldl_addTo h h' hsame
  rw [Query.toJson, Query.toJson, hmembers]

theorem toJson_built (json : JsonCpp) {calls calls' : List Setting}
    (hothers : others calls = others calls') (hlast : ∀ t, lastSet calls t = lastSet calls' t) :
    (built calls).toJson json = (built calls').toJson json := by
  apply toJson_build json _ (oneOfEach_built calls) (oneOfEach_built calls')
  · intro t
    exact (ofType_built calls t).trans ((hlast t).trans (ofType_built calls' t).symm)
  · rw [plain_foldl calls rfl, hothers, ← plain_foldl calls' rfl]

/-- The builder keeps one endpoint of each type, the one that was set last; what it
writes is the same in whatever order these were set. -/
theorem one_endpoint_per_type :
    (∀ calls : List Setting, OneOfEach (built calls).endpoints ∧
      ∀ t, (built calls).getEndpoint t = match lastSet calls t with
        | some e => .ok e
        | none => .error (.endpointNotFound "Endpoint not found")) ∧
    (∀ (json : JsonCpp) (calls calls' : List Setting), others calls = others calls' →
      (∀ t, lastSet calls t = lastSet calls' t) →
      (built calls).toJson json = (built calls').toJson json) := by
  constructor
  · exact fun calls => ⟨oneOfEach_built calls, getEndpoint_built calls⟩
  · exact fun json calls calls' => toJson_built json

def ingress : DbEndpoint := ⟨"10.0.0.5", "7", .ingressT⟩

def egress : DbEndpoint := ⟨"10.0.0.6", "8", .egressT⟩

def keys : Value → String
  | .object members => String.join (members.map Prod.fst)
  | _ => ""

/-- The two endpoints of an entry, and the other way around after a first attempt. -/
theorem either_order :
    (built [.endpoint ingress, .endpoint egress]).toJson (.ofText (fun _ => none) keys) =
      (built [.endpoint ⟨"", "", .ingressT⟩, .endpoint egress, .endpoint ingress]).toJson
        (.ofText (fun _ => none) keys) :=
  one_endpoint_per_type.2 (.ofText (fun _ => none) keys) _ _ rfl fun t => by cases t <;> rfl

end Ironhide.Proofs.LastEndpoint
