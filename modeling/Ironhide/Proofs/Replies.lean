import Ironhide.Model.Roulette

namespace Ironhide.Proofs.Replies
open Model Lib.Json Lib.Program Roulette

section Gives
variable {α β : Type} {x : Except Raised α} {f : α → Except Raised β} {P Q : Prop}

/-- Returns when `P` holds, and stops with JsonCpp's own error when not. -/
def Gives (x : Except Raised α) (P : Prop) : Prop :=
  (P ∧ ∃ a, x = .ok a) ∨ (¬ P ∧ x = .error (.exn .json))

theorem gives_ok (a : α) : Gives (.ok a) True := .inl ⟨trivial, a, rfl⟩

theorem Gives.iff (h : Gives x P) : (∃ a, x = .ok a) ↔ P := by
  rcases h with ⟨hp, hx⟩ | ⟨hp, hx⟩
  · exact ⟨fun _ => hp, fun _ => hx⟩
  · rw [hx]
    simp [hp]

theorem Gives.congr (h : Gives x P) (hPQ : P ↔ Q) : Gives x Q := by
  rwa [Gives, ← hPQ]

theorem Gives.bind (h : Gives x P) (hf : ∀ a, x = .ok a → Gives (f a) Q) :
    Gives (x >>= f) (P ∧ Q) := by
  rcases h with ⟨hp, a, rfl⟩ | ⟨hp, rfl⟩
  · exact (hf a rfl).congr (by simp [hp])
  · exact .inr ⟨fun hpq => hp hpq.1, rfl⟩

/-- A loop over a list returns when each of its turns does. -/
theorem Gives.mapM {P : α → Prop} {f : α → Except Raised β} (h : ∀ a, Gives (f a) (P a))
    (l : List α) : Gives (l.mapM f) (∀ a ∈ l, P a) := by
  induction l with
  | nil => exact (gives_ok []).congr (by simp)
  | cons a l ih =>
    rw [List.mapM_cons]
    refine ((h a).bind fun b _ => ih.bind fun bs _ => gives_ok (b :: bs)).congr ?_
    simp

end Gives

section Access
variable (json : JsonCpp) {β : Type} {f : Value → Except Raised β} {Q : Prop}

theorem gives_member {v : Value} (key : String) (hf : Gives (f (v.member key)) Q) :
    Gives (logic (json.member v key) >>= f) (v.keyed = true ∧ Q) := by
  rw [json.member_eq]
  by_cases h : v.keyed = true
  · rw [if_pos h]
    exact hf.congr (by simp [h])
  · rw [if_neg h]
    exact .inr ⟨fun hpq => h hpq.1, rfl⟩

theorem gives_isSome {α : Type} {o : Option α} {b : Bool} (h : o.isSome = b) :
    Gives (logic o) (b = true) := by
  subst h
  cases o with
  | none => exact .inr ⟨by simp, rfl⟩
  | some a => exact .inl ⟨rfl, a, rfl⟩

theorem gives_textAt (v : Value) (key : String) :
    Gives (textAt json v key) (v.keyed = true ∧ (v.member key).convertibleToString = true) :=
  gives_member json key (gives_isSome (json.asString_isSome _))

theorem gives_portAt (v : Value) (key : String) :
    Gives (portAt json v key) (v.keyed = true ∧ (v.member key).convertibleToUInt = true) := by
  refine (gives_member json key
    ((gives_isSome (json.asUInt_isSome _)).bind fun n _ => gives_ok (n.setWidth 16))).congr ?_
  simp

end Access

def entryTexts : List String :=
  ["ipIngress", "socketIdIngress", "ipEgress", "socketIdEgress", "idSfc", "ipSrc", "ipDst"]

def entryPorts : List String := ["portSrc", "portDst"]

def ReadableContent : Operation → Value → Prop
  | .createEntry _, content => content.keyed = true ∧ (content.member "id").convertibleToString = true
  | .getEntry _, content =>
    content.keyed = true ∧ (∀ key ∈ entryTexts, (content.member key).convertibleToString = true) ∧
    (content.member "_id").keyed = true ∧
    ((content.member "_id").member "$oid").convertibleToString = true ∧
    ∀ key ∈ entryPorts, (content.member key).convertibleToUInt = true
  | .getRouteList _, content => content.keyed = true ∧ ∀ address ∈ (content.member "si").items,
    address.keyed = true ∧ (address.member "url").convertibleToString = true ∧
    (address.member "port").convertibleToUInt = true
  | .updateEndpoint .., _ => True
  | .deleteEntry _, _ => True

/-- The reply is an object, or null, and when it says ok its content can be read. -/
def Readable (o : Operation) (reply : Value) : Prop :=
  reply.keyed = true ∧ ((reply.member "result").isText "ok" = true →
    ReadableContent o (reply.member "content"))

def Sendable : Operation → Prop
  | .updateEndpoint query _ => ∃ url, query.toUrl = .ok url
  | _ => True

def contentOf (json : JsonCpp) : (o : Operation) → Value → Except Raised o.Result
  | .createEntry _, reply => do textAt json (← logic (json.member reply "content")) "id"
  | .updateEndpoint .., _ => .ok true
  | .getEntry _, reply => do entryOf json (← logic (json.member reply "content"))
  | .deleteEntry _, _ => .ok true
  | .getRouteList _, reply => do
    let content ← logic (json.member reply "content")
    let si ← logic (json.member content "si")
    si.items.mapM (routeOf json)

def refused : (o : Operation) → o.Result
  | .createEntry _ => ""
  | .updateEndpoint .. => false
  | .getEntry _ => built []
  | .deleteEntry _ => false
  | .getRouteList _ => []

def conclude (json : JsonCpp) (o : Operation) (code : Nat) (body : String) :
    Except Raised o.Result := do
  if ← handleReq code (isOpOk json body) then contentOf json o (response json body)
  else .ok (refused o)

theorem gives_entryOf (json : JsonCpp) (id : String) (content : Value) :
    Gives (entryOf json content) (ReadableContent (.getEntry id) content) := by
  refine (gives_member json _ ((gives_textAt json content _).bind fun _ _ =>
    (gives_textAt json content _).bind fun _ _ => (gives_textAt json content _).bind fun _ _ =>
    (gives_textAt json content _).bind fun _ _ => gives_member json _
      ((gives_textAt json _ _).bind fun _ _ => (gives_textAt json content _).bind fun _ _ =>
      (gives_textAt json content _).bind fun _ _ => (gives_textAt json content _).bind fun _ _ =>
      (gives_portAt json content _).bind fun _ _ => (gives_portAt json content _).bind fun _ _ =>
      gives_ok _))).congr ?_
  simp only [ReadableContent, entryTexts, entryPorts, List.forall_mem_cons, List.not_mem_nil,
    false_imp_iff, implies_true, and_true, EndpointType.ipKey, EndpointType.socketKey]
  tauto

theorem gives_routeOf (json : JsonCpp) (address : Value) : Gives (routeOf json address)
    (address.keyed = true ∧ (address.member "url").convertibleToString = true ∧
      (address.member "port").convertibleToUInt = true) := by
  refine ((gives_textAt json address _).bind fun _ _ =>
    (gives_portAt json address _).bind fun _ _ => gives_ok _).congr ?_
  tauto

theorem gives_contentOf (json : JsonCpp) (o : Operation) {reply : Value}
    (hkeyed : reply.keyed = true) :
    Gives (contentOf json o reply) (ReadableContent o (reply.member "content")) := by
  cases o with
  | createEntry query =>
    exact (gives_member json _ (gives_textAt json _ _)).congr (and_iff_right hkeyed)
  | updateEndpoint query toAdd => exact gives_ok true
  | getEntry id =>
    exact (gives_member json _ (gives_entryOf json id _)).congr (and_iff_right hkeyed)
  | deleteEntry id => exact gives_ok true
  | getRouteList pId =>
    exact (gives_member json _ (gives_member json _
      (Gives.mapM (gives_routeOf json) _))).congr (and_iff_right hkeyed)

/-- With a reply that was read, the operation returns or meets JsonCpp's own error. -/
theorem gives_conclude (json : JsonCpp) (o : Operation) {body : String} {reply : Value}
    (hparse : json.parse body = some reply) :
    Gives (conclude json o curleOk body) (Readable o reply) := by
  have hresponse : response json body = reply := by
    rw [response, hparse]
    rfl
  have hop : isOpOk json body =
      (do let result ← logic (json.member reply "result"); .ok (result.isText "ok")) := by
    rw [isOpOk, hparse]
  have hreq : handleReq curleOk (isOpOk json body) = isOpOk json body := if_neg (by simp)
  rw [conclude, hreq, hop, hresponse, json.member_eq]
  by_cases hkeyed : reply.keyed = true
  · rw [if_pos hkeyed]
    change Gives (if (reply.member "result").isText "ok" = true then contentOf json o reply
      else .ok (refused o)) _
    split
    · rename_i hok
      exact (gives_contentOf json o hkeyed).congr (by simp [Readable, hkeyed, hok])
    · rename_i hok
      exact (gives_ok (refused o)).congr (by simp [Readable, hkeyed, hok])
  · rw [if_neg hkeyed]
    exact .inr ⟨fun h => hkeyed h.1, rfl⟩

theorem conclude_failure (json : JsonCpp) (o : Operation) {code : Nat} {body : String}
    (h : code ≠ curleOk ∨ json.parse body = none) :
    ∃ what, conclude json o code body = .error (.exn (.failure what)) := by
  by_cases hcode : code = curleOk
  · have hparse := h.resolve_left (fun hne => hne hcode)
    have hreq : handleReq code (isOpOk json body) = isOpOk json body := if_neg (by simp [hcode])
    rw [conclude, hreq, isOpOk, hparse]
    exact ⟨_, rfl⟩
  · rw [conclude, handleReq, if_pos hcode]
    exact ⟨_, rfl⟩

end Ironhide.Proofs.Replies
