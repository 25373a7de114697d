import Ironhide.Proofs.Requests

namespace Ironhide.Proofs.Exchanges
open Model Lib.Json Lib.Program Roulette Replies Requests

variable {η ℓ : Type} [DecidableEq η] [DecidableEq ℓ]

structure Transfer where
  headers : List String
  url : String
  method : String
  writeFunction : Bool
  writeData : Bool
  postFields : Option String
  deriving DecidableEq, Repr

def Transfer.blank : Transfer := ⟨[], "", "", false, false, none⟩

/-- What is set on the handles, and what stands in the header lists. -/
structure Curl (η ℓ : Type) where
  handles : η → Transfer
  lists : ℓ → List String

namespace Curl

def start : Curl η ℓ := ⟨fun _ => .blank, fun _ => []⟩

def set (lists : ℓ → List String) (t : Transfer) : Setopt ℓ → Transfer
  | .httpHeader header => { t with headers := (header.map lists).getD [] }
  | .url url => { t with url := url }
  | .customRequest method => { t with method := method }
  | .writeFunction => { t with writeFunction := true }
  | .writeData => { t with writeData := true }
  | .postFields data => { t with postFields := some data }

def after (c : Curl η ℓ) : Event (Op η ℓ) (Reply η ℓ) → Curl η ℓ
  | ⟨.easyInit, some curl⟩ => { c with handles := Function.update c.handles curl .blank }
  | ⟨.slistAppend list text, some header⟩ =>
    { c with lists := Function.update c.lists header ((list.map c.lists).getD [] ++ [text]) }
  | ⟨.setopt curl option, _⟩ =>
    { c with handles := Function.update c.handles curl (set c.lists (c.handles curl) option) }
  | _ => c

variable (c : Curl η ℓ) (curl : η)

@[simp] theorem handles_init : (c.after ⟨.easyInit, some curl⟩).handles curl = .blank :=
  Function.update_self ..

@[simp] theorem handles_append (list : Option ℓ) (text : String) (header : Option ℓ) :
    (c.after ⟨.slistAppend list text, header⟩).handles = c.handles := by
  cases header <;> rfl

@[simp] theorem handles_setopt (option : Setopt ℓ) :
    (c.after ⟨.setopt curl option, ()⟩).handles curl = set c.lists (c.handles curl) option :=
  Function.update_self ..

@[simp] theorem lists_setopt (option : Setopt ℓ) :
    (c.after ⟨.setopt curl option, ()⟩).lists = c.lists := rfl

end Curl

/-- A transfer with the code it ended with and the body that came back. -/
structure Exchange where
  sent : Transfer
  code : Nat
  body : String
  deriving DecidableEq, Repr

/-- The transfers of a run, each as its handle was set then. -/
def exchanges (c : Curl η ℓ) : List (Event (Op η ℓ) (Reply η ℓ)) → List Exchange
  | [] => []
  | ⟨.perform curl, (code, pieces)⟩ :: es =>
    ⟨c.handles curl, code, String.join pieces⟩ :: exchanges c es
  | e :: es => exchanges (c.after e) es

/-- What libcurl has had no memory for. -/
inductive Refusal where
  | handle
  | header
  deriving DecidableEq, Repr

def refusal : Event (Op η ℓ) (Reply η ℓ) → Option Refusal
  | ⟨.easyInit, none⟩ => some .handle
  | ⟨.slistAppend .., none⟩ => some .header
  | _ => none

def refusals (es : List (Event (Op η ℓ) (Reply η ℓ))) : List Refusal := es.filterMap refusal

section Calls
variable {α β : Type} {c : Curl η ℓ}
  {Q : List Refusal → List Exchange → Except Raised α → Prop}

/-- What is said of every run of a program: of what was refused, of its transfers
and how it ends. -/
def Sends (c : Curl η ℓ) (p : Calls η ℓ α)
    (Q : List Refusal → List Exchange → Except Raised α → Prop) : Prop :=
  ∀ es out, p.Runs es out → Q (refusals es) (exchanges c es) out

theorem sends_setopt {curl : η} {option : Setopt ℓ} {k : Unit → Calls η ℓ α}
    (h : Sends (c.after ⟨.setopt curl option, ()⟩) (k ()) Q) :
    Sends c (Roulette.setopt curl option >>= k) Q := by
  intro es out hrun
  obtain ⟨_, es, rfl, hrest⟩ := Prog.runs_op.mp hrun
  exact h es out hrest

theorem sends_append {text : String} {k : Option ℓ → Calls η ℓ α}
    (h : ∀ header, Sends (c.after ⟨.slistAppend none text, header⟩) (k header) fun refused =>
      Q (if header.isNone then .header :: refused else refused)) :
    Sends c (Prog.perform (Op.slistAppend none text) >>= k) Q := by
  intro es out hrun
  obtain ⟨header, es, rfl, hrest⟩ := Prog.runs_op.mp hrun
  have hsaid := h header es out hrest
  cases header <;> exact hsaid

theorem sends_free {header : Option ℓ} {k : Unit → Calls η ℓ α}
    (h : Sends c (k ()) Q) : Sends c (Prog.perform (Op.slistFreeAll header) >>= k) Q := by
  intro es out hrun
  obtain ⟨_, es, rfl, hrest⟩ := Prog.runs_op.mp hrun
  exact h es out hrest

theorem sends_perform {curl : η} {k : Nat × List String → Calls η ℓ α}
    (h : ∀ code pieces, Sends c (k (code, pieces)) fun refused rest out =>
      Q refused (⟨c.handles curl, code, String.join pieces⟩ :: rest) out) :
    Sends c (Prog.perform (Op.perform curl) >>= k) Q := by
  intro es out hrun
  obtain ⟨⟨code, pieces⟩, es, rfl, hrest⟩ := Prog.runs_op.mp hrun
  exact h code pieces es out hrest

def released (curl : η) (p : Calls η ℓ α) : Calls η ℓ α :=
  p >>= fun res => clearLocalRes curl >>= fun _ => .ret res

omit [DecidableEq η] [DecidableEq ℓ] in
theorem released_bind (curl : η) (p : Calls η ℓ β) (k : β → Calls η ℓ α) :
    released curl (p >>= k) = (p >>= fun b => released curl (k b)) :=
  Prog.bind_assoc p k _

/-- Nothing is transferred once the reply is there. -/
theorem sends_released {curl : η} {x : Except Raised α} (h : Q [] [] x) :
    Sends c (released curl (raise x)) Q := by
  intro es out hrun
  cases x with
  | error e =>
    obtain ⟨rfl, rfl⟩ := Prog.runs_throw.mp hrun
    exact h
  | ok a =>
    obtain ⟨_, es, rfl, hrest⟩ := Prog.runs_op.mp hrun
    obtain ⟨rfl, rfl⟩ := Prog.runs_ret.mp hrest
    exact h

theorem sends_raise {x : Except Raised β} {k : β → Calls η ℓ α}
    (herror : ∀ e, x = .error e → Q [] [] (.error e)) (hok : ∀ b, x = .ok b → Sends c (k b) Q) :
    Sends c (raise x >>= k) Q := by
  cases x with
  | error e =>
    intro es out hrun
    obtain ⟨rfl, rfl⟩ := Prog.runs_throw.mp hrun
    exact herror e rfl
  | ok b => exact hok b rfl

theorem sends_curlReqHandle {req : η → Calls η ℓ α} (hexit : Q [.handle] [] (.error .exitFailure))
    (h : ∀ curl, Sends (c.after ⟨.easyInit, some curl⟩) (released curl (req curl)) Q) :
    Sends c (curlReqHandle req) Q := by
  intro es out hrun
  obtain ⟨curl, es, rfl, hrest⟩ := Prog.runs_op.mp hrun
  cases curl with
  | none =>
    obtain ⟨rfl, rfl⟩ := Prog.runs_throw.mp hrest
    exact hexit
  | some curl => exact h curl es out hrest

end Calls

section Operations
variable (json : JsonCpp) (addr : Address)

def headersOf : Operation → List String
  | .createEntry _ => [contentType]
  | .updateEndpoint .. => [contentType]
  | _ => []

def methodOf : Operation → String
  | .createEntry _ => "PUT"
  | .updateEndpoint .. => "PUT"
  | .getEntry _ => "GET"
  | .deleteEntry _ => "DELETE"
  | .getRouteList _ => "GET"

def bodyOf : Operation → Option String
  | .createEntry query => some (cStr (query.toJson json))
  | .updateEndpoint _ toAdd => some (cStr (toAdd.toJson json))
  | _ => none

def urlOf : Operation → Except Raised String
  | .createEntry _ => requestUrl addr [endpointPrefix]
  | .updateEndpoint query _ => do requestUrl addr [← query.toUrl]
  | .getEntry id => requestUrl addr [endpointPrefix, id]
  | .deleteEntry id => requestUrl addr [endpointPrefix, id]
  | .getRouteList pId => requestUrl addr [routePrefix, Model.toString pId.toNat]

def transfer (o : Operation) (headers : List String) (url : String) : Transfer :=
  ⟨headers, cStr url, methodOf o, true, true, bodyOf json o⟩

/-- How the run of an operation goes: without a transfer when the handle was refused
or there is no URL, and else with a single one, whose code and body decide how it
ends. It has the operation's header lines, but none if libcurl has refused the list. -/
inductive Exchanged (o : Operation) :
    List Refusal → List Exchange → Except Raised o.Result → Prop where
  | noHandle : Exchanged o [.handle] [] (.error .exitFailure)
  | noUrl (e : Raised) : urlOf addr o = .error e → Exchanged o [] [] (.error e)
  | once (url : String) (code : Nat) (body : String) : urlOf addr o = .ok url →
    Exchanged o [] [⟨transfer json o (headersOf o) url, code, body⟩] (conclude json o code body)
  | bare (url : String) (code : Nat) (body : String) : urlOf addr o = .ok url → headersOf o ≠ [] →
    Exchanged o [.header] [⟨transfer json o [] url, code, body⟩] (conclude json o code body)

variable {json addr} {c : Curl η ℓ}

/-- A header list that has been made holds what was appended. -/
theorem headers_appended (c : Curl η ℓ) (text : String) (header : ℓ) :
    (c.after ⟨.slistAppend none text, some header⟩).lists header = [text] :=
  Function.update_self ..

/-- The transfer of an operation that appends its one header line to a new list. -/
theorem exchanged_appended {o : Operation} {url text : String} (header : Option ℓ) (code : Nat)
    (body : String) (hurl : urlOf addr o = .ok url) (htext : headersOf o = [text]) :
    Exchanged json addr o (if header.isNone then [.header] else [])
      [⟨transfer json o ((header.map (c.after ⟨.slistAppend none text, header⟩).lists).getD []) url,
        code, body⟩] (conclude json o code body) := by
  cases header with
  | none => exact .bare url code body hurl (by simp [htext])
  | some header =>
    have hmade : (c.after ⟨.slistAppend none text, some header⟩).lists header = headersOf o := by
      rw [headers_appended, htext]
    rw [Option.map_some, Option.getD_some, hmade]
    exact .once url code body hurl

theorem sends_createEntry (query : Query) :
    Sends c (createEntry json addr query) (Exchanged json addr (.createEntry query)) := by
  refine sends_curlReqHandle .noHandle fun curl => ?_
  simp only [released_bind]
  refine sends_raise (fun e he => .noUrl e he) fun url hurl => sends_append fun header => ?_
  refine sends_setopt (sends_setopt (sends_setopt (sends_setopt (sends_setopt (sends_setopt
    (sends_perform fun code pieces => sends_free (sends_released ?_)))))))
  simp only [Curl.handles_setopt, Curl.handles_append, Curl.handles_init, Curl.set]
  exact exchanged_appended header code (String.join pieces) hurl rfl

theorem sends_updateEndpoint (query : Query) (toAdd : DbEndpoint) :
    Sends c (updateEndpoint json addr query toAdd)
      (Exchanged json addr (.updateEndpoint query toAdd)) := by
  refine sends_curlReqHandle .noHandle fun curl => ?_
  simp only [released_bind]
  refine sends_raise (fun e he => .noUrl e ?_) fun q hq => ?_
  · rw [urlOf, he]
    rfl
  have hurlOf : urlOf addr (.updateEndpoint query toAdd) = requestUrl addr [q] := by
    rw [urlOf, hq]
    rfl
  refine sends_raise (fun e he => .noUrl e (hurlOf.trans he)) fun url hurl =>
    sends_append fun header => ?_
  refine sends_setopt (sends_setopt (sends_setopt (sends_setopt (sends_setopt (sends_setopt
    (sends_perform fun code pieces => sends_released ?_))))))
  simp only [Curl.handles_setopt, Curl.handles_append, Curl.handles_init, Curl.set]
  have hout : handleReq code (isOpOk json (pieces.foldl curlCallback "")) =
      conclude json (.updateEndpoint query toAdd) code (String.join pieces) :=
    handleReq_eq_conclude code (String.join pieces)
  rw [hout]
  exact exchanged_appended header code (String.join pieces) (hurlOf.trans hurl) rfl

/-- The operations without a header list set four options and make the transfer. -/
theorem sends_plain (o : Operation) (paths : List String)
    (option₁ option₂ option₃ option₄ : String → Setopt ℓ) (x : Nat → String → Except Raised o.Result)
    (hurl : urlOf addr o = requestUrl addr paths)
    (hset : ∀ (lists : ℓ → List String) (url : String), [option₁ url, option₂ url, option₃ url,
      option₄ url].foldl (Curl.set lists) .blank = transfer json o (headersOf o) url)
    (hx : ∀ code body, x code body = conclude json o code body) :
    Sends c (curlReqHandle fun curl => do
      let reqAddr ← raise (requestUrl addr paths)
      Roulette.setopt curl (option₁ reqAddr)
      Roulette.setopt curl (option₂ reqAddr)
      Roulette.setopt curl (option₃ reqAddr)
      Roulette.setopt curl (option₄ reqAddr)
      let (res, pieces) ← Prog.perform (Op.perform curl)
      raise (x res (pieces.foldl curlCallback ""))) (Exchanged json addr o) := by
  refine sends_curlReqHandle .noHandle fun curl => ?_
  simp only [released_bind]
  refine sends_raise (fun e he => .noUrl e (hurl.trans he)) fun url hok => ?_
  refine sends_setopt (sends_setopt (sends_setopt (sends_setopt
    (sends_perform fun code pieces => sends_released ?_))))
  simp only [Curl.handles_setopt, Curl.lists_setopt, Curl.handles_init]
  have hsent := hset (c.after ⟨.easyInit, some curl⟩).lists url
  simp only [List.foldl_cons, List.foldl_nil] at hsent
  rw [hsent, hx]
  exact .once url code (String.join pieces) (hurl.trans hok)

/-- Every run of one of the five operations makes one transfer at most, of all
that the operation's arguments say, and ends as the code and the body say that come
back, in however many pieces. Without a transfer it ends only for want of a handle
or of a URL. -/
theorem one_exchange (json : JsonCpp) (addr : Address) (o : Operation)
    (es : List (Event (Op η ℓ) (Reply η ℓ))) (out : Except Raised o.Result)
    (h : (o.run json addr).Runs es out) :
    Exchanged json addr o (refusals es) (exchanges Curl.start es) out := by
  refine (?_ : Sends Curl.start (o.run json addr) (Exchanged json addr o)) es out h
  cases o with
  | createEntry query => exact sends_createEntry query
  | updateEndpoint query toAdd => exact sends_updateEndpoint query toAdd
  | getEntry id =>
    exact sends_plain (.getEntry id) [endpointPrefix, id] (fun url => .url (cStr url))
      (fun _ => .customRequest "GET") (fun _ => .writeFunction) (fun _ => .writeData)
      (conclude json (.getEntry id)) rfl (fun _ _ => rfl) fun _ _ => rfl
  | deleteEntry id =>
    exact sends_plain (.deleteEntry id) [endpointPrefix, id] (fun url => .url (cStr url))
      (fun _ => .customRequest "DELETE") (fun _ => .writeFunction) (fun _ => .writeData)
      (fun code body => handleReq code (isOpOk json body)) rfl (fun _ _ => rfl)
      fun code body => handleReq_eq_conclude code body
  | getRouteList pId =>
    exact sends_plain (.getRouteList pId) [routePrefix, Model.toString pId.toNat]
      (fun _ => .customRequest "GET") (fun url => .url (cStr url)) (fun _ => .writeFunction)
      (fun _ => .writeData) (conclude json (.getRouteList pId)) rfl (fun _ _ => rfl) fun _ _ => rfl

/-- An entry is created, and the reply comes in two pieces. -/
theorem one_exchange_pieces :
    let json := JsonCpp.ofText
      (fun text => if text = "\x7b\"result\": \"ok\", \"content\": \x7b\"id\": \"5e\"\x7d\x7d" then
        some (.object [("result", .string "ok"), ("content", .object [("id", .string "5e")])])
        else none) fun _ => "\x7b\x7d"
    let addr : Address := ⟨"10.0.3.1", 80, false⟩
    let query : Query := built [.ipSrc "10.0.0.1", .ipDst "10.0.1.1", .portSrc 5001, .portDst 80,
      .idSfc "7", .endpointType .ingressT]
    let run := (Operation.run json addr (.createEntry query)).exec Service.answer
      (⟨4, some 5, curleOk, ["\x7b\"result\": \"ok\", ", "\"content\": \x7b\"id\": \"5e\"\x7d\x7d"]⟩ :
        Service Nat Nat)
    run.2 = .ok "5e" ∧
    (exchanges Curl.start run.1).map (fun exchange => (exchange.sent.headers, exchange.sent.method)) =
      [([contentType], "PUT")] ∧
    Exchanged json addr (.createEntry query) (refusals run.1) (exchanges Curl.start run.1) run.2 :=
  ⟨by decide +kernel, by decide +kernel, one_exchange _ _ _ _ _ (Prog.runs_exec _ _ _)⟩

end Operations

end Ironhide.Proofs.Exchanges
