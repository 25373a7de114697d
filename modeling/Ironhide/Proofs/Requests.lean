import Ironhide.Lib.Resources
import Ironhide.Proofs.Replies

namespace Ironhide.Proofs.Requests
open Model Lib.Json Lib.Program Lib.Resources Roulette Replies

variable {η ℓ : Type}

/-- What libcurl and roulette answer: a handle, the header list where there is memory
for it, the transfer's code and the reply in pieces. -/
structure Service (η ℓ : Type) where
  curl : η
  header : Option ℓ
  code : Nat
  pieces : List String

namespace Service

def body (w : Service η ℓ) : String := w.pieces.foldl curlCallback ""

def answer : Service η ℓ → (o : Op η ℓ) → Reply η ℓ o × Service η ℓ
  | w, .easyInit => (some w.curl, w)
  | w, .slistAppend .. => (w.header, w)
  | w, .perform _ => ((w.code, w.pieces), w)
  | w, .setopt .. => ((), w)
  | w, .slistFreeAll _ => ((), w)
  | w, .easyCleanup _ => ((), w)

end Service

inductive Resource (η ℓ : Type) where
  | handle (curl : η)
  | list (header : ℓ)
  deriving DecidableEq

def acquired : Ledger (Op η ℓ) (Reply η ℓ) (Resource η ℓ) where
  opens
    | ⟨.easyInit, curl⟩ => curl.map .handle
    | ⟨.slistAppend none _, header⟩ => header.map .list
    | _ => none
  closes
    | .slistFreeAll header => header.map .list
    | .easyCleanup curl => some (.handle curl)
    | _ => none

variable [DecidableEq η] [DecidableEq ℓ] {α : Type} {w : Service η ℓ} {held held' : List (Resource η ℓ)}
  {out : Except Raised α} {json : JsonCpp} {addr : Address}

def Leaves (held : List (Resource η ℓ)) (p : Calls η ℓ α) (w : Service η ℓ) (held' : List (Resource η ℓ))
    (out : Except Raised α) : Prop :=
  acquired.Leaves Service.answer held p w held' out

theorem leaves_setopt {curl : η} {option : Setopt ℓ} {k : Unit → Calls η ℓ α}
    (h : Leaves held (k ()) w held' out) :
    Leaves held (Roulette.setopt curl option >>= k) w held' out :=
  Ledger.Leaves.quiet ⟨rfl, rfl⟩ h

theorem leaves_perform {curl : η} {k : Nat × List String → Calls η ℓ α}
    (h : Leaves held (k (w.code, w.pieces)) w held' out) :
    Leaves held (Prog.perform (Op.perform curl) >>= k) w held' out :=
  Ledger.Leaves.quiet ⟨rfl, rfl⟩ h

theorem leaves_raise {β : Type} {x : Except Raised β} {b : β} (hx : x = .ok b) {k : β → Calls η ℓ α}
    (h : Leaves held (k b) w held' out) : Leaves held (raise x >>= k) w held' out := by
  subst hx
  exact h

def withHeader (w : Service η ℓ) (held : List (Resource η ℓ)) : List (Resource η ℓ) :=
  (w.header.map Resource.list).toList ++ held

theorem leaves_append {text : String} {k : Option ℓ → Calls η ℓ α}
    (h : Leaves (withHeader w held) (k w.header) w held' out) :
    Leaves held (Prog.perform (Op.slistAppend none text) >>= k) w held' out := by
  unfold withHeader at h
  cases hheader : w.header with
  | none =>
    rw [hheader] at h
    refine Ledger.Leaves.quiet ⟨?_, rfl⟩ ?_
    · change w.header.map _ = none
      rw [hheader]
      rfl
    · change Leaves held (k w.header) w held' out
      rw [hheader]
      exact h
  | some header =>
    rw [hheader] at h
    refine Ledger.Leaves.opens (x := .list header) ?_ rfl ?_
    · change w.header.map _ = _
      rw [hheader]
      rfl
    · change Leaves (.list header :: held) (k w.header) w held' out
      rw [hheader]
      exact h

theorem leaves_free {k : Unit → Calls η ℓ α} (h : Leaves held (k ()) w held' out) :
    Leaves (withHeader w held) (Prog.perform (Op.slistFreeAll w.header) >>= k) w held' out := by
  unfold withHeader
  cases hheader : w.header with
  | none => exact Ledger.Leaves.quiet ⟨rfl, rfl⟩ h
  | some header =>
    refine Ledger.Leaves.closes (x := .list header) rfl List.mem_cons_self ?_
    rw [Option.map_some, Option.toList_some, List.singleton_append, List.erase_cons_head]
    exact h

/-- The handle is still held when the request has thrown. -/
def unlessCleared (w : Service η ℓ) (out : Except Raised α) : List (Resource η ℓ) :=
  match out with
  | .ok _ => []
  | .error _ => [.handle w.curl]

def cleared (w : Service η ℓ) (p : Calls η ℓ α) : Calls η ℓ α :=
  p >>= fun res => clearLocalRes w.curl >>= fun _ => .ret res

theorem leaves_cleared (held : List (Resource η ℓ)) (hheld : .handle w.curl ∉ held) (x : Except Raised α) :
    Leaves (held ++ [.handle w.curl]) (cleared w (raise x)) w (held ++ unlessCleared w x) x := by
  cases x with
  | error e => exact Ledger.Leaves.throw e
  | ok a =>
    refine Ledger.Leaves.closes (x := .handle w.curl) rfl (by simp) ?_
    rw [List.erase_append_right _ hheld, List.erase_cons_head]
    exact Ledger.Leaves.ret a

theorem leaves_curlReqHandle {req : η → Calls η ℓ α}
    (h : Leaves [.handle w.curl] (cleared w (req w.curl)) w held' out) :
    Leaves [] (curlReqHandle req) w held' out :=
  Ledger.Leaves.opens (x := .handle w.curl) rfl rfl h

omit [DecidableEq η] [DecidableEq ℓ] in
theorem cleared_bind {β : Type} (p : Calls η ℓ β) (k : β → Calls η ℓ α) :
    cleared w (p >>= k) = (p >>= fun b => cleared w (k b)) :=
  Prog.bind_assoc p k _

theorem requestUrl_one (addr : Address) (path : String) : ∃ url, requestUrl addr [path] = .ok url :=
  ⟨_, rfl⟩

/-- Behind a prefix that ends in a separator, any path can be added. -/
theorem requestUrl_two (addr : Address) {start : String} (hstart : (cStr start).toList.getLast? = some '/')
    (path : String) : ∃ url, requestUrl addr [start, path] = .ok url := by
  have hfirst : (UrlBuilder.empty.setAddress addr).addPath start =
      .ok ⟨(UrlBuilder.empty.setAddress addr).url, [cStr start]⟩ := rfl
  have hsecond : (UrlBuilder.mk (UrlBuilder.empty.setAddress addr).url [cStr start]).addPath path =
      .ok ⟨(UrlBuilder.empty.setAddress addr).url, [cStr start, cStr path]⟩ := by
    simp [UrlBuilder.addPath, hstart, pathSeparator]
  refine ⟨UrlBuilder.build ⟨(UrlBuilder.empty.setAddress addr).url, [cStr start, cStr path]⟩, ?_⟩
  simp [requestUrl, hfirst, hsecond, bind, Except.bind, pure, Except.pure]

/-- What is still held when the operation has ended. -/
def left (o : Operation) (w : Service η ℓ) (out : Except Raised α) : List (Resource η ℓ) :=
  (match o with
    | .updateEndpoint .. => withHeader w []
    | _ => []) ++ unlessCleared w out

theorem leaves_createEntry (query : Query) :
    let o : Operation := .createEntry query
    Leaves [] (o.run json addr) w (left o w (conclude json o w.code w.body))
      (conclude json o w.code w.body) := by
  intro o
  obtain ⟨url, hurl⟩ := requestUrl_one addr endpointPrefix
  refine leaves_curlReqHandle ?_
  simp only [cleared_bind]
  refine leaves_raise hurl (leaves_append ?_)
  refine leaves_setopt (leaves_setopt (leaves_setopt (leaves_setopt (leaves_setopt
    (leaves_setopt (leaves_perform ?_))))))
  exact leaves_free (leaves_cleared [] (by simp) (conclude json o w.code w.body))

theorem handleReq_eq_conclude (code : Nat) (body : String) :
    handleReq code (isOpOk json body) = handleReq code (isOpOk json body) >>= fun ok =>
      if ok = true then .ok true else .ok false := by
  cases handleReq code (isOpOk json body) with
  | error e => rfl
  | ok b => cases b <;> rfl

omit [DecidableEq η] [DecidableEq ℓ] in
theorem withHeader_nil_append (rest : List (Resource η ℓ)) :
    withHeader w [] ++ rest = withHeader w rest := by
  simp [withHeader]

theorem leaves_updateEndpoint {query : Query} (toAdd : DbEndpoint)
    (hsend : Sendable (.updateEndpoint query toAdd)) :
    let o : Operation := .updateEndpoint query toAdd
    Leaves [] (o.run json addr) w (left o w (conclude json o w.code w.body))
      (conclude json o w.code w.body) := by
  intro o
  obtain ⟨q, hq⟩ := hsend
  obtain ⟨url, hurl⟩ := requestUrl_one addr q
  have hlist : Resource.handle w.curl ∉ withHeader w [] := by
    unfold withHeader
    cases w.header <;> simp
  have hend := leaves_cleared (withHeader w []) hlist (handleReq w.code (isOpOk json w.body))
  rw [withHeader_nil_append [Resource.handle w.curl]] at hend
  have hout : conclude json o w.code w.body = handleReq w.code (isOpOk json w.body) :=
    (handleReq_eq_conclude w.code w.body).symm
  rw [hout]
  refine leaves_curlReqHandle ?_
  simp only [cleared_bind]
  refine leaves_raise hq (leaves_raise hurl (leaves_append ?_))
  refine leaves_setopt (leaves_setopt (leaves_setopt (leaves_setopt (leaves_setopt
    (leaves_setopt (leaves_perform ?_))))))
  exact hend

/-- The operations without a header list set four options and make the request. -/
theorem leaves_plain {paths : List String} (hurl : ∃ url, requestUrl addr paths = .ok url)
    (option₁ option₂ option₃ option₄ : String → Setopt ℓ) (x : Nat → String → Except Raised α) :
    Leaves [] (curlReqHandle fun curl => do
      let reqAddr ← raise (requestUrl addr paths)
      Roulette.setopt curl (option₁ reqAddr)
      Roulette.setopt curl (option₂ reqAddr)
      Roulette.setopt curl (option₃ reqAddr)
      Roulette.setopt curl (option₄ reqAddr)
      let (res, pieces) ← Prog.perform (Op.perform curl)
      raise (x res (pieces.foldl curlCallback "")))
      w (unlessCleared w (x w.code w.body)) (x w.code w.body) := by
  obtain ⟨url, hurl⟩ := hurl
  refine leaves_curlReqHandle ?_
  simp only [cleared_bind]
  refine leaves_raise hurl (leaves_setopt (leaves_setopt (leaves_setopt (leaves_setopt
    (leaves_perform ?_)))))
  exact leaves_cleared [] (by simp) (x w.code w.body)

/-- How an operation with a URL ends, and what it leaves. -/
theorem leaves_run (o : Operation) (hsend : Sendable o) :
    Leaves [] (o.run json addr) w (left o w (conclude json o w.code w.body))
      (conclude json o w.code w.body) := by
  have hendpoint := requestUrl_two addr (show (cStr endpointPrefix).toList.getLast? = some '/' by decide)
  have hroute := requestUrl_two addr (show (cStr routePrefix).toList.getLast? = some '/' by decide)
  cases o with
  | createEntry query => exact leaves_createEntry query
  | updateEndpoint query toAdd => exact leaves_updateEndpoint toAdd hsend
  | getEntry id =>
    exact leaves_plain (hendpoint id) (fun url => .url (cStr url)) (fun _ => .customRequest "GET")
      (fun _ => .writeFunction) (fun _ => .writeData) (conclude json (.getEntry id))
  | deleteEntry id =>
    have hout : conclude json (.deleteEntry id) w.code w.body = handleReq w.code (isOpOk json w.body) :=
      (handleReq_eq_conclude w.code w.body).symm
    rw [hout]
    exact leaves_plain (hendpoint id) (fun url => .url (cStr url)) (fun _ => .customRequest "DELETE")
      (fun _ => .writeFunction) (fun _ => .writeData) (fun code body => handleReq code (isOpOk json body))
  | getRouteList pId =>
    exact leaves_plain (hroute (Model.toString pId.toNat)) (fun _ => .customRequest "GET")
      (fun url => .url (cStr url)) (fun _ => .writeFunction) (fun _ => .writeData)
      (conclude json (.getRouteList pId))

omit [DecidableEq η] [DecidableEq ℓ] in
theorem run_ends (json : JsonCpp) (addr : Address) (o : Operation) (hsend : Sendable o)
    (w : Service η ℓ) :
    ((o.run json addr).exec Service.answer w).2 = conclude json o w.code w.body := by
  classical
  exact (leaves_run o hsend).ends

section NoExn
variable {α β : Type} {x : Except Raised α} {f : α → Except Raised β}

/-- The strings of a query never give one of the errors of a request. -/
def NoExn (x : Except Raised α) : Prop := ∀ e, x ≠ .error (.exn e)

theorem NoExn.bind (h : NoExn x) (hf : ∀ a, NoExn (f a)) : NoExn (x >>= f) := by
  cases x with
  | error e =>
    intro e' heq
    cases heq
    exact h e' rfl
  | ok a => exact hf a

theorem noExn_ok (a : α) : NoExn (.ok a) := by
  intro e heq
  cases heq

theorem noExn_addPath (b : UrlBuilder) (path : String) : NoExn (b.addPath path) := by
  intro e
  simp only [UrlBuilder.addPath]
  split
  · simp
  · split
    · simp
    · split <;> simp

theorem noExn_addFields (q : Query) (b : UrlBuilder) : NoExn (q.addFields b) :=
  (noExn_addPath b _).bind fun b => (noExn_addPath b _).bind fun b => (noExn_addPath b _).bind
    fun b => (noExn_addPath b _).bind fun b => (noExn_addPath b _).bind fun b => noExn_addPath b _

theorem noExn_toUrl (q : Query) : NoExn q.toUrl := by
  refine (noExn_addPath _ _).bind fun b => ?_
  rcases q.endpoints with _ | ⟨e, _ | ⟨e', es⟩⟩
  · exact (noExn_addPath b _).bind fun b => (noExn_addFields q b).bind fun b => noExn_ok _
  · exact (noExn_addPath b _).bind fun b => (noExn_addFields q b).bind fun b =>
      (noExn_addPath b _).bind fun b => (noExn_addPath b _).bind fun b => noExn_ok _
  · intro e heq
    cases heq

end NoExn

/-- An operation without a URL stops there, with its handle. -/
theorem leaves_unsendable (json : JsonCpp) (addr : Address) (w : Service η ℓ) (o : Operation)
    (hsend : ¬ Sendable o) :
    ∃ e, (∀ what, e ≠ .exn what) ∧
      Leaves [] (o.run json addr) w [.handle w.curl] (.error e) := by
  cases o with
  | updateEndpoint query toAdd =>
    cases hurl : query.toUrl with
    | ok url => exact absurd ⟨url, hurl⟩ hsend
    | error e =>
      refine ⟨e, fun what heq => noExn_toUrl query what (by rw [hurl, heq]), ?_⟩
      refine leaves_curlReqHandle ?_
      simp only [cleared_bind, hurl]
      exact Ledger.Leaves.throw e
  | createEntry query => exact absurd trivial hsend
  | getEntry id => exact absurd trivial hsend
  | deleteEntry id => exact absurd trivial hsend
  | getRouteList pId => exact absurd trivial hsend

/-- A value, or `db::exceptions::ios_base::failure`. -/
def Contained (out : Except Raised α) : Prop :=
  (∃ a, out = .ok a) ∨ ∃ what, out = .error (.exn (.failure what))

omit [DecidableEq η] [DecidableEq ℓ] in
theorem conclude_contained_iff (o : Operation) : Contained (conclude json o w.code w.body) ↔
    (w.code = curleOk → ∀ reply, json.parse w.body = some reply → Readable o reply) := by
  by_cases hcode : w.code = curleOk
  · cases hparse : json.parse w.body with
    | none =>
      obtain ⟨what, hwhat⟩ : ∃ what, conclude json o w.code w.body = .error (.exn (.failure what)) :=
        conclude_failure json o (.inr hparse)
      exact ⟨fun _ _ _ h => absurd h (by simp), fun _ => .inr ⟨what, hwhat⟩⟩
    | some reply =>
      have hgives := gives_conclude json o hparse
      rw [hcode]
      constructor
      · intro h _ reply' heq
        cases heq
        rcases hgives with ⟨hread, _⟩ | ⟨_, herror⟩
        · exact hread
        · rw [herror] at h
          simp [Contained] at h
      · intro h
        exact .inl (hgives.iff.mpr (h rfl reply rfl))
  · exact ⟨fun _ h => absurd h hcode, fun _ => .inr (conclude_failure json o (.inl hcode))⟩

theorem conclude_ok_iff (json : JsonCpp) (o : Operation) (code : Nat) (body : String) :
    (∃ a, conclude json o code body = .ok a) ↔
      code = curleOk ∧ ∃ reply, json.parse body = some reply ∧ Readable o reply := by
  constructor
  · intro h
    obtain ⟨a, ha⟩ := h
    by_cases hbad : code ≠ curleOk ∨ json.parse body = none
    · obtain ⟨what, hwhat⟩ := conclude_failure json o hbad
      rw [hwhat] at ha
      cases ha
    · obtain ⟨hcode, hparse⟩ := not_or.mp hbad
      have hcode := not_not.mp hcode
      obtain ⟨reply, hparse⟩ := Option.ne_none_iff_exists'.mp hparse
      subst hcode
      exact ⟨rfl, reply, hparse, (gives_conclude json o hparse).iff.mp ⟨a, ha⟩⟩
  · intro h
    obtain ⟨rfl, reply, hparse, hread⟩ := h
    exact (gives_conclude json o hparse).iff.mpr hread

omit [DecidableEq η] [DecidableEq ℓ] in
/-- The reply decides: what is not JSON is contained, and so is an object or null
that has, when it says ok, the content the operation reads. -/
theorem contained_iff (json : JsonCpp) (addr : Address) (o : Operation) (w : Service η ℓ) :
    Contained ((o.run json addr).exec Service.answer w).2 ↔
      Sendable o ∧ (w.code = curleOk → ∀ reply, json.parse w.body = some reply → Readable o reply) := by
  classical
  by_cases hsend : Sendable o
  · rw [run_ends json addr o hsend, conclude_contained_iff, and_iff_right hsend]
  · obtain ⟨e, he, hleaves⟩ := leaves_unsendable json addr w o hsend
    rw [hleaves.ends]
    constructor
    · intro h
      rcases h with ⟨a, ha⟩ | ⟨what, hwhat⟩
      · cases ha
      · cases hwhat
        exact absurd rfl (he _)
    · exact fun h => absurd h.1 hsend

/-- An array as the reply ends the operation with JsonCpp's own error. -/
theorem array_escapes :
    let json := JsonCpp.ofText (fun text => if text = "[]" then some (.array []) else none) fun _ => ""
    let run := (Operation.run json ⟨"10.0.3.1", 80, false⟩ (.deleteEntry "5e")).exec
      Service.answer (⟨4, some 5, curleOk, ["[]"]⟩ : Service Nat Nat)
    run.2 = .error (.exn .json) ∧ ¬ Contained run.2 := by
  intro json run
  have hends : run.2 = .error (.exn .json) := run_ends json _ (.deleteEntry "5e") trivial _
  refine ⟨hends, fun h => ?_⟩
  rw [hends] at h
  simp [Contained] at h

def Frees : Operation → Service η ℓ → Prop
  | .updateEndpoint query toAdd, w => Sendable (.updateEndpoint query toAdd) ∧ w.header = none
  | _, _ => True

omit [DecidableEq η] [DecidableEq ℓ] in
theorem left_eq_nil_iff (o : Operation) (w : Service η ℓ) (out : Except Raised α) (hsend : Sendable o) :
    left o w out = [] ↔ (∃ a, out = .ok a) ∧ Frees o w := by
  have hcleared : unlessCleared w out = [] ↔ ∃ a, out = .ok a := by
    cases out <;> simp [unlessCleared]
  have hheader : withHeader w [] = [] ↔ w.header = none := by
    simp [withHeader]
  unfold left
  rw [List.append_eq_nil_iff, hcleared, and_comm]
  refine and_congr_right fun _ => ?_
  cases o with
  | updateEndpoint query toAdd => exact hheader.trans (and_iff_right hsend).symm
  | createEntry query => exact iff_of_true rfl trivial
  | getEntry id => exact iff_of_true rfl trivial
  | deleteEntry id => exact iff_of_true rfl trivial
  | getRouteList pId => exact iff_of_true rfl trivial

/-- A request that is over has released everything when the reply could be read to
its end, and when it is not an update that has a header list. -/
theorem released_iff (json : JsonCpp) (addr : Address) (o : Operation) (w : Service η ℓ) :
    acquired.after [] ((o.run json addr).exec Service.answer w).1 = some [] ↔
      (w.code = curleOk ∧ ∃ reply, json.parse w.body = some reply ∧ Readable o reply) ∧
      Frees o w := by
  by_cases hsend : Sendable o
  · rw [(leaves_run o hsend).held, Option.some.injEq, left_eq_nil_iff o w _ hsend, conclude_ok_iff]
  · obtain ⟨e, _, hleaves⟩ := leaves_unsendable json addr w o hsend
    rw [hleaves.held]
    refine iff_of_false (by simp) fun h => hsend ?_
    cases o with
    | updateEndpoint query toAdd => exact h.2.1
    | createEntry query => trivial
    | getEntry id => trivial
    | deleteEntry id => trivial
    | getRouteList pId => trivial

/-- A transfer that fails leaves the handle, and an update that goes well its header list. -/
theorem handle_and_list_left :
    let json := JsonCpp.ofText
      (fun text => if text = "\x7b\"result\": \"ok\"\x7d" then some (.object [("result", .string "ok")])
        else none)
      fun _ => "\x7b\n\t\"ipIngress\" : \"10.0.2.1\",\n\t\"socketIdIngress\" : \"4\"\n\x7d\n"
    let addr : Address := ⟨"10.0.3.1", 80, false⟩
    let query : Query := built [.ipSrc "10.0.0.1", .ipDst "10.0.1.1", .portSrc 5001, .portDst 80,
      .idSfc "7", .endpointType .ingressT]
    acquired.after [] ((Operation.run json addr (.deleteEntry "5e")).exec Service.answer
      (⟨4, some 5, 7, []⟩ : Service Nat Nat)).1 = some [.handle 4] ∧
    acquired.after [] ((Operation.run json addr (.updateEndpoint query ⟨"10.0.2.1", "4", .ingressT⟩)).exec
      Service.answer (⟨4, some 5, curleOk, ["\x7b\"result\": \"ok\"\x7d"]⟩ : Service Nat Nat)).1 =
        some [.list 5] := by
  intro json addr query
  have hsend : Sendable (.updateEndpoint query ⟨"10.0.2.1", "4", .ingressT⟩) :=
    ⟨"endpoints/ingress/10.0.0.1/10.0.1.1/5001/80/7/tcp", by decide⟩
  exact ⟨(leaves_run (.deleteEntry "5e") trivial).held, (leaves_run _ hsend).held⟩

end Ironhide.Proofs.Requests
