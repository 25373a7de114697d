import Ironhide.Proofs.Table

namespace Ironhide.Proofs.Registration
open Model Lib.StdMap Lib.SearchTree Table

variable {φ : Type} [Descriptor φ]

section Failing
variable {sh : Shaping ConnectionEntry}

def contents (e : Endpoint (stdMap sh) φ) :
    List (ConnectionEntry × φ × SockaddrIn) × List (ConnectionEntry × String) :=
  (e.connectionMap.1.entries, e.mapToRemote.1.entries)

/-- If the call is ended by an exception of roulette, it has changed nothing. -/
def FailsCleanly (e : Endpoint (stdMap sh) φ) (c : Call φ) : Prop :=
  ∀ x, (c.outcome e).result = .error x → contents (c.outcome e).endpoint = contents e

/-- What roulette answers is no exception, or the call has not changed
`connection_map` before asking: its insertion is refused, or it finds nothing to erase. -/
def AsksFirst (e : Endpoint (stdMap sh) φ) : Call φ → Prop
  | .addEntry ce _ _ _ _ (.error _) => e.connectionMap.1.refuses ConnectionEntry.lt ce = true
  | .deleteEntry ce (.error _) => (stdMap sh).find e.connectionMap ce = none
  | _ => True

/-- A registration that fails has already put its node in. -/
theorem addEntry_failsCleanly_iff (e : Endpoint (stdMap sh) φ) (ce : ConnectionEntry) (fd : φ)
    (sockin : SockaddrIn) (endpoint : EndpointType) (protocol : ProtocolType) (x : Exn) :
    contents (e.addEntry ce fd sockin endpoint protocol (.error x)).endpoint = contents e ↔
      e.connectionMap.1.refuses ConnectionEntry.lt ce = true := by
  rw [← Tree.entries_insert_iff (fd, sockin), contents, contents, Prod.mk.injEq,
    Endpoint.connectionMap_addEntry]
  change (sh.run _ _).entries = _ ∧ _ ↔ _
  rw [sh.entries_run]
  exact and_iff_left rfl

omit [Descriptor φ] in
/-- A deletion that fails has already taken its node out. -/
theorem deleteEntry_failing (e : Endpoint (stdMap sh) φ) (ce : ConnectionEntry) (x : Exn)
    {v : φ × SockaddrIn} (h : (stdMap sh).find e.connectionMap ce = some v) :
    contents (e.deleteEntry ce (.error x)).endpoint ≠ contents e := by
  intro hsame
  rw [contents, contents, Prod.mk.injEq, Endpoint.connectionMap_deleteEntry, h] at hsame
  have hlen := Tree.length_erase h
  have hentries : (sh.run _ (e.connectionMap.1.erase ConnectionEntry.lt ce)).entries = _ := hsame.1
  rw [sh.entries_run] at hentries
  rw [hentries] at hlen
  exact Nat.lt_irrefl _ hlen

/-- A call leaves both maps alone when it fails exactly if it asks roulette first. -/
theorem failsCleanly_iff (sh : Shaping ConnectionEntry) (e : Endpoint (stdMap sh) φ) (c : Call φ) :
    FailsCleanly e c ↔ AsksFirst e c := by
  cases c with
  | addEntry ce fd sockin endpoint protocol answer =>
    cases answer with
    | error x =>
      rw [AsksFirst, ← addEntry_failsCleanly_iff e ce fd sockin endpoint protocol x]
      exact ⟨fun h => h x rfl, fun h _ _ => h⟩
    | ok response =>
      refine ⟨fun _ => trivial, fun _ x hx => ?_⟩
      simp only [Call.outcome, Endpoint.addEntry] at hx
      split at hx
      · cases hx
      · cases hx
  | updateEntry ce fd sockin endpoint answer =>
    refine ⟨fun _ => trivial, fun _ x hx => ?_⟩
    cases answer with
    | error y => rfl
    | ok b => cases hx
  | deleteEntry ce answer =>
    cases hf : (stdMap sh).find e.connectionMap ce with
    | none =>
      have hnone : (e.deleteEntry ce answer).result = .ok () := by
        simp only [Endpoint.deleteEntry, hf]
      refine ⟨fun _ => ?_, fun _ x hx => ?_⟩
      · cases answer with
        | error y => exact hf
        | ok b => trivial
      · rw [Call.outcome, hnone] at hx
        cases hx
    | some v =>
      cases answer with
      | error y =>
        rw [AsksFirst, hf]
        refine ⟨fun h => ?_, fun h => by cases h⟩
        refine absurd (h y ?_) (deleteEntry_failing e ce y hf)
        simp only [Call.outcome, Endpoint.deleteEntry, hf]
      | ok b =>
        refine ⟨fun _ => trivial, fun _ x hx => ?_⟩
        simp only [Call.outcome, Endpoint.deleteEntry, hf] at hx
        cases hx
  | retrieveConnection2 ce => exact ⟨fun _ => trivial, fun _ _ _ => rfl⟩

/-- The first registration of a connection, with roulette out of reach: the
entry is there nevertheless. -/
theorem failed_registration_stays :
    ¬ ∀ (e : Endpoint (stdMap plain) Int) (c : Call Int), FailsCleanly e c := by
  intro h
  have hsame := h (.new _ _ "10.0.0.9" 57000 57001)
    (.addEntry ⟨"10.0.0.1", "10.0.1.1", 5000, 80, "0", .tcp⟩ 5 SockaddrIn.zero .ingressT .tcp
      (.error (.failure "Error while making the requestto route backend"))) _ rfl
  cases congrArg (fun maps => maps.1.length) hsame

end Failing

def publishes : Request → List String
  | .createEntry query => query.endpoints.map DbEndpoint.socketId
  | .updateEndpoint _ toAdd => [toAdd.socketId]
  | .deleteEntry _ => []

/-- What a lookup gives after some more calls is the pair the call was made
with, whose descriptor is the one the call has told roulette. -/
def Agrees (e : Endpoint (finite ConnectionEntry) φ) (c : Call φ) (after : List (Call φ))
    (ce : ConnectionEntry) (fd : φ) (addr : SockaddrIn) : Prop :=
  (runCalls e (c :: after)).retrieveConnection2 ce = (fd, addr) ∧
    (c.outcome e).request.map publishes = some [fdToString fd]

theorem published {T : MapOps ConnectionEntry} {e : Endpoint T φ} {c : Call φ}
    {ce : ConnectionEntry} {v : φ × SockaddrIn} (h : c.inserted = some (ce, v)) :
    (c.outcome e).request.map publishes = some [fdToString v.1] := by
  cases c with
  | addEntry ce' fd sockin endpoint protocol answer =>
    cases h
    cases answer with
    | error x => rfl
    | ok response =>
      simp only [Call.outcome, Endpoint.addEntry]
      split <;> rfl
  | updateEntry ce' fd sockin endpoint answer =>
    cases answer with
    | error x => cases h
    | ok b =>
      cases h
      rfl
  | deleteEntry ce' answer => cases h
  | retrieveConnection2 ce' => cases h

/-- The table has what was published exactly when the key was absent before the
call, or had the very same pair. -/
theorem agrees_iff (myIp : String) (extPort intPort : BitVec 16) (before after : List (Call φ))
    (c : Call φ) (ce : ConnectionEntry) (fd : φ) (addr : SockaddrIn)
    (hi : c.inserted = some (ce, fd, addr)) (hafter : ∀ d ∈ after, ¬ d.changes ce) :
    Agrees (runCalls (.new _ _ myIp extPort intPort) before) c after ce fd addr ↔
      (runCalls (.new (finite ConnectionEntry) φ myIp extPort intPort) before).connectionMap ce ∈
        [none, some (fd, addr)] := by
  generalize runCalls (.new (finite ConnectionEntry) φ myIp extPort intPort) before = e
  have hT := finite_finiteOn ConnectionEntry
  have hc := found_inserted hT (e := e) trivial trivial hi
  have hfound := found_runCalls hT after trivial (fun _ _ => trivial) trivial
    (fun d hd hdel => hafter d hd (changes_of_deletes hdel)) hc
  have hget : (runCalls e (c :: after)).retrieveConnection2 ce =
      (e.connectionMap ce).getD (fd, addr) :=
    Endpoint.retrieveConnection2_found hfound
  rw [Agrees, hget, published hi]
  cases e.connectionMap ce with
  | none => simp
  | some v => simp

def exchangeOn (fd : Int) : Call Int :=
  .updateEntry ⟨"10.0.0.1", "10.0.1.1", 5000, 53, "0", .udp⟩ fd SockaddrIn.zero .egressT (.ok true)

theorem first_update_agrees :
    Agrees (runCalls (.new _ _ "10.0.0.9" 57000 57001) []) (exchangeOn 7) [] (exchangeOn 7).key 7
      SockaddrIn.zero :=
  (agrees_iff "10.0.0.9" 57000 57001 [] [] (exchangeOn 7) (exchangeOn 7).key 7 SockaddrIn.zero rfl
    (by simp)).mpr (by decide)

/-- The second packet of the flow publishes 8, and a lookup gives 7. -/
theorem second_update_not_stored :
    ¬ ∀ (before after : List (Call Int)) (c : Call Int) (ce : ConnectionEntry) (fd : Int)
      (addr : SockaddrIn), c.inserted = some (ce, fd, addr) → (∀ d ∈ after, ¬ d.changes ce) →
      Agrees (runCalls (.new _ _ "10.0.0.9" 57000 57001) before) c after ce fd addr := by
  intro h
  have hagrees := h [exchangeOn 7] [] (exchangeOn 8) (exchangeOn 8).key 8 SockaddrIn.zero rfl
    (by simp)
  exact absurd hagrees.1 (by decide)

end Ironhide.Proofs.Registration
