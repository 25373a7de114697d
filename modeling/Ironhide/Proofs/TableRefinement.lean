import Ironhide.Proofs.Table

namespace Ironhide.Proofs.TableRefinement
open Model Lib.StdMap Lib.SearchTree Table

variable {T : MapOps ConnectionEntry} {φ : Type} [Descriptor φ]

/-- What a call lets its caller and roulette see: how it ends, the connection it
gives, and what it asks. The ids that are held show in the requests to delete. -/
structure Seen (φ : Type) where
  result : Except Exn Unit
  sock : Option (φ × SockaddrIn)
  request : Option Request

def seen (e : Endpoint T φ) (c : Call φ) : Seen φ where
  result := (c.outcome e).result
  sock := match c with
    | .retrieveConnection2 ce => some (e.retrieveConnection2 ce)
    | _ => none
  request := (c.outcome e).request

def behaviour : Endpoint T φ → List (Call φ) → List (Seen φ)
  | _, [] => []
  | e, c :: cs => seen e c :: behaviour (c.run e) cs

/-- The endpoint over the finite map that its `std::map`s are meant to be. -/
abbrev Ideal (φ : Type) := Endpoint (finite ConnectionEntry) φ

section Simulation
variable {K : Set ConnectionEntry} {Good : {α : Type} → T.M α → Prop}

structure Simulates (K : Set ConnectionEntry) (Good : {α : Type} → T.M α → Prop)
    (e : Endpoint T φ) (f : Ideal φ) : Prop where
  connectionMap : Tracks T K Good e.connectionMap f.connectionMap
  mapToRemote : Tracks T K Good e.mapToRemote f.mapToRemote
  myIp : e.myIp = f.myIp
  intPort : e.intPort = f.intPort

omit [Descriptor φ] in
theorem simulates_new (hT : FiniteOn T K Good) (myIp : String) (extPort intPort : BitVec 16) :
    Simulates K Good (.new T φ myIp extPort intPort : Endpoint T φ)
      (.new (finite ConnectionEntry) φ myIp extPort intPort) :=
  ⟨hT.tracks_empty, hT.tracks_empty, rfl, rfl⟩

variable {e : Endpoint T φ} {f : Ideal φ}

theorem Simulates.dbEndpoint (h : Simulates K Good e f) (fd : φ) (endpoint : EndpointType) :
    e.dbEndpoint fd endpoint = f.dbEndpoint fd endpoint := by
  rw [Endpoint.dbEndpoint, Endpoint.dbEndpoint, h.myIp, h.intPort]

theorem Simulates.addEntry (h : Simulates K Good e f) (hT : FiniteOn T K Good)
    {ce : ConnectionEntry} (hk : ce ∈ K) (fd : φ) (sockin : SockaddrIn) (endpoint : EndpointType)
    (protocol : ProtocolType) (answer : Except Exn String) :
    let o := e.addEntry ce fd sockin endpoint protocol answer
    let o' := f.addEntry ce fd sockin endpoint protocol answer
    o.result = o'.result ∧ o.request = o'.request ∧ Simulates K Good o.endpoint o'.endpoint := by
  have hinsert := h.connectionMap.insert hT hk (fd, sockin)
  simp only [Endpoint.addEntry, h.dbEndpoint]
  cases answer with
  | error x => exact ⟨rfl, rfl, hinsert, h.mapToRemote, h.myIp, h.intPort⟩
  | ok response =>
    by_cases hr : response = ""
    · simp only [hr, if_true]
      exact ⟨trivial, trivial, hinsert, h.mapToRemote, h.myIp, h.intPort⟩
    · simp only [hr, if_false]
      exact ⟨trivial, trivial, hinsert, h.mapToRemote.assign hT hk response, h.myIp, h.intPort⟩

theorem Simulates.updateEntry (h : Simulates K Good e f) (hT : FiniteOn T K Good)
    {ce : ConnectionEntry} (hk : ce ∈ K) (fd : φ) (sockin : SockaddrIn) (endpoint : EndpointType)
    (answer : Except Exn Bool) :
    let o := e.updateEntry ce fd sockin endpoint answer
    let o' := f.updateEntry ce fd sockin endpoint answer
    o.result = o'.result ∧ o.request = o'.request ∧ Simulates K Good o.endpoint o'.endpoint := by
  simp only [Endpoint.updateEntry, h.dbEndpoint]
  cases answer with
  | error x => exact ⟨rfl, rfl, h⟩
  | ok b =>
    exact ⟨rfl, rfl, h.connectionMap.insert hT hk (fd, sockin), h.mapToRemote, h.myIp, h.intPort⟩

omit [Descriptor φ] in
theorem Simulates.deleteEntry (h : Simulates K Good e f) (hT : FiniteOn T K Good)
    {ce : ConnectionEntry} (hk : ce ∈ K) (answer : Except Exn Bool) :
    let o := e.deleteEntry ce answer
    let o' := f.deleteEntry ce answer
    o.result = o'.result ∧ o.request = o'.request ∧ Simulates K Good o.endpoint o'.endpoint := by
  have hfind := h.connectionMap.2 ce hk
  have hid := h.mapToRemote.2 ce hk
  have herase := h.connectionMap.erase hT hk
  have hinsert := h.mapToRemote.insert hT hk ""
  simp only [Endpoint.deleteEntry, finite_find, hfind, hid]
  cases f.connectionMap ce with
  | none => exact ⟨rfl, rfl, h⟩
  | some sock =>
    cases answer with
    | error x => exact ⟨rfl, rfl, herase, hinsert, h.myIp, h.intPort⟩
    | ok b => exact ⟨rfl, rfl, herase, hinsert.erase hT hk, h.myIp, h.intPort⟩

theorem Simulates.retrieveConnection2 (h : Simulates K Good e f) {ce : ConnectionEntry}
    (hk : ce ∈ K) : e.retrieveConnection2 ce = f.retrieveConnection2 ce := by
  rw [Endpoint.retrieveConnection2, Endpoint.retrieveConnection2, h.connectionMap.2 ce hk]
  rfl

/-- One call shows the same on both, and keeps them together. -/
theorem Simulates.step (h : Simulates K Good e f) (hT : FiniteOn T K Good) {c : Call φ}
    (hc : c.key ∈ K) : seen e c = seen f c ∧ Simulates K Good (c.run e) (c.run f) := by
  cases c with
  | addEntry ce fd sockin endpoint protocol answer =>
    obtain ⟨hresult, hrequest, hnext⟩ := h.addEntry hT hc fd sockin endpoint protocol answer
    exact ⟨congrArg₂ (fun r q => Seen.mk r none q) hresult hrequest, hnext⟩
  | updateEntry ce fd sockin endpoint answer =>
    obtain ⟨hresult, hrequest, hnext⟩ := h.updateEntry hT hc fd sockin endpoint answer
    exact ⟨congrArg₂ (fun r q => Seen.mk r none q) hresult hrequest, hnext⟩
  | deleteEntry ce answer =>
    obtain ⟨hresult, hrequest, hnext⟩ := h.deleteEntry hT hc answer
    exact ⟨congrArg₂ (fun r q => Seen.mk r none q) hresult hrequest, hnext⟩
  | retrieveConnection2 ce =>
    have hsock : e.retrieveConnection2 ce = f.retrieveConnection2 ce := h.retrieveConnection2 hc
    refine ⟨?_, h⟩
    simp only [seen, Call.outcome, hsock]

theorem Simulates.behaviour (h : Simulates K Good e f) (hT : FiniteOn T K Good)
    (cs : List (Call φ)) (hcs : ∀ c ∈ cs, c.key ∈ K) :
    behaviour e cs = TableRefinement.behaviour f cs := by
  induction cs generalizing e f with
  | nil => rfl
  | cons c cs ih =>
    obtain ⟨hsame, hnext⟩ := h.step hT (hcs c List.mem_cons_self)
    rw [TableRefinement.behaviour, TableRefinement.behaviour, hsame,
      ih hnext fun d hd => hcs d (List.mem_cons_of_mem _ hd)]

end Simulation

/-- Every sequence of calls on the keys shows over both maps the same. -/
def BehavesAsFinite (T : MapOps ConnectionEntry) (K : Set ConnectionEntry) : Prop :=
  ∀ (myIp : String) (extPort intPort : BitVec 16) (cs : List (Call Int)), (∀ c ∈ cs, c.key ∈ K) →
    behaviour (.new T Int myIp extPort intPort) cs =
      behaviour (.new (finite ConnectionEntry) Int myIp extPort intPort) cs

theorem behavesAsFinite_of_finiteOn {K : Set ConnectionEntry} {Good : {α : Type} → T.M α → Prop}
    (hT : FiniteOn T K Good) : BehavesAsFinite T K :=
  fun myIp extPort intPort cs hcs => (simulates_new hT myIp extPort intPort).behaviour hT cs hcs

/-- Two keys each below the other: the lookup that follows their registration
finds the second in the finite map only. -/
theorem not_behavesAsFinite {K : Set ConnectionEntry} {a b : ConnectionEntry} (ha : a ∈ K)
    (hb : b ∈ K) (hab : a.lt b = true) (hba : b.lt a = true) :
    ¬ BehavesAsFinite (stdMap plain) K := by
  intro h
  have hkeys : ∀ c ∈ [register a 3, register b 4, .retrieveConnection2 b], c.key ∈ K := by
    simp only [List.mem_cons, List.not_mem_nil, or_false]
    rintro c (rfl | rfl | rfl)
    · exact ha
    · exact hb
    · exact hb
  have hsame := h "" 0 0 _ hkeys
  have hne : b ≠ a := by
    rintro rfl
    rw [ConnectionEntry.lt_irrefl] at hab
    exact Bool.noConfusion hab
  -- only the lookup tells the two apart
  simp only [behaviour, List.cons.injEq, seen, Seen.mk.injEq, Option.some.injEq] at hsame
  have hlost := hsame.2.2.1.2.1
  simp [Call.run, register, Endpoint.new, Endpoint.retrieveConnection2,
    lost_of_both_below hab hba, hne] at hlost

/-- The `std::map`s, whatever the shape of their trees, cannot be told from
finite maps exactly where `operator<` never puts two keys below each other. -/
theorem behaves_as_finite_iff (K : Set ConnectionEntry) :
    (∀ sh : Shaping ConnectionEntry, BehavesAsFinite (stdMap sh) K) ↔ ConnectionEntry.Chain K := by
  constructor
  · intro h a ha b hb hab
    by_contra hba
    exact not_behavesAsFinite ha hb hab (by simpa using hba) (h plain)
  · exact fun hK sh => behavesAsFinite_of_finiteOn (stdMap_finiteOn sh hK)

end Ironhide.Proofs.TableRefinement
