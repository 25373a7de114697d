import Ironhide.Model.Endpoint
import Mathlib.Data.List.Induction

namespace Ironhide.Proofs.Table
open Model Lib.StdMap Lib.SearchTree

/-- A call on an endpoint's table, with what roulette answers to it. -/
inductive Call (φ : Type) where
  | addEntry (ce : ConnectionEntry) (fd : φ) (sockin : SockaddrIn) (endpoint : EndpointType)
      (protocol : ProtocolType) (answer : Except Exn String)
  | updateEntry (ce : ConnectionEntry) (fd : φ) (sockin : SockaddrIn) (endpoint : EndpointType)
      (answer : Except Exn Bool)
  | deleteEntry (ce : ConnectionEntry) (answer : Except Exn Bool)
  | retrieveConnection2 (ce : ConnectionEntry)

namespace Call

variable {T : MapOps ConnectionEntry} {φ : Type}

def key : Call φ → ConnectionEntry
  | addEntry ce .. => ce
  | updateEntry ce .. => ce
  | deleteEntry ce _ => ce
  | retrieveConnection2 ce => ce

/-- The pair a call puts in when its key is absent. -/
def inserted : Call φ → Option (ConnectionEntry × φ × SockaddrIn)
  | addEntry ce fd sockin _ _ _ => some (ce, fd, sockin)
  | updateEntry ce fd sockin _ (.ok _) => some (ce, fd, sockin)
  | updateEntry _ _ _ _ (.error _) => none
  | deleteEntry .. => none
  | retrieveConnection2 _ => none

def deletes (ce : ConnectionEntry) : Call φ → Prop
  | deleteEntry ce' _ => ce' = ce
  | _ => False

def changes (ce : ConnectionEntry) : Call φ → Prop
  | retrieveConnection2 _ => False
  | c => c.key = ce

def outcome [Descriptor φ] (e : Endpoint T φ) : Call φ → Outcome T φ
  | addEntry ce fd sockin endpoint protocol answer =>
    e.addEntry ce fd sockin endpoint protocol answer
  | updateEntry ce fd sockin endpoint answer => e.updateEntry ce fd sockin endpoint answer
  | deleteEntry ce answer => e.deleteEntry ce answer
  | retrieveConnection2 _ => ⟨.ok (), e, none⟩

def run [Descriptor φ] (e : Endpoint T φ) : Call φ → Endpoint T φ
  | addEntry ce fd sockin endpoint protocol answer =>
    (e.addEntry ce fd sockin endpoint protocol answer).endpoint
  | updateEntry ce fd sockin endpoint answer => (e.updateEntry ce fd sockin endpoint answer).endpoint
  | deleteEntry ce answer => (e.deleteEntry ce answer).endpoint
  | retrieveConnection2 _ => e

end Call

variable {T : MapOps ConnectionEntry} {φ : Type} [Descriptor φ]

omit [Descriptor φ] in
theorem changes_of_deletes {c : Call φ} {ce : ConnectionEntry} (h : c.deletes ce) :
    c.changes ce := by
  cases c with
  | deleteEntry => exact h
  | _ => exact h.elim

def runCalls (e : Endpoint T φ) (cs : List (Call φ)) : Endpoint T φ := cs.foldl Call.run e

/-- What one call does to the table: it inserts a pair, erases a key that was
found, or leaves the table alone. -/
theorem run_cases (e : Endpoint T φ) (c : Call φ) :
    (∃ ce v, c.inserted = some (ce, v) ∧ c.key = ce ∧
      (c.run e).connectionMap = T.insert e.connectionMap ce v) ∨
    (∃ ce, c.deletes ce ∧ c.key = ce ∧ c.inserted = none ∧
      (c.run e).connectionMap = T.erase e.connectionMap ce) ∨
    (c.inserted = none ∧ (c.run e).connectionMap = e.connectionMap) := by
  cases c with
  | addEntry ce fd sockin endpoint protocol answer =>
    exact Or.inl ⟨ce, _, rfl, rfl, Endpoint.connectionMap_addEntry ..⟩
  | updateEntry ce fd sockin endpoint answer =>
    have h := e.connectionMap_updateEntry ce fd sockin endpoint answer
    cases answer with
    | error x => exact Or.inr (Or.inr ⟨rfl, h⟩)
    | ok b => exact Or.inl ⟨ce, _, rfl, rfl, h⟩
  | deleteEntry ce answer =>
    have h := e.connectionMap_deleteEntry ce answer
    cases hf : T.find e.connectionMap ce with
    | none =>
      rw [hf] at h
      exact Or.inr (Or.inr ⟨rfl, h⟩)
    | some sock =>
      rw [hf] at h
      exact Or.inr (Or.inl ⟨ce, rfl, rfl, rfl, h⟩)
  | retrieveConnection2 ce => exact Or.inr (Or.inr ⟨rfl, rfl⟩)

/-- The table as the endpoints have it: a search tree driven by `operator<`. -/
abbrev stdMap (sh : Shaping ConnectionEntry) : MapOps ConnectionEntry :=
  treeOps ConnectionEntry.lt sh

abbrev plain : Shaping ConnectionEntry := .keep ConnectionEntry

theorem stdMap_sound (sh : Shaping ConnectionEntry) : Sound (stdMap sh) :=
  treeOps_sound ConnectionEntry.eq_of_tie

/-- Over keys that `operator<` orders the table is a finite map. -/
theorem stdMap_finiteOn (sh : Shaping ConnectionEntry) {K : Set ConnectionEntry}
    (hK : ConnectionEntry.Chain K) :
    FiniteOn (stdMap sh) K fun m => m.1.Sorted ConnectionEntry.lt K :=
  treeOps_finiteOn hK.strictOn

/-- Every node of the table was put there by one of the calls. -/
theorem has_inserted (hT : Sound T) (myIp : String) (extPort intPort : BitVec 16)
    (cs : List (Call φ)) (k : ConnectionEntry) (v : φ × SockaddrIn)
    (h : T.Has (runCalls (.new T φ myIp extPort intPort) cs).connectionMap k v) :
    ∃ c ∈ cs, c.inserted = some (k, v) := by
  induction cs using List.reverseRecOn generalizing k v with
  | nil => exact absurd h (hT.has_empty k v)
  | append_singleton cs c ih =>
    simp only [runCalls, List.foldl_append, List.foldl_cons, List.foldl_nil] at h ih
    rcases run_cases (cs.foldl Call.run (.new T φ myIp extPort intPort)) c with
      ⟨ce, w, hi, _, hm⟩ | ⟨ce, _, _, _, hm⟩ | ⟨_, hm⟩
    · rw [hm] at h
      rcases hT.has_insert _ _ _ _ _ h with h | ⟨rfl, rfl⟩
      · obtain ⟨d, hd, hk⟩ := ih k v h
        exact ⟨d, by simp [hd], hk⟩
      · exact ⟨c, by simp, hi⟩
    · rw [hm] at h
      obtain ⟨d, hd, hk⟩ := ih k v (hT.has_erase _ _ _ _ h)
      exact ⟨d, by simp [hd], hk⟩
    · rw [hm] at h
      obtain ⟨d, hd, hk⟩ := ih k v h
      exact ⟨d, by simp [hd], hk⟩

/-- A lookup gives the not-found pair or a pair registered under an equal key. -/
theorem retrieved_is_registered (sh : Shaping ConnectionEntry) (myIp : String)
    (extPort intPort : BitVec 16) (cs : List (Call φ)) (ce : ConnectionEntry) :
    let sock := (runCalls (.new (stdMap sh) φ myIp extPort intPort) cs).retrieveConnection2 ce
    sock = (Descriptor.notFound, SockaddrIn.zero) ∨ ∃ c ∈ cs, c.inserted = some (ce, sock) := by
  simp only [Endpoint.retrieveConnection2]
  split
  · exact Or.inl rfl
  · rename_i sock hf
    exact Or.inr (has_inserted (stdMap_sound sh) myIp extPort intPort cs ce sock
      ((stdMap_sound sh).has_of_find _ _ _ hf))

section Finite
variable {K : Set ConnectionEntry} {Good : {α : Type} → T.M α → Prop}

theorem good_run (hT : FiniteOn T K Good) {e : Endpoint T φ} {c : Call φ}
    (he : Good e.connectionMap) (hc : c.key ∈ K) : Good (c.run e).connectionMap := by
  rcases run_cases e c with ⟨ce, v, _, hk, hm⟩ | ⟨ce, _, hk, _, hm⟩ | ⟨_, hm⟩
  · rw [hm]
    exact hT.good_insert _ _ _ he (hk ▸ hc)
  · rw [hm]
    exact hT.good_erase _ _ he (hk ▸ hc)
  · rwa [hm]

theorem good_runCalls (hT : FiniteOn T K Good) {e : Endpoint T φ} (cs : List (Call φ))
    (he : Good e.connectionMap) (hcs : ∀ c ∈ cs, c.key ∈ K) :
    Good (runCalls e cs).connectionMap := by
  induction cs generalizing e with
  | nil => exact he
  | cons c cs ih =>
    exact ih (good_run hT he (hcs c (by simp))) (fun d hd => hcs d (by simp [hd]))

/-- A call that inserts a pair makes its key found, with the pair that was
there before when there was one. -/
theorem found_inserted (hT : FiniteOn T K Good) {e : Endpoint T φ} {c : Call φ}
    {ce : ConnectionEntry} {v : φ × SockaddrIn} (he : Good e.connectionMap) (hc : c.key ∈ K)
    (hi : c.inserted = some (ce, v)) :
    T.find (c.run e).connectionMap ce = some ((T.find e.connectionMap ce).getD v) := by
  rcases run_cases e c with ⟨ce', v', hi', hk, hm⟩ | ⟨ce', _, _, hi', _⟩ | ⟨hi', _⟩
  · rw [hi'] at hi
    cases hi
    rw [hm, hT.insert_self _ _ _ he (hk ▸ hc)]
  · rw [hi'] at hi
    cases hi
  · rw [hi'] at hi
    cases hi

/-- A call leaves what is found under the other keys. -/
theorem found_frame (hT : FiniteOn T K Good) {e : Endpoint T φ} {c : Call φ}
    {ce : ConnectionEntry} (he : Good e.connectionMap) (hc : c.key ∈ K) (hce : ce ∈ K)
    (hne : ce ≠ c.key) : T.find (c.run e).connectionMap ce = T.find e.connectionMap ce := by
  rcases run_cases e c with ⟨ce', v, _, rfl, hm⟩ | ⟨ce', _, rfl, _, hm⟩ | ⟨_, hm⟩
  · rw [hm, hT.insert_other _ _ _ _ he hc hce hne]
  · rw [hm, hT.erase_other _ _ _ he hc hce hne]
  · rw [hm]

/-- A found pair stays found through every call but its own deletion. -/
theorem found_kept (hT : FiniteOn T K Good) {e : Endpoint T φ} {c : Call φ}
    {ce : ConnectionEntry} {v : φ × SockaddrIn} (he : Good e.connectionMap) (hc : c.key ∈ K)
    (hce : ce ∈ K) (hd : ¬ c.deletes ce) (hf : T.find e.connectionMap ce = some v) :
    T.find (c.run e).connectionMap ce = some v := by
  by_cases hne : ce = c.key
  · rcases run_cases e c with ⟨ce', v', _, rfl, hm⟩ | ⟨ce', hdel, rfl, _, _⟩ | ⟨_, hm⟩
    · rw [hm, ← hne, hT.insert_self _ _ _ he hce, hf]
      rfl
    · exact absurd hdel (hne ▸ hd)
    · rw [hm, hf]
  · rw [found_frame hT he hc hce hne, hf]

theorem found_runCalls (hT : FiniteOn T K Good) {e : Endpoint T φ} {ce : ConnectionEntry}
    {v : φ × SockaddrIn} (cs : List (Call φ)) (he : Good e.connectionMap)
    (hcs : ∀ c ∈ cs, c.key ∈ K) (hce : ce ∈ K) (hd : ∀ c ∈ cs, ¬ c.deletes ce)
    (hf : T.find e.connectionMap ce = some v) :
    T.find (runCalls e cs).connectionMap ce = some v := by
  induction cs generalizing e with
  | nil => exact hf
  | cons c cs ih =>
    have hc := hcs c (by simp)
    exact ih (good_run hT he hc) (fun d h => hcs d (by simp [h])) (fun d h => hd d (by simp [h]))
      (found_kept hT he hc hce (hd c (by simp)) hf)

end Finite

omit [Descriptor φ] in
theorem inserted_key {c : Call φ} {ce : ConnectionEntry} {v : φ × SockaddrIn}
    (h : c.inserted = some (ce, v)) : c.key = ce := by
  cases c with
  | addEntry ce' fd sockin endpoint protocol answer =>
    cases h
    rfl
  | updateEntry ce' fd sockin endpoint answer =>
    cases answer with
    | error x => cases h
    | ok b =>
      cases h
      rfl
  | deleteEntry ce' answer => cases h
  | retrieveConnection2 ce' => cases h

/-- Every pair inserted under an absent key is what a lookup of the key gives at
the end of the calls, unless the key was deleted in between. -/
def KeepsEntries (T : MapOps ConnectionEntry) (cs : List (Call φ)) : Prop :=
  ∀ (myIp : String) (extPort intPort : BitVec 16) (before after : List (Call φ)) (c : Call φ)
    (ce : ConnectionEntry) (v : φ × SockaddrIn),
    cs = before ++ c :: after → c.inserted = some (ce, v) →
    T.find (runCalls (.new T φ myIp extPort intPort) before).connectionMap ce = none →
    (∀ d ∈ after, ¬ d.deletes ce) →
    (runCalls (.new T φ myIp extPort intPort) cs).retrieveConnection2 ce = v

theorem keepsEntries_of_finiteOn {K : Set ConnectionEntry} {Good : {α : Type} → T.M α → Prop}
    (hT : FiniteOn T K Good) (cs : List (Call φ)) (hcs : ∀ c ∈ cs, c.key ∈ K) :
    KeepsEntries T cs := by
  rintro myIp extPort intPort before after c ce v rfl hi ha hd
  have hc : c.key ∈ K := hcs c (by simp)
  have hce : ce ∈ K := inserted_key hi ▸ hc
  have hgood := good_runCalls hT (e := .new T φ myIp extPort intPort) before hT.good_empty
    (fun d h => hcs d (by simp [h]))
  have hnew := found_inserted hT hgood hc hi
  rw [ha, Option.getD_none] at hnew
  have hfound := found_runCalls hT after (good_run hT hgood hc)
    (fun d h => hcs d (by simp [h])) hce hd hnew
  rw [runCalls, List.foldl_append, List.foldl_cons]
  simp only [runCalls] at hfound
  simp [Endpoint.retrieveConnection2, hfound]

def register (ce : ConnectionEntry) (fd : Int) : Call Int :=
  .addEntry ce fd SockaddrIn.zero .ingressT ce.prt (.ok "")

/-- Two keys each below the other: the second one registered is not found. -/
theorem not_keepsEntries {a b : ConnectionEntry} (hab : a.lt b = true) (hba : b.lt a = true) :
    ¬ KeepsEntries (stdMap plain) [register a 3, register b 4] := by
  intro hkeep
  have h := hkeep "" 0 0 [register a 3] [] (register b 4) b (4, SockaddrIn.zero) rfl rfl
    (by simp [runCalls, Call.run, register, Endpoint.new, find_insert_below hab]) (by simp)
  simp [runCalls, Call.run, register, Endpoint.new, Endpoint.retrieveConnection2,
    lost_of_both_below hab hba] at h

/-- The tree serves a set of keys, in every order of calls on them and whatever
its shape, exactly when no two of them are each below the other. -/
theorem keepsEntries_iff_chain (K : Set ConnectionEntry) :
    (∀ (sh : Shaping ConnectionEntry) (cs : List (Call Int)), (∀ c ∈ cs, c.key ∈ K) →
      KeepsEntries (stdMap sh) cs) ↔ ConnectionEntry.Chain K := by
  constructor
  · intro h a ha b hb hab
    by_contra hba
    refine not_keepsEntries hab (by simpa using hba) (h _ _ ?_)
    simp only [List.mem_cons, List.not_mem_nil, or_false]
    rintro c (rfl | rfl)
    · exact ha
    · exact hb
  · intro h sh cs hcs
    exact keepsEntries_of_finiteOn (stdMap_finiteOn sh h) cs hcs

/-- Two clients, the later one with the higher address and the lower port: each
key is below the other, and the second connection is lost. -/
theorem second_client_lost :
    ¬ ∀ (sh : Shaping ConnectionEntry) (cs : List (Call Int)), KeepsEntries (stdMap sh) cs :=
  fun h => not_keepsEntries (a := ⟨"10.0.0.1", "10.0.1.1", 5000, 80, "0", .tcp⟩)
    (b := ⟨"10.0.0.2", "10.0.1.1", 4000, 80, "0", .tcp⟩) (by decide) (by decide) (h _ _)

end Ironhide.Proofs.Table
