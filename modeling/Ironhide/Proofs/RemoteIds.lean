import Ironhide.Proofs.Table

namespace Ironhide.Proofs.RemoteIds
open Model Lib.StdMap Lib.SearchTree Table

variable {T : MapOps ConnectionEntry} {φ : Type}

def created : Call φ → Option (ConnectionEntry × String)
  | .addEntry ce _ _ _ _ (.ok id) => if id = "" then none else some (ce, id)
  | _ => none

def Answered : Call φ → Prop
  | .addEntry _ _ _ _ _ (.error _) => False
  | .updateEntry _ _ _ _ (.error _) => False
  | .deleteEntry _ (.error _) => False
  | _ => True

def named (o : Outcome T φ) : Option String :=
  match o.request with
  | some (.deleteEntry id) => some id
  | _ => none

/-- An endpoint and the ids it was given and has not asked to be deleted since,
each with the connection it was created for. -/
@[ext] structure Remote (T : MapOps ConnectionEntry) (φ : Type) where
  endpoint : Endpoint T φ
  live : List (ConnectionEntry × String)

namespace Remote
variable [Descriptor φ]

def new (T : MapOps ConnectionEntry) (φ : Type) (myIp : String) (extPort intPort : BitVec 16) :
    Remote T φ := ⟨.new T φ myIp extPort intPort, []⟩

def step (r : Remote T φ) (c : Call φ) : Remote T φ where
  endpoint := c.run r.endpoint
  live := (created c).toList ++ r.live.filter fun p => some p.2 ≠ named (c.outcome r.endpoint)

def run (r : Remote T φ) (cs : List (Call φ)) : Remote T φ := cs.foldl step r

theorem run_snoc (r : Remote T φ) (cs : List (Call φ)) (c : Call φ) :
    r.run (cs ++ [c]) = (r.run cs).step c := List.foldl_append

theorem endpoint_run (r : Remote T φ) (cs : List (Call φ)) :
    (r.run cs).endpoint = runCalls r.endpoint cs := by
  induction cs using List.reverseRecOn with
  | nil => rfl
  | append_singleton cs c ih =>
    rw [run_snoc, step, ih, runCalls, runCalls, List.foldl_append]
    rfl

/-- A property that a call keeps exactly under `C` holds all along a sequence of
calls exactly when every call meets `C`. -/
theorem run_iff {r : Remote T φ} {cs : List (Call φ)} {P : Remote T φ → Prop}
    {C : Remote T φ → Call φ → Prop} (h₀ : P r)
    (hs : ∀ r c, c ∈ cs → P r → (P (r.step c) ↔ C r c)) :
    (∀ before after, cs = before ++ after → P (r.run before)) ↔
      ∀ before c after, cs = before ++ c :: after → C (r.run before) c := by
  constructor
  · rintro h before c after rfl
    have hc : c ∈ before ++ c :: after := by simp
    rw [← hs _ c hc (h before (c :: after) rfl), ← run_snoc]
    exact h (before ++ [c]) after (by simp)
  · intro h before
    induction before using List.reverseRecOn with
    | nil => exact fun _ _ => h₀
    | append_singleton before c ih =>
      rintro after rfl
      rw [List.append_assoc, List.singleton_append] at ih hs h
      rw [run_snoc]
      exact (hs _ c (by simp) (ih (c :: after) rfl)).mpr (h before c after rfl)

end Remote

inductive Stepped (r s : Remote T φ) : Call φ → Prop where
  | created {c : Call φ} {ce : ConnectionEntry} {id : String} {v : φ × SockaddrIn} :
    created c = some (ce, id) → id ≠ "" → c.key = ce → s.live = (ce, id) :: r.live →
    s.endpoint.mapToRemote = T.assign r.endpoint.mapToRemote ce id →
    s.endpoint.connectionMap = T.insert r.endpoint.connectionMap ce v → Stepped r s c
  | deleted {ce : ConnectionEntry} {answer : Except Exn Bool} {v : φ × SockaddrIn} :
    T.find r.endpoint.connectionMap ce = some v →
    s.live = r.live.filter (fun p =>
      p.2 ≠ cStr ((T.find r.endpoint.mapToRemote ce).getD "")) →
    s.endpoint.connectionMap = T.erase r.endpoint.connectionMap ce →
    s.endpoint.mapToRemote = (match answer with
      | .error _ => T.insert r.endpoint.mapToRemote ce ""
      | .ok _ => T.erase (T.insert r.endpoint.mapToRemote ce "") ce) →
    Stepped r s (.deleteEntry ce answer)
  | absent {ce : ConnectionEntry} {answer : Except Exn Bool} :
    T.find r.endpoint.connectionMap ce = none → s = r → Stepped r s (.deleteEntry ce answer)
  | other {c : Call φ} :
    created c = none → (∀ ce, ¬ c.deletes ce) → s.live = r.live →
    s.endpoint.mapToRemote = r.endpoint.mapToRemote →
    (s.endpoint.connectionMap = r.endpoint.connectionMap ∨
      ∃ v, s.endpoint.connectionMap = T.insert r.endpoint.connectionMap c.key v) → Stepped r s c

variable [Descriptor φ]

omit [Descriptor φ] in
theorem named_deleteEntry (e : Endpoint T φ) (ce : ConnectionEntry) (answer : Except Exn Bool) :
    named (e.deleteEntry ce answer) = match T.find e.connectionMap ce with
      | none => none
      | some _ => some (cStr ((T.find e.mapToRemote ce).getD "")) := by
  simp only [named, Endpoint.deleteEntry]
  cases T.find e.connectionMap ce with
  | none => rfl
  | some v => cases answer <;> rfl

omit [Descriptor φ] in
theorem filter_unnamed (live : List (ConnectionEntry × String)) :
    live.filter (fun p => some p.2 ≠ (none : Option String)) = live := by
  simp

theorem stepped (r : Remote T φ) (c : Call φ) : Stepped r (r.step c) c := by
  cases c with
  | addEntry ce fd sockin endpoint protocol answer =>
    have hconn := r.endpoint.connectionMap_addEntry ce fd sockin endpoint protocol answer
    cases answer with
    | error x => exact .other rfl (fun _ h => h) (filter_unnamed _) rfl (.inr ⟨_, hconn⟩)
    | ok id =>
      by_cases hid : id = ""
      · refine .other (by simp [created, hid]) (fun _ h => h) ?_ ?_ (.inr ⟨_, hconn⟩)
        · simp [Remote.step, created, hid, named, Call.outcome, Endpoint.addEntry]
        · simp [Remote.step, Call.run, hid, Endpoint.addEntry]
      · have hcreated : created (.addEntry ce fd sockin endpoint protocol (.ok id)) =
            some (ce, id) := if_neg hid
        refine .created hcreated hid rfl ?_ ?_ hconn
        · simp [Remote.step, created, hid, named, Call.outcome, Endpoint.addEntry]
        · simp [Remote.step, Call.run, hid, Endpoint.addEntry]
  | updateEntry ce fd sockin endpoint answer =>
    have hconn := r.endpoint.connectionMap_updateEntry ce fd sockin endpoint answer
    cases answer with
    | error x => exact .other rfl (fun _ h => h) (filter_unnamed _) rfl (.inl hconn)
    | ok b => exact .other rfl (fun _ h => h) (filter_unnamed _) rfl (.inr ⟨_, hconn⟩)
  | deleteEntry ce answer =>
    have hnamed := named_deleteEntry r.endpoint ce answer
    have hconn := r.endpoint.connectionMap_deleteEntry ce answer
    have hlive : (r.step (.deleteEntry ce answer)).live =
        r.live.filter fun p => some p.2 ≠ named (r.endpoint.deleteEntry ce answer) := rfl
    cases hf : T.find r.endpoint.connectionMap ce with
    | none =>
      rw [hnamed, hf] at hlive
      refine .absent hf ?_
      have hsame : (r.endpoint.deleteEntry ce answer).endpoint = r.endpoint := by
        simp only [Endpoint.deleteEntry, hf]
      exact Remote.ext hsame (hlive.trans (filter_unnamed r.live))
    | some v =>
      rw [hnamed, hf] at hlive
      rw [hf] at hconn
      refine .deleted hf ?_ hconn ?_
      · rw [hlive]
        simp
      · simp only [Remote.step, Call.run, Endpoint.deleteEntry, hf]
        cases answer <;> rfl
  | retrieveConnection2 ce => exact .other rfl (fun _ h => h) (filter_unnamed _) rfl (.inl rfl)

/-- Only a deletion passes an id. -/
theorem named_of_not_deletes {e : Endpoint T φ} {c : Call φ}
    (h : ∀ ce, ¬ c.deletes ce) : named (c.outcome e) = none := by
  cases c with
  | addEntry ce fd sockin endpoint protocol answer =>
    cases answer with
    | error x => rfl
    | ok id =>
      by_cases hid : id = ""
      · simp [named, Call.outcome, Endpoint.addEntry, hid]
      · simp [named, Call.outcome, Endpoint.addEntry, hid]
  | updateEntry ce fd sockin endpoint answer => cases answer <;> rfl
  | deleteEntry ce answer => exact absurd rfl (h ce)
  | retrieveConnection2 ce => rfl

omit [Descriptor φ] in
theorem created_key {c : Call φ} {p : ConnectionEntry × String} (h : created c = some p) :
    c.key = p.1 := by
  cases c with
  | addEntry ce fd sockin endpoint protocol answer =>
    cases answer with
    | error x => cases h
    | ok id =>
      simp only [created] at h
      split at h
      · cases h
      · cases h
        rfl
  | _ => cases h

section LastId
omit [Descriptor φ]

/-- The last id created for the key since the last deletion of the key. -/
def lastId (ce : ConnectionEntry) (cs : List (Call φ)) : Option String :=
  cs.foldl (fun last c => match created c, c with
    | some (ce', id), _ => if ce' = ce then some id else last
    | none, .deleteEntry ce' _ => if ce' = ce then none else last
    | none, _ => last) none

variable (ce : ConnectionEntry) (cs : List (Call φ))

theorem lastId_created {c : Call φ} {ce' : ConnectionEntry} {id : String}
    (h : created c = some (ce', id)) :
    lastId ce (cs ++ [c]) = if ce' = ce then some id else lastId ce cs := by
  rw [lastId, List.foldl_append, List.foldl_cons, List.foldl_nil, h]
  rfl

theorem lastId_deleteEntry (ce' : ConnectionEntry) (answer : Except Exn Bool) :
    lastId ce (cs ++ [.deleteEntry ce' answer]) = if ce' = ce then none else lastId ce cs := by
  rw [lastId, List.foldl_append]
  rfl

theorem lastId_deleted (answer : Except Exn Bool) :
    lastId ce (cs ++ [.deleteEntry ce answer]) = none := by
  rw [lastId_deleteEntry, if_pos rfl]

theorem lastId_other {c : Call φ} (hc : created c = none) (hd : ∀ ce, ¬ c.deletes ce) :
    lastId ce (cs ++ [c]) = lastId ce cs := by
  rw [lastId, List.foldl_append, List.foldl_cons, List.foldl_nil, hc]
  cases c with
  | deleteEntry ce' answer => exact absurd rfl (hd ce')
  | _ => rfl

/-- A call says nothing of the other keys. -/
theorem lastId_frame {c : Call φ} (hne : ce ≠ c.key) : lastId ce (cs ++ [c]) = lastId ce cs := by
  cases hcreated : created c with
  | some p =>
    rw [lastId_created ce cs hcreated, if_neg (created_key hcreated ▸ Ne.symm hne)]
  | none =>
    cases c with
    | deleteEntry ce' answer =>
      exact (lastId_deleteEntry ce cs ce' answer).trans (if_neg (Ne.symm hne))
    | _ => exact lastId_other ce cs hcreated fun _ h => h

end LastId

section Stepped
variable {K : Set ConnectionEntry} {Good : {α : Type} → T.M α → Prop} {r s : Remote T φ}
  {c : Call φ}
omit [Descriptor φ]

/-- An id that is live was so before, or was created by the call. -/
theorem stepped_live (h : Stepped r s c) {p : ConnectionEntry × String} (hp : p ∈ s.live) :
    p ∈ r.live ∨ (created c = some p ∧ p.2 ≠ "") := by
  cases h with
  | created hcreated hid _ hlive =>
    rw [hlive] at hp
    rcases List.mem_cons.mp hp with rfl | hp
    · exact Or.inr ⟨hcreated, hid⟩
    · exact Or.inl hp
  | deleted _ hlive =>
    rw [hlive] at hp
    exact Or.inl (List.mem_filter.mp hp).1
  | absent _ hsame => exact Or.inl (hsame ▸ hp)
  | other _ _ hlive => exact Or.inl (hlive ▸ hp)

/-- `map_to_remote` stays in order, and as it is under the other keys. -/
theorem stepped_frame (hT : FiniteOn T K Good) (h : Stepped r s c)
    (hgood : Good r.endpoint.mapToRemote) (hc : c.key ∈ K) :
    Good s.endpoint.mapToRemote ∧ ∀ k ∈ K, k ≠ c.key →
      T.find s.endpoint.mapToRemote k = T.find r.endpoint.mapToRemote k := by
  cases h with
  | created _ _ hkey _ hremote =>
    subst hkey
    rw [hremote]
    exact ⟨hT.good_assign _ _ _ hgood hc, fun k hk hne => hT.assign_other _ _ _ _ hgood hc hk hne⟩
  | @deleted ce answer _ _ _ _ hremote =>
    have hce : ce ∈ K := hc
    have hblank : Good (T.insert r.endpoint.mapToRemote ce "") := hT.good_insert _ _ _ hgood hce
    have hother (k : ConnectionEntry) (hk : k ∈ K) (hne : k ≠ ce) :=
      hT.insert_other r.endpoint.mapToRemote ce k "" hgood hce hk hne
    rw [hremote]
    cases answer with
    | error x => exact ⟨hblank, hother⟩
    | ok b =>
      refine ⟨hT.good_erase _ _ hblank hce, fun k hk hne => ?_⟩
      exact (hT.erase_other _ _ _ hblank hce hk hne).trans (hother k hk hne)
  | absent _ hsame => exact ⟨hsame ▸ hgood, fun k _ _ => by rw [hsame]⟩
  | other _ _ _ hremote => exact ⟨hremote ▸ hgood, fun k _ _ => by rw [hremote]⟩

/-- A deletion for a key that is there passes its id on and removes the key. -/
theorem stepped_deletes {ce : ConnectionEntry} {b : Bool} (h : Stepped r s (.deleteEntry ce (.ok b)))
    (hfound : (T.find r.endpoint.connectionMap ce).isSome = true) :
    s.live = r.live.filter (fun p =>
      p.2 ≠ cStr ((T.find r.endpoint.mapToRemote ce).getD "")) ∧
    s.endpoint.connectionMap = T.erase r.endpoint.connectionMap ce ∧
    s.endpoint.mapToRemote = T.erase (T.insert r.endpoint.mapToRemote ce "") ce := by
  cases h with
  | created hcreated => cases hcreated
  | deleted _ hlive hconn hremote => exact ⟨hlive, hconn, hremote⟩
  | absent hf =>
    rw [hf] at hfound
    cases hfound
  | other _ hdel => exact absurd rfl (hdel ce)

end Stepped

section Tracks
variable {K : Set ConnectionEntry} {Good : {α : Type} → T.M α → Prop}

/-- What the calls so far say of the stored ids: the last one created for a key
is stored, and what is stored beyond that has been passed on for deletion. -/
structure Tracks (K : Set ConnectionEntry) (Good : {α : Type} → T.M α → Prop) (r : Remote T φ)
    (cs : List (Call φ)) : Prop where
  goodConnection : Good r.endpoint.connectionMap
  goodRemote : Good r.endpoint.mapToRemote
  stored : ∀ k ∈ K, ∀ id, lastId k cs = some id →
    id ≠ "" ∧ T.find r.endpoint.mapToRemote k = some id ∧
      (T.find r.endpoint.connectionMap k).isSome = true
  spent : ∀ k ∈ K, lastId k cs = none → ∀ id, T.find r.endpoint.mapToRemote k = some id →
    (k, cStr id) ∉ r.live
  nonempty : ∀ p ∈ r.live, p.2 ≠ ""

omit [Descriptor φ] in
/-- To begin with there is nothing to track. -/
theorem tracks_nil {e : Endpoint T φ} (hconnection : Good e.connectionMap)
    (hremote : Good e.mapToRemote) : Tracks K Good ⟨e, []⟩ ([] : List (Call φ)) where
  goodConnection := hconnection
  goodRemote := hremote
  stored k _ id h := by cases h
  spent k _ _ id _ h := by cases h
  nonempty p h := by cases h

omit [Descriptor φ] in
/-- Under the key of a deletion that finds nothing there is no id to track. -/
theorem Tracks.untracked {r : Remote T φ} {cs : List (Call φ)} (h : Tracks K Good r cs)
    {ce : ConnectionEntry} (hce : ce ∈ K) (hf : T.find r.endpoint.connectionMap ce = none) :
    lastId ce cs = none := by
  cases hlast : lastId ce cs with
  | none => rfl
  | some id =>
    have hfound := (h.stored ce hce id hlast).2.2
    rw [hf] at hfound
    cases hfound

theorem Tracks.step (hT : FiniteOn T K Good) {r : Remote T φ} {cs : List (Call φ)}
    (h : Tracks K Good r cs) {c : Call φ} (hc : c.key ∈ K) :
    Tracks K Good (r.step c) (cs ++ [c]) := by
  have hconnection : Good (r.step c).endpoint.connectionMap := good_run hT h.goodConnection hc
  have hother (k : ConnectionEntry) (hk : k ∈ K) (hne : k ≠ c.key) :
      T.find (r.step c).endpoint.connectionMap k = T.find r.endpoint.connectionMap k :=
    found_frame hT h.goodConnection hc hk hne
  generalize hs : r.step c = s at hconnection hother ⊢
  have hst : Stepped r s c := hs ▸ stepped r c
  obtain ⟨hremote, hframe⟩ := stepped_frame hT hst h.goodRemote hc
  refine ⟨hconnection, hremote, ?_, ?_, ?_⟩
  · intro k hk id hlast
    by_cases hne : k = c.key
    · subst hne
      cases hst with
      | @created _ ce id' v hcreated hid hkey _ hremote hconn =>
        subst hkey
        rw [lastId_created _ cs hcreated, if_pos rfl] at hlast
        cases hlast
        rw [hremote, hconn, hT.assign_self _ _ _ h.goodRemote hk,
          hT.insert_self _ _ _ h.goodConnection hk]
        exact ⟨hid, rfl, rfl⟩
      | deleted => cases (lastId_deleted _ cs _).symm.trans hlast
      | absent => cases (lastId_deleted _ cs _).symm.trans hlast
      | other hcreated hdel _ hremote hconn =>
        rw [lastId_other _ cs hcreated hdel] at hlast
        obtain ⟨hid, hfind, hfound⟩ := h.stored _ hk id hlast
        rw [hremote]
        refine ⟨hid, hfind, ?_⟩
        rcases hconn with hconn | ⟨v, hconn⟩
        · rw [hconn]
          exact hfound
        · rw [hconn, hT.insert_self _ _ _ h.goodConnection hk]
          rfl
    · rw [lastId_frame k cs hne] at hlast
      rw [hframe k hk hne, hother k hk hne]
      exact h.stored k hk id hlast
  · intro k hk hlast id hfind hmem
    by_cases hne : k = c.key
    · subst hne
      cases hst with
      | created hcreated _ hkey =>
        rw [lastId_created _ cs hcreated, if_pos hkey.symm] at hlast
        cases hlast
      | @deleted ce answer _ _ hlive _ hremote =>
        rw [hlive] at hmem
        obtain ⟨_, hleft⟩ := List.mem_filter.mp hmem
        rw [hremote] at hfind
        -- only a deletion that threw leaves an id, the one it has passed
        cases answer with
        | ok b =>
          cases (hT.erase_insert_self h.goodRemote hk _).symm.trans hfind
        | error x =>
          cases (hT.insert_self _ _ _ h.goodRemote hk).symm.trans hfind
          exact of_decide_eq_true hleft rfl
      | absent hf hsame =>
        subst hsame
        exact h.spent _ hk (h.untracked hk hf) id hfind hmem
      | other hcreated hdel hlive hremote =>
        rw [lastId_other _ cs hcreated hdel] at hlast
        rw [hremote] at hfind
        exact h.spent _ hk hlast id hfind (hlive ▸ hmem)
    · rw [lastId_frame k cs hne] at hlast
      rw [hframe k hk hne] at hfind
      rcases stepped_live hst hmem with hold | ⟨hnew, _⟩
      · exact h.spent k hk hlast id hfind hold
      · exact hne (created_key hnew).symm
  · intro p hp
    rcases stepped_live hst hp with hold | ⟨_, hid⟩
    · exact h.nonempty p hold
    · exact hid

theorem Tracks.run (hT : FiniteOn T K Good) {r : Remote T φ} (h : Tracks K Good r [])
    (cs : List (Call φ)) (hcs : ∀ c ∈ cs, c.key ∈ K) : Tracks K Good (r.run cs) cs := by
  induction cs using List.reverseRecOn with
  | nil => exact h
  | append_singleton cs c ih =>
    rw [Remote.run_snoc]
    exact (ih fun d hd => hcs d (by simp [hd])).step hT (hcs c (by simp))

theorem tracks_run (hT : FiniteOn T K Good) (myIp : String) (extPort intPort : BitVec 16)
    (cs : List (Call φ)) (hcs : ∀ c ∈ cs, c.key ∈ K) :
    Tracks K Good ((Remote.new T φ myIp extPort intPort).run cs) cs :=
  (tracks_nil hT.good_empty hT.good_empty).run hT cs hcs

/-- What the call passes to `DBQuery::delete_entry` is an id that was created
for the connection and not deleted since. -/
def DeletesReal (r : Remote T φ) (c : Call φ) : Prop :=
  ∀ id, named (c.outcome r.endpoint) = some id → id ≠ "" ∧ (c.key, id) ∈ r.live

/-- If the call deletes an entry, roulette has given the connection an id since
the last deletion, which has no zero character and is not deleted under some
other connection. -/
def Backed (r : Remote T φ) (cs : List (Call φ)) (c : Call φ) : Prop :=
  c.deletes c.key → (T.find r.endpoint.connectionMap c.key).isSome = true →
    ∃ id, lastId c.key cs = some id ∧ (c.key, cStr id) ∈ r.live

theorem deletesReal_iff {r : Remote T φ} {cs : List (Call φ)} {c : Call φ}
    (h : Tracks K Good r cs) (hc : c.key ∈ K) : DeletesReal r c ↔ Backed r cs c := by
  by_cases hdel : ∃ ce answer, c = .deleteEntry ce answer
  · obtain ⟨ce, answer, rfl⟩ := hdel
    have hnamed := named_deleteEntry r.endpoint ce answer
    cases hf : T.find r.endpoint.connectionMap ce with
    | none =>
      rw [hf] at hnamed
      constructor
      · intro _ _ hfound
        change (T.find r.endpoint.connectionMap ce).isSome = true at hfound
        rw [hf] at hfound
        cases hfound
      · intro _ id hid
        cases hnamed.symm.trans hid
    | some v =>
      rw [hf] at hnamed
      constructor
      · intro hreal _ _
        obtain ⟨hne, hmem⟩ := hreal _ hnamed
        cases hlast : lastId ce cs with
        | some id =>
          have hstored := (h.stored ce hc id hlast).2.1
          rw [hstored] at hmem
          exact ⟨id, hlast, hmem⟩
        | none =>
          -- then either nothing is stored and the empty id is passed, or one that is spent
          cases hfind : T.find r.endpoint.mapToRemote ce with
          | none =>
            rw [hfind] at hne
            exact absurd rfl hne
          | some id =>
            rw [hfind] at hmem
            exact absurd hmem (h.spent ce hc hlast id hfind)
      · intro hbacked id hid
        obtain ⟨last, hlast, hmem⟩ := hbacked rfl (by
          change (T.find r.endpoint.connectionMap ce).isSome = true
          rw [hf]
          rfl)
        cases hnamed.symm.trans hid
        rw [(h.stored ce hc last hlast).2.1]
        exact ⟨h.nonempty _ hmem, hmem⟩
  · have hother : ∀ ce, ¬ c.deletes ce := by
      intro ce hce
      cases c with
      | deleteEntry ce' answer => exact hdel ⟨ce', answer, rfl⟩
      | _ => exact hce
    constructor
    · exact fun _ hc' => absurd hc' (hother _)
    · intro _ id hid
      cases (named_of_not_deletes hother).symm.trans hid

end Tracks

/-- Over keys the tree serves, only real ids are deleted in a run exactly when
every deletion of it is backed by an answer of roulette. -/
theorem deletes_real_iff_backed {K : Set ConnectionEntry} (hK : ConnectionEntry.Chain K)
    (sh : Shaping ConnectionEntry) (myIp : String) (extPort intPort : BitVec 16)
    (cs : List (Call φ)) (hcs : ∀ c ∈ cs, c.key ∈ K) :
    (∀ before c after, cs = before ++ c :: after →
      DeletesReal ((Remote.new (stdMap sh) φ myIp extPort intPort).run before) c) ↔
    ∀ before c after, cs = before ++ c :: after →
      Backed ((Remote.new (stdMap sh) φ myIp extPort intPort).run before) before c := by
  have heach (before : List (Call φ)) (c : Call φ) (after : List (Call φ))
      (heq : cs = before ++ c :: after) :
      DeletesReal ((Remote.new (stdMap sh) φ myIp extPort intPort).run before) c ↔
        Backed ((Remote.new (stdMap sh) φ myIp extPort intPort).run before) before c :=
    deletesReal_iff (tracks_run (stdMap_finiteOn sh hK) myIp extPort intPort before
      fun d hd => hcs d (by simp [heq, hd])) (hcs c (by simp [heq]))
  exact ⟨fun h before c after heq => (heach before c after heq).mp (h before c after heq),
    fun h before c after heq => (heach before c after heq).mpr (h before c after heq)⟩

def clientEntry : ConnectionEntry := ⟨"10.0.0.1", "10.0.1.1", 5000, 80, "0", .tcp⟩

def registers (answer : Except Exn String) : Call Int :=
  .addEntry clientEntry 5 SockaddrIn.zero .ingressT .tcp answer

def cycle (answer : Except Exn String) : List (Call Int) :=
  [registers answer, .deleteEntry clientEntry (.ok true)]

theorem created_id_deleted :
    DeletesReal ((Remote.new (stdMap plain) Int "10.0.0.9" 57000 57001).run
      [registers (.ok "5f3e")]) (.deleteEntry clientEntry (.ok true)) := by
  refine (deletes_real_iff_backed (ConnectionEntry.chain_singleton clientEntry) plain "10.0.0.9"
    57000 57001 (cycle (.ok "5f3e")) ?_).mpr ?_ [registers (.ok "5f3e")] _ [] rfl
  · intro c hc
    simp only [cycle, registers, List.mem_cons, List.not_mem_nil, or_false] at hc
    rcases hc with rfl | rfl
    · rfl
    · rfl
  · intro before c after h hdel
    match before with
    | [] =>
      cases h
      exact hdel.elim
    | [d] =>
      cases h
      exact fun _ => ⟨"5f3e", rfl, by decide⟩
    | d :: d' :: ds =>
      have hlen := congrArg List.length h
      simp [cycle] at hlen

/-- Roulette answers that the registration is not ok; then the entry is deleted
on the bare `endpoints/`. -/
theorem empty_id_deleted :
    ¬ ∀ (cs before : List (Call Int)) (c : Call Int) (after : List (Call Int)),
      cs = before ++ c :: after →
      DeletesReal ((Remote.new (stdMap plain) Int "10.0.0.9" 57000 57001).run before) c := by
  intro h
  have hreal := h (cycle (.ok "")) [registers (.ok "")] (.deleteEntry clientEntry (.ok true)) [] rfl
  exact (hreal "" (by decide)).1 rfl

section Coupled
variable {K : Set ConnectionEntry} {Good : {α : Type} → T.M α → Prop}

/-- As long as roulette answers, exactly the last ids are stored. -/
theorem find_mapToRemote (hT : FiniteOn T K Good) (myIp : String) (extPort intPort : BitVec 16)
    (cs : List (Call φ)) (hcs : ∀ c ∈ cs, c.key ∈ K) (hans : ∀ c ∈ cs, Answered c) :
    ∀ k ∈ K, T.find ((Remote.new T φ myIp extPort intPort).run cs).endpoint.mapToRemote k =
      lastId k cs := by
  induction cs using List.reverseRecOn with
  | nil => exact fun k _ => hT.find_empty k
  | append_singleton cs c ih =>
    have htracks := tracks_run hT myIp extPort intPort cs fun d hd => hcs d (by simp [hd])
    have hstored := ih (fun d hd => hcs d (by simp [hd])) (fun d hd => hans d (by simp [hd]))
    have hc : c.key ∈ K := hcs c (by simp)
    have hanswered : Answered c := hans c (by simp)
    rw [Remote.run_snoc]
    generalize (Remote.new T φ myIp extPort intPort).run cs = r at htracks hstored
    generalize hs : r.step c = s
    have hst : Stepped r s c := hs ▸ stepped r c
    intro k hk
    by_cases hne : k = c.key
    · subst hne
      cases hst with
      | @created _ ce id v hcreated hid hkey hlive hremote hconn =>
        subst hkey
        rw [hremote, lastId_created _ cs hcreated, if_pos rfl,
          hT.assign_self _ _ _ htracks.goodRemote hk]
      | @deleted ce answer v hf hlive hconn hremote =>
        cases answer with
        | error x => exact hanswered.elim
        | ok b =>
          rw [hremote]
          exact (hT.erase_insert_self htracks.goodRemote hk _).trans (lastId_deleted ce cs _).symm
      | absent hf hsame =>
        rw [hsame, hstored _ hk]
        exact (htracks.untracked hk hf).trans (lastId_deleted _ cs _).symm
      | other hcreated hdel hlive hremote hconn =>
        rw [hremote, lastId_other _ cs hcreated hdel, hstored _ hk]
    · rw [(stepped_frame hT hst htracks.goodRemote hc).2 k hk hne, lastId_frame k cs hne, hstored k hk]

/-- Every stored id is the last one created for its key, and the key is in
`connection_map` as well. -/
structure Coupled (e : Endpoint (finite ConnectionEntry) φ) (cs : List (Call φ)) : Prop where
  key : ∀ ce id, e.mapToRemote ce = some id → ∃ sock, e.connectionMap ce = some sock
  id : ∀ ce id, e.mapToRemote ce = some id → id ≠ "" ∧ lastId ce cs = some id

/-- The two tables stay coupled in every run in which roulette answers. -/
theorem coupled_runCalls (myIp : String) (extPort intPort : BitVec 16) (cs : List (Call φ))
    (h : ∀ c ∈ cs, Answered c) :
    Coupled (runCalls (.new (finite ConnectionEntry) φ myIp extPort intPort) cs) cs := by
  have hT := finite_finiteOn ConnectionEntry
  have htracks := tracks_run (φ := φ) hT myIp extPort intPort cs fun _ _ => trivial
  have hstored := find_mapToRemote hT myIp extPort intPort cs (fun _ _ => trivial) h
  have hrun := (Remote.new (finite ConnectionEntry) φ myIp extPort intPort).endpoint_run cs
  change _ = runCalls (.new (finite ConnectionEntry) φ myIp extPort intPort) cs at hrun
  rw [← hrun]
  have hlast (ce : ConnectionEntry) (id : String)
      (hid : ((Remote.new (finite ConnectionEntry) φ myIp extPort intPort).run
        cs).endpoint.mapToRemote ce = some id) : lastId ce cs = some id := (hstored ce trivial).symm.trans hid
  constructor
  · intro ce id hid
    exact Option.isSome_iff_exists.mp (htracks.stored ce trivial id (hlast ce id hid)).2.2
  · intro ce id hid
    exact ⟨(htracks.stored ce trivial id (hlast ce id hid)).1, hlast ce id hid⟩

end Coupled

/-- The client is registered again after its entry was deleted. -/
theorem registered_again_coupled :
    let cs := cycle (.ok "5f3e") ++ [registers (.ok "5f40")]
    let e := runCalls (.new (finite ConnectionEntry) Int "10.0.0.9" 57000 57001) cs
    e.mapToRemote clientEntry = some "5f40" ∧ Coupled e cs :=
  ⟨by decide, coupled_runCalls "10.0.0.9" 57000 57001 _ (by simp [cycle, registers, Answered])⟩

end Ironhide.Proofs.RemoteIds
