import Ironhide.Proofs.IngressRuns
import Ironhide.Proofs.Keys
import Ironhide.Proofs.RemoteIds

namespace Ironhide.Proofs.Leaks
open Model Lib.Program Lib.StdMap Lib.Threads Lib.Threads.System Lib.Schedule Table RemoteIds
open IngressRuns Keys

section Calls
variable {φ : Type} [Descriptor φ]

/-- Every id that was created and not deleted is stored for its connection. -/
def AllStored (r : Remote (finite ConnectionEntry) φ) : Prop :=
  ∀ p ∈ r.live, r.endpoint.mapToRemote p.1 = some p.2

/-- The call creates no second id for a connection, and the id it deletes is
passed to roulette as it is: it has no zero character. -/
structure Keeps (r : Remote (finite ConnectionEntry) φ) (c : Call φ) : Prop where
  sole : ∀ ce id, created c = some (ce, id) → ∀ old, (ce, old) ∈ r.live → old = id
  whole : c.deletes c.key → (r.endpoint.connectionMap c.key).isSome = true →
    ∀ id, (c.key, id) ∈ r.live → cStr id = id

omit [Descriptor φ] in
theorem keeps_of_allStored {r s : Remote (finite ConnectionEntry) φ} {c : Call φ}
    (hst : Stepped r s c) (hc : Answered c) (h : AllStored r) (hall : AllStored s) :
    Keeps r c := by
  cases hst with
  | @created _ ce id v hcreated hid hkey hlive hremote hconn =>
    constructor
    · intro ce' id' hcreated' old hold
      cases hcreated.symm.trans hcreated'
      have hfind := hall (ce, old) (by rw [hlive]; exact List.mem_cons_of_mem _ hold)
      rw [hremote] at hfind
      exact (Option.some.inj ((if_pos rfl).symm.trans hfind)).symm
    · intro hdel
      cases c with
      | deleteEntry => cases hcreated
      | _ => exact hdel.elim
  | @deleted ce answer v hf hlive hconn hremote =>
    cases answer with
    | error x => exact hc.elim
    | ok b =>
      refine ⟨fun _ _ hcreated => (nomatch hcreated), fun _ _ id hid => ?_⟩
      change (ce, id) ∈ r.live at hid
      by_contra hne
      have hleft : (ce, id) ∈ s.live := by
        rw [hlive]
        refine List.mem_filter.mpr ⟨hid, decide_eq_true ?_⟩
        change id ≠ cStr ((r.endpoint.mapToRemote ce).getD "")
        rw [h _ hid]
        exact Ne.symm hne
      have hgone := hall _ hleft
      rw [hremote] at hgone
      cases (if_pos rfl).symm.trans hgone
  | @absent ce answer hf hsame =>
    refine ⟨fun _ _ hcreated => (nomatch hcreated), fun _ hfound => ?_⟩
    change ((finite ConnectionEntry).find r.endpoint.connectionMap ce).isSome = true at hfound
    rw [hf] at hfound
    cases hfound
  | other hcreated hdel hlive hremote hconn =>
    refine ⟨fun _ _ hcreated' => ?_, fun hdel' => absurd hdel' (hdel _)⟩
    cases hcreated.symm.trans hcreated'

omit [Descriptor φ] in
theorem allStored_of_keeps {r s : Remote (finite ConnectionEntry) φ} {c : Call φ}
    (hst : Stepped r s c) (h : AllStored r) (hkeeps : Keeps r c) : AllStored s := by
  intro p hp
  by_cases hkey : p.1 = c.key
  · cases hst with
    | @created _ ce id v hcreated hid hce hlive hremote hconn =>
      have hid : p.2 = id := by
        rw [hlive] at hp
        rcases List.mem_cons.mp hp with rfl | hold
        · rfl
        · exact hkeeps.sole ce id hcreated p.2 (hkey.trans hce ▸ hold)
      rw [hremote, hid]
      exact if_pos (hkey.trans hce)
    | @deleted ce answer v hf hlive hconn hremote =>
      rw [hlive] at hp
      obtain ⟨hp, hleft⟩ := List.mem_filter.mp hp
      -- the one id of the connection is the one that was passed
      have hold := h p hp
      rw [hkey] at hold
      refine absurd ?_ (of_decide_eq_true hleft)
      change p.2 = cStr ((r.endpoint.mapToRemote ce).getD "")
      rw [show r.endpoint.mapToRemote ce = some p.2 from hold]
      exact (hkeeps.whole rfl (Option.isSome_iff_exists.mpr ⟨v, hf⟩) p.2 (hkey ▸ hp)).symm
    | absent hf hsame => exact hsame ▸ h p (hsame ▸ hp)
    | other hcreated hdel hlive hremote hconn =>
      rw [hremote]
      exact h p (hlive ▸ hp)
  · have hframe := (stepped_frame (finite_finiteOn ConnectionEntry) hst trivial trivial).2 p.1 trivial
      hkey
    rcases stepped_live hst hp with hold | ⟨hnew, _⟩
    · exact hframe.trans (h p hold)
    · exact absurd (created_key hnew).symm hkey

theorem allStored_step_iff {r : Remote (finite ConnectionEntry) φ} (h : AllStored r) {c : Call φ}
    (hc : Answered c) : AllStored (r.step c) ↔ Keeps r c :=
  ⟨keeps_of_allStored (stepped r c) hc h, allStored_of_keeps (stepped r c) h⟩

end Calls

abbrev remote (myIp : String) (extPort intPort : BitVec 16) (calls : List (Call Int)) :
    Remote (finite ConnectionEntry) Int :=
  (Remote.new (finite ConnectionEntry) Int myIp extPort intPort).run calls

/-- No id has been leaked at any point of a run of the ingress exactly when no
call of it creates a second id for a connection or cuts one short. -/
theorem no_leak_iff (self : Self) (myIp : String) (extPort intPort : BitVec 16)
    (P : CallPool (finite ConnectionEntry))
    (h : Reachable (system (finite ConnectionEntry) self) (fun _ _ _ _ => True)
      (start (finite ConnectionEntry) myIp extPort intPort) P)
    (hans : ∀ c ∈ P.shared.calls, Answered c) :
    (remote myIp extPort intPort P.shared.calls).endpoint = P.shared.endpoint ∧
    ((∀ before after, P.shared.calls = before ++ after →
        AllStored (remote myIp extPort intPort before)) ↔
      ∀ before c after, P.shared.calls = before ++ c :: after →
        Keeps (remote myIp extPort intPort before) c) := by
  refine ⟨?_, Remote.run_iff ?_ fun r c hc hr => allStored_step_iff hr (hans c hc)⟩
  · rw [Remote.endpoint_run, endpoint_eq h]
    rfl
  · intro p hp
    cases hp

def numbered (calls : List (Call Int)) : String := Model.toString calls.length

def idWorld : World (system (finite ConnectionEntry) proxy) :=
  grantingWorld (finite ConnectionEntry) proxy 3 numbered []

instance (c : Call Int) : Decidable (Answered c) := by
  unfold Answered
  split <;> infer_instance

theorem one_datagram_stored : ∃ P : CallPool (finite ConnectionEntry),
    P.shared.calls.length = 1 ∧ (∀ before after, P.shared.calls = before ++ after →
      AllStored (remote "10.0.0.9" 57000 57001 before)) := by
  obtain ⟨P, hP, hcalls⟩ := idWorld.exists_reachable (fun _ _ _ _ => True)
    (IngressRuns.start _ "10.0.0.9" 57000 57001)
    (.arrive (.udp (udpArgs udpPacket.bytes)) :: steps 3 0)
    (fun P => decide (P.shared.calls.length = 1 ∧ ∀ c ∈ P.shared.calls, Answered c))
    (by decide +kernel)
  obtain ⟨hlen, hans⟩ := of_decide_eq_true hcalls
  refine ⟨P, hlen, (no_leak_iff proxy "10.0.0.9" 57000 57001 P hP hans).2.mpr ?_⟩
  intro before c after heq
  match before with
  | [] =>
    constructor
    · intro ce id _ old hold
      cases hold
    · intro _ _ id hid
      cases hid
  | d :: ds =>
    rw [heq] at hlen
    simp at hlen

/-- Two datagrams of one flow: `map_to_remote` keeps the second id, and nothing
has the first one any more. -/
theorem first_id_leaked : ∃ P : CallPool (finite ConnectionEntry),
    Reachable (system (finite ConnectionEntry) proxy) (fun _ _ _ _ => True)
      (IngressRuns.start _ "10.0.0.9" 57000 57001) P ∧ (∀ c ∈ P.shared.calls, Answered c) ∧
    ¬ AllStored (remote "10.0.0.9" 57000 57001 P.shared.calls) := by
  obtain ⟨P, hP, hleak⟩ := idWorld.exists_reachable (fun _ _ _ _ => True)
    (IngressRuns.start _ "10.0.0.9" 57000 57001)
    (.arrive (.udp (udpArgs udpPacket.bytes)) :: steps 3 0 ++
      .arrive (.udp (udpArgs udpPacket.bytes)) :: steps 3 1)
    (fun P => decide ((∀ c ∈ P.shared.calls, Answered c) ∧
      ∃ p ∈ (remote "10.0.0.9" 57000 57001 P.shared.calls).live,
        (remote "10.0.0.9" 57000 57001 P.shared.calls).endpoint.mapToRemote p.1 ≠ some p.2))
    (by decide +kernel)
  obtain ⟨hans, p, hp, hlost⟩ := of_decide_eq_true hleak
  exact ⟨P, hP, hans, fun hall => hlost (hall p hp)⟩

end Ironhide.Proofs.Leaks
