import Ironhide.Lib.Hosting
import Ironhide.Proofs.Servers
import Ironhide.Proofs.IngressRuns
import Ironhide.Proofs.DeadConnections

namespace Ironhide.Proofs.Process
open Model Lib.Bytes Lib.Program Lib.StdMap Lib.SearchTree Lib.Threads Lib.Threads.System
open Lib.Schedule Lib.Relaying Lib.Hosting Servers

section Hosts
variable {Γ : Type} (main : Server.Service Int Nat Unit) (extPort intPort : BitVec 16)
  (manages : Server.Role → Server.Args Int Nat → Γ → Prop)

/-- What an operation of `start` or of a server starts: a server, or what the
server's `manager_` makes of the arguments it is bound to. -/
def Launches (tag : Server.Thread) (o : Server.Op Int Nat) (tags : List Server.Thread)
    (arriving : Option Γ) : Prop :=
  match o with
  | .thread role => (∃ fuel, tags = [.server role fuel]) ∧ arriving = none
  | .goAsync _ args => tags = [] ∧
    ∃ role fuel g, tag = .server role fuel ∧ arriving = some g ∧ manages role args g
  | _ => tags = [] ∧ arriving = none

/-- `main` and the servers of an endpoint, with anything for an answer. The state
says whether `main` is there. -/
def host : Host Bool Server.Thread Γ (Server.Op Int Nat) (Server.Reply Int Nat) Server.Stop Unit where
  start := Server.start main extPort intPort
  perform s tag o _ s' tags arriving := s' = s ∧ Launches manages tag o tags arriving
  arrive s s' tag := s = false ∧ s' = true ∧ tag = .main
  fatal := Server.Stop.Fatal

end Hosts

abbrev ProcessOp := Server.Op Int Nat ⊕ Op Int

abbrev ProcessReply : ProcessOp → Type := Replies (Server.Reply Int Nat) (Reply Int)

abbrev ProcessPool (σ Γ : Type) :=
  Pool (Bool × σ) (Server.Thread ⊕ Γ) ProcessOp ProcessReply (Server.Stop ⊕ Stop) Unit

def joins : ProcessOp → Option Server.Role
  | .inl (.join role) => some role
  | _ => none

def roleOf {Γ : Type} : Server.Thread ⊕ Γ → Option Server.Role
  | .inl (.server role _) => some role
  | _ => none

/-- A join waits until the server's thread is over. -/
def Joined {σ Γ : Type} (_ : Bool × σ)
    (ts : List (Lib.Threads.Thread (Server.Thread ⊕ Γ) ProcessOp ProcessReply
      (Server.Stop ⊕ Stop) Unit)) (_ : Server.Thread ⊕ Γ) (o : ProcessOp) : Prop :=
  ∀ role ∈ joins o, ∃ t ∈ ts, roleOf t.tag = some role ∧ pending t.prog = none

instance {σ Γ : Type} (s : Bool × σ)
    (ts : List (Lib.Threads.Thread (Server.Thread ⊕ Γ) ProcessOp ProcessReply
      (Server.Stop ⊕ Stop) Unit)) (g : Server.Thread ⊕ Γ) (o : ProcessOp) :
    Decidable (Joined s ts g o) :=
  inferInstanceAs (Decidable (∀ role ∈ joins o, ∃ t ∈ ts, roleOf t.tag = some role ∧ _))

section Messages
variable {Γ : Type}

def received : Server.Thread ⊕ Γ → Event ProcessOp ProcessReply → Option (Message Int)
  | .inl (.server role _), ⟨.inl o, r⟩ => brings role ⟨o, r⟩
  | _, _ => none

def handsOver : Server.Thread ⊕ Γ → ProcessOp → Option (Message Int)
  | .inl (.server role _), .inl o => hands role o
  | _, _ => none

def messageOf (message : Γ → Option (Message Int)) : Server.Thread ⊕ Γ → Option (Message Int)
  | .inr g => message g
  | .inl _ => none

variable {σ : Type} {S : System σ Γ (Op Int) (Reply Int) Stop Unit}
  {main : Server.Service Int Nat Unit} {extPort intPort : BitVec 16}
  {manages : Server.Role → Server.Args Int Nat → Γ → Prop} {message : Γ → Option (Message Int)}

theorem start_relays (g : Server.Thread ⊕ Γ) :
    Relays (received g) (handsOver g) ((hosted (host main extPort intPort manages) S).start g)
      none := by
  match g with
  | .inr g => exact relays_none (fun _ => rfl) (fun _ => rfl) _
  | .inl .main => exact relays_none (fun _ => rfl) (fun _ => rfl) _
  | .inl (.server role fuel) =>
    exact left_relays (fun _ => rfl) (fun _ => rfl) (run_relays extPort intPort fuel role)

theorem filterMap_messageOf (tags : List Server.Thread) (gs : List Γ) :
    (tags.map Sum.inl ++ gs.map Sum.inr).filterMap (messageOf message) = gs.filterMap message := by
  rw [List.filterMap_append, List.filterMap_map, List.filterMap_map]
  have hnone : tags.filterMap (messageOf message ∘ Sum.inl) = [] :=
    List.filterMap_eq_nil_iff.mpr fun _ _ => rfl
  rw [hnone, List.nil_append]
  rfl

/-- Handing over is what starts the handler of a message. -/
theorem born_messages (hman : ∀ role args g, manages role args g → message g = some (ofArgs role args))
    (hown : ∀ s g o r s' born, S.perform s g o r s' born → born.filterMap message = [])
    {s s' : Bool × σ} {g : Server.Thread ⊕ Γ} {o : ProcessOp} {r : ProcessReply o}
    {born : List (Server.Thread ⊕ Γ)}
    (h : (hosted (host main extPort intPort manages) S).perform s g o r s' born) :
    born.filterMap (messageOf message) = (handsOver g o).toList := by
  match g, o with
  | .inr g, .inr o =>
    obtain ⟨own, rfl, hperf, _⟩ := h
    exact (filterMap_messageOf [] own).trans (hown _ _ _ _ _ _ hperf)
  | .inl tag, .inl o =>
    obtain ⟨tags, arriving, rfl, ⟨_, hlaunch⟩, _⟩ := h
    rw [filterMap_messageOf]
    cases o with
    | goAsync block args =>
      obtain ⟨_, role, fuel, g, rfl, rfl, hg⟩ := hlaunch
      rw [Option.toList_some, List.filterMap_cons_some (hman _ _ _ hg)]
      rfl
    | _ =>
      obtain ⟨_, rfl⟩ := hlaunch
      cases tag <;> rfl
  | .inl _, .inr _ => exact h.elim
  | .inr _, .inl _ => exact h.elim

variable {guard : Bool × σ → List (Lib.Threads.Thread (Server.Thread ⊕ Γ) ProcessOp ProcessReply
  (Server.Stop ⊕ Stop) Unit) → Server.Thread ⊕ Γ → ProcessOp → Prop} {P : ProcessPool σ Γ} {s₀ : σ}

/-- What the servers have received is worked on by one handler each, but for
what a server has in hand. -/
theorem messages_perm
    (hman : ∀ role args g, manages role args g → message g = some (ofArgs role args))
    (hown : ∀ s g o r s' born, S.perform s g o r s' born → born.filterMap message = [])
    (h : Reachable (hosted (host main extPort intPort manages) S) guard (false, s₀) P) :
    (P.threads.flatMap (taken received)).Perm (P.threads.filterMap (handling (messageOf message)) ++
      P.threads.filterMap (waiting handsOver)) := by
  refine taken_perm h start_relays (fun _ _ _ _ _ _ hperf => born_messages hman hown hperf) ?_
  rintro _ _ _ ⟨tag, rfl, _⟩
  rfl

/-- The same for some of what they have received, without what is in hand. -/
theorem messages_subperm {μ : Type}
    (hman : ∀ role args g, manages role args g → message g = some (ofArgs role args))
    (hown : ∀ s g o r s' born, S.perform s g o r s' born → born.filterMap message = [])
    (h : Reachable (hosted (host main extPort intPort manages) S) guard (false, s₀) P)
    (f : Message Int → Option μ) :
    ((P.threads.filterMap (handling (messageOf message))).filterMap f).Subperm
      ((P.threads.flatMap (taken received)).filterMap f) := by
  have hperm := (messages_perm hman hown h).filterMap f
  rw [List.filterMap_append] at hperm
  exact (List.sublist_append_left _ _).subperm.trans hperm.symm.subperm

/-- A server's threads receive only from a socket bound to the server's port. -/
def OnPort (extPort intPort : BitVec 16) (t : Lib.Threads.Thread (Server.Thread ⊕ Γ) ProcessOp
    ProcessReply (Server.Stop ⊕ Stop) Unit) : Prop :=
  ∀ role fuel, t.tag = .inl (.server role fuel) → ∀ e ∈ t.past, ∀ o, e.op = .inl o →
    ∀ fd, source o = some fd →
      ⟨.inl (.bind fd (Server.anyAddress (portOf extPort intPort role))), true⟩ ∈ t.past

theorem onPort (h : Reachable (hosted (host main extPort intPort manages) S) guard (false, s₀) P) :
    ∀ t ∈ P.threads, OnPort extPort intPort t := by
  rintro ⟨tag, past, q⟩ ht role fuel rfl e he o ho fd hfd
  obtain ⟨es, q', rfl, _, hreach⟩ := reaches_left (h.thread _ ht)
  obtain ⟨e', he', rfl⟩ := List.mem_map.mp he
  cases ho
  obtain ⟨before, after, rfl⟩ := List.append_of_mem he'
  have hbound := hreach.allPast (run_fromPort extPort intPort fuel role) rfl fd hfd
  rw [List.nil_append] at hbound
  exact List.mem_map.mpr ⟨_, List.mem_append_left _ hbound, rfl⟩

end Messages

abbrev HandlerEvent := Event (Op Int) (Reply Int)

abbrev ProcessThread (Γ : Type) :=
  Lib.Threads.Thread (Server.Thread ⊕ Γ) ProcessOp ProcessReply (Server.Stop ⊕ Stop) Unit

section Observations
variable {Γ μ : Type}

def ofHandler (f : HandlerEvent → Option μ) : Event ProcessOp ProcessReply → Option μ
  | ⟨.inr o, r⟩ => f ⟨o, r⟩
  | ⟨.inl _, _⟩ => none

def seen (f : HandlerEvent → Option μ) (t : ProcessThread Γ) : List μ :=
  t.past.filterMap (ofHandler f)

theorem seen_right (f : HandlerEvent → Option μ) (g : Γ) (es : List HandlerEvent)
    (p : Prog ProcessOp ProcessReply (Server.Stop ⊕ Stop) Unit) :
    seen f (⟨.inr g, es.map rightEvent, p⟩ : ProcessThread Γ) = es.filterMap f := by
  rw [seen, List.filterMap_map]
  rfl

theorem seen_rightThread (f : HandlerEvent → Option μ)
    (u : Lib.Threads.Thread Γ (Op Int) (Reply Int) Stop Unit) :
    seen f (rightThread u : ProcessThread Γ) = u.past.filterMap f := seen_right f u.tag u.past _

/-- `main` and the servers do nothing that a handler does. -/
theorem seen_left {σ : Type} {S : System σ Γ (Op Int) (Reply Int) Stop Unit}
    {main : Server.Service Int Nat Unit} {extPort intPort : BitVec 16}
    {manages : Server.Role → Server.Args Int Nat → Γ → Prop}
    {guard : Bool × σ → List (ProcessThread Γ) → Server.Thread ⊕ Γ → ProcessOp → Prop}
    {s₀ : Bool × σ} {P : ProcessPool σ Γ}
    (h : Reachable (hosted (host main extPort intPort manages) S) guard s₀ P)
    (f : HandlerEvent → Option μ) :
    ∀ t ∈ P.threads, t.tag.isRight = false → seen f t = [] := by
  rintro ⟨tag, past, p⟩ ht hleft
  cases tag with
  | inr g => cases hleft
  | inl tag =>
    obtain ⟨es, q, rfl, _⟩ := reaches_left (h.thread _ ht)
    refine List.filterMap_eq_nil_iff.mpr fun e he => ?_
    obtain ⟨e', _, rfl⟩ := List.mem_map.mp he
    rfl

end Observations

section World
variable {σ Γ : Type} {S : System σ Γ (Op Int) (Reply Int) Stop Unit}
  (main : Server.Service Int Nat Unit) (extPort intPort : BitVec 16)
  (manages : Server.Role → Server.Args Int Nat → Γ → Prop)

def launched (fuel : Nat) (callback : Server.Role → Server.Args Int Nat → Option Γ) :
    Server.Thread → Server.Op Int Nat → Option (List Server.Thread × Option Γ)
  | _, .thread role => some ([.server role fuel], none)
  | .server role _, .goAsync _ args => (callback role args).map fun g => ([], some g)
  | .main, .goAsync .. => none
  | _, _ => some ([], none)

/-- Everything works, sockets have the descriptors 3 to 5, and a server receives
the same bytes each time, from the same client. -/
def answered (bytes : Server.Role → List Byte) :
    Server.Thread → (o : Server.Op Int Nat) → Server.Reply Int Nat o
  | _, .isStopped => false
  | .server .internalUdp _, .socket _ => some 3
  | .server .externalUdp _, .socket _ => some 4
  | _, .socket _ => some 5
  | _, .bind .. | _, .listen .. | _, .signal _ => true
  | _, .malloc => some 1
  | _, .newBuffer _ => some (2, [])
  | .server role _, .recvfrom .. => some (bytes role, SockaddrIn.zero)
  | .main, .recvfrom .. => none
  | _, .accept _ => some (6, SockaddrIn.zero)
  | _, .thread _ | _, .join _ | _, .setStopped _ | _, .setReuseAddr _ | _, .free _
  | _, .goAsync .. => ()

def resolved (w : World S) (fuel : Nat) (callback : Server.Role → Server.Args Int Nat → Option Γ)
    (bytes : Server.Role → List Byte) (s : Bool × σ) :
    Server.Thread ⊕ Γ → (o : ProcessOp) →
      Option (ProcessReply o × (Bool × σ) × List (Server.Thread ⊕ Γ))
  | .inl tag, .inl o =>
    match launched fuel callback tag o with
    | some (tags, none) => some (answered bytes tag o, s, tags.map .inl)
    | some (tags, some g) =>
      (w.accept s.2 g).map fun s' => (answered bytes tag o, (s.1, s'), tags.map .inl ++ [.inr g])
    | none => none
  | .inr g, .inr o =>
    (w.resolve s.2 g o).map fun (r, s', born) => (r, (s.1, s'), born.map .inr)
  | _, _ => none

variable {manages}

theorem launched_launches {fuel : Nat} {callback : Server.Role → Server.Args Int Nat → Option Γ}
    (hcb : ∀ role args g, callback role args = some g → manages role args g) {tag : Server.Thread}
    {o : Server.Op Int Nat} {tags : List Server.Thread} {arriving : Option Γ}
    (h : launched fuel callback tag o = some (tags, arriving)) :
    Launches manages tag o tags arriving := by
  cases o with
  | thread role =>
    cases h
    exact ⟨⟨fuel, rfl⟩, rfl⟩
  | goAsync block args =>
    cases tag with
    | main => cases h
    | server role n =>
      obtain ⟨g, hg, heq⟩ := Option.map_eq_some_iff.mp h
      cases heq
      exact ⟨rfl, role, n, g, rfl, rfl, hcb _ _ _ hg⟩
  | _ =>
    cases tag <;>
    · cases h
      exact ⟨rfl, rfl⟩

theorem resolved_performs (w : World S) {fuel : Nat}
    {callback : Server.Role → Server.Args Int Nat → Option Γ}
    (hcb : ∀ role args g, callback role args = some g → manages role args g)
    (bytes : Server.Role → List Byte) (s : Bool × σ) (g : Server.Thread ⊕ Γ) (o : ProcessOp)
    (r : ProcessReply o) (s' : Bool × σ) (born : List (Server.Thread ⊕ Γ))
    (h : resolved w fuel callback bytes s g o = some (r, s', born)) :
    (hosted (host main extPort intPort manages) S).perform s g o r s' born := by
  match g, o with
  | .inl tag, .inl o =>
    simp only [resolved] at h
    split at h
    · rename_i tags hl
      cases h
      exact ⟨tags, none, by simp, ⟨rfl, launched_launches hcb hl⟩, rfl⟩
    · rename_i tags g hl
      obtain ⟨s₂, hs, heq⟩ := Option.map_eq_some_iff.mp h
      cases heq
      exact ⟨tags, some g, rfl, ⟨rfl, launched_launches hcb hl⟩, w.arrives _ _ _ hs⟩
    · cases h
  | .inr g, .inr o =>
    obtain ⟨⟨r₂, s₂, own⟩, hr, heq⟩ := Option.map_eq_some_iff.mp h
    cases heq
    exact ⟨own, rfl, w.performs _ _ _ _ _ _ hr, rfl⟩
  | .inl _, .inr _ => cases h
  | .inr _, .inl _ => cases h

def admitted (s : Bool × σ) : Server.Thread ⊕ Γ → Option (Bool × σ)
  | .inl .main => if s.1 then none else some (true, s.2)
  | _ => none

theorem admitted_arrives (s : Bool × σ) (g : Server.Thread ⊕ Γ) (s' : Bool × σ)
    (h : admitted s g = some s') : (hosted (host main extPort intPort manages) S).arrive s s' g := by
  match g with
  | .inl .main =>
    simp only [admitted, Option.ite_none_left_eq_some, Option.some.injEq, Bool.not_eq_true] at h
    obtain ⟨hfirst, rfl⟩ := h
    exact ⟨.main, rfl, ⟨hfirst, rfl, rfl⟩, rfl⟩
  | .inl (.server _ _) => cases h
  | .inr _ => cases h

def workingWorld (w : World S) (fuel : Nat)
    (callback : Server.Role → Server.Args Int Nat → Option Γ)
    (hcb : ∀ role args g, callback role args = some g → manages role args g)
    (bytes : Server.Role → List Byte) : World (hosted (host main extPort intPort manages) S) where
  resolve := resolved w fuel callback bytes
  performs := resolved_performs main extPort intPort w hcb bytes
  accept := admitted
  arrives := admitted_arrives main extPort intPort

end World

instance {main : Server.Service Int Nat Unit} {extPort intPort : BitVec 16} {σ Γ : Type}
    {manages : Server.Role → Server.Args Int Nat → Γ → Prop}
    {S : System σ Γ (Op Int) (Reply Int) Stop Unit} [DecidablePred S.fatal] :
    DecidablePred (hosted (host main extPort intPort manages) S).fatal
  | .inl e => inferInstanceAs (Decidable (Server.Stop.Fatal e))
  | .inr e => inferInstanceAs (Decidable (S.fatal e))

end Ironhide.Proofs.Process
