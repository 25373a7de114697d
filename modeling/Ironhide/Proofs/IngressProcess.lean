import Ironhide.Proofs.Process
import Ironhide.Proofs.Returning

namespace Ironhide.Proofs.IngressProcess
open Model Lib.Bytes Lib.Program Lib.StdMap Lib.SearchTree Lib.Threads Lib.Threads.System
open Lib.Schedule Lib.Relaying Lib.Hosting Lib.Passing Servers Process Table Keys
open Observed Translation Returning

def manages : Server.Role → Server.Args Int Nat → Ingress.Callback Int → Prop
  | .internalUdp, .udp args _, g => g = .vnf args
  | .externalUdp, .udp args _, g => g = .udp args
  | .tcp, .tcp args, g => ∃ pkt fuel, g = .tcp args pkt fuel
  | _, _, _ => False

def message : Ingress.Callback Int → Option (Message Int)
  | .vnf args => some (ofUdp .internalUdp args)
  | .udp args => some (ofUdp .externalUdp args)
  | .tcp args _ _ => some (ofTcp .tcp args)

variable {T : MapOps ConnectionEntry} {self : Self} {intPort : BitVec 16}

/-- The ingress as it runs: `main` in `Ingress::start`, its three servers and
all the handlers that these start. -/
abbrev process (T : MapOps ConnectionEntry) (self : Self) (intPort : BitVec 16) :=
  hosted (host Server.ingressStart self.extPort intPort manages) (IngressRuns.system T self)

def start (T : MapOps ConnectionEntry) (self : Self) (intPort : BitVec 16) :
    Bool × IngressRuns.State T :=
  (false, IngressRuns.start T self.myIp self.extPort intPort)

abbrev IngressPool (T : MapOps ConnectionEntry) :=
  ProcessPool (IngressRuns.State T) (Ingress.Callback Int)

variable {guard : Bool × IngressRuns.State T → List (Lib.Threads.Thread (Server.Thread ⊕
  Ingress.Callback Int) ProcessOp ProcessReply (Server.Stop ⊕ Stop) Unit) →
  Server.Thread ⊕ Ingress.Callback Int → ProcessOp → Prop} {P : IngressPool T}

theorem manages_message (role : Server.Role) (args : Server.Args Int Nat)
    (g : Ingress.Callback Int) (h : manages role args g) : message g = some (ofArgs role args) := by
  match role, args with
  | .internalUdp, .udp args pkt =>
    cases h
    rfl
  | .externalUdp, .udp args pkt =>
    cases h
    rfl
  | .tcp, .tcp args =>
    obtain ⟨pkt, fuel, rfl⟩ := h
    rfl
  | .internalUdp, .tcp _ => exact h.elim
  | .externalUdp, .tcp _ => exact h.elim
  | .tcp, .udp _ _ => exact h.elim

/-- The handlers start no threads. -/
theorem born_nil (s : IngressRuns.State T) (g : Ingress.Callback Int) (o : Op Int)
    (r : Reply Int o) (s' : IngressRuns.State T) (born : List (Ingress.Callback Int))
    (h : (IngressRuns.system T self).perform s g o r s' born) : born.filterMap message = [] := by
  rw [h.1]
  rfl

/-- Whatever the servers of an ingress receive, each on its own port, is worked
on by one handler thread, but for what a server is about to hand over; nothing is
worked on that was not received. -/
theorem one_handler_each (h : Reachable (process T self intPort) guard (start T self intPort) P) :
    (P.threads.flatMap (taken received)).Perm (P.threads.filterMap (handling (messageOf message)) ++
      P.threads.filterMap (waiting handsOver)) ∧
    ∀ t ∈ P.threads, OnPort self.extPort intPort t :=
  ⟨messages_perm manages_message born_nil h, onPort h⟩

section World

def managed (role : Server.Role) (args : Server.Args Int Nat) : Option (Ingress.Callback Int) :=
  match role, args with
  | .internalUdp, .udp args _ => some (.vnf args)
  | .externalUdp, .udp args _ => some (.udp args)
  | .tcp, .tcp args => some (.tcp args [] 2)
  | _, _ => none

theorem managed_manages (role : Server.Role) (args : Server.Args Int Nat)
    (g : Ingress.Callback Int) (h : managed role args = some g) : manages role args g := by
  match role, args with
  | .internalUdp, .udp args pkt => exact (Option.some.inj h).symm
  | .externalUdp, .udp args pkt => exact (Option.some.inj h).symm
  | .tcp, .tcp args => exact ⟨[], 2, (Option.some.inj h).symm⟩
  | .internalUdp, .tcp _ => cases h
  | .externalUdp, .tcp _ => cases h
  | .tcp, .udp _ _ => cases h

def sent : Server.Role → List Byte
  | .internalUdp => udpFrame
  | _ => udpPacket.bytes

def ingressWorld : World (process (stdMap plain) proxy 57001) :=
  workingWorld Server.ingressStart 57000 57001
    (IngressRuns.grantingWorld (stdMap plain) proxy 4 (fun _ => "") []) 3 managed managed_manages sent

/-- `main` starts the servers; the one for clients receives a datagram, which is
forwarded, then another; the one for the chain receives a frame. -/
def exchange : List (Move (Server.Thread ⊕ Ingress.Callback Int)) :=
  .arrive (.inl .main) :: steps 3 0 ++ steps 12 2 ++ steps 3 4 ++ steps 4 2 ++ steps 12 1 ++ steps 2 5

end World

/-- Two datagrams have been received and one is still in hand. -/
theorem one_handler_each_exchange : ∃ P : IngressPool (stdMap plain),
    Reachable (process (stdMap plain) proxy 57001) Joined (start (stdMap plain) proxy 57001) P ∧
    (P.threads.filterMap (handling (messageOf message))).length = 2 ∧
    (P.threads.filterMap (waiting handsOver)).length = 1 ∧
    (P.threads.flatMap (taken received)).Perm
      (P.threads.filterMap (handling (messageOf message)) ++
        P.threads.filterMap (waiting handsOver)) := by
  obtain ⟨P, hP, hdone⟩ := ingressWorld.exists_reachable Joined (start (stdMap plain) proxy 57001)
    exchange (fun P => decide ((P.threads.filterMap (handling (messageOf message))).length = 2 ∧
      (P.threads.filterMap (waiting handsOver)).length = 1)) (by decide +kernel)
  obtain ⟨hhandled, hwaiting⟩ := of_decide_eq_true hdone
  exact ⟨P, hP, hhandled, hwaiting, (one_handler_each hP).1⟩

section Clients

def client : Message Int → Option (Int × SockaddrIn)
  | .datagram .externalUdp socketFd clientAddress _ => some (socketFd, clientAddress)
  | .connection .tcp newSocketFd clientAddress => some (newSocketFd, clientAddress)
  | _ => none

/-- Whatever the handler of a message registers is the client of the message. -/
def RegistersOnly (g : Ingress.Callback Int) (o : Op Int) : Prop :=
  ∀ ce v, registers o = some (ce, v) → (message g).bind client = some v

theorem start_registersOnly (self : Self) (g : Ingress.Callback Int) :
    (Ingress.start self g).All (RegistersOnly g) := by
  have hnone {o : Op Int} (h : registers o = none) : RegistersOnly g o := by
    intro ce v hv
    rw [h] at hv
    cases hv
  cases g with
  | tcp args pkt fuel =>
    have hown (ce : ConnectionEntry) : RegistersOnly (.tcp args pkt fuel)
        (.addEntry ce args.newSocketFd args.clientAddress .ingressT .tcp) := by
      intro ce' v hv
      cases hv
      rfl
    refine (Ingress.enteringLoop_all self (hnone rfl) hown (fun _ => hnone rfl)
      (fun _ _ _ => hnone rfl) _ _).bind fun last => ?_
    exact Ingress.afterLoop_all (fun _ => hnone rfl) (hnone rfl) _ _
  | udp args =>
    have hown (ce : ConnectionEntry) : RegistersOnly (.udp args)
        (.addEntry ce args.socketFd args.clientAddress .ingressT .udp) := by
      intro ce' v hv
      cases hv
      rfl
    exact Ingress.manageEnteringUdpPackets_all self hown (fun _ => hnone rfl) fun _ _ _ => hnone rfl
  | vnf args =>
    exact Ingress.managePktFromChain_all (hnone rfl) (fun _ => hnone rfl) (fun _ _ => hnone rfl)
      (fun _ _ => hnone rfl) (fun _ => hnone rfl) (fun _ _ _ => hnone rfl) fun _ => hnone rfl

variable {guard' : IngressRuns.State T → List (Lib.Threads.Thread (Ingress.Callback Int) (Op Int)
  (Reply Int) Stop Unit) → Ingress.Callback Int → Op Int → Prop} {Q : IngressRuns.CallPool T}
  {myIp : String} {extPort : BitVec 16}

theorem registers_of_calls {e : Endpoint T Int} {o : Op Int} {r : Reply Int o} {c : Call Int}
    {ce : ConnectionEntry} {v : Int × SockaddrIn} (h : IngressRuns.Calls e o r (some c))
    (hv : c.inserted = some (ce, v)) : registers o = some (ce, v) := by
  cases o with
  | addEntry ce' fd sockin endpoint protocol =>
    obtain ⟨answer, hc, _⟩ := h
    cases hc
    cases hv
    rfl
  | updateEntry ce' fd sockin endpoint =>
    obtain ⟨answer, hc, _⟩ := h
    cases hc
    cases answer with
    | error x => cases hv
    | ok b =>
      cases hv
      rfl
  | deleteEntry ce' =>
    obtain ⟨answer, hc, _⟩ := h
    cases hc
    cases hv
  | retrieveConnection2 ce' =>
    cases h.1
    cases hv
  | _ => cases h

/-- A pair that is put into the table comes from an operation of some handler. -/
theorem inserted_by (h : Reachable (IngressRuns.system T self) guard'
    (IngressRuns.start T myIp extPort intPort) Q) :
    ∀ c ∈ Q.shared.calls, ∀ ce v, c.inserted = some (ce, v) →
      ∃ t ∈ Q.threads, ∃ e ∈ t.past, registers e.op = some (ce, v) := by
  refine h.invariant (fun Q => ∀ c ∈ Q.shared.calls, ∀ ce v, c.inserted = some (ce, v) →
    ∃ t ∈ Q.threads, ∃ e ∈ t.past, registers e.op = some (ce, v)) (by simp [IngressRuns.start]) ?_
  intro Q Q' _ ih hst c hc ce v hv
  have hold (hc : c ∈ Q.shared.calls) :
      ∃ t ∈ Q'.threads, ∃ e ∈ t.past, registers e.op = some (ce, v) :=
    hst.done (ih c hc ce v hv)
  cases hst with
  | @run s s' before after g past o k r born _ _ hperf =>
    obtain ⟨-, call, hcalls, rfl⟩ := hperf
    rcases List.mem_append.mp hc with hc | hc
    · exact hold hc
    · refine ⟨_, mem_moved.mpr (Or.inr (Or.inl rfl)), ⟨o, r⟩, by simp, ?_⟩
      cases Option.mem_toList.mp hc
      exact registers_of_calls hcalls hv
  | arrive _ harr =>
    cases harr
    exact hold hc

/-- What a lookup gives: nothing, or a pair that one of the calls has put in. -/
def LookedUp (s : IngressRuns.State T) : Event (Op Int) (Reply Int) → Prop
  | ⟨.retrieveConnection2 ce, sock⟩ =>
    sock = (Descriptor.notFound, SockaddrIn.zero) ∨ ∃ c ∈ s.calls, c.inserted = some (ce, sock)
  | _ => True

theorem LookedUp.mono {s s' : IngressRuns.State T} (h : s.calls ⊆ s'.calls)
    {e : Event (Op Int) (Reply Int)} (he : LookedUp s e) : LookedUp s' e := by
  obtain ⟨o, r⟩ := e
  cases o with
  | retrieveConnection2 ce =>
    refine he.imp_right fun hc => ?_
    obtain ⟨c, hmem, hc⟩ := hc
    exact ⟨c, h hmem, hc⟩
  | _ => trivial

theorem lookedUp {sh : Shaping ConnectionEntry} {Q : IngressRuns.CallPool (stdMap sh)}
    {guard' : IngressRuns.State (stdMap sh) → List (Lib.Threads.Thread (Ingress.Callback Int)
      (Op Int) (Reply Int) Stop Unit) → Ingress.Callback Int → Op Int → Prop}
    (h : Reachable (IngressRuns.system (stdMap sh) self) guard'
      (IngressRuns.start (stdMap sh) myIp extPort intPort) Q) :
    ∀ t ∈ Q.threads, ∀ e ∈ t.past, LookedUp Q.shared e := by
  refine h.since (E := fun s _ e => LookedUp s e) ?_ ?_
  · intro s before after g past o k r s' born hr hperf
    obtain ⟨-, c, hcalls, rfl⟩ := hperf
    refine ⟨?_, fun _ e => LookedUp.mono fun x hx => List.mem_append_left _ hx⟩
    cases o with
    | retrieveConnection2 ce =>
      obtain ⟨rfl, rfl⟩ := hcalls
      have hsock := IngressRuns.endpoint_eq hr
      change s.endpoint = _ at hsock
      rw [hsock]
      simp only [Endpoint.retrieveConnection2]
      split
      · exact Or.inl rfl
      · rename_i sock hfind
        have hhas := (stdMap_sound sh).has_of_find _ _ _ hfind
        obtain ⟨c, hc, hins⟩ := has_inserted (stdMap_sound sh) myIp extPort intPort _ _ _ hhas
        exact Or.inr ⟨c, List.mem_append_left _ hc, hins⟩
    | _ => trivial
  · intro s s' g harr _ e he
    cases harr
    exact he

/-- What a handler of the process has done, some thread of the system has done. -/
theorem guest_did {P : IngressPool T} {Q : IngressRuns.CallPool T} (hshow : Shows P Q)
    (h : Reachable (process T self intPort) guard (start T self intPort) P)
    {t : ProcessThread (Ingress.Callback Int)} (ht : t ∈ P.threads) {o : Op Int} {r : Reply Int o}
    (he : ⟨.inr o, r⟩ ∈ t.past) : ∃ u ∈ Q.threads, ⟨o, r⟩ ∈ u.past := by
  obtain ⟨tag, past, p⟩ := t
  cases tag with
  | inl tag =>
    obtain ⟨es, q, rfl, _⟩ := reaches_left (h.thread _ ht)
    obtain ⟨e, _, heq⟩ := List.mem_map.mp he
    cases heq
  | inr g =>
    obtain ⟨u, hu, rfl, rfl, _⟩ := hshow.guest ht
    obtain ⟨⟨o', r'⟩, he', heq⟩ := List.mem_map.mp he
    cases heq
    exact ⟨u, hu, he'⟩

def lookup : HandlerEvent → Option (ConnectionEntry × Int × SockaddrIn)
  | ⟨.retrieveConnection2 ce, sock⟩ => some (ce, sock)
  | _ => none

theorem event_of_lookup {t : ProcessThread (Ingress.Callback Int)} {ce : ConnectionEntry}
    {sock : Int × SockaddrIn} (h : (ce, sock) ∈ seen lookup t) :
    ⟨.inr (.retrieveConnection2 ce), sock⟩ ∈ t.past := by
  obtain ⟨⟨o, r⟩, he, hfound⟩ := List.mem_filterMap.mp h
  cases o with
  | inl o => cases hfound
  | inr o =>
    cases o with
    | retrieveConnection2 ce' =>
      cases hfound
      exact he
    | _ => cases hfound

/-- A buffer in which the handler of a client has had what this client has sent.
One of the process's servers has received from the client. -/
def Served (P : IngressPool T) (sock : Int × SockaddrIn) (b : Buffered) : Prop :=
  ∃ t ∈ P.threads, ∃ g m, t.tag = .inr g ∧ message g = some m ∧ client m = some sock ∧
    (∃ u ∈ P.threads, m ∈ taken received u) ∧ b ∈ buffers (seen chunk t) g

/-- The key is read from what the client has sent. -/
def Known (P : IngressPool T) (self : Self) (ce : ConnectionEntry) (sock : Int × SockaddrIn) :
    Prop :=
  ∃ b, Served P sock b ∧ b.key self = some ce

section Lookups
variable {sh : Shaping ConnectionEntry} {P : IngressPool (stdMap sh)}
  {guard : Bool × IngressRuns.State (stdMap sh) → List (ProcessThread (Ingress.Callback Int)) →
    Server.Thread ⊕ Ingress.Callback Int → ProcessOp → Prop}

/-- What a lookup finds, one of the handlers has registered. -/
theorem lookup_registered
    (h : Reachable (process (stdMap sh) self intPort) guard (start (stdMap sh) self intPort) P)
    {t : ProcessThread (Ingress.Callback Int)} (ht : t ∈ P.threads) {ce : ConnectionEntry}
    {sock : Int × SockaddrIn} (hlookup : (ce, sock) ∈ seen lookup t) :
    sock = (Descriptor.notFound, SockaddrIn.zero) ∨
      ∃ w ∈ P.threads, (ce, sock) ∈ seen (fun e => registers e.op) w := by
  obtain ⟨Q, hreach, hshow⟩ := refines h
  obtain ⟨u, hu, hfound⟩ := guest_did hshow h ht (event_of_lookup hlookup)
  refine (lookedUp hreach u hu _ hfound).imp_right fun hc => ?_
  obtain ⟨c, hc, hins⟩ := hc
  obtain ⟨w, hw, e, he, hreg⟩ := inserted_by hreach c hc ce sock hins
  have hguest : rightThread w ∈ guests P.threads := by
    rw [hshow.threads]
    exact List.mem_map_of_mem hw
  refine ⟨_, List.mem_of_mem_filter hguest, ?_⟩
  rw [seen_rightThread]
  exact List.mem_filterMap.mpr ⟨e, he, hreg⟩

/-- A connection is registered for the client that a handler works for, under a
key that it has read from what this client has sent. -/
theorem known_of_registered
    (h : Reachable (process (stdMap sh) self intPort) guard (start (stdMap sh) self intPort) P)
    {t : ProcessThread (Ingress.Callback Int)} (ht : t ∈ P.threads) {ce : ConnectionEntry}
    {sock : Int × SockaddrIn} (hreg : (ce, sock) ∈ seen (fun e => registers e.op) t) :
    Known P self ce sock := by
  obtain ⟨Q, hreach, hshow⟩ := refines h
  obtain ⟨tag, past, p⟩ := t
  cases tag with
  | inl tag =>
    rw [seen_left h _ _ ht rfl] at hreg
    cases hreg
  | inr g =>
    obtain ⟨w, hw, rfl, rfl, _⟩ := hshow.guest ht
    rw [seen_right] at hreg
    obtain ⟨e, he, hregisters⟩ := List.mem_filterMap.mp hreg
    have hthread := hreach.thread w hw
    have hclient := (hthread.all (start_registersOnly self w.tag)).2 e he ce sock hregisters
    obtain ⟨m, hm, hms⟩ := Option.bind_eq_some_iff.mp hclient
    -- a server has received what the handler works on
    have hworked : m ∈ P.threads.filterMap (handling (messageOf message)) :=
      List.mem_filterMap.mpr ⟨_, ht, hm⟩
    have hperm := messages_perm manages_message born_nil h
    obtain ⟨u, hu, htaken⟩ :=
      List.mem_flatMap.mp (hperm.mem_iff.mpr (List.mem_append_left _ hworked))
    obtain ⟨before, after, hpast⟩ := List.append_of_mem he
    obtain ⟨b, hb, hkey⟩ :=
      hthread.allPast (start_registersRead self w.tag) hpast ce sock hregisters
    refine ⟨b, ⟨_, ht, w.tag, m, rfl, hm, hms, ⟨u, hu, htaken⟩, ?_⟩, hkey⟩
    rw [seen_right, hpast, List.filterMap_append]
    exact mem_buffers_append hb _

/-- Whatever connection a handler finds in the table of a running ingress, to
deliver a packet from the chain on, is that of a client from which one of the
process's own servers has received, and the handler of this client has read the
very key, chain id included, from a buffer with what the client has sent. -/
theorem finds_clients
    (h : Reachable (process (stdMap sh) self intPort) guard (start (stdMap sh) self intPort) P) :
    ∀ t ∈ P.threads, ∀ ce sock, (ce, sock) ∈ seen lookup t →
      sock = (Descriptor.notFound, SockaddrIn.zero) ∨ Known P self ce sock := by
  intro t ht ce sock hlookup
  refine (lookup_registered h ht hlookup).imp_right fun hw => ?_
  obtain ⟨w, hw, hreg⟩ := hw
  exact known_of_registered h hw hreg

end Lookups

/-- The frame of the chain finds the client of the datagram. -/
theorem finds_clients_exchange : ∃ P : IngressPool (stdMap plain),
    Reachable (process (stdMap plain) proxy 57001) Joined (start (stdMap plain) proxy 57001) P ∧
    (∃ t ∈ P.threads, (sampleConnection.entry .udp, 4, SockaddrIn.zero) ∈ seen lookup t) ∧
    Known P proxy (sampleConnection.entry .udp) (4, SockaddrIn.zero) := by
  obtain ⟨P, hP, hdone⟩ := ingressWorld.exists_reachable Joined (start (stdMap plain) proxy 57001)
    exchange (fun P => decide (∃ t ∈ P.threads,
      (sampleConnection.entry .udp, 4, SockaddrIn.zero) ∈ seen lookup t)) (by decide +kernel)
  obtain ⟨t, ht, hfound⟩ := of_decide_eq_true hdone
  refine ⟨P, hP, ⟨t, ht, hfound⟩, (finds_clients hP t ht _ _ hfound).resolve_left ?_⟩
  simp

end Clients

section Sized

def GivenSized : Server.Thread ⊕ Ingress.Callback Int → Prop
  | .inr (.udp args) | .inr (.vnf args) => args.pktLen ≤ args.pkt.length
  | _ => True

def StartsSized : ProcessOp → Prop
  | .inl o => HandsSized o
  | .inr _ => True

theorem givenSized (h : Reachable (process T self intPort) guard (start T self intPort) P) :
    ∀ t ∈ P.threads, GivenSized t.tag := by
  refine h.tagged (B := fun _ => StartsSized) ?_ ?_ ?_
  · intro g _
    match g with
    | .inl .main =>
      refine left_all (P := HandsSized) (fun _ ho => ho) ?_
      exact ⟨trivial, fun _ => ⟨trivial, fun _ => ⟨trivial, fun _ => ⟨trivial, fun _ => ⟨trivial,
        fun _ => ⟨trivial, fun _ => trivial⟩⟩⟩⟩⟩⟩
    | .inl (.server role fuel) =>
      exact left_all (P := HandsSized) (fun _ ho => ho) (run_handsSized self.extPort intPort fuel role)
    | .inr g => exact right_all (P := fun _ => True) (fun _ _ => trivial) (Prog.all_true _)
  · intro s g o r s' born hperf _ ho b hb
    match g, o with
    | .inl tag, .inl o =>
      obtain ⟨tags, arriving, rfl, ⟨_, hlaunch⟩, _⟩ := hperf
      rcases List.mem_append.mp hb with hb | hb
      · obtain ⟨tag, _, rfl⟩ := List.mem_map.mp hb
        trivial
      · obtain ⟨g, hg, rfl⟩ := List.mem_map.mp hb
        cases o with
        | goAsync block args =>
          obtain ⟨_, role, fuel, g', rfl, rfl, hman⟩ := hlaunch
          cases List.mem_singleton.mp hg
          match role, args with
          | .internalUdp, .udp args pkt =>
            cases hman
            exact ho
          | .externalUdp, .udp args pkt =>
            cases hman
            exact ho
          | .tcp, .tcp args =>
            obtain ⟨pkt, fuel, rfl⟩ := hman
            trivial
          | .internalUdp, .tcp _ => exact hman.elim
          | .externalUdp, .tcp _ => exact hman.elim
          | .tcp, .udp _ _ => exact hman.elim
        | _ =>
          obtain ⟨_, rfl⟩ := hlaunch
          cases hg
    | .inr g, .inr o =>
      obtain ⟨own, rfl, hown, _⟩ := hperf
      obtain ⟨g', hg', rfl⟩ := List.mem_map.mp hb
      obtain ⟨rfl, _⟩ := hown
      cases hg'
    | .inl _, .inr _ => exact hperf.elim
    | .inr _, .inl _ => exact hperf.elim
  · rintro _ _ _ ⟨tag, rfl, _⟩
    trivial

end Sized

end Ironhide.Proofs.IngressProcess
