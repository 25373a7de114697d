import Ironhide.Proofs.DeadConnections
import Ironhide.Proofs.Translation
import Mathlib.Data.List.Flatten

namespace Ironhide.Proofs.EgressConnections
open Model Lib.Bytes Lib.Program Lib.StdMap Lib.SearchTree Lib.Threads Lib.Threads.System
open PacketUtils SfcUtilities Table Translation
open DeadConnections (EgressPool EgressThread start system registration table_performed
  start_updates kept_reachable task_lookedUp perform_opens opens Updates)

def connected : Event (Op Int) (Reply Int) → Option ((String × BitVec 16) × Int)
  | ⟨.connectToServer dst port, r⟩ => r.map fun new => ((dst, port), new.1)
  | _ => none

theorem opens_of_connected {e : Event (Op Int) (Reply Int)} {c : (String × BitVec 16) × Int}
    (h : connected e = some c) : opens e = some c.2 := by
  obtain ⟨o, r⟩ := e
  cases o with
  | connectToServer dst port =>
    obtain ⟨new, rfl, rfl⟩ := Option.map_eq_some_iff.mp h
    rfl
  | _ => cases h

/-- The destination of a frame stands in the key of its connection. -/
theorem destination_eq (hdr : SfcHeader) (prt : ProtocolType) :
    destination (headerEnds hdr) = ((headerEntry hdr prt).ipDst, (headerEntry hdr prt).portDst) := rfl

section Programs

/-- The TCP task writes on the connection it was given or on one that it has
opened to the destination of its frame, and this one it registers. -/
def OnConnection (server : String × BitVec 16) (ce : ConnectionEntry) (socket : Int)
    (past : List (Event (Op Int) (Reply Int))) : Op Int → Prop
  | .send fd _ => (fd = socket ∧ socket ≠ -1) ∨ (server, fd) ∈ past.filterMap connected
  | .updateEntry ce' fd _ _ => ce' = ce ∧ (server, fd) ∈ past.filterMap connected
  | _ => True

def Idle : Op Int → Prop
  | .send .. | .updateEntry .. => False
  | _ => True

theorem Idle.onConnection {server : String × BitVec 16} {ce : ConnectionEntry} {socket : Int}
    (past : List (Event (Op Int) (Reply Int))) (o : Op Int) (h : Idle o) :
    OnConnection server ce socket past o := by
  cases o with
  | send | updateEntry => exact h.elim
  | _ => trivial

theorem tcpLoop_idle (self : Self) (header : SfcHeader) (fd : Int) (n : Nat) (buffer : List Byte) :
    (Egress.exitingTcpLoop self header fd n buffer).All Idle :=
  Egress.exitingTcpLoop_all (P := Idle) self header fd trivial (fun _ => trivial)
    (fun _ _ _ => trivial) n buffer

theorem exitingTcp_onConnection (past : List (Event (Op Int) (Reply Int))) (self : Self)
    (pkt : List Byte) (pktLen : Nat) (ce : ConnectionEntry) (socket : Int) (buffer : List Byte)
    (fuel : Nat) :
    (Egress.manageExitingTcpPackets self pkt pktLen ce socket buffer fuel).AllPast
      (OnConnection (destination (headerEnds (retrieveHeader pkt))) ce socket) past := by
  have hloop (fd : Int) (past : List (Event (Op Int) (Reply Int))) :
      (Egress.exitingTcpLoop self (retrieveHeader pkt) fd fuel buffer).AllPast
        (OnConnection (destination (headerEnds (retrieveHeader pkt))) ce socket) past :=
    (tcpLoop_idle self (retrieveHeader pkt) fd fuel buffer).allPast Idle.onConnection
  rw [Egress.manageExitingTcpPackets]
  split
  · trivial
  by_cases hs : Descriptor.num socket = -1
  · rw [Egress.destination_new _ _ _ hs]
    refine ⟨trivial, fun reply => ?_⟩
    cases reply with
    | none => trivial
    | some new =>
      obtain ⟨fd, addr⟩ := new
      let opened : Event (Op Int) (Reply Int) :=
        ⟨.connectToServer (intToIp (retrieveHeader pkt).destinationAddress)
          (htons (retrieveHeader pkt).destinationPort), some (fd, addr)⟩
      have hnew {es : List (Event (Op Int) (Reply Int))} (h : opened ∈ es) :
          (destination (headerEnds (retrieveHeader pkt)), fd) ∈ es.filterMap connected :=
        List.mem_filterMap.mpr ⟨opened, h, rfl⟩
      refine ⟨⟨rfl, hnew (List.mem_append_right _ List.mem_cons_self)⟩, fun answer => ?_⟩
      cases answer with
      | error x => trivial
      | ok _ =>
        exact ⟨Or.inr (hnew (List.mem_append_left _ (List.mem_append_right _ List.mem_cons_self))),
          fun _ => hloop fd _⟩
  · rw [Egress.destination_known _ _ _ hs]
    exact ⟨Or.inl ⟨rfl, hs⟩, fun _ => hloop socket _⟩

/-- The UDP task writes on no connection, and registers only its own key. -/
def OffConnection (ce : ConnectionEntry) : Op Int → Prop
  | .send .. => False
  | .updateEntry ce' .. => ce' = ce
  | _ => True

theorem exitingUdp_offConnection (self : Self) (pkt : List Byte) (pktLen : Nat)
    (ce : ConnectionEntry) (sock : Int) (datagram buffer : List Byte) (fuel : Nat) :
    (Egress.manageExitingUdpPackets self pkt pktLen ce sock datagram buffer fuel).All
      (OffConnection ce) := by
  refine (Egress.openSender_all (P := OffConnection ce) trivial).bind fun s => ?_
  dsimp only
  split
  · trivial
  · refine (Egress.openListener_all (P := OffConnection ce) self trivial (fun _ _ => trivial)
      fun _ => trivial).bind fun r => ⟨trivial, fun sent => ?_⟩
    change Prog.All _ (if sent < 0 then _ else _)
    split
    · trivial
    · exact (updateEntry_all (P := OffConnection ce) rfl).bind fun _ =>
        Egress.exitingUdpLoop_all (P := OffConnection ce) self _ r trivial (fun _ => trivial)
          (fun _ _ _ => trivial) fuel buffer

theorem handler_idle (args : UdpArgs Int) : (Egress.managePktFromChain args).All Idle := by
  refine ⟨trivial, fun _ => (checked_all _).bind fun headers => ⟨trivial, fun sock => ?_⟩⟩
  dsimp only
  split
  · exact ⟨trivial, fun _ => trivial⟩
  · exact ⟨trivial, fun _ => trivial⟩

end Programs

section Runs
variable {sh : Shaping ConnectionEntry} {self : Self} {myIp : String} {extPort intPort : BitVec 16}
  {P : EgressPool sh}

/-- Every connection in the table has been registered by one of the threads. -/
theorem has_registered
    (h : Reachable (system sh self) (fun _ _ _ _ => True) (start sh myIp extPort intPort) P) :
    ∀ k v, (stdMap sh).Has P.shared.endpoint.connectionMap k v →
      ∃ t ∈ P.threads, ∃ e ∈ t.past, registration e = some (k, v) := by
  refine h.invariant (fun P => ∀ k v, (stdMap sh).Has P.shared.endpoint.connectionMap k v →
    ∃ t ∈ P.threads, ∃ e ∈ t.past, registration e = some (k, v))
    (fun k v hv => absurd hv ((stdMap_sound sh).has_empty k v)) ?_
  intro P Q hr ih hst k v hv
  have hold (hv : (stdMap sh).Has P.shared.endpoint.connectionMap k v) :
      ∃ t ∈ Q.threads, ∃ e ∈ t.past, registration e = some (k, v) := hst.done (ih k v hv)
  cases hst with
  | @run s s' before after g past o k' r born _ _ hperf =>
    have hu : Updates o := hr.next (start_updates self g)
    have htab := table_performed hperf.1 hu
    cases hreg : registration ⟨o, r⟩ with
    | none =>
      rw [hreg] at htab
      change (stdMap sh).Has s'.endpoint.connectionMap k v at hv
      rw [htab] at hv
      exact hold hv
    | some p =>
      rw [hreg] at htab
      change s'.endpoint.connectionMap = (stdMap sh).insert s.endpoint.connectionMap p.1 p.2 at htab
      change (stdMap sh).Has s'.endpoint.connectionMap k v at hv
      rw [htab] at hv
      rcases (treeOps_has_insert ..).mp hv with hv | ⟨_, rfl, rfl⟩
      · exact hold hv
      · exact ⟨_, mem_moved.mpr (Or.inr (Or.inl rfl)), ⟨o, r⟩, by simp, hreg⟩
  | arrive _ harr =>
    obtain ⟨rfl, _⟩ := harr
    exact hold hv

def TasksGenuine (P : EgressPool sh) : Prop :=
  ∀ t ∈ P.threads, ∀ task datagram buffer fuel, t.tag = .task task datagram buffer fuel →
    Genuine task

/-- A connection that is registered for TCP leads where its key says. -/
theorem registered_connected
    (h : Reachable (system sh self) (fun _ _ _ _ => True) (start sh myIp extPort intPort) P)
    (hgenuine : TasksGenuine P) {t : EgressThread} (ht : t ∈ P.threads)
    {e : Event (Op Int) (Reply Int)} (he : e ∈ t.past) {ce : ConnectionEntry} {fd : Int}
    {addr : SockaddrIn} (hreg : registration e = some (ce, fd, addr)) (hprt : ce.prt = .tcp) :
    ((ce.ipDst, ce.portDst), fd) ∈ t.past.filterMap connected := by
  have hreach := h.thread t ht
  obtain ⟨o, r⟩ := e
  cases o with
  | updateEntry ce' fd' addr' endpoint =>
    cases r with
    | error x => cases hreg
    | ok u =>
      cases hreg
      obtain ⟨before, after, hpast⟩ := List.append_of_mem he
      match htag : t.tag with
      | .vnf args =>
        rw [htag] at hreach
        exact ((hreach.all (handler_idle args)).2 _ he).elim
      | .task (.exitingUdp pkt pktLen key sock) datagram buffer fuel =>
        rw [htag] at hreach
        obtain ⟨_, rfl, _⟩ := hgenuine t ht _ _ _ _ htag
        cases (hreach.all (exitingUdp_offConnection self pkt pktLen _ sock datagram buffer fuel)).2 _ he
        cases hprt
      | .task (.exitingTcp pkt pktLen key socket) datagram buffer fuel =>
        rw [htag] at hreach
        obtain ⟨_, rfl, _⟩ := hgenuine t ht _ _ _ _ htag
        obtain ⟨rfl, hmem⟩ := hreach.allPast
          (exitingTcp_onConnection [] self pkt pktLen _ socket buffer fuel) hpast
        rw [hpast, List.filterMap_append]
        exact List.mem_append_left _ hmem
  | _ => cases hreg

/-- Whatever a task writes on a connection, the connection was opened by a task to
the destination of the frame that it is written for. -/
theorem send_connected
    (h : Reachable (system sh self) (fun _ _ _ _ => True) (start sh myIp extPort intPort) P)
    (hgenuine : TasksGenuine P) {t : EgressThread} (ht : t ∈ P.threads) {pkt : List Byte}
    {pktLen : Nat} {ce : ConnectionEntry} {socket : Int} {datagram buffer : List Byte} {fuel : Nat}
    (htag : t.tag = .task (.exitingTcp pkt pktLen ce socket) datagram buffer fuel) {fd : Int}
    {bytes : List Byte} {n : Int} (he : ⟨.send fd bytes, n⟩ ∈ t.past) :
    ∃ u ∈ P.threads,
      (destination (headerEnds (retrieveHeader pkt)), fd) ∈ u.past.filterMap connected := by
  have hreach := h.thread t ht
  rw [htag] at hreach
  obtain ⟨before, after, hpast⟩ := List.append_of_mem he
  obtain ⟨rfl, hsocket⟩ | hmem := hreach.allPast
    (exitingTcp_onConnection [] self pkt pktLen ce socket buffer fuel) hpast
  · -- the descriptor was in the table, under the key of the frame
    obtain ⟨_, hce, _⟩ := hgenuine t ht _ _ _ _ htag
    obtain ⟨u, hu, addr, hfound⟩ := task_lookedUp h ht htag
    have hhas := (kept_reachable h u hu _ hfound).resolve_left hsocket
    obtain ⟨w, hw, e, hereg, hreg⟩ := has_registered h _ _ hhas
    have hconnected := registered_connected h hgenuine hw hereg hreg (by rw [hce]; rfl)
    rw [hce, ← destination_eq] at hconnected
    exact ⟨w, hw, hconnected⟩
  · refine ⟨t, ht, ?_⟩
    rw [hpast, List.filterMap_append]
    exact List.mem_append_left _ hmem

/-- The UDP task writes on none. -/
theorem udp_no_send
    (h : Reachable (system sh self) (fun _ _ _ _ => True) (start sh myIp extPort intPort) P)
    {t : EgressThread} (ht : t ∈ P.threads) {pkt : List Byte} {pktLen : Nat} {ce : ConnectionEntry}
    {sock : Int} {datagram buffer : List Byte} {fuel : Nat}
    (htag : t.tag = .task (.exitingUdp pkt pktLen ce sock) datagram buffer fuel) {fd : Int}
    {bytes : List Byte} {n : Int} : ⟨.send fd bytes, n⟩ ∉ t.past := by
  intro he
  have hreach := h.thread t ht
  rw [htag] at hreach
  exact (hreach.all (exitingUdp_offConnection self pkt pktLen ce sock datagram buffer fuel)).2 _ he

/-- The connections that a thread opens are among all that it opens. -/
theorem connected_sublist (es : List (Event (Op Int) (Reply Int))) :
    ((es.filterMap connected).map Prod.snd).Sublist (es.filterMap opens) := by
  induction es with
  | nil => exact .slnil
  | cons e es ih =>
    cases hc : connected e with
    | none =>
      rw [List.filterMap_cons_none hc]
      refine ih.trans ?_
      rw [List.filterMap_cons]
      split
      · exact List.Sublist.refl _
      · exact List.sublist_cons_self _ _
    | some c =>
      rw [List.filterMap_cons_some hc, List.filterMap_cons_some (opens_of_connected hc)]
      exact ih.cons_cons _

/-- No two connections have the same descriptor. -/
theorem connected_nodup
    (h : Reachable (system sh self) (fun _ _ _ _ => True) (start sh myIp extPort intPort) P) :
    ((P.threads.flatMap fun t => t.past.filterMap connected).map Prod.snd).Nodup := by
  have hopened := (h.exclusive opens
    (fun s g o r s' born hperf => (perform_opens sh self s g o r s' born hperf).2)
    fun s s' g harr fd hfd => harr.1 ▸ hfd).1
  refine hopened.sublist ?_
  rw [List.map_flatMap]
  exact List.Sublist.flatMap_right _ fun t _ => connected_sublist t.past

end Runs

end Ironhide.Proofs.EgressConnections
