import Ironhide.Lib.Schedule
import Ironhide.Model.Egress
import Ironhide.Proofs.Keys
import Ironhide.Proofs.Table

namespace Ironhide.Proofs.EgressFlow
open Model Lib.Bytes Lib.Text Lib.Program Lib.StdMap Lib.SearchTree Lib.Threads Lib.Threads.System
open Lib.Schedule PacketUtils SfcUtilities Framing Keys Table
open Observed (looksUp)

structure Job where
  packet : Nat
  callback : Egress.Callback Int
  deriving DecidableEq, Repr

structure Write where
  packet : Nat
  fd : Int
  bytes : List Byte
  deriving DecidableEq, Repr

/-- The egress's endpoint, the packets of the flow in the order they came in,
the connections opened and what was written, each in order. -/
structure State (sh : Shaping ConnectionEntry) where
  endpoint : Endpoint (stdMap sh) Int
  packets : List (UdpArgs Int)
  connections : List Int
  writes : List Write

def start (sh : Shaping ConnectionEntry) (myIp : String) (extPort intPort : BitVec 16) : State sh where
  endpoint := .new (stdMap sh) Int myIp extPort intPort
  packets := []
  connections := []
  writes := []

/-- A TCP packet from the chain that the egress finds the key `ce` in. -/
structure OfFlow (ce : ConnectionEntry) (args : UdpArgs Int) : Prop where
  key : headerEntry (retrieveHeader args.pkt) .tcp = ce
  protocol : connType (retrieveIpUdpHeader (args.pkt.drop headerSize)).value.1.protocol = .tcp

def payload (pkt : List Byte) (pktLen : Nat) : List Byte :=
  let pktCalc := headerSize + tcpPacketHeaderSize (pkt.drop headerSize)
  strncpy (pkt.drop pktCalc) (Egress.payloadLen pktLen pktCalc).toNat

def opened : (o : Op Int) → Reply Int o → List Int
  | .connectToServer .., r => (r.map Prod.fst).toList
  | _, _ => []

def written (packet : Nat) : Op Int → List Write
  | .send fd bytes => [⟨packet, fd, bytes⟩]
  | _ => []

variable {sh : Shaping ConnectionEntry}

/-- The egress at work on one flow. A connection that is opened has a descriptor. -/
def system (sh : Shaping ConnectionEntry) (self : Self) (ce : ConnectionEntry) :
    System (State sh) Job (Op Int) (Reply Int) Stop Unit where
  start g := Egress.start self g.callback
  perform s g o r s' born := s.endpoint.Performs o r s'.endpoint ∧ s'.packets = s.packets ∧
    s'.connections = s.connections ++ opened o r ∧ s'.writes = s.writes ++ written g.packet o ∧
    Egress.Starts (Job.mk g.packet) born o ∧ -1 ∉ opened o r
  arrive s s' g := ∃ args, OfFlow ce args ∧ g = ⟨s.packets.length, .vnf args⟩ ∧
    s' = { s with packets := s.packets ++ [args] }
  fatal := Stop.Fatal

abbrev JobThread := Thread Job (Op Int) (Reply Int) Stop Unit

/-- A packet's handler looks for the connection only when the payloads of all
the packets before it have been written. -/
def InTurn (s : State sh) (_ : List JobThread) (g : Job) : Op Int → Prop
  | .retrieveConnection2 _ => ∀ n < g.packet, ∃ w ∈ s.writes, w.packet = n
  | _ => True

/-- There is one connection, if any, and the payload of the n-th packet is what
is written n-th, on that connection. -/
structure InOrder (s : State sh) : Prop where
  one : s.connections.length ≤ 1
  nth : ∀ (n : Nat) (w : Write), s.writes[n]? = some w → w.packet = n ∧ w.fd ∈ s.connections ∧
    ∃ args, s.packets[n]? = some args ∧ w.bytes = payload args.pkt args.pktLen

section Threads
variable {self : Self} {ce : ConnectionEntry} {args : UdpArgs Int}

inductive ChainAt (ce : ConnectionEntry) (args : UdpArgs Int) :
    List (Event (Op Int) (Reply Int)) → Handler Int Unit → Prop where
  | arrived {k : Int → Handler Int Unit} :
    ChainAt ce args [] (.op (.sendto args.socketFd ack args.clientAddress) k)
  | overrun {n : Int} :
    ChainAt ce args [⟨.sendto args.socketFd ack args.clientAddress, n⟩] (.throw .undefined)
  | acked {n : Int} {k : Int × SockaddrIn → Handler Int Unit} :
    ChainAt ce args [⟨.sendto args.socketFd ack args.clientAddress, n⟩]
      (.op (.retrieveConnection2 ce) k)
  | found {n : Int} {sock : Int × SockaddrIn} {k : Unit → Handler Int Unit} :
    ChainAt ce args [⟨.sendto args.socketFd ack args.clientAddress, n⟩,
      ⟨.retrieveConnection2 ce, sock⟩]
      (.op (.goAsync (.exitingTcp args.pkt args.pktLen ce sock.1)) k)
  | handedOn {n : Int} {sock : Int × SockaddrIn} :
    ChainAt ce args [⟨.sendto args.socketFd ack args.clientAddress, n⟩,
      ⟨.retrieveConnection2 ce, sock⟩,
      ⟨.goAsync (.exitingTcp args.pkt args.pktLen ce sock.1), ()⟩] (.ret ())

theorem managePktFromChain_eq (h : OfFlow ce args)
    (hin : (retrieveIpUdpHeader (args.pkt.drop headerSize)).inBounds = true) :
    Egress.managePktFromChain args =
      .op (.sendto args.socketFd ack args.clientAddress) fun _ =>
        .op (.retrieveConnection2 ce) fun sock =>
          .op (.goAsync (.exitingTcp args.pkt args.pktLen ce sock.1)) .ret := by
  rw [Egress.managePktFromChain, checked_ok hin]
  simp only [Prog.perform_bind, Prog.ret_bind, h.protocol]
  rw [h.protocol, h.key]
  rfl

theorem managePktFromChain_overrun
    (hin : ¬ (retrieveIpUdpHeader (args.pkt.drop headerSize)).inBounds = true) :
    Egress.managePktFromChain args =
      .op (.sendto args.socketFd ack args.clientAddress) fun _ => .throw .undefined := by
  rw [Egress.managePktFromChain, checked_overrun hin]
  rfl

theorem chain_at (h : OfFlow ce args) {past : List (Event (Op Int) (Reply Int))}
    {q : Handler Int Unit} (hr : Prog.Reaches (Egress.start self (.vnf args)) past q) :
    ChainAt ce args past q := by
  change Prog.Reaches (Egress.managePktFromChain args) past q at hr
  by_cases hin : (retrieveIpUdpHeader (args.pkt.drop headerSize)).inBounds = true
  · rw [managePktFromChain_eq h hin] at hr
    obtain ⟨rfl, rfl⟩ | ⟨n, past₁, rfl, hr₁⟩ := Prog.reaches_op.mp hr
    · exact .arrived
    obtain ⟨rfl, rfl⟩ | ⟨sock, past₂, rfl, hr₂⟩ := Prog.reaches_op.mp hr₁
    · exact .acked
    obtain ⟨rfl, rfl⟩ | ⟨_, past₃, rfl, hr₃⟩ := Prog.reaches_op.mp hr₂
    · exact .found
    · obtain ⟨rfl, rfl⟩ := Prog.reaches_ret.mp hr₃
      exact .handedOn
  · rw [managePktFromChain_overrun hin] at hr
    obtain ⟨rfl, rfl⟩ | ⟨n, past₁, rfl, hr₁⟩ := Prog.reaches_op.mp hr
    · exact .arrived
    · obtain ⟨rfl, rfl⟩ := Prog.reaches_throw.mp hr₁
      exact .overrun

def Responds : Op Int → Prop
  | .read .. | .getRouteList _ | .sendAndWaitResponse .. => True
  | _ => False

inductive TaskAt (ce : ConnectionEntry) (bytes : List Byte) (fd : Int) :
    List (Event (Op Int) (Reply Int)) → Handler Int Unit → Prop where
  | tooLong : TaskAt ce bytes fd [] (.throw (.exn .lengthError))
  | known {k : Int → Handler Int Unit} :
    fd ≠ -1 → TaskAt ce bytes fd [] (.op (.send fd bytes) k)
  | unknown {dst : String} {port : BitVec 16}
      {k : Option (Int × SockaddrIn) → Handler Int Unit} :
    fd = -1 → TaskAt ce bytes fd [] (.op (.connectToServer dst port) k)
  | refused {dst : String} {port : BitVec 16} :
    TaskAt ce bytes fd [⟨.connectToServer dst port, none⟩] (.throw .exit)
  | connected {dst : String} {port : BitVec 16} {s : Int} {addr : SockaddrIn}
      {k : Except Exn Unit → Handler Int Unit} :
    TaskAt ce bytes fd [⟨.connectToServer dst port, some (s, addr)⟩]
      (.op (.updateEntry ce s addr .egressT) k)
  | unregistered {dst : String} {port : BitVec 16} {s : Int} {addr : SockaddrIn} {x : Exn} :
    TaskAt ce bytes fd [⟨.connectToServer dst port, some (s, addr)⟩,
      ⟨.updateEntry ce s addr .egressT, .error x⟩] (.throw (.exn x))
  | registered {dst : String} {port : BitVec 16} {s : Int} {addr : SockaddrIn}
      {k : Int → Handler Int Unit} :
    TaskAt ce bytes fd [⟨.connectToServer dst port, some (s, addr)⟩,
      ⟨.updateEntry ce s addr .egressT, .ok ()⟩] (.op (.send s bytes) k)
  | sent {past : List (Event (Op Int) (Reply Int))} {q : Handler Int Unit} {s n : Int} :
    ⟨.send s bytes, n⟩ ∈ past → q.All Responds → TaskAt ce bytes fd past q

theorem exitingTcpLoop_responds (header : SfcHeader) (socket : Int) (n : Nat)
    (received : List Byte) :
    (Egress.exitingTcpLoop self header socket n received).All Responds :=
  Egress.exitingTcpLoop_all self header socket trivial (fun _ => trivial) (fun _ _ _ => trivial) _ _

theorem task_at {pkt : List Byte} {pktLen : Nat} {fd : Int} {datagram buffer : List Byte}
    {fuel : Nat} {past : List (Event (Op Int) (Reply Int))} {q : Handler Int Unit}
    (hr : Prog.Reaches (Egress.start self
      (.task (.exitingTcp pkt pktLen ce fd) datagram buffer fuel)) past q) :
    TaskAt ce (payload pkt pktLen) fd past q := by
  change Prog.Reaches (Egress.manageExitingTcpPackets self pkt pktLen ce fd buffer fuel) past q at hr
  rw [Egress.manageExitingTcpPackets] at hr
  dsimp only at hr
  split at hr
  · obtain ⟨rfl, rfl⟩ := Prog.reaches_throw.mp hr
    exact .tooLong
  -- what follows the send
  have hsent {s : Int} (before : List (Event (Op Int) (Reply Int)))
      {past' : List (Event (Op Int) (Reply Int))} (h : Prog.Reaches (Prog.op (Op.send s (payload pkt pktLen)) fun _ =>
        Egress.exitingTcpLoop self (retrieveHeader pkt) s fuel buffer) past' q) :
      (past' = [] ∧ ∃ k, q = .op (.send s (payload pkt pktLen)) k) ∨
        TaskAt ce (payload pkt pktLen) fd (before ++ past') q := by
    obtain ⟨rfl, rfl⟩ | ⟨n, past₁, rfl, h₁⟩ := Prog.reaches_op.mp h
    · exact Or.inl ⟨rfl, _, rfl⟩
    · refine Or.inr (.sent (s := s) (n := n) (by simp) ?_)
      exact (h₁.all (exitingTcpLoop_responds _ _ _ _)).1
  by_cases hfd : fd = -1
  · rw [Egress.destination_new _ _ _ hfd] at hr
    obtain ⟨rfl, rfl⟩ | ⟨reply, past₁, rfl, hr₁⟩ := Prog.reaches_op.mp hr
    · exact .unknown hfd
    cases reply with
    | none =>
      obtain ⟨rfl, rfl⟩ := Prog.reaches_throw.mp hr₁
      exact .refused
    | some new =>
      obtain ⟨rfl, rfl⟩ | ⟨answer, past₂, rfl, hr₂⟩ := Prog.reaches_op.mp hr₁
      · exact .connected
      cases answer with
      | error x =>
        obtain ⟨rfl, rfl⟩ := Prog.reaches_throw.mp hr₂
        exact .unregistered
      | ok u =>
        obtain ⟨rfl, k, rfl⟩ | hat := hsent [_, _] hr₂
        · exact .registered
        · exact hat
  · rw [Egress.destination_known _ _ _ hfd] at hr
    obtain ⟨rfl, k, rfl⟩ | hat := hsent [] hr
    · exact .known hfd
    · exact hat

def Assigned (ce : ConnectionEntry) (s : State sh) (g : Job) : Prop :=
  ∃ args, s.packets[g.packet]? = some args ∧ OfFlow ce args ∧ (g.callback = .vnf args ∨
    ∃ fd datagram buffer fuel,
      g.callback = .task (.exitingTcp args.pkt args.pktLen ce fd) datagram buffer fuel)

theorem Assigned.grow {s s' : State sh} {g : Job} (h : Assigned ce s g)
    (hp : s.packets <+: s'.packets) : Assigned ce s' g := by
  obtain ⟨args, hargs, hrest⟩ := h
  obtain ⟨hlt, hget⟩ := List.getElem?_eq_some_iff.mp hargs
  exact ⟨args, (List.prefix_iff_getElem?.mp hp _ hlt).trans (congrArg some hget), hrest⟩

inductive JobAt (ce : ConnectionEntry) (s : State sh) : JobThread → Prop where
  | chain {n : Nat} {args : UdpArgs Int} {past : List (Event (Op Int) (Reply Int))}
      {q : Handler Int Unit} : s.packets[n]? = some args → OfFlow ce args →
    ChainAt ce args past q → JobAt ce s ⟨⟨n, .vnf args⟩, past, q⟩
  | task {n : Nat} {args : UdpArgs Int} {fd : Int} {datagram buffer : List Byte} {fuel : Nat}
      {past : List (Event (Op Int) (Reply Int))} {q : Handler Int Unit} :
    s.packets[n]? = some args → OfFlow ce args →
    TaskAt ce (payload args.pkt args.pktLen) fd past q →
    JobAt ce s ⟨⟨n, .task (.exitingTcp args.pkt args.pktLen ce fd) datagram buffer fuel⟩, past, q⟩

theorem Assigned.at {s : State sh} {t : JobThread} (h : Assigned ce s t.tag)
    (hr : Prog.Reaches (Egress.start self t.tag.callback) t.past t.prog) : JobAt ce s t := by
  obtain ⟨⟨n, callback⟩, past, q⟩ := t
  obtain ⟨args, hargs, hflow, rfl | ⟨fd, datagram, buffer, fuel, rfl⟩⟩ := h
  · exact .chain hargs hflow (chain_at hflow hr)
  · exact .task hargs hflow (task_at hr)

end Threads

/-- What ends a thread's turn: the handler hands its packet on, the task writes. -/
def passesOn : Op Int → Bool
  | .goAsync _ | .send .. => true
  | _ => false

/-- The packet whose payload the thread still has to see to. -/
def owed (t : JobThread) : Option Nat :=
  if did passesOn t.past then none else some t.tag.packet

/-- Between the lookup for a packet and the writing of its payload. -/
def inside (t : JobThread) : Bool :=
  !did passesOn t.past && match t.tag.callback with
    | .vnf _ => did looksUp t.past
    | .task .. => true

/-- The table knows the connection, and `fd` is what a lookup gives. -/
inductive Known (ce : ConnectionEntry) (s : State sh) : Int → Prop where
  | fresh : s.connections = [] → (stdMap sh).find s.endpoint.connectionMap ce = none →
    Known ce s (-1)
  | live {fd : Int} {addr : SockaddrIn} : fd ≠ -1 → s.connections = [fd] →
    (stdMap sh).find s.endpoint.connectionMap ce = some (fd, addr) → Known ce s fd

inductive Holding (ce : ConnectionEntry) (s : State sh) :
    Egress.Callback Int → List (Event (Op Int) (Reply Int)) → Prop where
  | found {args : UdpArgs Int} {e : Event (Op Int) (Reply Int)} {sock : Int × SockaddrIn} :
    Known ce s sock.1 → Holding ce s (.vnf args) [e, ⟨.retrieveConnection2 ce, sock⟩]
  | handed {pkt : List Byte} {pktLen : Nat} {fd : Int} {datagram buffer : List Byte} {fuel : Nat} :
    Known ce s fd → Holding ce s (.task (.exitingTcp pkt pktLen ce fd) datagram buffer fuel) []
  | refused {g : Egress.Callback Int} {dst : String} {port : BitVec 16} :
    Holding ce s g [⟨.connectToServer dst port, none⟩]
  | connected {g : Egress.Callback Int} {dst : String} {port : BitVec 16} {fd : Int}
      {addr : SockaddrIn} : fd ≠ -1 → s.connections = [fd] →
    (stdMap sh).find s.endpoint.connectionMap ce = none →
    Holding ce s g [⟨.connectToServer dst port, some (fd, addr)⟩]
  | unregistered {g : Egress.Callback Int} {dst : String} {port : BitVec 16} {fd : Int}
      {addr : SockaddrIn} {x : Exn} :
    Holding ce s g [⟨.connectToServer dst port, some (fd, addr)⟩,
      ⟨.updateEntry ce fd addr .egressT, .error x⟩]
  | registered {g : Egress.Callback Int} {dst : String} {port : BitVec 16} {fd : Int}
      {addr : SockaddrIn} : fd ≠ -1 → Known ce s fd →
    Holding ce s g [⟨.connectToServer dst port, some (fd, addr)⟩,
      ⟨.updateEntry ce fd addr .egressT, .ok ()⟩]

abbrev JobPool (sh : Shaping ConnectionEntry) :=
  Pool (State sh) Job (Op Int) (Reply Int) Stop Unit

theorem Known.same {ce : ConnectionEntry} {s s' : State sh} {fd : Int} (h : Known ce s fd)
    (he : s'.endpoint = s.endpoint) (hc : s'.connections = s.connections) : Known ce s' fd := by
  cases h with
  | fresh hnone hfind => exact .fresh (hc.trans hnone) (he ▸ hfind)
  | live hfd hone hfind => exact .live hfd (hc.trans hone) (he ▸ hfind)

theorem Holding.same {ce : ConnectionEntry} {s s' : State sh} {g : Egress.Callback Int}
    {past : List (Event (Op Int) (Reply Int))} (h : Holding ce s g past)
    (he : s'.endpoint = s.endpoint) (hc : s'.connections = s.connections) :
    Holding ce s' g past := by
  cases h with
  | found hk => exact .found (hk.same he hc)
  | handed hk => exact .handed (hk.same he hc)
  | refused => exact .refused
  | connected hfd hone hfind => exact .connected hfd (hc.trans hone) (he ▸ hfind)
  | unregistered => exact .unregistered
  | registered hfd hk => exact .registered hfd (hk.same he hc)

/-- The threads take turns: each packet is one thread's, only the thread of the
next packet to write is inside, and when none is the table knows the connection. -/
structure Turns (ce : ConnectionEntry) (P : JobPool sh) : Prop where
  inOrder : InOrder P.shared
  sorted : P.shared.endpoint.connectionMap.1.Sorted ConnectionEntry.lt {ce}
  nodup : (P.threads.filterMap owed).Nodup
  ahead : ∀ t ∈ P.threads, ∀ n, owed t = some n → P.shared.writes.length ≤ n
  holding : ∀ t ∈ P.threads, inside t = true →
    t.tag.packet = P.shared.writes.length ∧ Holding ce P.shared t.tag.callback t.past
  free : (∀ t ∈ P.threads, inside t = false) → ∃ fd, Known ce P.shared fd

theorem owed_of_inside {t : JobThread} (h : inside t = true) : owed t = some t.tag.packet := by
  simp only [inside, Bool.and_eq_true, Bool.not_eq_true'] at h
  simp [owed, h.1]

theorem not_inside {t : JobThread} (h : owed t = none) : inside t = false := by
  by_contra hin
  rw [Bool.not_eq_false] at hin
  rw [owed_of_inside hin] at h
  cases h

theorem InOrder.length_le {s : State sh} (h : InOrder s) : s.writes.length ≤ s.packets.length := by
  by_contra hlt
  have hlast : s.packets.length < s.writes.length := by omega
  obtain ⟨_, _, args, hargs, _⟩ := h.nth _ _ (List.getElem?_eq_getElem hlast)
  rw [List.getElem?_eq_none (Nat.le_refl _)] at hargs
  cases hargs

section Moves
variable {ce : ConnectionEntry} {s s' : State sh} {before after : List JobThread}
  {t t' : JobThread}

theorem InOrder.same (h : InOrder s) (hp : s'.packets = s.packets)
    (hc : s'.connections = s.connections) (hw : s'.writes = s.writes) : InOrder s' := by
  refine ⟨by rw [hc]; exact h.one, ?_⟩
  intro n w hn
  rw [hw] at hn
  rw [hp, hc]
  exact h.nth n w hn

/-- The first connection. -/
theorem InOrder.connect (h : InOrder s) {fd : Int}
    (hnone : s.connections = []) (hc : s'.connections = [fd]) (hw : s'.writes = s.writes) :
    InOrder s' := by
  refine ⟨by rw [hc]; exact Nat.le_refl 1, ?_⟩
  intro n w hn
  rw [hw] at hn
  obtain ⟨_, hfd, _⟩ := h.nth n w hn
  rw [hnone] at hfd
  cases hfd

/-- One more payload, that of the next packet. -/
theorem InOrder.write (h : InOrder s) {fd : Int} {args : UdpArgs Int}
    (hp : s'.packets = s.packets) (hc : s'.connections = s.connections)
    (hw : s'.writes = s.writes ++ [⟨s.writes.length, fd, payload args.pkt args.pktLen⟩])
    (hfd : fd ∈ s.connections) (hargs : s.packets[s.writes.length]? = some args) : InOrder s' := by
  refine ⟨by rw [hc]; exact h.one, ?_⟩
  intro n w hn
  rw [hp, hc]
  rw [hw] at hn
  by_cases hlast : n = s.writes.length
  · rw [hlast, List.getElem?_concat_length] at hn
    cases hn
    exact ⟨hlast.symm, hfd, args, hlast ▸ hargs, rfl⟩
  · refine h.nth n w ?_
    obtain ⟨hlt, hget⟩ := List.getElem?_eq_some_iff.mp hn
    rw [List.length_append, List.length_singleton] at hlt
    have hold : n < s.writes.length := by omega
    rw [← hn, List.getElem?_append_left hold]

/-- A packet is one thread's. -/
theorem Turns.sole (h : Turns ce ⟨s, before ++ t :: after⟩) {n : Nat} (howed : owed t = some n) :
    ∀ u ∈ before ++ after, owed u ≠ some n := by
  intro u hu hsame
  have hnodup := h.nodup
  rw [List.filterMap_append, List.filterMap_cons_some howed,
    List.perm_middle.nodup_iff, ← List.filterMap_append] at hnodup
  exact (List.nodup_cons.mp hnodup).1 (List.mem_filterMap.mpr ⟨u, hu, hsame⟩)

/-- When the next packet to write is the moving thread's, no other is inside. -/
theorem Turns.alone (h : Turns ce ⟨s, before ++ t :: after⟩)
    (howed : owed t = some s.writes.length) : ∀ u ∈ before ++ after, inside u = false := by
  intro u hu
  by_contra hin
  rw [Bool.not_eq_false] at hin
  obtain ⟨hnext, _⟩ := h.holding u (mem_split.mpr (Or.inl hu)) hin
  exact h.sole howed u hu (by rw [owed_of_inside hin, hnext])

/-- What holds of the thread whose turn it is. -/
theorem Turns.turn (h : Turns ce ⟨s, before ++ t :: after⟩) (hin : inside t = true) :
    t.tag.packet = s.writes.length ∧ owed t = some s.writes.length ∧
      Holding ce s t.tag.callback t.past := by
  obtain ⟨hnext, hold⟩ := h.holding t (mem_split.mpr (Or.inr rfl)) hin
  exact ⟨hnext, by rw [owed_of_inside hin, hnext], hold⟩

/-- A step outside of the turns. -/
theorem Turns.outside (h : Turns ce ⟨s, before ++ t :: after⟩) (howed : owed t' = owed t)
    (hin : inside t = false) (hin' : inside t' = false) : Turns ce ⟨s, before ++ t' :: after⟩ := by
  refine ⟨h.inOrder, h.sorted, ?_, ?_, ?_, ?_⟩
  · have hnodup := h.nodup
    simp only [List.filterMap_append, List.filterMap_cons, howed] at hnodup ⊢
    exact hnodup
  · intro u hu n hn
    obtain hu | rfl := mem_split.mp hu
    · exact h.ahead u (mem_split.mpr (Or.inl hu)) n hn
    · exact h.ahead t (mem_split.mpr (Or.inr rfl)) n (howed ▸ hn)
  · intro u hu hu'
    obtain hu | rfl := mem_split.mp hu
    · exact h.holding u (mem_split.mpr (Or.inl hu)) hu'
    · rw [hin'] at hu'
      cases hu'
  · intro hall
    refine h.free fun u hu => ?_
    obtain hu | rfl := mem_split.mp hu
    · exact hall u (mem_split.mpr (Or.inl hu))
    · exact hin

/-- A step into a turn or on with it. -/
theorem Turns.onward (h : Turns ce ⟨s, before ++ t :: after⟩)
    (howed : owed t = some s.writes.length) (hin' : inside t' = true)
    (hpacket : t'.tag.packet = s.writes.length) (hw : s'.writes = s.writes)
    (horder : InOrder s') (hsorted : s'.endpoint.connectionMap.1.Sorted ConnectionEntry.lt {ce})
    (hold : Holding ce s' t'.tag.callback t'.past) : Turns ce ⟨s', before ++ t' :: after⟩ := by
  have halone := h.alone howed
  have howed' : owed t' = owed t := by rw [howed, owed_of_inside hin', hpacket]
  refine ⟨horder, hsorted, ?_, ?_, ?_, ?_⟩
  · have hnodup := h.nodup
    simp only [List.filterMap_append, List.filterMap_cons, howed'] at hnodup ⊢
    exact hnodup
  · intro u hu n hn
    dsimp only
    rw [hw]
    obtain hu | rfl := mem_split.mp hu
    · exact h.ahead u (mem_split.mpr (Or.inl hu)) n hn
    · exact h.ahead t (mem_split.mpr (Or.inr rfl)) n (howed' ▸ hn)
  · intro u hu hu'
    obtain hu | rfl := mem_split.mp hu
    · rw [halone u hu] at hu'
      cases hu'
    · exact ⟨hpacket.trans (congrArg List.length hw).symm, hold⟩
  · intro hall
    rw [hall t' (mem_split.mpr (Or.inr rfl))] at hin'
    cases hin'

/-- The turn goes over to the task the moving thread has started. -/
theorem Turns.handOver (h : Turns ce ⟨s, before ++ t :: after⟩)
    (howed : owed t = some s.writes.length) (hdone : owed t' = none) {u : JobThread}
    (hin : inside u = true) (hpacket : u.tag.packet = s.writes.length)
    (hold : Holding ce s u.tag.callback u.past) : Turns ce ⟨s, before ++ t' :: after ++ [u]⟩ := by
  have hu : owed u = some s.writes.length := by rw [owed_of_inside hin, hpacket]
  have halone := h.alone howed
  have hmem (v : JobThread) : v ∈ before ++ t' :: after ++ [u] ↔
      v ∈ before ++ after ∨ v = t' ∨ v = u := by
    rw [List.mem_append, List.mem_singleton, mem_split, or_assoc]
  refine ⟨h.inOrder, h.sorted, ?_, ?_, ?_, ?_⟩
  · have hnodup := h.nodup
    rw [List.filterMap_append, List.filterMap_cons_some howed, List.perm_middle.nodup_iff,
      ← List.filterMap_append] at hnodup
    rw [List.filterMap_append, List.filterMap_append, List.filterMap_cons_none hdone,
      List.filterMap_cons_some hu, List.filterMap_nil, (List.perm_append_singleton _ _).nodup_iff,
      ← List.filterMap_append]
    exact hnodup
  · intro v hv n hn
    obtain hv | rfl | rfl := (hmem v).mp hv
    · exact h.ahead v (mem_split.mpr (Or.inl hv)) n hn
    · rw [hdone] at hn
      cases hn
    · rw [hu] at hn
      cases hn
      exact Nat.le_refl _
  · intro v hv hv'
    obtain hv | rfl | rfl := (hmem v).mp hv
    · rw [halone v hv] at hv'
      cases hv'
    · rw [not_inside hdone] at hv'
      cases hv'
    · exact ⟨hpacket, hold⟩
  · intro hall
    rw [hall u ((hmem u).mpr (Or.inr (Or.inr rfl)))] at hin
    cases hin

/-- The end of a turn: the payload is written. -/
theorem Turns.wrote (h : Turns ce ⟨s, before ++ t :: after⟩)
    (howed : owed t = some s.writes.length) (hdone : owed t' = none)
    (hw : s'.writes.length = s.writes.length + 1) (horder : InOrder s')
    (hsorted : s'.endpoint.connectionMap.1.Sorted ConnectionEntry.lt {ce}) {fd : Int}
    (hknown : Known ce s' fd) : Turns ce ⟨s', before ++ t' :: after⟩ := by
  have halone := h.alone howed
  refine ⟨horder, hsorted, ?_, ?_, ?_, fun _ => ⟨fd, hknown⟩⟩
  · have hnodup := h.nodup
    rw [List.filterMap_append, List.filterMap_cons_some howed, List.perm_middle.nodup_iff] at hnodup
    rw [List.filterMap_append, List.filterMap_cons_none hdone]
    exact (List.nodup_cons.mp hnodup).2
  · intro u hu n hn
    dsimp only
    obtain hu | rfl := mem_split.mp hu
    · have hle : s.writes.length ≤ n := h.ahead u (mem_split.mpr (Or.inl hu)) n hn
      have hne : n ≠ s.writes.length := fun heq => h.sole howed u hu (heq ▸ hn)
      omega
    · rw [hdone] at hn
      cases hn
  · intro u hu hu'
    obtain hu | rfl := mem_split.mp hu
    · rw [halone u hu] at hu'
      cases hu'
    · rw [not_inside hdone] at hu'
      cases hu'

/-- One more packet, and its handler. -/
theorem Turns.arrived {ts : List JobThread} (h : Turns ce ⟨s, ts⟩)
    (hbelow : ∀ t ∈ ts, t.tag.packet < s.packets.length) (args : UdpArgs Int)
    {u : JobThread} (hpast : u.past = []) (htag : u.tag = ⟨s.packets.length, .vnf args⟩) :
    Turns ce ⟨{ s with packets := s.packets ++ [args] }, ts ++ [u]⟩ := by
  have hu : owed u = some s.packets.length := by simp [owed, hpast, htag]
  have hin : inside u = false := by simp [inside, hpast, htag]
  refine ⟨⟨h.inOrder.one, ?_⟩, h.sorted, ?_, ?_, ?_, ?_⟩
  · intro n w hn
    obtain ⟨hpacket, hfd, args', hargs, hbytes⟩ := h.inOrder.nth n w hn
    obtain ⟨hlt, _⟩ := List.getElem?_eq_some_iff.mp hargs
    exact ⟨hpacket, hfd, args', (List.getElem?_append_left hlt).trans hargs, hbytes⟩
  · rw [List.filterMap_append, List.filterMap_cons_some hu, List.filterMap_nil,
      (List.perm_append_singleton _ _).nodup_iff, List.nodup_cons]
    refine ⟨?_, h.nodup⟩
    intro hmem
    obtain ⟨t, ht, howed⟩ := List.mem_filterMap.mp hmem
    have hlt := hbelow t ht
    unfold owed at howed
    split at howed
    · cases howed
    · exact absurd (Option.some.inj howed) (Nat.ne_of_lt hlt)
  · intro t ht n hn
    rcases List.mem_append.mp ht with ht | hnew
    · exact h.ahead t ht n hn
    · rw [List.mem_singleton.mp hnew, hu] at hn
      cases hn
      exact h.inOrder.length_le
  · intro t ht ht'
    rcases List.mem_append.mp ht with ht | hnew
    · obtain ⟨hpacket, hold⟩ := h.holding t ht ht'
      exact ⟨hpacket, hold.same rfl rfl⟩
    · rw [List.mem_singleton.mp hnew, hin] at ht'
      cases ht'
  · intro hall
    obtain ⟨fd, hknown⟩ := h.free fun t ht => hall t (List.mem_append_left _ ht)
    exact ⟨fd, hknown.same rfl rfl⟩

end Moves

section Runs
variable {self : Self} {ce : ConnectionEntry} {s₀ : State sh} {P Q : JobPool sh}

theorem assigned (h : Reachable (system sh self ce) InTurn s₀ P) :
    ∀ t ∈ P.threads, Assigned ce P.shared t.tag := by
  refine h.invariant (fun P => ∀ t ∈ P.threads, Assigned ce P.shared t.tag) (by simp) ?_
  intro P Q hP ih hst t ht
  cases hst with
  | @run s s' before after g past o k r born _ _ hperf =>
    obtain ⟨_, hpackets, _, _, hborn, _⟩ := hperf
    have hgrow : s.packets <+: s'.packets := hpackets ▸ List.prefix_rfl
    have hmover : (⟨g, past, .op o k⟩ : JobThread) ∈ before ++ ⟨g, past, .op o k⟩ :: after :=
      mem_split.mpr (Or.inr rfl)
    obtain ht | rfl | ⟨b, hb, rfl⟩ := mem_moved.mp ht
    · exact (ih t (mem_split.mpr (Or.inl ht))).grow hgrow
    · exact (ih _ hmover).grow hgrow
    · cases (ih _ hmover).at (hP.thread _ hmover) with
      | @chain n args _ _ hargs hflow hat =>
        cases hat with
        | found =>
          obtain ⟨datagram, buffer, fuel, rfl⟩ := hborn
          cases List.mem_singleton.mp hb
          exact ⟨args, by rw [hpackets]; exact hargs, hflow,
            Or.inr ⟨_, datagram, buffer, fuel, rfl⟩⟩
        | _ =>
          cases hborn
          cases hb
      | task hargs hflow hat =>
        cases hat with
        | sent hmem hquiet =>
          cases o with
          | goAsync => exact hquiet.1.elim
          | _ =>
            cases hborn
            cases hb
        | _ =>
          cases hborn
          cases hb
  | @arrive s s' ts g _ harr =>
    obtain ⟨args, hflow, rfl, rfl⟩ := harr
    rcases List.mem_append.mp ht with ht | hnew
    · exact (ih t ht).grow (List.prefix_append _ _)
    · rw [List.mem_singleton.mp hnew]
      exact ⟨args, List.getElem?_concat_length, hflow, Or.inl rfl⟩

theorem job_at (h : Reachable (system sh self ce) InTurn s₀ P) {t : JobThread}
    (ht : t ∈ P.threads) : JobAt ce P.shared t :=
  (assigned h t ht).at (h.thread t ht)

/-- In its turn, a lookup is for the next packet to write. -/
theorem Turns.next (h : Turns ce P) {t : JobThread} (ht : t ∈ P.threads)
    (howed : owed t = some t.tag.packet)
    (hturn : ∀ n < t.tag.packet, ∃ w ∈ P.shared.writes, w.packet = n) :
    t.tag.packet = P.shared.writes.length := by
  refine Nat.le_antisymm ?_ (h.ahead t ht _ howed)
  by_contra hlt
  obtain ⟨w, hw, hn⟩ := hturn P.shared.writes.length (by omega)
  obtain ⟨n, hn'⟩ := List.mem_iff_getElem?.mp hw
  obtain ⟨hpacket, _⟩ := h.inOrder.nth n w hn'
  obtain ⟨hlt', _⟩ := List.getElem?_eq_some_iff.mp hn'
  omega

theorem Known.retrieved {s : State sh} {fd : Int} (h : Known ce s fd) :
    (s.endpoint.retrieveConnection2 ce).1 = fd := by
  cases h with
  | fresh _ hfind => simp [Endpoint.retrieveConnection2, hfind]
  | live _ _ hfind => rw [Endpoint.retrieveConnection2_found hfind]

/-- With one key the table is a finite map, whatever `operator<` does to others. -/
theorem finiteOn_key (sh : Shaping ConnectionEntry) (ce : ConnectionEntry) :
    FiniteOn (stdMap sh) {ce} fun m => m.1.Sorted ConnectionEntry.lt {ce} :=
  stdMap_finiteOn sh (ConnectionEntry.chain_singleton ce)

/-- A connection that has been registered is found. -/
theorem Known.register {s s' : State sh} {fd : Int} {addr : SockaddrIn}
    (hsorted : s.endpoint.connectionMap.1.Sorted ConnectionEntry.lt {ce}) (hfd : fd ≠ -1)
    (hc : s'.connections = [fd]) (hfind : (stdMap sh).find s.endpoint.connectionMap ce = none)
    (hmap : s'.endpoint.connectionMap =
      (stdMap sh).insert s.endpoint.connectionMap ce (fd, addr)) : Known ce s' fd := by
  refine .live hfd hc (?_ : _ = some (fd, addr))
  rw [hmap, (finiteOn_key sh ce).insert_self _ _ _ hsorted rfl, hfind]
  rfl

/-- A turn begins. -/
theorem Turns.lookUp {s : State sh} {before after : List JobThread} {t t' : JobThread}
    (h : Turns ce ⟨s, before ++ t :: after⟩) (howed : owed t = some t.tag.packet)
    (hin : inside t = false) (hturn : ∀ n < t.tag.packet, ∃ w ∈ s.writes, w.packet = n)
    (hin' : inside t' = true) (hpacket : t'.tag.packet = t.tag.packet)
    (hold : ∀ fd, Known ce s fd → Holding ce s t'.tag.callback t'.past) :
    Turns ce ⟨s, before ++ t' :: after⟩ := by
  have hnext := h.next (mem_split.mpr (Or.inr rfl)) howed hturn
  have halone := h.alone (hnext ▸ howed)
  obtain ⟨fd, hknown⟩ := h.free fun u hu => by
    obtain hu | rfl := mem_split.mp hu
    · exact halone u hu
    · exact hin
  exact h.onward (hnext ▸ howed) hin' (hpacket.trans hnext) rfl h.inOrder h.sorted (hold fd hknown)

/-- The end of a turn: the payload is written on the connection. -/
theorem Turns.send {s s' : State sh} {before after : List JobThread} {t t' : JobThread}
    {fd : Int} {args : UdpArgs Int} (h : Turns ce ⟨s, before ++ t :: after⟩)
    (hin : inside t = true) (hdone : owed t' = none) (hfd : fd ≠ -1) (hk : Known ce s fd)
    (he : s'.endpoint = s.endpoint) (hp : s'.packets = s.packets)
    (hc : s'.connections = s.connections)
    (hw : s'.writes = s.writes ++ [⟨t.tag.packet, fd, payload args.pkt args.pktLen⟩])
    (hargs : s.packets[t.tag.packet]? = some args) : Turns ce ⟨s', before ++ t' :: after⟩ := by
  obtain ⟨hnext, howed, _⟩ := h.turn hin
  rw [hnext] at hw hargs
  have hmem : fd ∈ s.connections := by
    cases hk with
    | fresh => exact absurd rfl hfd
    | live _ hone _ => simp [hone]
  refine h.wrote howed hdone (by simp [hw]) (h.inOrder.write hp hc hw hmem hargs) ?_ (hk.same he hc)
  rw [he]
  exact h.sorted

/-- Whether the destination accepts the connection or not. -/
theorem Turns.connect {s s' : State sh} {before after : List JobThread} {t t' : JobThread}
    {r : Option (Int × SockaddrIn)} (h : Turns ce ⟨s, before ++ t :: after⟩)
    (hin : inside t = true) (hin' : inside t' = true) (hpacket : t'.tag.packet = t.tag.packet)
    (hnone : s.connections = []) (hfind : (stdMap sh).find s.endpoint.connectionMap ce = none)
    (he : s'.endpoint = s.endpoint) (hp : s'.packets = s.packets)
    (hc : s'.connections = s.connections ++ (r.map Prod.fst).toList)
    (hvalid : -1 ∉ (r.map Prod.fst).toList) (hw : s'.writes = s.writes)
    (hpast : ∃ dst port, t'.past = [⟨.connectToServer dst port, r⟩]) :
    Turns ce ⟨s', before ++ t' :: after⟩ := by
  obtain ⟨hnext, howed, _⟩ := h.turn hin
  obtain ⟨dst, port, hpast⟩ := hpast
  have hsorted : s'.endpoint.connectionMap.1.Sorted ConnectionEntry.lt {ce} := by
    rw [he]
    exact h.sorted
  cases r with
  | none =>
    refine h.onward howed hin' (hpacket.trans hnext) hw ?_ hsorted (hpast ▸ .refused)
    exact h.inOrder.same hp (hc.trans (List.append_nil _)) hw
  | some new =>
    have hone : s'.connections = [new.1] := by rw [hc, hnone]; rfl
    refine h.onward howed hin' (hpacket.trans hnext) hw (h.inOrder.connect hnone hone hw) hsorted ?_
    rw [hpast]
    refine .connected ?_ hone (by rw [he]; exact hfind)
    intro hneg
    exact hvalid (List.mem_singleton.mpr hneg.symm)

/-- Whether the registration succeeds or not. -/
theorem Turns.register {s s' : State sh} {before after : List JobThread} {t t' : JobThread}
    {fd : Int} {addr : SockaddrIn} {r : Except Exn Unit}
    (h : Turns ce ⟨s, before ++ t :: after⟩) (hin : inside t = true) (hin' : inside t' = true)
    (hpacket : t'.tag.packet = t.tag.packet) (hfd : fd ≠ -1) (hone : s.connections = [fd])
    (hfind : (stdMap sh).find s.endpoint.connectionMap ce = none)
    (he : s.endpoint.Performs (.updateEntry ce fd addr .egressT) r s'.endpoint)
    (hp : s'.packets = s.packets) (hc : s'.connections = s.connections)
    (hw : s'.writes = s.writes)
    (hpast : ∃ dst port, t'.past = [⟨.connectToServer dst port, some (fd, addr)⟩,
      ⟨.updateEntry ce fd addr .egressT, r⟩]) : Turns ce ⟨s', before ++ t' :: after⟩ := by
  obtain ⟨hnext, howed, _⟩ := h.turn hin
  obtain ⟨dst, port, hpast⟩ := hpast
  obtain ⟨answer, hr, he⟩ := he
  have hfin := finiteOn_key sh ce
  have hmap := s.endpoint.connectionMap_updateEntry ce fd addr .egressT answer
  rw [← he] at hmap
  refine h.onward howed hin' (hpacket.trans hnext) hw (h.inOrder.same hp hc hw) ?_ ?_
  · rw [hmap]
    cases answer with
    | error x => exact h.sorted
    | ok b => exact hfin.good_insert _ _ _ h.sorted rfl
  · rw [hpast, hr]
    cases answer with
    | error x => exact .unregistered
    | ok b => exact .registered hfd (Known.register h.sorted hfd (hc.trans hone) hfind hmap)

theorem Turns.step (hP : Reachable (system sh self ce) InTurn s₀ P) (h : Turns ce P)
    (hst : Step (system sh self ce) InTurn P Q) : Turns ce Q := by
  cases hst with
  | @arrive s s' ts g halive harr =>
    obtain ⟨args, hflow, rfl, rfl⟩ := harr
    refine h.arrived ?_ args rfl rfl
    intro t ht
    obtain ⟨_, hargs, _⟩ := assigned hP t ht
    exact (List.getElem?_eq_some_iff.mp hargs).1
  | @run s s' before after g past o k r born halive hguard hperf =>
    obtain ⟨hend, hpackets, hconns, hwrites, hborn, hvalid⟩ := hperf
    have hmover : (⟨g, past, .op o k⟩ : JobThread) ∈ before ++ ⟨g, past, .op o k⟩ :: after :=
      mem_split.mpr (Or.inr rfl)
    have hstay (he : s'.endpoint = s.endpoint) (hc : opened o r = [])
        (hw : written g.packet o = []) : s' = s := by
      rw [hc, List.append_nil] at hconns
      rw [hw, List.append_nil] at hwrites
      cases s'
      cases s
      simp_all
    cases job_at hP hmover with
    | @chain n args _ _ hargs hflow hat =>
      cases hat with
      | arrived =>
        cases hborn
        cases hstay hend rfl rfl
        rw [List.map_nil, List.append_nil]
        exact h.outside (by simp [owed, passesOn]) (by simp [inside])
          (by simp [inside, looksUp])
      | @acked m k =>
        cases hborn
        obtain ⟨hr, hend⟩ := hend
        cases hstay hend rfl rfl
        rw [List.map_nil, List.append_nil]
        exact h.lookUp (by simp [owed, passesOn]) (by simp [inside, looksUp]) hguard
          (by simp [inside, looksUp, passesOn]) rfl fun fd hk => .found (by rwa [hr, hk.retrieved])
      | found =>
        obtain ⟨datagram, buffer, fuel, rfl⟩ := hborn
        cases hstay hend rfl rfl
        obtain ⟨hnext, howed, hold⟩ := h.turn (by simp [inside, looksUp, passesOn])
        cases hold with
        | found hk =>
          exact h.handOver howed (by simp [owed, passesOn]) (by simp [inside, System.spawn]) hnext
            (.handed hk)
    | @task n args fd datagram buffer fuel _ _ hargs hflow hat =>
      cases hat with
      | @known k hfd =>
        cases hborn
        rw [List.map_nil, List.append_nil]
        have hin : inside ⟨⟨n, .task (.exitingTcp args.pkt args.pktLen ce fd) datagram buffer fuel⟩,
            [], .op (.send fd (payload args.pkt args.pktLen)) k⟩ = true := by simp [inside]
        obtain ⟨_, _, hold⟩ := h.turn hin
        cases hold with
        | handed hk =>
          exact h.send hin (by simp [owed, passesOn]) hfd hk hend hpackets
            (hconns.trans (List.append_nil _)) hwrites hargs
      | @unknown dst port k hfd =>
        cases hborn
        rw [List.map_nil, List.append_nil]
        have hin : inside ⟨⟨n, .task (.exitingTcp args.pkt args.pktLen ce fd) datagram buffer fuel⟩,
            [], .op (.connectToServer dst port) k⟩ = true := by simp [inside]
        obtain ⟨_, _, hold⟩ := h.turn hin
        cases hold with
        | handed hk =>
          cases hk with
          | live hne => exact absurd hfd hne
          | fresh hnone hfind =>
            exact h.connect hin (by simp [inside, passesOn]) rfl hnone hfind hend hpackets hconns
              hvalid (hwrites.trans (List.append_nil _)) ⟨dst, port, rfl⟩
      | @connected dst port conn addr k =>
        cases hborn
        rw [List.map_nil, List.append_nil]
        have hin : inside ⟨⟨n, .task (.exitingTcp args.pkt args.pktLen ce fd) datagram buffer fuel⟩,
            [⟨.connectToServer dst port, some (conn, addr)⟩],
            .op (.updateEntry ce conn addr .egressT) k⟩ = true := by simp [inside, passesOn]
        obtain ⟨_, _, hold⟩ := h.turn hin
        cases hold with
        | connected hne hone hfind =>
          exact h.register hin (by simp [inside, passesOn]) rfl hne hone hfind hend hpackets
            (hconns.trans (List.append_nil _)) (hwrites.trans (List.append_nil _)) ⟨dst, port, rfl⟩
      | @registered dst port conn addr k =>
        cases hborn
        rw [List.map_nil, List.append_nil]
        have hin : inside ⟨⟨n, .task (.exitingTcp args.pkt args.pktLen ce fd) datagram buffer fuel⟩,
            [⟨.connectToServer dst port, some (conn, addr)⟩,
              ⟨.updateEntry ce conn addr .egressT, .ok ()⟩],
            .op (.send conn (payload args.pkt args.pktLen)) k⟩ = true := by simp [inside, passesOn]
        obtain ⟨_, _, hold⟩ := h.turn hin
        cases hold with
        | registered hne hk =>
          exact h.send hin (by simp [owed, passesOn]) hne hk hend hpackets
            (hconns.trans (List.append_nil _)) hwrites hargs
      | sent hmem hquiet =>
        have hdone : did passesOn past = true := List.any_eq_true.mpr ⟨_, hmem, rfl⟩
        have hresponds := hquiet.1
        have howed : owed ⟨⟨n, .task (.exitingTcp args.pkt args.pktLen ce fd) datagram buffer fuel⟩,
            past, .op o k⟩ = none := by simp [owed, hdone]
        have howed' : owed ⟨⟨n, .task (.exitingTcp args.pkt args.pktLen ce fd) datagram buffer fuel⟩,
            past ++ [⟨o, r⟩], k r⟩ = none := by simp [owed, hdone]
        cases o with
        | read | getRouteList | sendAndWaitResponse =>
          cases hborn
          cases hstay hend rfl rfl
          rw [List.map_nil, List.append_nil]
          exact h.outside (howed'.trans howed.symm) (not_inside howed) (not_inside howed')
        | _ => exact hresponds.elim

/-- Every run from an empty table, whatever the order of steps. -/
theorem turns_reachable {myIp : String} {extPort intPort : BitVec 16}
    (h : Reachable (system sh self ce) InTurn (start sh myIp extPort intPort) P) : Turns ce P := by
  refine h.invariant (Turns ce) ?_ fun P Q hP hI hst => hI.step hP hst
  refine ⟨⟨Nat.zero_le 1, ?_⟩, (finiteOn_key sh ce).good_empty, List.nodup_nil, by simp, by simp, ?_⟩
  · intro n w hn
    cases hn
  · intro _
    exact ⟨-1, .fresh rfl ((finiteOn_key sh ce).find_empty ce)⟩

end Runs

/-- When the packets' handlers look for the connection in turn, one connection
is opened and the payloads are written on it in the order the packets came in. -/
theorem written_in_order (sh : Shaping ConnectionEntry) (self : Self) (ce : ConnectionEntry)
    (myIp : String) (extPort intPort : BitVec 16) (P : JobPool sh)
    (h : Reachable (system sh self ce) InTurn (start sh myIp extPort intPort) P) :
    InOrder P.shared :=
  (turns_reachable h).inOrder

instance (self : Self) (ce : ConnectionEntry) : DecidablePred (system sh self ce).fatal :=
  inferInstanceAs (DecidablePred Stop.Fatal)

instance (s : State sh) (others : List JobThread) (g : Job) (o : Op Int) :
    Decidable (InTurn s others g o) :=
  match o with
  | .retrieveConnection2 _ =>
    inferInstanceAs (Decidable (∀ n < g.packet, ∃ w ∈ s.writes, w.packet = n))
  | .recv .. | .read .. | .recvfrom .. | .send .. | .sendto .. | .shutdown .. | .close _
  | .rawSocket _ | .bind .. | .connectToServer .. | .addEntry .. | .updateEntry ..
  | .deleteEntry _ | .getRouteList _ | .sendAndWaitResponse .. | .goAsync _ => isTrue trivial

def chainArgs : UdpArgs Int := udpArgs ((sampleConnection.header 1 0).bytes ++ tcpPacket)

theorem chainArgs_ofFlow : OfFlow (sampleConnection.entry .tcp) chainArgs := by
  refine ⟨?_, by decide +kernel⟩
  rw [← sampleConnection.headerEntry_header 1 0 .tcp, chainArgs, udpArgs, retrieveHeader_append]

def egressWorld : World (system plain proxy (sampleConnection.entry .tcp)) where
  resolve s g o :=
    let next := s.endpoint.serve (7 + s.connections.length : Int) ⟨"10.0.2.1", 57000, false⟩ [] o
    some (next.1, ⟨next.2, s.packets, s.connections ++ opened o next.1,
      s.writes ++ written g.packet o⟩, Egress.started (Job.mk g.packet) 4 o)
  performs s g o r s' born h := by
    cases h
    refine ⟨s.endpoint.serve_performs .., rfl, rfl, rfl, Egress.started_starts _ 4 o, ?_⟩
    cases o with
    | connectToServer dst port =>
      intro hneg
      have heq : (-1 : Int) = 7 + s.connections.length := List.mem_singleton.mp hneg
      omega
    | _ => exact List.not_mem_nil
  accept s g :=
    if g = ⟨s.packets.length, .vnf chainArgs⟩ then
      some { s with packets := s.packets ++ [chainArgs] }
    else none
  arrives s g s' h := by
    split at h
    · cases h
      exact ⟨chainArgs, chainArgs_ofFlow, ‹_›, rfl⟩
    · cases h

theorem two_written_in_order : ∃ P : JobPool plain,
    P.shared.writes.length = 2 ∧ InOrder P.shared := by
  obtain ⟨P, hP, htwo⟩ := egressWorld.exists_reachable InTurn (start plain "10.0.0.9" 57000 57001)
    (.arrive ⟨0, .vnf chainArgs⟩ :: .arrive ⟨1, .vnf chainArgs⟩ :: steps 1 1 ++ steps 3 0 ++
      steps 3 2 ++ steps 2 1 ++ steps 1 3)
    (fun P => decide (P.shared.writes.length = 2)) (by decide +kernel)
  exact ⟨P, of_decide_eq_true htwo, written_in_order plain proxy (sampleConnection.entry .tcp)
    "10.0.0.9" 57000 57001 P hP⟩

/-- Two packets are looked up before either has connected: two connections are
opened, and the second packet's payload is written first. -/
theorem second_connection_opened : ∃ P : JobPool plain,
    Reachable (system plain proxy (sampleConnection.entry .tcp)) (fun _ _ _ _ => True)
      (start plain "10.0.0.9" 57000 57001) P ∧
    P.shared.connections = [7, 8] ∧ P.shared.writes.map Write.packet = [1, 0] ∧
    ¬ InOrder P.shared := by
  obtain ⟨P, hP, hopened⟩ := egressWorld.exists_reachable (fun _ _ _ _ => True)
    (start plain "10.0.0.9" 57000 57001)
    (.arrive ⟨0, .vnf chainArgs⟩ :: .arrive ⟨1, .vnf chainArgs⟩ :: steps 3 0 ++ steps 3 1 ++
      steps 1 2 ++ steps 3 3 ++ steps 2 2)
    (fun P => decide (P.shared.connections = [7, 8] ∧ P.shared.writes.map Write.packet = [1, 0]))
    (by decide +kernel)
  obtain ⟨htwo, hwrites⟩ := of_decide_eq_true hopened
  refine ⟨P, hP, htwo, hwrites, ?_⟩
  intro horder
  have hone := horder.one
  rw [htwo] at hone
  exact absurd hone (by decide)

end Ironhide.Proofs.EgressFlow
