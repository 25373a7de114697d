import Ironhide.Lib.Schedule
import Ironhide.Proofs.ReturnUdp

namespace Ironhide.Proofs.UdpReplies
open Model Lib.Bytes Lib.Program Lib.StdMap Lib.Threads Lib.Threads.System Lib.Schedule
open PacketUtils SfcUtilities
open Framing Observed FromChain Keys ReturnUdp

/-- The ingress's endpoint, over a table that is a finite map, and the frames
on the chain whose response is not back yet. -/
structure State where
  endpoint : Endpoint (finite ConnectionEntry) Int
  inFlight : List (List Byte)

/-- Roulette answers ok and has a route, sends fail on descriptor -1 only. -/
def Grants : Event (Op Int) (Reply Int) → Prop
  | ⟨.addEntry .., r⟩ => r = .ok ()
  | ⟨.deleteEntry _, r⟩ => r = .ok ()
  | ⟨.getRouteList _, r⟩ => ∃ hop hops, r = .ok (hop :: hops)
  | ⟨.sendAndWaitResponse .., r⟩ => r = true
  | ⟨.sendto fd _ _, r⟩ => r < 0 ↔ fd = -1
  | _ => True

/-- A datagram of the flow that the ingress accepts. -/
structure Request (s : Self) (c : Connection) (args : UdpArgs Int) : Prop where
  enters : c.Enters s args
  inBounds : (retrieveIpUdpHeader args.pkt).inBounds = true
  socket : args.socketFd ≠ -1

/-- What the chain brings back for a datagram of the flow: an IP packet without
options behind the flow's header. -/
structure Response (c : Connection) (args : UdpArgs Int) : Prop where
  frame : ∃ (hops : Nat) (p : Packet UdpHeader),
    (c.header hops 1).bytes ++ p.bytes <+: args.pkt ∧
    args.pktLen = ((c.header hops 1).bytes ++ p.bytes).length ∧
    p.ip.length = ipHdrLen ∧ (Iphdr.read p.ip).protocol = 17

/-- The two UDP callbacks of the ingress at work on one flow. The chain brings
back at most one response for each frame. -/
def system (self : Self) (c : Connection) :
    System State (Ingress.Callback Int) (Op Int) (Reply Int) Stop Unit where
  start := Ingress.start self
  perform s _ o r s' born := born = [] ∧ Grants ⟨o, r⟩ ∧ s.endpoint.Performs o r s'.endpoint ∧
    s'.inFlight = (message o).toList ++ s.inFlight
  arrive s s' g := s'.endpoint = s.endpoint ∧ match g with
    | .udp args => Request self c args ∧ s'.inFlight = s.inFlight
    | .vnf args => Response c args ∧ ∃ m ∈ s.inFlight, s'.inFlight = s.inFlight.erase m
    | .tcp .. => False
  fatal := Stop.Fatal

abbrev IngressThread := Thread (Ingress.Callback Int) (Op Int) (Reply Int) Stop Unit

def registers : Op Int → Bool
  | .addEntry .. => true
  | _ => false

def forwards : Op Int → Bool
  | .sendAndWaitResponse .. => true
  | _ => false

/-- A datagram that is registered and not yet on the chain, or a response whose
client has not been looked up. -/
def waits (t : IngressThread) : Bool :=
  match t.tag with
  | .udp _ => did registers t.past && !did forwards t.past
  | .vnf _ => !did looksUp t.past
  | .tcp .. => false

/-- The entry is deleted only when no datagram of the flow still needs it: none
is waiting in a handler, none is on the chain. -/
def Undisturbed (s : State) (others : List IngressThread) (_ : Ingress.Callback Int) :
    Op Int → Prop
  | .deleteEntry _ => s.inFlight = [] ∧ ∀ t ∈ others, waits t = false
  | _ => True

def start (myIp : String) (extPort intPort : BitVec 16) : State where
  endpoint := .new (finite ConnectionEntry) Int myIp extPort intPort
  inFlight := []

section Threads
variable {self : Self} {c : Connection} {args : UdpArgs Int}

inductive RequestAt (c : Connection) (args : UdpArgs Int) :
    List (Event (Op Int) (Reply Int)) → Handler Int Unit → Prop where
  | entered {k : Except Exn Unit → Handler Int Unit} :
    RequestAt c args []
      (.op (.addEntry (c.entry .udp) args.socketFd args.clientAddress .ingressT .udp) k)
  | registered {k : Except Exn (List Address) → Handler Int Unit} :
    RequestAt c args
      [⟨.addEntry (c.entry .udp) args.socketFd args.clientAddress .ingressT .udp, .ok ()⟩]
      (.op (.getRouteList (BitVec.ofNat 32 c.id)) k)
  | routed {path : List Address} {m : List Byte} {dst : String} {port : BitVec 16}
      {k : Bool → Handler Int Unit} :
    RequestAt c args
      [⟨.addEntry (c.entry .udp) args.socketFd args.clientAddress .ingressT .udp, .ok ()⟩,
        ⟨.getRouteList (BitVec.ofNat 32 c.id), .ok path⟩] (.op (.sendAndWaitResponse m dst port) k)
  | forwarded {path : List Address} {m : List Byte} {dst : String} {port : BitVec 16} :
    RequestAt c args
      [⟨.addEntry (c.entry .udp) args.socketFd args.clientAddress .ingressT .udp, .ok ()⟩,
        ⟨.getRouteList (BitVec.ofNat 32 c.id), .ok path⟩,
        ⟨.sendAndWaitResponse m dst port, true⟩] (.ret ())

theorem request_at (h : Request self c args) {past : List (Event (Op Int) (Reply Int))}
    {q : Handler Int Unit} (hr : Prog.Reaches (Ingress.start self (.udp args)) past q)
    (hg : ∀ e ∈ past, Grants e) : RequestAt c args past q := by
  change Prog.Reaches (Ingress.manageEnteringUdpPackets self args) past q at hr
  rw [Ingress.manageEnteringUdpPackets, h.enters.chain.classifyPkt, Prog.ret_bind,
    checked_ok h.inBounds, Prog.ret_bind, h.enters.saddr, h.enters.daddr, h.enters.source,
    h.enters.dest, addEntry_bind] at hr
  obtain ⟨rfl, rfl⟩ | ⟨added, past₁, rfl, hr₁⟩ := Prog.reaches_op.mp hr
  · exact .entered
  · have hadd : added = .ok () := hg _ List.mem_cons_self
    rw [hadd, raise_ok, Prog.ret_bind, c.getRouteList_id, Prog.op_bind] at hr₁
    rw [hadd]
    obtain ⟨rfl, rfl⟩ | ⟨route, past₂, rfl, hr₂⟩ := Prog.reaches_op.mp hr₁
    · exact .registered
    · obtain ⟨hop, hops, hroute⟩ := hg _ (List.mem_cons_of_mem _ List.mem_cons_self)
      rw [hroute, raise_ok, Prog.ret_bind] at hr₂
      dsimp only at hr₂
      rw [c.forward_id] at hr₂
      rw [hroute]
      obtain ⟨rfl, rfl⟩ | ⟨resolved, past₃, rfl, hr₃⟩ := Prog.reaches_op.mp hr₂
      · exact .routed
      · have hsent : resolved = true :=
          hg _ (List.mem_cons_of_mem _ (List.mem_cons_of_mem _ List.mem_cons_self))
        rw [hsent, if_pos rfl, Prog.reaches_ret] at hr₃
        obtain ⟨rfl, rfl⟩ := hr₃
        rw [hsent]
        exact .forwarded

inductive ResponseAt (c : Connection) (args : UdpArgs Int) :
    List (Event (Op Int) (Reply Int)) → Handler Int Unit → Prop where
  | arrived {k : Int → Handler Int Unit} :
    ResponseAt c args [] (.op (.sendto args.socketFd ack args.clientAddress) k)
  | acked {n : Int} {k : Int × SockaddrIn → Handler Int Unit} :
    ResponseAt c args [⟨.sendto args.socketFd ack args.clientAddress, n⟩]
      (.op (.retrieveConnection2 (c.entry .udp)) k)
  | found {n : Int} {sock : Int × SockaddrIn} {k : Int → Handler Int Unit} :
    ResponseAt c args [⟨.sendto args.socketFd ack args.clientAddress, n⟩,
        ⟨.retrieveConnection2 (c.entry .udp), sock⟩]
      (.op (.sendto sock.1 (chainPayload args) sock.2) k)
  | delivered {n r : Int} {sock : Int × SockaddrIn} {k : Except Exn Unit → Handler Int Unit} :
    0 ≤ r → ResponseAt c args [⟨.sendto args.socketFd ack args.clientAddress, n⟩,
        ⟨.retrieveConnection2 (c.entry .udp), sock⟩,
        ⟨.sendto sock.1 (chainPayload args) sock.2, r⟩] (.op (.deleteEntry (c.entry .udp)) k)
  | refused {n r : Int} {sock : Int × SockaddrIn} :
    r < 0 → ResponseAt c args [⟨.sendto args.socketFd ack args.clientAddress, n⟩,
        ⟨.retrieveConnection2 (c.entry .udp), sock⟩,
        ⟨.sendto sock.1 (chainPayload args) sock.2, r⟩] (.throw .exit)
  | done {n r : Int} {sock : Int × SockaddrIn} :
    0 ≤ r → ResponseAt c args [⟨.sendto args.socketFd ack args.clientAddress, n⟩,
        ⟨.retrieveConnection2 (c.entry .udp), sock⟩,
        ⟨.sendto sock.1 (chainPayload args) sock.2, r⟩, ⟨.deleteEntry (c.entry .udp), .ok ()⟩]
      (.ret ())

theorem response_at (self : Self) (h : Response c args) {past : List (Event (Op Int) (Reply Int))}
    {q : Handler Int Unit} (hr : Prog.Reaches (Ingress.start self (.vnf args)) past q)
    (hg : ∀ e ∈ past, Grants e) : ResponseAt c args past q := by
  obtain ⟨hops, p, hpkt, hlen, hplain, hprot⟩ := h.frame
  obtain ⟨hfit, hprt, hkey, hoff, _⟩ := udp_frame hplain hprot hpkt hlen
  rw [Connection.headerEntry_header] at hkey
  change Prog.Reaches (Ingress.managePktFromChain args) past q at hr
  rw [managePktFromChain_eq args hfit, hkey] at hr
  obtain ⟨rfl, rfl⟩ | ⟨n, past₁, rfl, hr₁⟩ := Prog.reaches_op.mp hr
  · exact .arrived
  obtain ⟨rfl, rfl⟩ | ⟨sock, past₂, rfl, hr₂⟩ := Prog.reaches_op.mp hr₁
  · exact .acked
  rw [deliver_udp args sock hprt hoff, hkey] at hr₂
  obtain ⟨rfl, rfl⟩ | ⟨r, past₃, rfl, hr₃⟩ := Prog.reaches_op.mp hr₂
  · exact .found
  by_cases hneg : r < 0
  · rw [if_pos hneg, Prog.reaches_throw] at hr₃
    obtain ⟨rfl, rfl⟩ := hr₃
    exact .refused hneg
  · rw [if_neg hneg] at hr₃
    obtain ⟨rfl, rfl⟩ | ⟨answer, past₄, rfl, hr₄⟩ := Prog.reaches_op.mp hr₃
    · exact .delivered (not_lt.mp hneg)
    · have hanswer : answer = .ok () := hg ⟨.deleteEntry (c.entry .udp), answer⟩ (by simp)
      rw [hanswer] at hr₄ ⊢
      obtain ⟨rfl, rfl⟩ := Prog.reaches_ret.mp hr₄
      exact .done (not_lt.mp hneg)

end Threads

abbrev IngressPool := Pool State (Ingress.Callback Int) (Op Int) (Reply Int) Stop Unit

def Waiting (P : IngressPool) : Prop := P.shared.inFlight ≠ [] ∨ ∃ t ∈ P.threads, waits t = true

def LookedUp (P : IngressPool) (sock : Int × SockaddrIn) : Prop :=
  ∃ t ∈ P.threads, ∃ ce, ⟨.retrieveConnection2 ce, sock⟩ ∈ t.past

def RegisteredBy (c : Connection) (P : IngressPool) (sock : Int × SockaddrIn) : Prop :=
  ∃ t ∈ P.threads, ∃ args, t.tag = .udp args ∧ args.socketFd ≠ -1 ∧
    sock = (args.socketFd, args.clientAddress) ∧
    ⟨.addEntry (c.entry .udp) args.socketFd args.clientAddress .ingressT .udp, .ok ()⟩ ∈ t.past

section Steps
variable {self : Self} {c : Connection} {s₀ : State} {P Q : IngressPool}

/-- Every thread is at one of the places of its handler. -/
theorem threads_at (h : Reachable (system self c) Undisturbed s₀ P) : ∀ t ∈ P.threads,
    (∃ args, t.tag = .udp args ∧ Request self c args ∧ RequestAt c args t.past t.prog) ∨
    ∃ args, t.tag = .vnf args ∧ ResponseAt c args t.past t.prog := by
  intro t ht
  have htag := h.tag (A := fun g => (∃ args, g = .udp args ∧ Request self c args) ∨
      ∃ args, g = .vnf args ∧ Response c args)
    (by
      intro s g o r s' born hperf _ b hb
      rw [hperf.1] at hb
      cases hb)
    (by
      intro s s' g harr
      cases g with
      | udp args => exact Or.inl ⟨args, rfl, harr.2.1⟩
      | vnf args => exact Or.inr ⟨args, rfl, harr.2.1⟩
      | tcp => exact harr.2.elim) t ht
  have hpast := h.past (E := Grants) (fun s g o r s' born hperf => hperf.2.1) t ht
  have hreach := h.thread t ht
  rcases htag with ⟨args, htag, hreq⟩ | ⟨args, htag, hresp⟩
  · rw [htag] at hreach
    exact Or.inl ⟨args, htag, hreq, request_at hreq hreach hpast⟩
  · rw [htag] at hreach
    exact Or.inr ⟨args, htag, response_at self hresp hreach hpast⟩

theorem RegisteredBy.step (hst : Step (system self c) Undisturbed P Q) {sock : Int × SockaddrIn}
    (h : RegisteredBy c P sock) : RegisteredBy c Q sock := by
  obtain ⟨t, ht, args, htag, hfd, hsock, hadd⟩ := h
  obtain ⟨t', ht', htag', hpast⟩ := hst.persists ht
  exact ⟨t', ht', args, by rw [htag', htag], hfd, hsock, hpast.subset hadd⟩

section Moved
variable {s s' : State} {before after : List IngressThread} (t : IngressThread) {t' : IngressThread}
  {e : Event (Op Int) (Reply Int)}

/-- When one thread has moved, a lookup is an old one or the move itself. -/
theorem lookedUp_moved (hpast : t'.past = t.past ++ [e]) {sock : Int × SockaddrIn}
    (h : LookedUp ⟨s', before ++ t' :: after⟩ sock) :
    LookedUp ⟨s, before ++ t :: after⟩ sock ∨ ∃ ce, e = ⟨.retrieveConnection2 ce, sock⟩ := by
  obtain ⟨u, hu, ce, hmem⟩ := h
  rcases mem_split.mp hu with hu | rfl
  · exact Or.inl ⟨u, mem_split.mpr (Or.inl hu), ce, hmem⟩
  · rw [hpast] at hmem
    rcases List.mem_append.mp hmem with hmem | hmem
    · exact Or.inl ⟨t, mem_split.mpr (Or.inr rfl), ce, hmem⟩
    · exact Or.inr ⟨ce, (List.mem_singleton.mp hmem).symm⟩

/-- A datagram that needs the entry does so after a move only if it did before,
when what the moved thread was waiting for, if anything, is what it went on to. -/
theorem waiting_moved (hmove : waits t' = true ∨ s'.inFlight ≠ [] → waits t = true ∨ s.inFlight ≠ [])
    (h : Waiting ⟨s', before ++ t' :: after⟩) : Waiting ⟨s, before ++ t :: after⟩ := by
  have hnow : (waits t = true ∨ s.inFlight ≠ []) ∨ ∃ u ∈ before ++ after, waits u = true := by
    rcases h with h | ⟨u, hu, hw⟩
    · exact Or.inl (hmove (Or.inr h))
    · rcases mem_split.mp hu with hu | rfl
      · exact Or.inr ⟨u, hu, hw⟩
      · exact Or.inl (hmove (Or.inl hw))
  rcases hnow with (h | h) | ⟨u, hu, hw⟩
  · exact Or.inr ⟨t, mem_split.mpr (Or.inr rfl), h⟩
  · exact Or.inl h
  · exact Or.inr ⟨u, mem_split.mpr (Or.inl hu), hw⟩

end Moved

/-- What one step can do to the flow's entry and to those who need it. -/
theorem step_cases (hP : Reachable (system self c) Undisturbed s₀ P)
    (hst : Step (system self c) Undisturbed P Q) :
    (Q.shared.endpoint = P.shared.endpoint ∧ (Waiting Q → Waiting P) ∧
      ∀ sock, LookedUp Q sock → LookedUp P sock ∨
        (Waiting P ∧ sock = P.shared.endpoint.retrieveConnection2 (c.entry .udp))) ∨
    (∃ sock, Q.shared.endpoint.connectionMap =
        (finite ConnectionEntry).insert P.shared.endpoint.connectionMap (c.entry .udp) sock ∧
      RegisteredBy c Q sock ∧ ∀ sock, LookedUp Q sock → LookedUp P sock) ∨
    (¬ Waiting Q ∧ Q.shared.endpoint.connectionMap (c.entry .udp) = none ∧
      ∀ sock, LookedUp Q sock → LookedUp P sock) := by
  cases hst with
  | @run s s' before after g past o k r born halive hguard hperf =>
    obtain ⟨rfl, hgrant, hend, hflight⟩ := hperf
    simp only [List.map_nil, List.append_nil]
    have hlook (sock : Int × SockaddrIn)
        (h : LookedUp ⟨s', before ++ ⟨g, past ++ [⟨o, r⟩], k r⟩ :: after⟩ sock) :
        LookedUp ⟨s, before ++ ⟨g, past, .op o k⟩ :: after⟩ sock ∨
          ∃ ce, (⟨o, r⟩ : Event (Op Int) (Reply Int)) = ⟨.retrieveConnection2 ce, sock⟩ :=
      lookedUp_moved ⟨g, past, .op o k⟩ rfl h
    -- what holds of every operation but the lookup, the registration and the deletion
    have hquiet (hsame : s'.endpoint = s.endpoint) (hno : looksUp o = false)
        (hmove : waits ⟨g, past ++ [⟨o, r⟩], k r⟩ = true ∨ s'.inFlight ≠ [] →
          waits ⟨g, past, .op o k⟩ = true ∨ s.inFlight ≠ []) :
        s'.endpoint = s.endpoint ∧
        (Waiting ⟨s', before ++ ⟨g, past ++ [⟨o, r⟩], k r⟩ :: after⟩ →
          Waiting ⟨s, before ++ ⟨g, past, .op o k⟩ :: after⟩) ∧
        ∀ sock, LookedUp ⟨s', before ++ ⟨g, past ++ [⟨o, r⟩], k r⟩ :: after⟩ sock →
          LookedUp ⟨s, before ++ ⟨g, past, .op o k⟩ :: after⟩ sock ∨
            (Waiting ⟨s, before ++ ⟨g, past, .op o k⟩ :: after⟩ ∧
              sock = s.endpoint.retrieveConnection2 (c.entry .udp)) := by
      refine ⟨hsame, waiting_moved _ hmove, fun sock h => ?_⟩
      obtain h | ⟨ce, he⟩ := hlook sock h
      · exact Or.inl h
      · cases he
        cases hno
    rcases threads_at hP ⟨g, past, .op o k⟩ (mem_split.mpr (Or.inr rfl)) with
      ⟨args, rfl, hreq, hat⟩ | ⟨args, rfl, hat⟩
    · cases hat with
      | @entered k =>
        obtain ⟨answer, _, hnext⟩ := hend
        refine Or.inr (Or.inl ⟨(args.socketFd, args.clientAddress), ?_, ?_, ?_⟩)
        · rw [hnext]
          exact Endpoint.connectionMap_addEntry ..
        · have hok : r = .ok () := hgrant
          refine ⟨_, mem_split.mpr (Or.inr rfl), args, rfl, hreq.socket, rfl, ?_⟩
          rw [hok]
          exact List.mem_singleton_self _
        · intro sock h
          obtain h | ⟨ce, he⟩ := hlook sock h
          · exact h
          · cases he
      | registered =>
        exact Or.inl (hquiet hend rfl (by simp [hflight, message, waits, registers, forwards]))
      | routed =>
        exact Or.inl (hquiet hend rfl (by simp [waits, registers, forwards]))
    · cases hat with
      | arrived =>
        exact Or.inl (hquiet hend rfl (by simp [waits]))
      | @acked n k =>
        obtain ⟨hr, hsame⟩ := hend
        have hwas : waits ⟨.vnf args, [⟨.sendto args.socketFd ack args.clientAddress, n⟩],
            .op (.retrieveConnection2 (c.entry .udp)) k⟩ = true := by
          simp [waits, looksUp]
        refine Or.inl ⟨hsame, waiting_moved _ fun _ => Or.inl hwas, fun sock h => ?_⟩
        obtain h | ⟨ce, he⟩ := hlook sock h
        · exact Or.inl h
        · cases he
          exact Or.inr ⟨Or.inr ⟨_, mem_split.mpr (Or.inr rfl), hwas⟩, hr⟩
      | found =>
        exact Or.inl (hquiet hend rfl (by simp [hflight, message, waits, looksUp]))
      | @delivered n r₀ sock k =>
        obtain ⟨answer, _, hnext⟩ := hend
        obtain ⟨hempty, hothers⟩ := hguard
        refine Or.inr (Or.inr ⟨?_, ?_, ?_⟩)
        · intro hwait
          rcases hwait with hne | ⟨u, hu, hw⟩
          · exact hne (by rw [hflight, hempty]; rfl)
          · rcases mem_split.mp hu with hu | rfl
            · rw [hothers u hu] at hw
              cases hw
            · simp [waits, looksUp] at hw
        · rw [hnext, Endpoint.connectionMap_deleteEntry]
          cases hf : (finite ConnectionEntry).find s.endpoint.connectionMap (c.entry .udp) with
          | none => exact hf
          | some v => simp
        · intro sock' h
          obtain h | ⟨ce, he⟩ := hlook sock' h
          · exact h
          · cases he
  | @arrive s s' ts g halive harr =>
    obtain ⟨hend, hwho⟩ := harr
    refine Or.inl ⟨hend, ?_, ?_⟩
    · intro hwait
      cases g with
      | udp args =>
        rcases hwait with hne | ⟨u, hu, hw⟩
        · exact Or.inl (by rwa [← hwho.2])
        · rcases List.mem_append.mp hu with hu | hu
          · exact Or.inr ⟨u, hu, hw⟩
          · rw [List.mem_singleton.mp hu] at hw
            cases hw
      | vnf args =>
        obtain ⟨_, m, hm, _⟩ := hwho
        exact Or.inl (List.ne_nil_of_mem hm)
      | tcp => exact hwho.elim
    · intro sock h
      obtain ⟨u, hu, ce, hmem⟩ := h
      rcases List.mem_append.mp hu with hu | hu
      · exact Or.inl ⟨u, hu, ce, hmem⟩
      · rw [List.mem_singleton.mp hu] at hmem
        cases hmem

/-- While a datagram needs the entry it is there, and what is in it or was found
in it is the client of an accepted datagram. -/
structure Kept (c : Connection) (P : IngressPool) : Prop where
  present : Waiting P → ∃ sock, P.shared.endpoint.connectionMap (c.entry .udp) = some sock
  registered : ∀ sock, P.shared.endpoint.connectionMap (c.entry .udp) = some sock →
    RegisteredBy c P sock
  found : ∀ sock, LookedUp P sock → RegisteredBy c P sock

theorem Kept.step (hP : Reachable (system self c) Undisturbed s₀ P) (h : Kept c P)
    (hst : Step (system self c) Undisturbed P Q) : Kept c Q := by
  rcases step_cases hP hst with ⟨hsame, hwait, hlook⟩ | ⟨new, hmap, hnew, hlook⟩ |
    ⟨hwait, hmap, hlook⟩
  · refine ⟨?_, ?_, ?_⟩
    · intro hw
      rw [hsame]
      exact h.present (hwait hw)
    · intro sock hs
      rw [hsame] at hs
      exact (h.registered sock hs).step hst
    · intro sock hs
      rcases hlook sock hs with hs | ⟨hw, rfl⟩
      · exact (h.found sock hs).step hst
      · obtain ⟨sock, hfind⟩ := h.present hw
        have heq : P.shared.endpoint.retrieveConnection2 (c.entry .udp) = sock := by
          simp [Endpoint.retrieveConnection2, hfind]
        rw [heq]
        exact (h.registered sock hfind).step hst
  · refine ⟨?_, ?_, fun sock hs => (h.found sock (hlook sock hs)).step hst⟩
    · intro _
      exact ⟨_, by rw [hmap]; exact if_pos rfl⟩
    · intro sock hs
      rw [hmap, finite_insert, if_pos rfl] at hs
      cases hfind : P.shared.endpoint.connectionMap (c.entry .udp) with
      | none =>
        rw [hfind] at hs
        cases hs
        exact hnew
      | some old =>
        rw [hfind] at hs
        cases hs
        exact (h.registered _ hfind).step hst
  · refine ⟨fun hw => absurd hw hwait, ?_, fun sock hs => (h.found sock (hlook sock hs)).step hst⟩
    intro sock hs
    rw [hmap] at hs
    cases hs

/-- Every run from an empty table, whatever the order of steps. -/
theorem kept_reachable {myIp : String} {extPort intPort : BitVec 16}
    (h : Reachable (system self c) Undisturbed (start myIp extPort intPort) P) : Kept c P := by
  refine h.invariant (Kept c) ?_ fun P Q hP hI hst => hI.step hP hst
  refine ⟨?_, ?_, ?_⟩
  · intro hw
    rcases hw with hw | ⟨t, ht, _⟩
    · exact absurd rfl hw
    · cases ht
  · intro sock hs
    cases hs
  · intro sock hs
    obtain ⟨t, ht, _⟩ := hs
    cases ht

end Steps

/-- When no entry is deleted while it is needed, the ingress stays up, every
response finds the client of an accepted datagram of the flow, and every
response whose handler is done has been sent to that client. -/
theorem every_response_delivered (self : Self) (c : Connection) (myIp : String)
    (extPort intPort : BitVec 16) (P : IngressPool)
    (h : Reachable (system self c) Undisturbed (start myIp extPort intPort) P) :
    (system self c).Alive P.threads ∧ ∀ t ∈ P.threads, ∀ args, t.tag = .vnf args →
      (∀ ce sock, ⟨.retrieveConnection2 ce, sock⟩ ∈ t.past → RegisteredBy c P sock) ∧
      (t.prog = .ret () → ∃ sock r, RegisteredBy c P sock ∧ 0 ≤ r ∧
        ⟨.sendto sock.1 (chainPayload args) sock.2, r⟩ ∈ t.past) := by
  have hkept := kept_reachable h
  -- a send that got an answer went to the client the lookup found
  have hsent {g : Ingress.Callback Int} {past : List (Event (Op Int) (Reply Int))}
      {prog : Handler Int Unit} {ce : ConnectionEntry} {sock : Int × SockaddrIn}
      (ht : ⟨g, past, prog⟩ ∈ P.threads) (hmem : ⟨.retrieveConnection2 ce, sock⟩ ∈ past) :
      RegisteredBy c P sock := hkept.found sock ⟨_, ht, ce, hmem⟩
  refine ⟨?_, ?_⟩
  · intro t ht stop hstop
    obtain ⟨g, past, prog⟩ := t
    cases hstop
    rcases threads_at h _ ht with ⟨args, _, _, hat⟩ | ⟨args, _, hat⟩
    · cases hat
    · cases hat with
      | @refused n r sock hneg =>
        obtain ⟨t, _, args', _, hfd, rfl, _⟩ :=
          hsent ht (List.mem_cons_of_mem _ List.mem_cons_self)
        have hgrant := h.past (E := Grants) (fun s g o r s' born hperf => hperf.2.1) _ ht
          ⟨.sendto args'.socketFd (chainPayload args) args'.clientAddress, r⟩ (by simp)
        exact absurd (hgrant.mp hneg) hfd
  · intro t ht args htag
    obtain ⟨g, past, prog⟩ := t
    refine ⟨fun ce sock hmem => hsent ht hmem, ?_⟩
    intro hdone
    cases hdone
    rcases threads_at h _ ht with ⟨args', htag', _⟩ | ⟨args', htag', hat⟩
    · cases htag.symm.trans htag'
    · cases htag.symm.trans htag'
      cases hat with
      | @done n r sock hr => 
        exact ⟨sock, r, hsent ht (List.mem_cons_of_mem _ List.mem_cons_self), hr, by simp⟩

instance (self : Self) (c : Connection) : DecidablePred (system self c).fatal :=
  inferInstanceAs (DecidablePred Stop.Fatal)

instance (s : State) (others : List IngressThread) (g : Ingress.Callback Int) (o : Op Int) :
    Decidable (Undisturbed s others g o) :=
  match o with
  | .deleteEntry _ => inferInstanceAs (Decidable (s.inFlight = [] ∧ ∀ t ∈ others, waits t = false))
  | .recv .. | .read .. | .recvfrom .. | .send .. | .sendto .. | .shutdown .. | .close _
  | .rawSocket _ | .bind .. | .connectToServer .. | .addEntry .. | .updateEntry ..
  | .retrieveConnection2 _ | .getRouteList _ | .sendAndWaitResponse .. | .goAsync _ =>
    isTrue trivial

def udpResponse : List Byte := (sampleConnection.header 1 1).bytes ++ udpPacket.bytes

def udpWorld : World (system proxy sampleConnection) where
  resolve s _ o :=
    let next := s.endpoint.serve 3 ⟨"10.0.2.1", 57000, false⟩ [] o
    some (next.1, ⟨next.2, (message o).toList ++ s.inFlight⟩, [])
  performs s g o r s' born h := by
    cases h
    refine ⟨rfl, ?_, s.endpoint.serve_performs .., rfl⟩
    cases o with
    | sendto fd bytes addr =>
      change (if fd = -1 then (-1 : Int) else bytes.length) < 0 ↔ fd = -1
      split <;> simp_all
    | getRouteList pId => exact ⟨_, _, rfl⟩
    | addEntry | deleteEntry | sendAndWaitResponse => rfl
    | _ => trivial
  accept s g :=
    if g = .udp (udpArgs udpPacket.bytes) then some s
    else if g = .vnf (udpArgs udpResponse) then
      match s.inFlight with
      | [] => none
      | _ :: ms => some { s with inFlight := ms }
    else none
  arrives s g s' h := by
    split at h
    · rename_i hg
      cases h
      rw [hg]
      exact ⟨rfl, ⟨udpPacket_enters, by decide, by decide⟩, rfl⟩
    · split at h
      · rename_i hg
        split at h
        · cases h
        · rename_i m ms hflight
          cases h
          rw [hg]
          refine ⟨rfl, ⟨1, udpPacket, List.prefix_rfl, rfl, rfl, by decide⟩, m, ?_, ?_⟩
          · rw [hflight]
            exact List.mem_cons_self
          · rw [hflight, List.erase_cons_head]
      · cases h

theorem one_response_delivered : ∃ P : IngressPool,
    (∃ t ∈ P.threads, t.tag = .vnf (udpArgs udpResponse) ∧ t.past.length = 4) ∧
    (system proxy sampleConnection).Alive P.threads ∧ ∀ t ∈ P.threads, ∀ args, t.tag = .vnf args →
      (∀ ce sock, ⟨.retrieveConnection2 ce, sock⟩ ∈ t.past → RegisteredBy sampleConnection P sock) ∧
      (t.prog = .ret () → ∃ sock r, RegisteredBy sampleConnection P sock ∧ 0 ≤ r ∧
        ⟨.sendto sock.1 (chainPayload args) sock.2, r⟩ ∈ t.past) := by
  obtain ⟨P, hP, hdone⟩ := udpWorld.exists_reachable Undisturbed (start "10.0.0.9" 57000 57001)
    (.arrive (.udp (udpArgs udpPacket.bytes)) :: steps 3 0 ++
      .arrive (.vnf (udpArgs udpResponse)) :: steps 4 1)
    (fun P => decide (∃ t ∈ P.threads, t.tag = .vnf (udpArgs udpResponse) ∧ t.past.length = 4))
    (by decide +kernel)
  exact ⟨P, of_decide_eq_true hdone,
    every_response_delivered proxy sampleConnection "10.0.0.9" 57000 57001 P hP⟩

/-- Two datagrams of the flow, then their responses: the first response deletes
the entry, the second one finds none, fails to send and ends the process. -/
theorem second_response_exits : ∃ P,
    Reachable (system proxy sampleConnection) (fun _ _ _ _ => True)
      (start "10.0.0.9" 57000 57001) P ∧
    ¬ (system proxy sampleConnection).Alive P.threads := by
  obtain ⟨P, hP, hdead⟩ := udpWorld.exists_reachable (fun _ _ _ _ => True)
    (start "10.0.0.9" 57000 57001)
    (.arrive (.udp (udpArgs udpPacket.bytes)) :: steps 3 0 ++
      .arrive (.udp (udpArgs udpPacket.bytes)) :: steps 3 1 ++
      .arrive (.vnf (udpArgs udpResponse)) :: steps 4 2 ++
      .arrive (.vnf (udpArgs udpResponse)) :: steps 3 3)
    (fun P => decide (¬ (system proxy sampleConnection).Alive P.threads)) (by decide +kernel)
  exact ⟨P, hP, of_decide_eq_true hdead⟩

end Ironhide.Proofs.UdpReplies
