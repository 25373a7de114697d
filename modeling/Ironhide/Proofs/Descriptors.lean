import Ironhide.Lib.Schedule
import Ironhide.Model.Ingress
import Ironhide.Proofs.FromChain
import Ironhide.Proofs.Keys
import Ironhide.Proofs.Table

namespace Ironhide.Proofs.Descriptors
open Model Lib.Bytes Lib.Program Lib.StdMap Lib.SearchTree Lib.Threads Lib.Threads.System
open Lib.Schedule PacketUtils SfcUtilities Framing FromChain Keys Table

/-- A descriptor as the handlers pass it around: its number, and the client
connection it was obtained for, if any. The code never sees the connection. -/
structure Fd where
  num : Int
  conn : Option Nat
  deriving DecidableEq, Repr

instance : Descriptor Fd := ⟨Fd.num, ⟨-1, none⟩, rfl⟩

@[simp] theorem notFound_conn : (Descriptor.notFound : Fd).conn = none := rfl

def names : Op Fd → Option Fd
  | .recv fd _ | .read fd _ | .recvfrom fd _ => some fd
  | .send fd _ | .sendto fd _ _ => some fd
  | .shutdown fd _ | .close fd => some fd
  | .addEntry _ fd .. | .updateEntry _ fd .. => some fd
  | _ => none

/-- The ingress's endpoint, what the open client descriptors denote, and how
many connections have been accepted. -/
structure State (sh : Shaping ConnectionEntry) where
  endpoint : Endpoint (stdMap sh) Fd
  opened : Int → Option Nat
  accepted : Nat

def start (sh : Shaping ConnectionEntry) (myIp : String) (extPort intPort : BitVec 16) : State sh where
  endpoint := .new (stdMap sh) Fd myIp extPort intPort
  opened := fun _ => none
  accepted := 0

variable {sh : Shaping ConnectionEntry}

/-- `num` is the lowest descriptor number that is free, when `busy` are the
numbers the process has open for anything else. -/
def LowestFree (s : State sh) (busy : List Nat) (num : Nat) : Prop :=
  num ∉ busy ∧ s.opened num = none ∧ ∀ m < num, m ∈ busy ∨ s.opened m ≠ none

def closing (opened : Int → Option Nat) : Op Fd → Int → Option Nat
  | .close fd => Function.update opened fd.num none
  | _ => opened

/-- The ingress at work: `accept` gives every client the lowest free number,
packets from the chain and datagrams come in on sockets that stay open. -/
def system (sh : Shaping ConnectionEntry) (self : Self) :
    System (State sh) (Ingress.Callback Fd) (Op Fd) (Reply Fd) Stop Unit where
  start := Ingress.start self
  perform s _ o r s' born := born = [] ∧ s.endpoint.Performs o r s'.endpoint ∧
    s'.opened = closing s.opened o ∧ s'.accepted = s.accepted
  arrive s s' g := match g with
    | .tcp args _ _ => ∃ (busy : List Nat) (num : Nat), LowestFree s busy num ∧
      args.newSocketFd = ⟨num, some s.accepted⟩ ∧
      s' = { s with
        opened := Function.update s.opened num (some s.accepted)
        accepted := s.accepted + 1 }
    | .udp args | .vnf args => args.socketFd.conn = none ∧ s' = s
  fatal := Stop.Fatal

abbrev FdThread := Thread (Ingress.Callback Fd) (Op Fd) (Reply Fd) Stop Unit

/-- A receive loop has the descriptor it was started for, a handler of a packet
from the chain the one its lookup gave. -/
def Obtained (t : FdThread) (fd : Fd) : Prop :=
  (∃ args pkt fuel, t.tag = .tcp args pkt fuel ∧ fd = args.newSocketFd) ∨
    ∃ ce addr, ⟨.retrieveConnection2 ce, (fd, addr)⟩ ∈ t.past

/-- A thread has the descriptor and may still name it. -/
def Holds (t : FdThread) (fd : Fd) : Prop :=
  Obtained t fd ∧ ¬ t.prog.All fun o => names o ≠ some fd

def named (t : FdThread) : Option Fd := (pending t.prog).bind names

/-- A descriptor is closed only when no entry of the table has its number and no
other thread may still use it. -/
def Released (s : State sh) (others : List FdThread) (_ : Ingress.Callback Fd) : Op Fd → Prop
  | .close fd =>
    (∀ k v, (stdMap sh).Has s.endpoint.connectionMap k v → v.1.num ≠ fd.num) ∧
      ∀ t ∈ others, ∀ fd', Holds t fd' → fd'.num ≠ fd.num
  | _ => True

section Handlers
variable (self : Self)

/-- A receive loop names only the descriptor it was started for. -/
theorem tcp_names (args : TcpArgs Fd) (pkt : List Byte) (fuel : Nat) :
    (Ingress.start self (.tcp args pkt fuel)).All
      fun o => ∀ fd, names o = some fd → fd = args.newSocketFd := by
  have hown (o : Op Fd) (h : names o = some args.newSocketFd) (fd : Fd) (hn : names o = some fd) :
      fd = args.newSocketFd := Option.some.inj (hn.symm.trans h)
  refine Prog.All.bind (Ingress.enteringLoop_all self (hown _ rfl) (fun ce => hown _ rfl) ?_ ?_ _ _)
    fun last => Ingress.afterLoop_all ?_ (hown _ rfl) _ _
  · intro pId fd hn
    cases hn
  · intro message dst port fd hn
    cases hn
  · intro ce fd hn
    cases hn

/-- The datagram handler registers its server's socket. -/
theorem udp_names (args : UdpArgs Fd) :
    (Ingress.start self (.udp args)).All
      fun o => ∀ fd, names o = some fd → fd = args.socketFd := by
  refine Ingress.manageEnteringUdpPackets_all self ?_ ?_ ?_
  · intro ce fd hn
    exact (Option.some.inj hn).symm
  · intro pId fd hn
    cases hn
  · intro message dst port fd hn
    cases hn

/-- Once it has looked up the client's descriptor, the handler of a packet from
the chain names no other. -/
theorem deliver_names (args : UdpArgs Fd) (sock : Fd × SockaddrIn) :
    (deliver args sock).All fun o => ∀ fd, names o = some fd → fd = sock.1 := by
  have hown (o : Op Fd) (h : names o = some sock.1) (fd : Fd) (hn : names o = some fd) :
      fd = sock.1 := Option.some.inj (hn.symm.trans h)
  by_cases hoff : payloadOffset args ≤ args.pktLen
  · cases hp : chainPrt args with
    | tcp =>
      rw [deliver_tcp args sock hp hoff]
      refine ⟨hown _ rfl, fun respC => ?_⟩
      dsimp only
      split
      · trivial
      · exact ⟨hown _ rfl, fun _ => ⟨hown _ rfl, fun _ => trivial⟩⟩
    | udp =>
      rw [deliver_udp args sock hp hoff]
      refine ⟨hown _ rfl, fun respC => ?_⟩
      dsimp only
      split
      · trivial
      · refine deleteEntry_all ?_
        intro fd hn
        cases hn
  · rw [deliver_short args sock hoff]
    trivial

theorem vnf_obtained {args : UdpArgs Fd} {past : List (Event (Op Fd) (Reply Fd))} {o : Op Fd}
    {k : Reply Fd o → Handler Fd Unit} {fd : Fd}
    (h : Prog.Reaches (Ingress.start self (.vnf args)) past (.op o k)) (hn : names o = some fd) :
    fd = args.socketFd ∨ ∃ ce addr, ⟨.retrieveConnection2 ce, (fd, addr)⟩ ∈ past := by
  change Prog.Reaches (Ingress.managePktFromChain args) past (.op o k) at h
  by_cases hfit : Fits args
  · rw [managePktFromChain_eq args hfit] at h
    obtain ⟨rfl, heq⟩ | ⟨n, past₁, rfl, h₁⟩ := Prog.reaches_op.mp h
    · cases heq
      exact Or.inl (Option.some.inj hn).symm
    obtain ⟨rfl, heq⟩ | ⟨sock, past₂, rfl, h₂⟩ := Prog.reaches_op.mp h₁
    · cases heq
      cases hn
    · have hfd : fd = sock.1 := (h₂.all (deliver_names args sock)).1.1 fd hn
      rw [hfd]
      exact Or.inr ⟨_, sock.2, List.mem_cons_of_mem _ List.mem_cons_self⟩
  · rw [managePktFromChain_overrun args hfit] at h
    obtain ⟨rfl, heq⟩ | ⟨n, past₁, rfl, h₁⟩ := Prog.reaches_op.mp h
    · cases heq
      exact Or.inl (Option.some.inj hn).symm
    · cases (Prog.reaches_throw.mp h₁).2

def Closes (o : Op Fd) : Prop := ∃ fd, o = .close fd

/-- Closing a descriptor is the last thing a handler does. -/
theorem start_last (g : Ingress.Callback Fd) : (Ingress.start self g).Last Closes := by
  have hno (o : Op Fd) (h : ∀ fd, o ≠ .close fd) : ¬ Closes o := fun ⟨fd, hc⟩ => h fd hc
  cases g with
  | tcp args pkt fuel =>
    refine Prog.Last.bind (Ingress.enteringLoop_all (P := fun o => ¬ Closes o) self
      (hno _ (by simp)) (fun _ => hno _ (by simp)) (fun _ => hno _ (by simp))
      (fun _ _ _ => hno _ (by simp)) _ _) fun last => ?_
    refine Prog.Last.bind ?_ fun _ => ?_
    · split
      · exact deleteEntry_all (P := fun o => ¬ Closes o) (hno _ (by simp))
      · trivial
    · split
      · exact ⟨fun _ _ => ⟨(), rfl⟩, fun _ => trivial⟩
      · trivial
  | udp args =>
    exact (Ingress.manageEnteringUdpPackets_all (P := fun o => ¬ Closes o) self
      (fun _ => hno _ (by simp)) (fun _ => hno _ (by simp)) fun _ _ _ => hno _ (by simp)).last
  | vnf args =>
    change (Ingress.managePktFromChain args).Last Closes
    by_cases hfit : Fits args
    · rw [managePktFromChain_eq args hfit]
      refine ⟨fun h => absurd h (hno _ (by simp)), fun _ => ?_⟩
      refine ⟨fun h => absurd h (hno _ (by simp)), fun sock => ?_⟩
      dsimp only
      by_cases hoff : payloadOffset args ≤ args.pktLen
      · cases hp : chainPrt args with
        | tcp =>
          rw [deliver_tcp args sock hp hoff]
          refine ⟨fun h => absurd h (hno _ (by simp)), fun respC => ?_⟩
          dsimp only
          split
          · trivial
          · refine ⟨fun h => absurd h (hno _ (by simp)), fun _ => ?_⟩
            exact ⟨fun _ _ => ⟨(), rfl⟩, fun _ => trivial⟩
        | udp =>
          rw [deliver_udp args sock hp hoff]
          refine ⟨fun h => absurd h (hno _ (by simp)), fun respC => ?_⟩
          dsimp only
          split
          · trivial
          · exact (deleteEntry_all (P := fun o => ¬ Closes o) (hno _ (by simp))).last
      · rw [deliver_short args sock hoff]
        trivial
    · rw [managePktFromChain_overrun args hfit]
      exact ⟨fun h => absurd h (hno _ (by simp)), fun _ => trivial⟩

end Handlers

/-- A pair in the table after an operation was there before or is registered by it. -/
theorem has_performed {e e' : Endpoint (stdMap sh) Fd} {o : Op Fd} {r : Reply Fd o}
    (h : e.Performs o r e') {k : ConnectionEntry} {v : Fd × SockaddrIn}
    (hv : (stdMap sh).Has e'.connectionMap k v) :
    (stdMap sh).Has e.connectionMap k v ∨ (names o = some v.1 ∧ ¬ Closes o) := by
  have hT := stdMap_sound sh
  cases o with
  | addEntry ce fd sockin endpoint protocol =>
    obtain ⟨answer, _, rfl⟩ := h
    rw [Endpoint.connectionMap_addEntry] at hv
    rcases hT.has_insert _ _ _ _ _ hv with hv | ⟨_, rfl⟩
    · exact Or.inl hv
    · exact Or.inr ⟨rfl, by simp [Closes]⟩
  | updateEntry ce fd sockin endpoint =>
    obtain ⟨answer, _, rfl⟩ := h
    rw [Endpoint.connectionMap_updateEntry] at hv
    cases answer with
    | error x => exact Or.inl hv
    | ok b =>
      rcases hT.has_insert _ _ _ _ _ hv with hv | ⟨_, rfl⟩
      · exact Or.inl hv
      · exact Or.inr ⟨rfl, by simp [Closes]⟩
  | deleteEntry ce =>
    obtain ⟨answer, _, rfl⟩ := h
    rw [Endpoint.connectionMap_deleteEntry] at hv
    split at hv
    · exact Or.inl hv
    · exact Or.inl (hT.has_erase _ _ _ _ hv)
  | retrieveConnection2 ce =>
    obtain ⟨_, rfl⟩ := h
    exact Or.inl hv
  | _ =>
    cases h
    exact Or.inl hv

/-- A lookup that gives a client's descriptor found it in the table. -/
theorem has_retrieved {e : Endpoint (stdMap sh) Fd} {ce : ConnectionEntry} {fd : Fd}
    {addr : SockaddrIn} (h : (fd, addr) = e.retrieveConnection2 ce) (hc : fd.conn ≠ none) :
    (stdMap sh).Has e.connectionMap ce (fd, addr) := by
  unfold Endpoint.retrieveConnection2 at h
  split at h
  · cases h
    exact absurd notFound_conn hc
  · rename_i sock hfind
    rw [h]
    exact (stdMap_sound sh).has_of_find _ _ _ hfind

abbrev FdPool (sh : Shaping ConnectionEntry) :=
  Pool (State sh) (Ingress.Callback Fd) (Op Fd) (Reply Fd) Stop Unit

section Runs
variable {self : Self} {s₀ : State sh} {P Q : FdPool sh}
  {guard : State sh → List FdThread → Ingress.Callback Fd → Op Fd → Prop}

/-- A client's descriptor that a thread is about to name is one it holds. -/
theorem named_held (h : Reachable (system sh self) guard s₀ P) {t : FdThread} (ht : t ∈ P.threads)
    {o : Op Fd} {k : Reply Fd o → Handler Fd Unit} (hprog : t.prog = .op o k) {fd : Fd}
    (hn : names o = some fd) (hc : fd.conn ≠ none) : Holds t fd := by
  have hserver := h.tag (A := fun g => ∀ args, g = .udp args ∨ g = .vnf args →
      args.socketFd.conn = none)
    (by
      intro s g o r s' born hperf _ b hb
      rw [hperf.1] at hb
      cases hb)
    (by
      intro s s' g harr args hg
      rcases hg with rfl | rfl
      · exact harr.1
      · exact harr.1) t ht
  have hreach := h.thread t ht
  rw [hprog] at hreach
  refine ⟨?_, ?_⟩
  · cases htag : t.tag with
    | tcp args pkt fuel =>
      rw [htag] at hreach
      exact Or.inl ⟨args, pkt, fuel, htag, (hreach.all (tcp_names self args pkt fuel)).1.1 fd hn⟩
    | udp args =>
      rw [htag] at hreach
      have hfd := (hreach.all (udp_names self args)).1.1 fd hn
      exact absurd (hfd ▸ hserver args (Or.inl htag)) hc
    | vnf args =>
      rw [htag] at hreach
      rcases vnf_obtained self hreach hn with hfd | hlook
      · exact absurd (hfd ▸ hserver args (Or.inr htag)) hc
      · exact Or.inr hlook
  · rw [hprog]
    exact fun hall => hall.1 hn

/-- What a thread has after its operation it had before, unless it has just looked it up. -/
theorem holds_moved {g : Ingress.Callback Fd} {past : List (Event (Op Fd) (Reply Fd))} {o : Op Fd}
    {k : Reply Fd o → Handler Fd Unit} {r : Reply Fd o} {s : State sh}
    {e : Endpoint (stdMap sh) Fd} {fd : Fd}
    (hreach : Prog.Reaches (Ingress.start self g) past (.op o k)) (hend : s.endpoint.Performs o r e)
    (h : Holds ⟨g, past ++ [⟨o, r⟩], k r⟩ fd) (hc : fd.conn ≠ none) :
    ¬ Closes o ∧ (Holds ⟨g, past, .op o k⟩ fd ∨
      ∃ ce addr, (stdMap sh).Has s.endpoint.connectionMap ce (fd, addr)) := by
  obtain ⟨hob, hmay⟩ := h
  have hbefore : ¬ (Prog.op o k).All fun o => names o ≠ some fd := fun hall => hmay (hall.2 r)
  refine ⟨?_, ?_⟩
  · intro hcloses
    obtain ⟨a, ha⟩ := (hreach.last (start_last self g)).1 hcloses r
    dsimp only at hmay
    rw [ha] at hmay
    exact hmay trivial
  · obtain htcp | ⟨ce, addr, hmem⟩ := hob
    · exact Or.inl ⟨Or.inl htcp, hbefore⟩
    obtain hmem | hnew := List.mem_append.mp hmem
    · exact Or.inl ⟨Or.inr ⟨ce, addr, hmem⟩, hbefore⟩
    · cases List.mem_singleton.mp hnew
      exact Or.inr ⟨ce, addr, has_retrieved hend.1 hc⟩

/-- Every client's descriptor in the table or in a thread's hands denotes the
connection it was obtained for. -/
structure Denoted (P : FdPool sh) : Prop where
  entries : ∀ k fd addr c, (stdMap sh).Has P.shared.endpoint.connectionMap k (fd, addr) →
    fd.conn = some c → P.shared.opened fd.num = some c
  held : ∀ t ∈ P.threads, ∀ fd c, Holds t fd → fd.conn = some c → P.shared.opened fd.num = some c

theorem Denoted.step (hP : Reachable (system sh self) Released s₀ P) (h : Denoted P)
    (hst : Step (system sh self) Released P Q) : Denoted Q := by
  cases hst with
  | @run s s' before after g past o k r born halive hguard hperf =>
    obtain ⟨rfl, hend, hopened, _⟩ := hperf
    have ht : (⟨g, past, .op o k⟩ : FdThread) ∈ before ++ ⟨g, past, .op o k⟩ :: after :=
      mem_split.mpr (Or.inr rfl)
    -- a number other than the one closed still denotes what it did
    have hopen {fd : Fd} {c : Nat} (hwas : s.opened fd.num = some c)
        (hother : ∀ cl, o = .close cl → fd.num ≠ cl.num) : s'.opened fd.num = some c := by
      rw [hopened]
      cases o with
      | close cl => rwa [closing, Function.update_of_ne (hother cl rfl)]
      | _ => exact hwas
    refine ⟨?_, ?_⟩
    · intro key fd addr c hhas hc
      rcases has_performed hend hhas with hwas | ⟨hn, hno⟩
      · refine hopen (h.entries key fd addr c hwas hc) ?_
        rintro cl rfl
        exact hguard.1 key (fd, addr) hwas
      · have hholds := named_held hP ht rfl hn (by rw [hc]; simp)
        exact hopen (h.held _ ht fd c hholds hc) fun cl heq => absurd ⟨cl, heq⟩ hno
    · intro u hu fd c hholds hc
      obtain hsame | rfl | ⟨b, hb, _⟩ := mem_moved.mp hu
      · refine hopen (h.held u (mem_split.mpr (Or.inl hsame)) fd c hholds hc) ?_
        rintro cl rfl
        exact hguard.2 u hsame fd hholds
      · obtain ⟨hno, hhad⟩ := holds_moved (hP.thread _ ht) hend hholds (by rw [hc]; simp)
        have hwas : s.opened fd.num = some c := by
          obtain hhad | ⟨ce, addr, hhas⟩ := hhad
          · exact h.held _ ht fd c hhad hc
          · exact h.entries ce fd addr c hhas hc
        exact hopen hwas fun cl heq => absurd ⟨cl, heq⟩ hno
      · cases hb
  | @arrive s s' ts g halive harr =>
    cases g with
    | tcp args pkt fuel =>
      obtain ⟨busy, num, ⟨_, hfree, _⟩, hfd, rfl⟩ := harr
      -- the number was free, so no other descriptor in use has it
      have hopen {fd : Fd} {c : Nat} (hwas : s.opened fd.num = some c) :
          Function.update s.opened (num : Int) (some s.accepted) fd.num = some c := by
        have hne : fd.num ≠ num := by
          intro heq
          rw [heq, hfree] at hwas
          cases hwas
        rwa [Function.update_of_ne hne]
      refine ⟨fun key fd addr c hhas hc => hopen (h.entries key fd addr c hhas hc), ?_⟩
      intro u hu fd c hholds hc
      obtain hu | hnew := List.mem_append.mp hu
      · exact hopen (h.held u hu fd c hholds hc)
      · cases List.mem_singleton.mp hnew
        obtain ⟨args', pkt', fuel', htag, rfl⟩ | ⟨ce, addr, hmem⟩ := hholds.1
        · cases htag
          rw [hfd] at hc ⊢
          cases hc
          exact Function.update_self ..
        · cases hmem
    | udp args | vnf args =>
      obtain ⟨_, rfl⟩ := harr
      refine ⟨h.entries, ?_⟩
      intro u hu fd c hholds hc
      obtain hu | hnew := List.mem_append.mp hu
      · exact h.held u hu fd c hholds hc
      · cases List.mem_singleton.mp hnew
        obtain ⟨args', pkt', fuel', htag, _⟩ | ⟨ce, addr, hmem⟩ := hholds.1
        · cases htag
        · cases hmem

/-- Every run from an empty table, whatever the order of steps. -/
theorem denoted_reachable {myIp : String} {extPort intPort : BitVec 16}
    (h : Reachable (system sh self) Released (start sh myIp extPort intPort) P) : Denoted P := by
  refine h.invariant Denoted ?_ fun P Q hP hI hst => hI.step hP hst
  refine ⟨?_, ?_⟩
  · intro k fd addr c hhas _
    exact absurd hhas ((stdMap_sound sh).has_empty k (fd, addr))
  · intro t ht
    cases ht

end Runs

/-- When descriptors are closed only after their last use, whatever a handler is
about to read, write, close or register still denotes the client it was obtained
for, and so does every entry of the table. -/
theorem descriptor_denotes_client (sh : Shaping ConnectionEntry) (self : Self) (myIp : String)
    (extPort intPort : BitVec 16) (P : FdPool sh)
    (h : Reachable (system sh self) Released (start sh myIp extPort intPort) P) :
    (∀ t ∈ P.threads, ∀ fd c, named t = some fd → fd.conn = some c →
      P.shared.opened fd.num = some c) ∧
    ∀ k fd addr c, (stdMap sh).Has P.shared.endpoint.connectionMap k (fd, addr) →
      fd.conn = some c → P.shared.opened fd.num = some c := by
  have hden := denoted_reachable h
  refine ⟨?_, hden.entries⟩
  intro t ht fd c hn hc
  cases hprog : t.prog with
  | op o k =>
    simp only [named, hprog, pending_op, Option.bind_some] at hn
    exact hden.held t ht fd c (named_held h ht hprog hn (by rw [hc]; simp)) hc
  | _ =>
    rw [named, hprog] at hn
    cases hn

instance (self : Self) : DecidablePred (system sh self).fatal :=
  inferInstanceAs (DecidablePred Stop.Fatal)

def fdWorld : World (system plain proxy) where
  resolve s _ o :=
    let received := if s.endpoint.connectionMap.1.entries = [] then tcpPacket else []
    let next := s.endpoint.serve ⟨7, none⟩ ⟨"10.0.2.1", 57000, false⟩ received o
    some (next.1, ⟨next.2, closing s.opened o, s.accepted⟩, [])
  performs s g o r s' born h := by
    cases h
    exact ⟨rfl, s.endpoint.serve_performs .., rfl, rfl⟩
  accept s g := match g with
    | .tcp args _ _ =>
      if args.newSocketFd = ⟨6, some s.accepted⟩ ∧ s.opened 6 = none then
        some ⟨s.endpoint, Function.update s.opened 6 (some s.accepted), s.accepted + 1⟩
      else none
    | .udp args | .vnf args => if args.socketFd.conn = none then some s else none
  arrives s g s' h := by
    cases g with
    | tcp args pkt fuel =>
      dsimp only at h
      split at h
      · rename_i hc
        cases h
        refine ⟨List.range 6, 6, ⟨by decide, hc.2, ?_⟩, hc.1, rfl⟩
        intro m hm
        exact Or.inl (List.mem_range.mpr hm)
      · cases h
    | udp args | vnf args =>
      dsimp only at h
      split at h
      · cases h
        exact ⟨‹_›, rfl⟩
      · cases h

def client (c : Nat) : Ingress.Callback Fd := .tcp ⟨⟨6, some c⟩, SockaddrIn.zero⟩ [] 2

def answer : Ingress.Callback Fd :=
  let pkt := (sampleConnection.header 1 1).bytes ++ tcpPacket
  .vnf ⟨⟨4, none⟩, SockaddrIn.zero, pkt, pkt.length⟩

def Finished (s : State plain) (others : List FdThread) (_ : Ingress.Callback Fd) (o : Op Fd) :
    Prop :=
  Closes o → s.endpoint.connectionMap.1.entries = [] ∧ ∀ t ∈ others, pending t.prog = none

theorem Finished.released {s : State plain} {others : List FdThread} {g : Ingress.Callback Fd}
    {o : Op Fd} (h : Finished s others g o) : Released s others g o := by
  cases o with
  | close fd =>
    obtain ⟨hempty, hdone⟩ := h ⟨fd, rfl⟩
    refine ⟨?_, ?_⟩
    · intro k v hhas
      change (k, v) ∈ s.endpoint.connectionMap.1.entries at hhas
      rw [hempty] at hhas
      cases hhas
    · intro t ht fd' hholds
      refine absurd ?_ hholds.2
      cases hprog : t.prog with
      | op o k =>
        have hpend := hdone t ht
        rw [hprog] at hpend
        cases hpend
      | _ => trivial
  | _ => trivial

instance (o : Op Fd) : Decidable (Closes o) := by
  cases o with
  | close fd => exact isTrue ⟨fd, rfl⟩
  | _ => exact isFalse (by simp [Closes])

instance (s : State plain) (others : List FdThread) (g : Ingress.Callback Fd) (o : Op Fd) :
    Decidable (Finished s others g o) := by
  unfold Finished
  infer_instance

/-- The client leaves while its answer is being written; the descriptor is
closed after that and the next client gets the number. -/
theorem number_given_again : ∃ P : FdPool plain,
    (∃ t ∈ P.threads, named t = some ⟨6, some 1⟩) ∧
    (∀ t ∈ P.threads, ∀ fd c, named t = some fd → fd.conn = some c →
      P.shared.opened fd.num = some c) ∧
    ∀ k fd addr c, (stdMap plain).Has P.shared.endpoint.connectionMap k (fd, addr) →
      fd.conn = some c → P.shared.opened fd.num = some c := by
  obtain ⟨P, hP, hagain⟩ := fdWorld.exists_reachable Finished (start plain "10.0.0.9" 57000 57001)
    (.arrive (client 0) :: steps 4 0 ++ .arrive answer :: steps 2 1 ++ steps 2 0 ++ steps 3 1 ++
      [.arrive (client 1)])
    (fun P => decide (∃ t ∈ P.threads, named t = some ⟨6, some 1⟩)) (by decide +kernel)
  exact ⟨P, of_decide_eq_true hagain, descriptor_denotes_client plain proxy "10.0.0.9" 57000 57001 P
    (hP.mono fun _ _ _ _ hf => hf.released)⟩

/-- The answer's handler closes the client's socket, the next client gets its
number, and the first client's thread goes on to receive from it, as does the
entry in the table to name it. -/
theorem receives_from_next_client : ∃ P : FdPool plain,
    Reachable (system plain proxy) (fun _ _ _ _ => True) (start plain "10.0.0.9" 57000 57001) P ∧
    P.shared.opened 6 = some 1 ∧ (∃ t ∈ P.threads, named t = some ⟨6, some 0⟩) ∧
    ∃ k addr, (stdMap plain).Has P.shared.endpoint.connectionMap k (⟨6, some 0⟩, addr) := by
  obtain ⟨P, hP, hwrong⟩ := fdWorld.exists_reachable (fun _ _ _ _ => True)
    (start plain "10.0.0.9" 57000 57001)
    (.arrive (client 0) :: steps 4 0 ++ .arrive answer :: steps 5 1 ++ [.arrive (client 1)])
    (fun P => decide (P.shared.opened 6 = some 1 ∧ (∃ t ∈ P.threads, named t = some ⟨6, some 0⟩) ∧
      ∃ e ∈ P.shared.endpoint.connectionMap.1.entries, e.2.1 = ⟨6, some 0⟩)) (by decide +kernel)
  obtain ⟨hopened, hnamed, ⟨k, fd, addr⟩, hmem, rfl⟩ := of_decide_eq_true hwrong
  exact ⟨P, hP, hopened, hnamed, k, addr, hmem⟩

end Ironhide.Proofs.Descriptors
