import Ironhide.Lib.Schedule
import Ironhide.Model.Egress
import Ironhide.Proofs.EgressFlow
import Ironhide.Proofs.Keys
import Ironhide.Proofs.Table
import Mathlib.Data.Set.Insert

namespace Ironhide.Proofs.DeadConnections
open Model Lib.Bytes Lib.Program Lib.StdMap Lib.SearchTree Lib.Threads Lib.Threads.System
open Lib.Schedule PacketUtils SfcUtilities Framing Keys Table
open EgressFlow (chainArgs)

/-- The egress's endpoint, the descriptors its handlers have opened, and those
that found their flow registered when they came to be registered. -/
structure State (sh : Shaping ConnectionEntry) where
  endpoint : Endpoint (stdMap sh) Int
  opened : List Int
  late : List Int

def start (sh : Shaping ConnectionEntry) (myIp : String) (extPort intPort : BitVec 16) : State sh :=
  ⟨.new (stdMap sh) Int myIp extPort intPort, [], []⟩

def opens : Event (Op Int) (Reply Int) → Option Int
  | ⟨.connectToServer .., r⟩ => r.map Prod.fst
  | ⟨.rawSocket _, r⟩ => r
  | _ => none

def registers : Op Int → Option Int
  | .updateEntry _ fd .. => some fd
  | _ => none

variable {sh : Shaping ConnectionEntry}

/-- A registration that comes when the place of its key is taken. -/
def comesLate (s : State sh) : Op Int → List Int
  | .updateEntry ce fd .. => if s.endpoint.connectionMap.1.refuses ConnectionEntry.lt ce then [fd] else []
  | _ => []

/-- The egress at work on any packets. A descriptor is closed only on the way to
`exit`, so the numbers given out are all different. -/
def system (sh : Shaping ConnectionEntry) (self : Self) :
    System (State sh) (Egress.Callback Int) (Op Int) (Reply Int) Stop Unit where
  start := Egress.start self
  perform s _ o r s' born := s.endpoint.Performs o r s'.endpoint ∧
    (∀ fd, opens ⟨o, r⟩ = some fd → fd ≠ -1 ∧ fd ∉ s.opened) ∧
    s'.opened = (opens ⟨o, r⟩).toList ++ s.opened ∧ s'.late = comesLate s o ++ s.late ∧
    Egress.Starts id born o
  arrive s s' g := s' = s ∧ ∃ args, g = .vnf args
  fatal := Stop.Fatal

abbrev EgressThread := Thread (Egress.Callback Int) (Op Int) (Reply Int) Stop Unit

abbrev EgressPool (sh : Shaping ConnectionEntry) :=
  Pool (State sh) (Egress.Callback Int) (Op Int) (Reply Int) Stop Unit

section Programs
variable (self : Self)

/-- The egress adds nothing to the table but through `update_entry`, and deletes nothing. -/
def Updates : Op Int → Prop
  | .addEntry .. | .deleteEntry _ => False
  | _ => True

def Works : Op Int → Prop
  | .goAsync _ => False
  | o => Updates o

theorem Works.updates {o : Op Int} (h : Works o) : Updates o := by
  cases o with
  | goAsync => exact h.elim
  | _ => exact h

def Responds (fd : Int) : Op Int → Prop
  | .read fd' _ => fd' = fd
  | .recvfrom .. | .getRouteList _ | .sendAndWaitResponse .. => True
  | _ => False

theorem Responds.works {fd : Int} {o : Op Int} (h : Responds fd o) : Works o := by
  cases o with
  | goAsync | addEntry | deleteEntry => exact h
  | _ => trivial

theorem Responds.registers {fd : Int} {o : Op Int} (h : Responds fd o) :
    DeadConnections.registers o = none := by
  cases o with
  | updateEntry => exact h.elim
  | _ => rfl

theorem tcpLoop_responds (header : SfcHeader) (socket : Int) (n : Nat) (received : List Byte) :
    (Egress.exitingTcpLoop self header socket n received).All (Responds socket) :=
  Egress.exitingTcpLoop_all (P := Responds socket) self header socket rfl (fun _ => trivial)
    (fun _ _ _ => trivial) n received

theorem udpLoop_responds (header : SfcHeader) (rawSocket : Int) (n : Nat) (buffer : List Byte) :
    (Egress.exitingUdpLoop self header rawSocket n buffer).All (Responds rawSocket) :=
  Egress.exitingUdpLoop_all (P := Responds rawSocket) self header rawSocket trivial
    (fun _ => trivial) (fun _ _ _ => trivial) n buffer

theorem task_works (task : Model.Task Int) (datagram buffer : List Byte) (fuel : Nat) :
    (Egress.start self (.task task datagram buffer fuel)).All Works := by
  cases task with
  | exitingTcp pkt pktLen ce socket =>
    change (Egress.manageExitingTcpPackets self pkt pktLen ce socket buffer fuel).All Works
    unfold Egress.manageExitingTcpPackets
    dsimp only
    split
    · trivial
    · refine (Egress.destination_all (P := Works) (fun _ _ => trivial) fun _ _ => trivial).bind fun fd => ?_
      exact ⟨trivial, fun _ => (tcpLoop_responds self _ fd fuel buffer).mono fun _ => Responds.works⟩
  | exitingUdp pkt pktLen ce sock =>
    change (Egress.manageExitingUdpPackets self pkt pktLen ce sock datagram buffer fuel).All Works
    unfold Egress.manageExitingUdpPackets
    dsimp only
    refine (Egress.openSender_all trivial).bind fun sender => ?_
    split
    · trivial
    · refine (Egress.openListener_all self trivial (fun _ _ => trivial) fun _ => trivial).bind
        fun rawSocket => ⟨trivial, fun (sent : Int) => ?_⟩
      change Prog.All _ (if sent < 0 then _ else _)
      split
      · trivial
      · exact (updateEntry_all trivial).bind fun _ =>
          (udpLoop_responds self _ rawSocket fuel buffer).mono fun _ => Responds.works

theorem start_updates (g : Egress.Callback Int) : (Egress.start self g).All Updates := by
  cases g with
  | vnf args =>
    refine ⟨trivial, fun _ => ?_⟩
    refine (checked_all _).bind fun headers => ⟨trivial, fun sock => ?_⟩
    cases connType headers.1.protocol
    · exact ⟨trivial, fun _ => trivial⟩
    · exact ⟨trivial, fun _ => trivial⟩
  | task task datagram buffer fuel =>
    exact (task_works self task datagram buffer fuel).mono fun _ => Works.updates

/-- A descriptor that the TCP handler registers is one it has just opened. -/
theorem exitingTcp_usesOwn (pkt : List Byte) (pktLen : Nat) (ce : ConnectionEntry) (socket : Int)
    (received : List Byte) (fuel : Nat) :
    (Egress.manageExitingTcpPackets self pkt pktLen ce socket received fuel).UsesOwn
      (fun _ => True) opens registers [] := by
  have hrest (fd : Int) (s : List Byte) : (Prog.op (Op.send fd s) fun _ =>
      Egress.exitingTcpLoop self (retrieveHeader pkt) fd fuel received :
      Handler Int Unit).All fun o => registers o = none :=
    ⟨rfl, fun _ => (tcpLoop_responds self _ fd fuel received).mono fun _ => Responds.registers⟩
  unfold Egress.manageExitingTcpPackets
  dsimp only
  split
  · trivial
  by_cases hs : Descriptor.num socket = -1
  · rw [Egress.destination_new _ _ _ hs]
    refine ⟨fun _ hx => (nomatch hx), fun _ reply _ => ?_⟩
    match reply with
    | none => trivial
    | some (fd, addr) =>
      refine ⟨fun x hx => ?_, fun hnone => (nomatch hnone)⟩
      cases hx
      refine ⟨List.mem_singleton_self fd, fun answer _ => ?_⟩
      refine Prog.All.bind (Prog.All.bind (raise_all answer) fun _ => trivial) fun fd' => hrest fd' _
  · rw [Egress.destination_known _ _ _ hs]
    exact (hrest socket _).usesOwn

/-- So is the one that the UDP handler registers. -/
theorem exitingUdp_usesOwn (pkt : List Byte) (pktLen : Nat) (ce : ConnectionEntry) (sock : Int)
    (datagram buffer : List Byte) (fuel : Nat) :
    (Egress.manageExitingUdpPackets self pkt pktLen ce sock datagram buffer fuel).UsesOwn
      (fun _ => True) opens registers [] := by
  unfold Egress.manageExitingUdpPackets
  dsimp only
  refine .bind (Egress.openSender_all rfl) fun sender es hrun _ => ?_
  have hheld : sender ∈ ([] : List Int) ++ es.filterMap opens := by
    obtain ⟨reply, es', rfl, h⟩ := Prog.runs_op.mp hrun
    cases reply with
    | none => cases (Prog.runs_throw.mp h).2
    | some fd =>
      cases (Prog.runs_ret.mp h).2
      simp [opens]
  split
  · trivial
  refine .bind (Egress.openListener_all self rfl (fun _ _ => rfl) fun _ => rfl)
    fun rawSocket es' _ _ => ?_
  refine ⟨fun _ hx => (nomatch hx), fun _ (sent : Int) _ => ?_⟩
  change Prog.UsesOwn _ _ _ (if sent < 0 then _ else _) _
  split
  · trivial
  refine ⟨fun x hx => ?_, fun hnone => (nomatch hnone)⟩
  cases hx
  refine ⟨List.mem_append_left _ (List.mem_append_left _ hheld), fun answer _ => ?_⟩
  exact (raise_all answer).bind fun _ =>
    (udpLoop_responds self _ rawSocket fuel buffer).mono fun _ => Responds.registers

theorem start_usesOwn (g : Egress.Callback Int) :
    (Egress.start self g).UsesOwn (fun _ => True) opens registers [] := by
  match g with
  | .vnf args =>
    refine Prog.All.usesOwn ⟨rfl, fun _ => ?_⟩
    refine (checked_all _).bind fun headers => ⟨rfl, fun sock => ?_⟩
    cases connType headers.1.protocol
    · exact ⟨rfl, fun _ => trivial⟩
    · exact ⟨rfl, fun _ => trivial⟩
  | .task (.exitingTcp pkt pktLen ce socket) _ buffer fuel =>
    exact exitingTcp_usesOwn self pkt pktLen ce socket buffer fuel
  | .task (.exitingUdp pkt pktLen ce sock) datagram buffer fuel =>
    exact exitingUdp_usesOwn self pkt pktLen ce sock datagram buffer fuel

/-- What the handler of a packet from the chain hands on for a TCP connection is
the descriptor it has looked up. -/
theorem started_lookedUp {args : UdpArgs Int} {past : List (Event (Op Int) (Reply Int))}
    {q : Handler Int Unit} (h : Prog.Reaches (Egress.managePktFromChain args) past q)
    {pkt : List Byte} {pktLen : Nat} {ce : ConnectionEntry} {socket : Int} {r : Unit}
    (he : ⟨.goAsync (.exitingTcp pkt pktLen ce socket), r⟩ ∈ past) :
    ∃ addr, ⟨.retrieveConnection2 ce, (socket, addr)⟩ ∈ past := by
  obtain ⟨rfl, _⟩ | ⟨sent, past₁, rfl, h₁⟩ := Prog.reaches_op.mp h
  · cases he
  by_cases hin : (retrieveIpUdpHeader (args.pkt.drop headerSize)).inBounds = true
  · rw [checked_ok hin, Prog.ret_bind] at h₁
    obtain ⟨rfl, _⟩ | ⟨sock, past₂, rfl, h₂⟩ := Prog.reaches_op.mp h₁
    · simp at he
    cases hp : connType (retrieveIpUdpHeader (args.pkt.drop headerSize)).value.1.protocol with
    | tcp =>
      rw [hp] at h₂ he
      obtain ⟨rfl, _⟩ | ⟨_, past₃, rfl, h₃⟩ := Prog.reaches_op.mp h₂
      · simp at he
      · obtain ⟨rfl, _⟩ := Prog.reaches_ret.mp h₃
        simp at he
        obtain ⟨_, _, rfl, rfl⟩ := he
        exact ⟨sock.2, by simp⟩
    | udp =>
      rw [hp] at h₂ he
      obtain ⟨rfl, _⟩ | ⟨_, past₃, rfl, h₃⟩ := Prog.reaches_op.mp h₂
      · simp at he
      · obtain ⟨rfl, _⟩ := Prog.reaches_ret.mp h₃
        simp at he
  · rw [checked_overrun hin] at h₁
    obtain ⟨rfl, _⟩ := Prog.reaches_throw.mp h₁
    simp at he

/-- The TCP handler reads from the descriptor it was given or the one it has registered. -/
theorem read_source {pkt : List Byte} {pktLen : Nat} {ce : ConnectionEntry} {socket : Int}
    {received : List Byte} {fuel : Nat} {past : List (Event (Op Int) (Reply Int))}
    {q : Handler Int Unit}
    (h : Prog.Reaches (Egress.manageExitingTcpPackets self pkt pktLen ce socket received fuel) past q)
    {fd : Int} {n : Nat} {r : Option (List Byte)} (he : ⟨.read fd n, r⟩ ∈ past) :
    (fd = socket ∧ socket ≠ -1) ∨ ∃ addr, ⟨.updateEntry ce fd addr .egressT, .ok ()⟩ ∈ past := by
  have hrest (s : List Byte) (fd' : Int) {past' : List (Event (Op Int) (Reply Int))}
      (h : Prog.Reaches (Prog.op (Op.send fd' s) fun _ =>
        Egress.exitingTcpLoop self (retrieveHeader pkt) fd' fuel received) past' q)
      (he : ⟨.read fd n, r⟩ ∈ past') : fd = fd' := by
    obtain ⟨rfl, _⟩ | ⟨sent, past₁, rfl, h₁⟩ := Prog.reaches_op.mp h
    · cases he
    · rcases List.mem_cons.mp he with heq | he
      · cases heq
      · exact (h₁.all (tcpLoop_responds self _ fd' fuel received)).2 _ he
  unfold Egress.manageExitingTcpPackets at h
  dsimp only at h
  split at h
  · rw [(Prog.reaches_throw.mp h).1] at he
    cases he
  by_cases hs : Descriptor.num socket = -1
  · rw [Egress.destination_new _ _ _ hs] at h
    obtain ⟨rfl, _⟩ | ⟨reply, past₁, rfl, h₁⟩ := Prog.reaches_op.mp h
    · cases he
    match reply with
    | none =>
      rw [(Prog.reaches_throw.mp h₁).1] at he
      simp at he
    | some (fd', addr) =>
      obtain ⟨rfl, _⟩ | ⟨answer, past₂, rfl, h₂⟩ := Prog.reaches_op.mp h₁
      · simp at he
      cases answer with
      | error x =>
        rw [(Prog.reaches_throw.mp h₂).1] at he
        simp at he
      | ok u =>
        have hfd : fd = fd' := hrest _ fd' h₂ (by simpa using he)
        exact Or.inr ⟨addr, by simp [hfd]⟩
  · rw [Egress.destination_known _ _ _ hs] at h
    exact Or.inl ⟨hrest _ socket h he, hs⟩

end Programs

section Table
variable {s : State sh} {e' : Endpoint (stdMap sh) Int} {o : Op Int} {r : Reply Int o}

def registration : Event (Op Int) (Reply Int) → Option (ConnectionEntry × Int × SockaddrIn)
  | ⟨.updateEntry ce fd addr _, .ok _⟩ => some (ce, fd, addr)
  | _ => none

theorem registers_registration {p : ConnectionEntry × Int × SockaddrIn}
    (h : registration ⟨o, r⟩ = some p) : registers o = some p.2.1 := by
  cases o with
  | updateEntry ce fd addr endpoint =>
    cases r with
    | error x => cases h
    | ok u =>
      cases h
      rfl
  | _ => cases h

theorem mem_comesLate {fd : Int} (h : fd ∈ comesLate s o) : registers o = some fd := by
  cases o with
  | updateEntry ce fd' addr endpoint =>
    simp only [comesLate] at h
    split at h
    · rw [List.mem_singleton.mp h]
      rfl
    · cases h
  | _ => cases h

theorem table_performed (h : s.endpoint.Performs o r e') (hu : Updates o) :
    e'.connectionMap = (registration ⟨o, r⟩).elim s.endpoint.connectionMap
      fun p => (stdMap sh).insert s.endpoint.connectionMap p.1 p.2 := by
  cases o with
  | addEntry | deleteEntry => exact hu.elim
  | updateEntry ce fd addr endpoint =>
    obtain ⟨answer, rfl, rfl⟩ := h
    rw [Endpoint.connectionMap_updateEntry]
    cases answer <;> rfl
  | retrieveConnection2 ce =>
    obtain ⟨_, rfl⟩ := h
    rfl
  | _ =>
    cases h
    rfl

theorem has_kept (h : s.endpoint.Performs o r e') (hu : Updates o) {k : ConnectionEntry}
    {v : Int × SockaddrIn} (hv : (stdMap sh).Has s.endpoint.connectionMap k v) :
    (stdMap sh).Has e'.connectionMap k v := by
  rw [table_performed h hu]
  cases registration ⟨o, r⟩ with
  | none => exact hv
  | some p => exact (treeOps_has_insert ..).mpr (Or.inl hv)

/-- What is new in the table was registered in time. -/
theorem has_performed (h : s.endpoint.Performs o r e') (hu : Updates o) {k : ConnectionEntry}
    {v : Int × SockaddrIn} (hv : (stdMap sh).Has e'.connectionMap k v) :
    (stdMap sh).Has s.endpoint.connectionMap k v ∨
      (registers o = some v.1 ∧ comesLate s o = []) := by
  rw [table_performed h hu] at hv
  cases o with
  | addEntry | deleteEntry => exact hu.elim
  | updateEntry ce fd addr endpoint =>
    cases r with
    | error x => exact Or.inl hv
    | ok u =>
      rcases (treeOps_has_insert ..).mp hv with hv | ⟨hplace, _, rfl⟩
      · exact Or.inl hv
      · exact Or.inr ⟨rfl, by simp [comesLate, hplace]⟩
  | _ => exact Or.inl hv

/-- Over keys that the comparator orders the table stays sorted, and what is
registered has its place. -/
theorem sorted_performed {K : Set ConnectionEntry} (hK : ConnectionEntry.Chain K)
    (h : s.endpoint.Performs o r e') (hu : Updates o)
    (hkeys : ∀ k v, (stdMap sh).Has e'.connectionMap k v → k ∈ K)
    (hsorted : s.endpoint.connectionMap.1.Sorted ConnectionEntry.lt K) :
    e'.connectionMap.1.Sorted ConnectionEntry.lt K ∧
      ∀ ce v, registration ⟨o, r⟩ = some (ce, v) → ce ∈ K →
        ∃ w, (stdMap sh).Has e'.connectionMap ce w := by
  have hT := stdMap_finiteOn sh hK
  have htab := table_performed h hu
  cases hreg : registration ⟨o, r⟩ with
  | none =>
    rw [hreg] at htab
    exact ⟨htab ▸ hsorted, fun _ _ hnone => (nomatch hnone)⟩
  | some p =>
    obtain ⟨ce, v⟩ := p
    rw [hreg] at htab
    change e'.connectionMap = (stdMap sh).insert s.endpoint.connectionMap ce v at htab
    by_cases hce : ce ∈ K
    · have hgood := hT.good_insert s.endpoint.connectionMap ce v hsorted hce
      refine ⟨htab ▸ hgood, fun ce' v' hsome _ => ?_⟩
      cases hsome
      rw [htab]
      exact ⟨_, (hT.find_iff _ ce _ hgood hce).mp (hT.insert_self _ ce v hsorted hce)⟩
    · -- a key that is not one of `K` has found its place taken
      have hplace : s.endpoint.connectionMap.1.refuses ConnectionEntry.lt ce = true := by
        by_contra hfree
        refine hce (hkeys ce v ?_)
        rw [htab]
        exact (treeOps_has_insert ..).mpr (Or.inr ⟨by simpa using hfree, rfl, rfl⟩)
      refine ⟨?_, fun ce' v' hsome hmem => ?_⟩
      · rw [htab]
        refine (sorted_run _).mpr ?_
        rw [Tree.insert_eq, if_pos hplace]
        exact hsorted
      · cases hsome
        exact absurd hmem hce

/-- What has been registered is in the table or came late, what a lookup has
found is in the table. -/
def Kept (s : State sh) : Event (Op Int) (Reply Int) → Prop
  | ⟨.updateEntry ce fd addr _, .ok _⟩ =>
    fd ∈ s.late ∨ (stdMap sh).Has s.endpoint.connectionMap ce (fd, addr)
  | ⟨.retrieveConnection2 ce, sock⟩ =>
    sock.1 = -1 ∨ (stdMap sh).Has s.endpoint.connectionMap ce sock
  | _ => True

theorem Kept.step {s' : State sh} (h : s.endpoint.Performs o r s'.endpoint) (hu : Updates o)
    (hlate : s'.late = comesLate s o ++ s.late) {e : Event (Op Int) (Reply Int)} (he : Kept s e) :
    Kept s' e := by
  obtain ⟨o, r⟩ := e
  cases o with
  | updateEntry ce fd addr endpoint =>
    cases r with
    | error x => trivial
    | ok u =>
      rcases he with he | he
      · exact Or.inl (hlate ▸ List.mem_append_right _ he)
      · exact Or.inr (has_kept h hu he)
  | retrieveConnection2 ce => exact he.imp_right (has_kept h hu)
  | _ => trivial

theorem Kept.performed {s' : State sh} (h : s.endpoint.Performs o r s'.endpoint) (hu : Updates o)
    (hlate : s'.late = comesLate s o ++ s.late) : Kept s' ⟨o, r⟩ := by
  have htab := table_performed h hu
  cases o with
  | addEntry | deleteEntry => exact hu.elim
  | updateEntry ce fd addr endpoint =>
    cases r with
    | error x => trivial
    | ok u =>
      change s'.endpoint.connectionMap = (stdMap sh).insert s.endpoint.connectionMap ce (fd, addr)
        at htab
      cases hplace : s.endpoint.connectionMap.1.refuses ConnectionEntry.lt ce with
      | true => exact Or.inl (by simp [hlate, comesLate, hplace])
      | false =>
        refine Or.inr ?_
        rw [htab]
        exact (treeOps_has_insert ..).mpr (Or.inr ⟨hplace, rfl, rfl⟩)
  | retrieveConnection2 ce =>
    obtain ⟨rfl, hsame⟩ := h
    change _ ∨ (stdMap sh).Has s'.endpoint.connectionMap ce _
    rw [hsame]
    unfold Endpoint.retrieveConnection2
    cases hfind : (stdMap sh).find s.endpoint.connectionMap ce with
    | none => exact Or.inl rfl
    | some sock => exact Or.inr ((stdMap_sound sh).has_of_find _ _ _ hfind)
  | _ => trivial

end Table

section Runs
variable {self : Self} {myIp : String} {extPort intPort : BitVec 16} {P : EgressPool sh}

theorem perform_opens (sh : Shaping ConnectionEntry) (self : Self) (s : State sh)
    (g : Egress.Callback Int) (o : Op Int) (r : Reply Int o) (s' : State sh)
    (born : List (Egress.Callback Int)) (h : (system sh self).perform s g o r s' born) :
    True ∧ (∀ fd, opens ⟨o, r⟩ = some fd → ¬ fd ∈ s.opened ∧ fd ∈ s'.opened) ∧
      ∀ fd, fd ∈ s.opened → fd ∈ s'.opened := by
  obtain ⟨_, hfresh, hopened, _, _⟩ := h
  rw [hopened]
  refine ⟨trivial, fun fd hfd => ⟨(hfresh fd hfd).2, ?_⟩, fun fd hfd => List.mem_append_right _ hfd⟩
  rw [hfd]
  exact List.mem_cons_self

def Registered (P : EgressPool sh) (fd : Int) : Prop :=
  ∃ t ∈ P.threads, ∃ e ∈ t.past, registers e.op = some fd

/-- What the table and the list of late descriptors hold has been registered,
and no descriptor is in both. -/
structure Apart (P : EgressPool sh) : Prop where
  entry : ∀ k fd addr, (stdMap sh).Has P.shared.endpoint.connectionMap k (fd, addr) →
    Registered P fd ∧ fd ∉ P.shared.late
  late : ∀ fd ∈ P.shared.late, Registered P fd

theorem apart_reachable
    (h : Reachable (system sh self) (fun _ _ _ _ => True) (start sh myIp extPort intPort) P) :
    Apart P := by
  refine h.invariant Apart ⟨fun k fd addr hv => ?_, fun fd hl => (nomatch hl)⟩ ?_
  · exact absurd hv ((stdMap_sound sh).has_empty k _)
  intro P Q hr ih hst
  have hkeep (fd : Int) (hreg : Registered P fd) : Registered Q fd := hst.done hreg
  cases hst with
  | @run s s' before after g past o k r born _ _ hperf =>
    have hupd : Updates o := hr.next (start_updates self g)
    -- what a thread registers nobody has registered before
    have hfresh (fd : Int) (ho : registers o = some fd) :
        ¬ Registered ⟨s, before ++ ⟨g, past, .op o k⟩ :: after⟩ fd := by
      intro hreg
      obtain ⟨t, ht, e, he, hfd⟩ := hreg
      exact (hr.unused opens (perform_opens sh self) (fun s s' g ha fd hfd => ha.1 ▸ hfd)
        (start_usesOwn self) ho).2 t ht e he hfd
    have hmoved (fd : Int) (ho : registers o = some fd) :
        Registered ⟨s', before ++ ⟨g, past ++ [⟨o, r⟩], k r⟩ :: after ++ born.map (system sh self).spawn⟩
          fd :=
      ⟨_, mem_moved.mpr (Or.inr (Or.inl rfl)), ⟨o, r⟩, by simp, ho⟩
    obtain ⟨hp, _, _, hlate, _⟩ := hperf
    refine ⟨fun k fd addr hv => ?_, fun fd hl => ?_⟩
    · change Registered _ fd ∧ fd ∉ s'.late
      rw [hlate]
      rcases has_performed hp hupd hv with hv | ⟨ho, hintime⟩
      · obtain ⟨hreg, hnot⟩ := ih.entry k fd addr hv
        refine ⟨hkeep fd hreg, fun hl => ?_⟩
        rcases List.mem_append.mp hl with hl | hl
        · exact hfresh fd (mem_comesLate hl) hreg
        · exact hnot hl
      · refine ⟨hmoved fd ho, fun hl => ?_⟩
        rw [hintime] at hl
        exact hfresh fd ho (ih.late fd hl)
    · change fd ∈ s'.late at hl
      rw [hlate] at hl
      rcases List.mem_append.mp hl with hl | hl
      · exact hmoved fd (mem_comesLate hl)
      · exact hkeep fd (ih.late fd hl)
  | arrive _ harr =>
    obtain ⟨rfl, _⟩ := harr
    exact ⟨fun k fd addr hv => ⟨hkeep fd (ih.entry k fd addr hv).1, (ih.entry k fd addr hv).2⟩,
      fun fd hl => hkeep fd (ih.late fd hl)⟩

theorem kept_reachable
    (h : Reachable (system sh self) (fun _ _ _ _ => True) (start sh myIp extPort intPort) P) :
    ∀ t ∈ P.threads, ∀ e ∈ t.past, Kept P.shared e := by
  refine h.since (E := fun s _ e => Kept s e) ?_ ?_
  · intro s before after g past o k r s' born hr hperf
    obtain ⟨hp, _, _, hlate, _⟩ := hperf
    have hu : Updates o := hr.next (start_updates self g)
    exact ⟨.performed hp hu hlate, fun _ _ he => he.step hp hu hlate⟩
  · intro s s' g harr _ e he
    rw [harr.1]
    exact he

/-- A TCP handler was given what the lookup for its packet has found. -/
theorem task_lookedUp
    (h : Reachable (system sh self) (fun _ _ _ _ => True) (start sh myIp extPort intPort) P)
    {t : EgressThread} (ht : t ∈ P.threads) {pkt : List Byte} {pktLen : Nat} {ce : ConnectionEntry}
    {socket : Int} {datagram buffer : List Byte} {fuel : Nat}
    (htag : t.tag = .task (.exitingTcp pkt pktLen ce socket) datagram buffer fuel) :
    ∃ u ∈ P.threads, ∃ addr, ⟨.retrieveConnection2 ce, (socket, addr)⟩ ∈ u.past := by
  have hborn := h.born (A := fun g => ∃ args, g = .vnf args)
    (B := fun e g => ∃ task datagram buffer fuel, e.op = .goAsync task ∧
      g = .task task datagram buffer fuel)
    (fun s g o r s' born hperf b hb => ?_) (fun s s' g harr => harr.2) t ht
  · rcases hborn with ⟨args, hvnf⟩ | ⟨u, hu, ⟨o, r⟩, he, task, _, _, _, ho, htask⟩
    · cases htag.symm.trans hvnf
    · cases htag.symm.trans htask
      cases ho
      have hreach := h.thread u hu
      cases hg : u.tag with
      | vnf args =>
        rw [hg] at hreach
        obtain ⟨addr, hfound⟩ := started_lookedUp hreach he
        exact ⟨u, hu, addr, hfound⟩
      | task task datagram buffer fuel =>
        rw [hg] at hreach
        exact ((hreach.all (task_works self task datagram buffer fuel)).2 _ he).elim
  · obtain ⟨_, _, _, _, hstarts⟩ := hperf
    exact hstarts.task hb

/-- Only descriptors that were opened are registered. -/
theorem Registered.ne
    (h : Reachable (system sh self) (fun _ _ _ _ => True) (start sh myIp extPort intPort) P)
    {fd : Int} (hreg : Registered P fd) : fd ≠ -1 := by
  obtain ⟨t, ht, e, he, hfd⟩ := hreg
  have hopened := h.past (E := fun e => ∀ fd, opens e = some fd → fd ≠ -1)
    (fun s g o r s' born hperf fd hfd => (hperf.2.1 fd hfd).1) t ht
  rcases (start_usesOwn self t.tag).reaches (h.thread t ht) (fun _ _ => trivial) with
    ⟨hnone, _⟩ | ⟨_, hheld⟩
  · cases (hnone e he).symm.trans hfd
  · obtain ⟨e', he', hopens⟩ := List.mem_filterMap.mp (hheld e he fd hfd)
    exact hopened e' he' fd hopens

def Placed (K : Set ConnectionEntry) (s : State sh) (e : Event (Op Int) (Reply Int)) : Prop :=
  ∀ ce v, registration e = some (ce, v) → ce ∈ K →
    ∃ w, (stdMap sh).Has s.endpoint.connectionMap ce w

def KeysIn (K : Set ConnectionEntry) (s : State sh) : Prop :=
  ∀ k v, (stdMap sh).Has s.endpoint.connectionMap k v → k ∈ K

theorem sorted_reachable {K : Set ConnectionEntry} (hK : ConnectionEntry.Chain K)
    (h : Reachable (system sh self) (fun _ _ _ _ => True) (start sh myIp extPort intPort) P) :
    KeysIn K P.shared → P.shared.endpoint.connectionMap.1.Sorted ConnectionEntry.lt K := by
  refine h.invariant (fun P => KeysIn K P.shared →
    P.shared.endpoint.connectionMap.1.Sorted ConnectionEntry.lt K)
    (fun _ => (stdMap_finiteOn sh hK).good_empty) ?_
  intro P Q hr ih hst hkeys
  cases hst with
  | @run s s' before after g past o k r born _ _ hperf =>
    have hupd : Updates o := hr.next (start_updates self g)
    exact (sorted_performed hK hperf.1 hupd hkeys
      (ih fun k v hv => hkeys k v (has_kept hperf.1 hupd hv))).1
  | arrive _ harr =>
    obtain ⟨rfl, _⟩ := harr
    exact ih hkeys

theorem placed_reachable {K : Set ConnectionEntry} (hK : ConnectionEntry.Chain K)
    (h : Reachable (system sh self) (fun _ _ _ _ => True) (start sh myIp extPort intPort) P)
    (hkeys : KeysIn K P.shared) : ∀ t ∈ P.threads, ∀ e ∈ t.past, Placed K P.shared e := by
  have hplaced : ∀ t ∈ P.threads, ∀ e ∈ t.past, KeysIn K P.shared → Placed K P.shared e := by
    refine h.since (E := fun s _ e => KeysIn K s → Placed K s e) ?_ ?_
    · intro s before after g past o k r s' born hr hperf
      have hupd : Updates o := hr.next (start_updates self g)
      have hold (hkeys' : KeysIn K s') : KeysIn K s :=
        fun k v hv => hkeys' k v (has_kept hperf.1 hupd hv)
      refine ⟨fun hkeys' => ?_, fun _ e he hkeys' ce v hreg hce => ?_⟩
      · exact (sorted_performed hK hperf.1 hupd hkeys' (sorted_reachable hK hr (hold hkeys'))).2
      · exact (he (hold hkeys') ce v hreg hce).imp fun _ => has_kept hperf.1 hupd
    · intro s s' g harr _ e he
      rw [harr.1]
      exact he
  exact fun t ht e he => hplaced t ht e he hkeys

/-- A read from the descriptor finds the connection closed. -/
def EndsOn (fd : Int) : Event (Op Int) (Reply Int) → Prop
  | ⟨.read fd' _, some []⟩ => fd' = fd
  | _ => False

def Forgets (e : Endpoint (stdMap sh) Int) (fd : Int) : Prop :=
  ∀ k addr, ¬ (stdMap sh).Has e.connectionMap k (fd, addr)

/-- From when the TCP handler has read the end of its connection (there it ends)
the table is without the descriptor only when the registration of it came too
late. Even then the next packet gets a descriptor and opens no connection, if
the comparator orders the keys. -/
theorem dead_forgotten_iff (sh : Shaping ConnectionEntry) (self : Self) (myIp : String)
    (extPort intPort : BitVec 16) (P : EgressPool sh)
    (h : Reachable (system sh self) (fun _ _ _ _ => True) (start sh myIp extPort intPort) P)
    (t : EgressThread) (ht : t ∈ P.threads) (pkt : List Byte) (pktLen : Nat) (ce : ConnectionEntry)
    (socket : Int) (datagram buffer : List Byte) (fuel : Nat)
    (htag : t.tag = .task (.exitingTcp pkt pktLen ce socket) datagram buffer fuel) (fd : Int)
    (hdead : ∃ e ∈ t.past, EndsOn fd e) :
    (Forgets P.shared.endpoint fd ↔ fd ∈ P.shared.late) ∧
    (ConnectionEntry.Chain
        (insert ce {k | ∃ v, (stdMap sh).Has P.shared.endpoint.connectionMap k v}) →
      (P.shared.endpoint.retrieveConnection2 ce).1 ≠ -1) := by
  have hapart := apart_reachable h
  have hkept := kept_reachable h
  have hreach := h.thread t ht
  rw [htag] at hreach
  -- a node with the descriptor settles both, and so does a late registration
  have hfound (addr : SockaddrIn)
      (hv : (stdMap sh).Has P.shared.endpoint.connectionMap ce (fd, addr)) :
      Forgets P.shared.endpoint fd ↔ fd ∈ P.shared.late :=
    ⟨fun hforgets => absurd hv (hforgets ce addr),
      fun hlate => absurd hlate (hapart.entry ce fd addr hv).2⟩
  have hlate (hl : fd ∈ P.shared.late) : Forgets P.shared.endpoint fd ↔ fd ∈ P.shared.late :=
    ⟨fun _ => hl, fun _ k addr hv => (hapart.entry k fd addr hv).2 hl⟩
  have hretrieved (K : Set ConnectionEntry) (hK : ConnectionEntry.Chain K) (hce : ce ∈ K)
      (hkeys : KeysIn K P.shared)
      (hplace : ∃ w, (stdMap sh).Has P.shared.endpoint.connectionMap ce w) :
      (P.shared.endpoint.retrieveConnection2 ce).1 ≠ -1 := by
    obtain ⟨⟨fd', addr⟩, hv⟩ := hplace
    have hsorted := sorted_reachable hK h hkeys
    rw [Endpoint.retrieveConnection2_found
      (((stdMap_finiteOn sh hK).find_iff _ ce _ hsorted hce).mpr hv)]
    exact (hapart.entry ce fd' addr hv).1.ne h
  obtain ⟨size, hread⟩ : ∃ size, ⟨.read fd size, some []⟩ ∈ t.past := by
    obtain ⟨e, he, hends⟩ := hdead
    unfold EndsOn at hends
    split at hends
    · exact ⟨_, hends ▸ he⟩
    · exact hends.elim
  rcases read_source self hreach hread with ⟨rfl, hsocket⟩ | ⟨addr, hreg⟩
  · obtain ⟨u, hu, addr, hlookup⟩ := task_lookedUp h ht htag
    have hv := (hkept u hu _ hlookup).resolve_left hsocket
    exact ⟨hfound addr hv, fun hK => hretrieved _ hK (Set.mem_insert ce _)
      (fun k v hv => Set.mem_insert_of_mem ce ⟨v, hv⟩) ⟨_, hv⟩⟩
  · refine ⟨(hkept t ht _ hreg).elim hlate (hfound addr), fun hK => ?_⟩
    have hkeys : KeysIn (insert ce
        {k | ∃ v, (stdMap sh).Has P.shared.endpoint.connectionMap k v}) P.shared :=
      fun k v hv => Set.mem_insert_of_mem ce ⟨v, hv⟩
    exact hretrieved _ hK (Set.mem_insert ce _) hkeys
      (placed_reachable hK h hkeys t ht _ hreg ce _ rfl (Set.mem_insert ce _))

end Runs

instance (self : Self) : DecidablePred (system sh self).fatal :=
  inferInstanceAs (DecidablePred Stop.Fatal)

instance (fd : Int) : DecidablePred (EndsOn fd) := by
  intro e
  unfold EndsOn
  split <;> infer_instance

def closingWorld : World (system plain proxy) where
  resolve s _ o :=
    let next := s.endpoint.serve (7 + s.opened.length : Int) ⟨"10.0.2.1", 57000, false⟩ [] o
    if ∀ fd ∈ opens ⟨o, next.1⟩, fd ≠ -1 ∧ fd ∉ s.opened then
      some (next.1, ⟨next.2, (opens ⟨o, next.1⟩).toList ++ s.opened, comesLate s o ++ s.late⟩,
        Egress.started id 4 o)
    else none
  performs s g o r s' born h := by
    dsimp only at h
    split at h
    · rename_i hfresh
      cases h
      exact ⟨s.endpoint.serve_performs .., hfresh, rfl, rfl, Egress.started_starts id 4 o⟩
    · cases h
  accept s g := if g = .vnf chainArgs then some s else none
  arrives s g s' h := by
    split at h
    · cases h
      exact ⟨rfl, _, ‹_›⟩
    · cases h

def handlerOn (socket : Int) : Egress.Callback Int :=
  .task (.exitingTcp chainArgs.pkt chainArgs.pktLen (sampleConnection.entry .tcp) socket) [] [] 4

/-- Two packets are looked up before either has connected: the connection that
is registered second is not in the table. -/
theorem late_forgotten : ∃ P : EgressPool plain,
    P.shared.late = [8] ∧ Forgets P.shared.endpoint 8 := by
  obtain ⟨P, hP, hdone⟩ := closingWorld.exists_reachable (fun _ _ _ _ => True)
    (start plain "10.0.0.9" 57000 57001)
    (.arrive (.vnf chainArgs) :: .arrive (.vnf chainArgs) :: steps 3 0 ++ steps 3 1 ++ steps 4 2 ++
      steps 4 3)
    (fun P => decide (P.shared.late = [8] ∧ ∃ t ∈ P.threads, t.tag = handlerOn (-1) ∧
      ∃ e ∈ t.past, EndsOn 8 e)) (by decide +kernel)
  obtain ⟨hlate, t, ht, htag, hdead⟩ := of_decide_eq_true hdone
  refine ⟨P, hlate, ?_⟩
  rw [(dead_forgotten_iff plain proxy "10.0.0.9" 57000 57001 P hP t ht _ _ _ _ _ _ _ htag 8
    hdead).1, hlate]
  exact List.mem_singleton_self 8

/-- Two packets one after the other: the handler of the first has read the end of
connection 7 and has returned, and the second packet is written on connection 7. -/
theorem dead_connection_reused : ∃ P : EgressPool plain,
    Reachable (system plain proxy) (fun _ _ _ _ => True) (start plain "10.0.0.9" 57000 57001) P ∧
    (∃ t ∈ P.threads, t.tag = handlerOn (-1) ∧ pending t.prog = none ∧
      ∃ e ∈ t.past, EndsOn 7 e) ∧
    (∃ t ∈ P.threads, t.tag = handlerOn 7 ∧ ∃ e ∈ t.past, ∃ bytes, e.op = .send 7 bytes) ∧
    ¬ Forgets P.shared.endpoint 7 := by
  obtain ⟨P, hP, hdone⟩ := closingWorld.exists_reachable (fun _ _ _ _ => True)
    (start plain "10.0.0.9" 57000 57001)
    (.arrive (.vnf chainArgs) :: steps 3 0 ++ steps 4 1 ++ .arrive (.vnf chainArgs) :: steps 3 2 ++
      steps 1 3)
    (fun P => decide ((∃ t ∈ P.threads, t.tag = handlerOn (-1) ∧ pending t.prog = none ∧
        ∃ e ∈ t.past, EndsOn 7 e) ∧
      (∃ t ∈ P.threads, t.tag = handlerOn 7 ∧ ∃ e ∈ t.past,
        e.op = .send 7 (EgressFlow.payload chainArgs.pkt chainArgs.pktLen)) ∧
      (sampleConnection.entry .tcp, 7, SockaddrIn.zero) ∈ P.shared.endpoint.connectionMap.1.entries))
    (by decide +kernel)
  obtain ⟨hended, ⟨t, ht, htag, e, he, hsend⟩, hentry⟩ := of_decide_eq_true hdone
  exact ⟨P, hP, hended, ⟨t, ht, htag, e, he, _, hsend⟩, fun hforgets => hforgets _ _ hentry⟩

end Ironhide.Proofs.DeadConnections
