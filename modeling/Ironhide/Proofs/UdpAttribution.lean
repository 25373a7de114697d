import Ironhide.Lib.Schedule
import Ironhide.Model.Egress
import Ironhide.Proofs.Keys
import Ironhide.Proofs.Table

namespace Ironhide.Proofs.UdpAttribution
open Model Lib.Bytes Lib.Program Lib.StdMap Lib.SearchTree Lib.Threads Lib.Threads.System
open Lib.Schedule PacketUtils SfcUtilities Framing Keys Table
open Observed (messages message mem_messages messages_append messages_bind)

/-- A UDP datagram that reaches the host, from its IP header on. An IP packet
has less than 2^16 bytes. -/
structure Datagram where
  bytes : List Byte
  short : bytes.length < bufferSize
  deriving DecidableEq, Repr

def sender (bytes : List Byte) : BitVec 32 × BitVec 16 :=
  let headers := (retrieveIpUdpHeader bytes).value
  (headers.1.saddr, headers.2.source)

def destination (header : SfcHeader) : BitVec 32 × BitVec 16 :=
  (header.destinationAddress, header.destinationPort)

/-- A raw UDP socket, the header of the exchange it was opened for, the
datagrams it was given copies of, and how many of them were received. -/
structure Listener where
  fd : Int
  header : SfcHeader
  copies : List Datagram
  taken : Nat

def Listener.give (d : Datagram) (l : Listener) : Listener := { l with copies := l.copies ++ [d] }

def Listener.take (fd : Int) (l : Listener) : Listener :=
  if l.fd = fd then { l with taken := l.taken + 1 } else l

section
variable (l : Listener) (d : Datagram) (fd : Int)

@[simp] theorem Listener.give_fd : (l.give d).fd = l.fd := rfl

@[simp] theorem Listener.give_header : (l.give d).header = l.header := rfl

@[simp] theorem Listener.take_fd : (l.take fd).fd = l.fd := by
  unfold take
  split <;> rfl

@[simp] theorem Listener.take_header : (l.take fd).header = l.header := by
  unfold take
  split <;> rfl

@[simp] theorem Listener.take_copies : (l.take fd).copies = l.copies := by
  unfold take
  split <;> rfl

theorem Listener.take_other {l : Listener} {fd : Int} (h : l.fd ≠ fd) : l.take fd = l := if_neg h

end

structure State (sh : Shaping ConnectionEntry) where
  endpoint : Endpoint (stdMap sh) Int
  listeners : List Listener

def start (sh : Shaping ConnectionEntry) (myIp : String) (extPort intPort : BitVec 16) : State sh :=
  ⟨.new (stdMap sh) Int myIp extPort intPort, []⟩

/-- What comes to the egress's host: a packet from the chain, for which a
handler runs and starts another, or a datagram that no server is waiting for. -/
inductive Job where
  | callback (callback : Egress.Callback Int)
  | datagram (d : Datagram)
  deriving DecidableEq, Repr

def Job.header : Job → SfcHeader
  | .callback (.task (.exitingUdp pkt ..) ..) => retrieveHeader pkt
  | _ => retrieveHeader []

def Job.run (self : Self) : Job → Handler Int Unit
  | .callback c => Egress.start self c
  | .datagram _ => .ret ()

def lookup (fd : Int) (ls : List Listener) : Option Listener := ls.find? fun l => l.fd = fd

/-- What an operation does to the raw sockets: one more listens, or one hands
out the next datagram it has a copy of. -/
def Listens (g : Job) (ls : List Listener) : (o : Op Int) → Reply Int o → List Listener → Prop
  | .rawSocket protocol, r, ls' =>
    if protocol = 17 then match r with
      | some fd => lookup fd ls = none ∧ ls' = ls ++ [⟨fd, g.header, [], 0⟩]
      | none => ls' = ls
    else ls' = ls
  | .recvfrom fd _, r, ls' => (r = none ∧ ls' = ls) ∨
    ∃ l d, lookup fd ls = some l ∧ l.copies[l.taken]? = some d ∧ r = some d.bytes ∧
      ls' = ls.map (Listener.take fd)
  | _, _, ls' => ls' = ls

def Carries (d : Datagram) : Job → Prop
  | .datagram d' => d' = d
  | .callback (.vnf args) => args.pkt.take args.pktLen = d.bytes.drop (udpPacketHeaderSize d.bytes)
  | .callback (.task ..) => False

variable {sh : Shaping ConnectionEntry}

def State.deliver (s : State sh) (d : Datagram) : State sh :=
  { s with listeners := s.listeners.map (Listener.give d) }

/-- The egress at work on any exchanges, with the datagrams that `admits` lets come. -/
def system (sh : Shaping ConnectionEntry) (self : Self) (admits : State sh → Datagram → Prop) :
    System (State sh) Job (Op Int) (Reply Int) Stop Unit where
  start := Job.run self
  perform s g o r s' born := s.endpoint.Performs o r s'.endpoint ∧
    Listens g s.listeners o r s'.listeners ∧ Egress.Starts .callback born o
  arrive s s' g := ∃ d, Carries d g ∧ admits s d ∧ s' = s.deliver d
  fatal := Stop.Fatal

abbrev JobThread := Thread Job (Op Int) (Reply Int) Stop Unit

abbrev JobPool (sh : Shaping ConnectionEntry) :=
  Pool (State sh) Job (Op Int) (Reply Int) Stop Unit

/-- A datagram that comes while a raw socket has had none yet comes from the
destination of the socket's exchange. -/
def Solicited (s : State sh) (d : Datagram) : Prop :=
  ∀ l ∈ s.listeners, l.copies = [] → sender d.bytes = destination l.header

/-- A message brings back a datagram of the exchange's destination, under the
header of the exchange turned round. -/
def Attributed (header : SfcHeader) (m : List Byte) : Prop :=
  ∃ pId hops d, m = (Egress.answerHeader header pId hops).bytes ++ d ∧ sender d = destination header

section Programs
variable (self : Self)

def opened : Event (Op Int) (Reply Int) → Option Int
  | ⟨.rawSocket protocol, r⟩ => if protocol = 17 then r else none
  | _ => none

def receives : Op Int → Option Int
  | .recvfrom fd _ => some fd
  | _ => none

def received : Event (Op Int) (Reply Int) → Option (Int × List Byte)
  | ⟨.recvfrom fd _, some bytes⟩ => some (fd, bytes)
  | _ => none

def Fits (e : Event (Op Int) (Reply Int)) : Prop :=
  ∀ fd bytes, received e = some (fd, bytes) → bytes.length < bufferSize

/-- The result of a round is one of the two it is given. -/
theorem sendBack_result {header : SfcHeader} {received : List Byte} {receivedLen : Nat}
    {b again : Bool} {es : List (Event (Op Int) (Reply Int))}
    (h : (Egress.sendBack self header received receivedLen b b : Handler Int Bool).Runs es
      (.ok again)) : again = b := by
  unfold Egress.sendBack at h
  obtain ⟨_, _, hout⟩ | ⟨sfcid, es₁, es₂, rfl, _, h⟩ := Prog.runs_bind.mp h
  · cases hout
  obtain ⟨_, _, hout⟩ | ⟨path, es₃, es₄, rfl, _, h⟩ := Prog.runs_bind.mp h
  · cases hout
  cases path with
  | nil => exact Except.ok.inj (Prog.runs_ret.mp h).2
  | cons hop hops =>
    obtain ⟨_, _, hout⟩ | ⟨_, es₅, es₆, rfl, _, h⟩ := Prog.runs_bind.mp h
    · cases hout
    · exact Except.ok.inj (Prog.runs_ret.mp h).2

/-- A response loop receives once, since no datagram fills the buffer. -/
theorem udpLoop_usesOwn (header : SfcHeader) (rawSocket : Int) (n : Nat) (buffer : List Byte)
    {held : List Int} (hheld : rawSocket ∈ held) :
    (Egress.exitingUdpLoop self header rawSocket n buffer).UsesOwn Fits opened receives held := by
  cases n with
  | zero => trivial
  | succ n =>
    refine ⟨fun x hx => ?_, fun hnone => (nomatch hnone)⟩
    cases hx
    refine ⟨hheld, fun reply hfits => ?_⟩
    match reply with
    | none => trivial
    | some [] => trivial
    | some (b :: bs) =>
      have hshort : ¬ (b :: bs).length ≥ bufferSize := Nat.not_le.mpr (hfits _ _ rfl)
      change Prog.All _ (Egress.exitingUdpRound self header (overwrite buffer (b :: bs))
        (b :: bs).length >>= fun again => if again then _ else _)
      refine Prog.All.bind_runs (Egress.sendBack_all (P := fun o => receives o = none) (fun _ => rfl)
        (fun _ _ _ => rfl) self header _ _ _ _) fun again es hrun => ?_
      have hover : again = decide ((b :: bs).length ≥ bufferSize) := sendBack_result self hrun
      rw [hover, decide_eq_false hshort]
      trivial

theorem exitingUdp_usesOwn (pkt : List Byte) (pktLen : Nat) (ce : ConnectionEntry) (sock : Int)
    (datagram buffer : List Byte) (fuel : Nat) :
    (Egress.manageExitingUdpPackets self pkt pktLen ce sock datagram buffer fuel).UsesOwn
      Fits opened receives [] := by
  unfold Egress.manageExitingUdpPackets
  dsimp only
  refine .bind (Egress.openSender_all rfl) fun sender es _ _ => ?_
  split
  · trivial
  refine .bind (Egress.openListener_all self rfl (fun _ _ => rfl) fun _ => rfl)
    fun rawSocket es' hrun _ => ?_
  have hheld : rawSocket ∈ ([] : List Int) ++ es.filterMap opened ++ es'.filterMap opened := by
    refine List.mem_append_right _ ?_
    obtain ⟨reply, es₁, rfl, hk⟩ := Prog.runs_op.mp hrun
    cases reply with
    | none => cases (Prog.runs_throw.mp hk).2
    | some fd =>
      obtain ⟨bound, es₂, rfl, hb⟩ := Prog.runs_op.mp hk
      cases bound with
      | false =>
        obtain ⟨_, es₃, rfl, hc⟩ := Prog.runs_op.mp hb
        cases (Prog.runs_throw.mp hc).2
      | true =>
        cases (Prog.runs_ret.mp hb).2
        simp [opened]
  refine ⟨fun _ hx => (nomatch hx), fun _ (sent : Int) _ => ?_⟩
  change Prog.UsesOwn _ _ _ (if sent < 0 then _ else _) _
  split
  · trivial
  refine .bind (updateEntry_all rfl) fun _ es₃ _ _ => ?_
  refine udpLoop_usesOwn self _ rawSocket fuel buffer ?_
  exact List.mem_append_left _ (List.mem_append_left _ hheld)

/-- No other handler receives on a raw socket. -/
theorem run_usesOwn (g : Job) : (Job.run self g).UsesOwn Fits opened receives [] := by
  match g with
  | .datagram _ => trivial
  | .callback (.vnf args) =>
    refine Prog.All.usesOwn ⟨rfl, fun _ => ?_⟩
    refine (checked_all _).bind fun headers => ⟨rfl, fun sock => ?_⟩
    cases connType headers.1.protocol
    · exact ⟨rfl, fun _ => trivial⟩
    · exact ⟨rfl, fun _ => trivial⟩
  | .callback (.task (.exitingTcp pkt pktLen ce socket) _ buffer fuel) =>
    refine Prog.All.usesOwn ?_
    change (Egress.manageExitingTcpPackets self pkt pktLen ce socket buffer fuel).All _
    unfold Egress.manageExitingTcpPackets
    dsimp only
    split
    · trivial
    refine Prog.All.bind (Egress.destination_all (fun _ _ => rfl) fun _ _ => rfl) fun fd => ⟨rfl, fun _ => ?_⟩
    exact Egress.exitingTcpLoop_all (P := fun o => receives o = none) self _ fd rfl (fun _ => rfl)
      (fun _ _ _ => rfl) fuel buffer
  | .callback (.task (.exitingUdp pkt pktLen ce sock) datagram buffer fuel) =>
    exact exitingUdp_usesOwn self pkt pktLen ce sock datagram buffer fuel

def Frames (header : SfcHeader) (bytes : List Byte) : Op Int → Prop
  | .sendAndWaitResponse m _ _ =>
    ∃ pId hops, m = (Egress.answerHeader header pId hops).bytes ++ bytes
  | _ => True

theorem sendBack_frames (header : SfcHeader) (received : List Byte) (receivedLen : Nat)
    (noRoute again : Bool) :
    (Egress.sendBack self header received receivedLen noRoute again).All
      (Frames header (received.take receivedLen)) := by
  refine (classifyPkt_all _ _ _).bind fun sfcid => ?_
  refine (getRouteList_all (P := Frames header _) (fun _ => trivial) sfcid).bind fun path => ?_
  cases path with
  | nil => trivial
  | cons hop hops =>
    refine Prog.All.bind ?_ fun _ => trivial
    refine (servicePathId_all sfcid).bind fun pId => ⟨⟨pId, (hop :: hops).length, rfl⟩, fun resolved => ?_⟩
    cases resolved <;> trivial

def Returns (header : SfcHeader) (past : List (Event (Op Int) (Reply Int))) (m : List Byte) : Prop :=
  ∃ fd size bytes pId hops, ⟨.recvfrom fd size, some bytes⟩ ∈ past ∧
    m = (Egress.answerHeader header pId hops).bytes ++ bytes

theorem Returns.mono {header : SfcHeader} {past past' : List (Event (Op Int) (Reply Int))}
    {m : List Byte} (h : Returns header past m) (hsub : past ⊆ past') : Returns header past' m := by
  obtain ⟨fd, size, bytes, pId, hops, he, hm⟩ := h
  exact ⟨fd, size, bytes, pId, hops, hsub he, hm⟩

theorem udpLoop_returns {header : SfcHeader} {rawSocket : Int} {n : Nat} {buffer : List Byte}
    {past : List (Event (Op Int) (Reply Int))} {q : Handler Int Unit} {m : List Byte}
    (h : Prog.Reaches (Egress.exitingUdpLoop self header rawSocket n buffer) past q)
    (hm : m ∈ messages past) : Returns header past m := by
  induction n generalizing buffer past with
  | zero =>
    rw [(Prog.reaches_throw.mp h).1] at hm
    cases hm
  | succ n ih =>
    obtain ⟨rfl, _⟩ | ⟨reply, past₁, rfl, h₁⟩ := Prog.reaches_op.mp h
    · cases hm
    change m ∈ messages past₁ at hm
    match reply with
    | none =>
      rw [(Prog.reaches_throw.mp h₁).1] at hm
      cases hm
    | some [] =>
      rw [(Prog.reaches_ret.mp h₁).1] at hm
      cases hm
    | some (b :: bs) =>
      -- what the round itself sends is what has just been received
      have hround {es : List (Event (Op Int) (Reply Int))}
          (hes : ∀ e ∈ es, Frames header ((overwrite buffer (b :: bs)).take (b :: bs).length) e.op)
          (hm : m ∈ messages es) :
          Returns header (⟨.recvfrom rawSocket bufferSize, some (b :: bs)⟩ :: past₁) m := by
        obtain ⟨_, _, pId, hops, hframe⟩ := mem_messages hm hes
        rw [overwrite, List.take_left] at hframe
        exact ⟨_, _, _, pId, hops, List.mem_cons_self, hframe⟩
      change Prog.Reaches (Egress.exitingUdpRound self header (overwrite buffer (b :: bs))
        (b :: bs).length >>= fun again => if again then _ else _) past₁ q at h₁
      rcases Prog.reaches_bind.mp h₁ with ⟨p', hp', _⟩ | ⟨again, es₁, es₂, rfl, hrun, h₂⟩
      · exact hround (hp'.all (sendBack_frames self header _ _ _ _)).2 hm
      · rw [messages_append] at hm
        rcases List.mem_append.mp hm with hm | hm
        · exact hround (hrun.all (sendBack_frames self header _ _ _ _)) hm
        · cases again with
          | false =>
            rw [(Prog.reaches_ret.mp h₂).1] at hm
            cases hm
          | true =>
            exact (ih h₂ hm).mono fun e he =>
              List.mem_cons_of_mem _ (List.mem_append_right _ he)

theorem exitingUdp_returns {pkt : List Byte} {pktLen : Nat} {ce : ConnectionEntry} (sock : Int)
    {datagram buffer : List Byte} {fuel : Nat} {past : List (Event (Op Int) (Reply Int))}
    {q : Handler Int Unit} {m : List Byte}
    (h : Prog.Reaches
      (Egress.manageExitingUdpPackets self pkt pktLen ce sock datagram buffer fuel) past q)
    (hm : m ∈ messages past) : Returns (retrieveHeader pkt) past m := by
  obtain ⟨_, es₁, es₂, rfl, hm, h⟩ := messages_bind h (Egress.openSender_all rfl) hm
  dsimp only at h
  split at h
  · rw [(Prog.reaches_throw.mp h).1] at hm
    cases hm
  obtain ⟨rawSocket, es₃, es₄, rfl, hm, h⟩ := messages_bind h
    (Egress.openListener_all self rfl (fun _ _ => rfl) fun _ => rfl) hm
  obtain ⟨sent, es₅, es₆, rfl, hm, h⟩ := messages_bind h ⟨rfl, fun _ => trivial⟩ hm
  split at h
  · rw [(Prog.reaches_throw.mp h).1] at hm
    cases hm
  obtain ⟨_, es₇, es₈, rfl, hm, h⟩ := messages_bind h (updateEntry_all rfl) hm
  refine (udpLoop_returns self h hm).mono fun e he => ?_
  simp [he]

end Programs

section Listeners
variable {ls ls' : List Listener} {fd : Int} {l : Listener}

theorem lookup_fd (h : lookup fd ls = some l) : l.fd = fd := by
  have hfd := List.find?_some h
  simpa using hfd

theorem lookup_mem (h : lookup fd ls = some l) : l ∈ ls := List.mem_of_find?_eq_some h

theorem lookup_append (h : lookup fd ls = some l) (ls' : List Listener) :
    lookup fd (ls ++ ls') = some l := by
  unfold lookup at h ⊢
  rw [List.find?_append, h]
  rfl

/-- A change that leaves the descriptors as they are is made to what is looked up. -/
theorem lookup_map {f : Listener → Listener} (hf : ∀ l, (f l).fd = l.fd) :
    lookup fd (ls.map f) = (lookup fd ls).map f := by
  unfold lookup
  rw [List.find?_map]
  congr 2
  funext l
  simp [hf]

theorem lookup_new (h : lookup fd ls = none) (header : SfcHeader) :
    lookup fd (ls ++ [⟨fd, header, [], 0⟩]) = some ⟨fd, header, [], 0⟩ := by
  unfold lookup at h ⊢
  rw [List.find?_append, h]
  simp

/-- What an operation does to the raw sockets: nothing, or one is opened for the
job, or the next copy of one is received. -/
theorem listens_cases {g : Job} {o : Op Int} {r : Reply Int o} (h : Listens g ls o r ls') :
    (opened ⟨o, r⟩ = none ∧ received ⟨o, r⟩ = none ∧ ls' = ls) ∨
    (∃ fd, opened ⟨o, r⟩ = some fd ∧ received ⟨o, r⟩ = none ∧ lookup fd ls = none ∧
      ls' = ls ++ [⟨fd, g.header, [], 0⟩]) ∨
    (∃ fd l d, opened ⟨o, r⟩ = none ∧ received ⟨o, r⟩ = some (fd, d.bytes) ∧
      receives o = some fd ∧ lookup fd ls = some l ∧ l.copies[l.taken]? = some d ∧
      ls' = ls.map (Listener.take fd)) := by
  cases o with
  | rawSocket protocol =>
    simp only [Listens] at h
    by_cases hudp : protocol = 17
    · rw [if_pos hudp] at h
      cases r with
      | none => exact Or.inl ⟨by simp [opened], rfl, h⟩
      | some fd => exact Or.inr (Or.inl ⟨fd, if_pos hudp, rfl, h⟩)
    · rw [if_neg hudp] at h
      exact Or.inl ⟨if_neg hudp, rfl, h⟩
  | recvfrom fd size =>
    rcases h with ⟨rfl, h⟩ | ⟨l, d, hl, hd, rfl, h⟩
    · exact Or.inl ⟨rfl, rfl, h⟩
    · exact Or.inr (Or.inr ⟨fd, l, d, rfl, rfl, rfl, hl, hd, h⟩)
  | _ => exact Or.inl ⟨rfl, rfl, h⟩

/-- A raw socket stays the one of its exchange, whatever is done. -/
theorem Listens.keeps {g : Job} {o : Op Int} {r : Reply Int o} (h : Listens g ls o r ls')
    (hl : lookup fd ls = some l) : ∃ l', lookup fd ls' = some l' ∧ l'.header = l.header := by
  obtain ⟨_, _, rfl⟩ | ⟨_, _, _, _, rfl⟩ | ⟨fd', _, _, _, _, _, _, _, rfl⟩ := listens_cases h
  · exact ⟨l, hl, rfl⟩
  · exact ⟨l, lookup_append hl _, rfl⟩
  · rw [lookup_map (Listener.take_fd · fd'), hl]
    exact ⟨_, rfl, l.take_header fd'⟩

theorem deliver_keeps {s : State sh} {d : Datagram} (hl : lookup fd s.listeners = some l) :
    ∃ l', lookup fd (s.deliver d).listeners = some l' ∧ l'.header = l.header := by
  change ∃ l', lookup fd (s.listeners.map (Listener.give d)) = some l' ∧ l'.header = l.header
  rw [lookup_map (Listener.give_fd · d), hl]
  exact ⟨_, rfl, rfl⟩

end Listeners

section Runs
variable {self : Self} {myIp : String} {extPort intPort : BitVec 16} {P : JobPool sh}

/-- The first datagram a raw socket is given a copy of comes from its destination. -/
theorem first_solicited
    (h : Reachable (system sh self Solicited) (fun _ _ _ _ => True) (start sh myIp extPort intPort) P) :
    ∀ l ∈ P.shared.listeners, ∀ d, l.copies.head? = some d →
      sender d.bytes = destination l.header := by
  refine h.invariant (fun P => ∀ l ∈ P.shared.listeners, ∀ d, l.copies.head? = some d →
    sender d.bytes = destination l.header) (fun l hl => (nomatch hl)) ?_
  intro P Q _ ih hst l hl d hd
  cases hst with
  | @run s s' before after g past o k r born _ _ hperf =>
    change ∀ l ∈ s.listeners, _ at ih
    change l ∈ s'.listeners at hl
    obtain ⟨_, _, heq⟩ | ⟨_, _, _, _, heq⟩ | ⟨fd, _, _, _, _, _, _, _, heq⟩ := listens_cases hperf.2.1
    · rw [heq] at hl
      exact ih l hl d hd
    · rw [heq] at hl
      rcases List.mem_append.mp hl with hl | hl
      · exact ih l hl d hd
      · rw [List.mem_singleton.mp hl] at hd
        cases hd
    · rw [heq] at hl
      obtain ⟨l₀, hl₀, rfl⟩ := List.mem_map.mp hl
      rw [l₀.take_copies] at hd
      rw [l₀.take_header]
      exact ih l₀ hl₀ d hd
  | @arrive s s' ts g _ harr =>
    obtain ⟨d', _, hsolicited, rfl⟩ := harr
    obtain ⟨l₀, hl₀, rfl⟩ := List.mem_map.mp hl
    rw [l₀.give_header]
    change (l₀.copies ++ [d']).head? = some d at hd
    cases hc : l₀.copies with
    | nil =>
      rw [hc] at hd
      cases hd
      exact hsolicited l₀ hl₀ hc
    | cons d₀ ds =>
      rw [hc] at hd
      exact ih l₀ hl₀ d (hc ▸ hd)

/-- A raw socket that something was received on was received on by some thread. -/
theorem taken_received {admits : State sh → Datagram → Prop}
    (h : Reachable (system sh self admits) (fun _ _ _ _ => True) (start sh myIp extPort intPort) P) :
    ∀ l ∈ P.shared.listeners, l.taken ≠ 0 →
      ∃ t ∈ P.threads, ∃ e ∈ t.past, receives e.op = some l.fd := by
  refine h.invariant (fun P => ∀ l ∈ P.shared.listeners, l.taken ≠ 0 →
    ∃ t ∈ P.threads, ∃ e ∈ t.past, receives e.op = some l.fd) (fun l hl => (nomatch hl)) ?_
  intro P Q _ ih hst
  have hkeep (fd : Int) (hfd : ∃ t ∈ P.threads, ∃ e ∈ t.past, receives e.op = some fd) :
      ∃ t ∈ Q.threads, ∃ e ∈ t.past, receives e.op = some fd := hst.done hfd
  intro l hl htaken
  cases hst with
  | @run s s' before after g past o k r born _ _ hperf =>
    change ∀ l ∈ s.listeners, _ at ih
    change l ∈ s'.listeners at hl
    obtain ⟨_, _, heq⟩ | ⟨_, _, _, _, heq⟩ | ⟨fd, _, _, _, _, hrecv, _, _, heq⟩ :=
      listens_cases hperf.2.1
    · rw [heq] at hl
      exact hkeep _ (ih l hl htaken)
    · rw [heq] at hl
      rcases List.mem_append.mp hl with hl | hl
      · exact hkeep _ (ih l hl htaken)
      · rw [List.mem_singleton.mp hl] at htaken
        exact absurd rfl htaken
    · rw [heq] at hl
      obtain ⟨l₀, hl₀, rfl⟩ := List.mem_map.mp hl
      rw [l₀.take_fd]
      by_cases hfd : l₀.fd = fd
      · exact ⟨_, mem_moved.mpr (Or.inr (Or.inl rfl)), ⟨o, r⟩, by simp, hfd ▸ hrecv⟩
      · rw [Listener.take_other hfd] at htaken
        exact hkeep _ (ih l₀ hl₀ htaken)
  | arrive _ harr =>
    obtain ⟨d', _, _, rfl⟩ := harr
    obtain ⟨l₀, hl₀, rfl⟩ := List.mem_map.mp hl
    exact hkeep _ (ih l₀ hl₀ htaken)

/-- An operation opens only what is not open, and receives what fits. -/
theorem perform_uses (sh : Shaping ConnectionEntry) (self : Self)
    (admits : State sh → Datagram → Prop) (s : State sh) (g : Job) (o : Op Int) (r : Reply Int o)
    (s' : State sh) (born : List Job) (h : (system sh self admits).perform s g o r s' born) :
    Fits ⟨o, r⟩ ∧ (∀ fd, opened ⟨o, r⟩ = some fd → ¬ (lookup fd s.listeners).isSome = true ∧
      (lookup fd s'.listeners).isSome = true) ∧
      ∀ fd, (lookup fd s.listeners).isSome = true → (lookup fd s'.listeners).isSome = true := by
  have hlisten : Listens g s.listeners o r s'.listeners := h.2.1
  refine ⟨fun fd bytes hrecv => ?_, fun fd hfd => ?_, fun fd hfd => ?_⟩
  · obtain ⟨_, hnone, _⟩ | ⟨_, _, hnone, _, _⟩ | ⟨_, _, d, _, hsome, _⟩ := listens_cases hlisten
    · cases hnone.symm.trans hrecv
    · cases hnone.symm.trans hrecv
    · cases hsome.symm.trans hrecv
      exact d.short
  · obtain ⟨hnone, _, _⟩ | ⟨_, hsome, _, hfresh, heq⟩ | ⟨_, _, _, hnone, _⟩ := listens_cases hlisten
    · cases hnone.symm.trans hfd
    · cases hsome.symm.trans hfd
      rw [hfresh, heq, lookup_new hfresh]
      exact ⟨by simp, rfl⟩
    · cases hnone.symm.trans hfd
  · obtain ⟨l, hl⟩ := Option.isSome_iff_exists.mp hfd
    obtain ⟨l', hl', _⟩ := hlisten.keeps hl
    rw [hl']
    rfl

theorem arrive_uses {admits : State sh → Datagram → Prop} {s s' : State sh} {g : Job}
    (h : (system sh self admits).arrive s s' g) {fd : Int}
    (hfd : (lookup fd s.listeners).isSome = true) : (lookup fd s'.listeners).isSome = true := by
  obtain ⟨d, _, _, rfl⟩ := h
  obtain ⟨l, hl⟩ := Option.isSome_iff_exists.mp hfd
  obtain ⟨l', hl', _⟩ := deliver_keeps (d := d) hl
  rw [hl']
  rfl

theorem perform_fits {admits : State sh → Datagram → Prop}
    (h : Reachable (system sh self admits) (fun _ _ _ _ => True) (start sh myIp extPort intPort) P) :
    ∀ t ∈ P.threads, ∀ e ∈ t.past, Fits e :=
  h.past fun s g o r s' born hperf => (perform_uses sh self admits s g o r s' born hperf).1

/-- What a raw socket gives out comes from the destination of its exchange. -/
def Answered (s : State sh) (e : Event (Op Int) (Reply Int)) : Prop :=
  ∀ fd bytes, received e = some (fd, bytes) →
    ∃ l, lookup fd s.listeners = some l ∧ sender bytes = destination l.header

/-- A step leaves every raw socket to its exchange. -/
theorem Answered.keeps {s s' : State sh} {e : Event (Op Int) (Reply Int)} (h : Answered s e)
    (hkeep : ∀ fd l, lookup fd s.listeners = some l →
      ∃ l', lookup fd s'.listeners = some l' ∧ l'.header = l.header) : Answered s' e := by
  intro fd bytes hrecv
  obtain ⟨l, hl, hsender⟩ := h fd bytes hrecv
  obtain ⟨l', hl', hheader⟩ := hkeep fd l hl
  exact ⟨l', hl', hheader ▸ hsender⟩

theorem answered_reachable
    (h : Reachable (system sh self Solicited) (fun _ _ _ _ => True) (start sh myIp extPort intPort) P) :
    ∀ t ∈ P.threads, ∀ e ∈ t.past, Answered P.shared e := by
  refine h.since (E := fun s _ e => Answered s e) ?_ ?_
  · intro s before after g past o k r s' born hr hperf
    have hlisten : Listens g s.listeners o r s'.listeners := hperf.2.1
    refine ⟨fun fd bytes hrecv => ?_, fun _ e he => he.keeps fun _ _ hl => hlisten.keeps hl⟩
    obtain ⟨_, hnone, _⟩ | ⟨_, _, hnone, _, _⟩ | ⟨fd', l, d, _, hsome, huses, hl, hd, heq⟩ :=
      listens_cases hlisten
    · cases hnone.symm.trans hrecv
    · cases hnone.symm.trans hrecv
    cases hsome.symm.trans hrecv
    -- nobody has received on the socket yet, so this is its first datagram
    have hfirst : l.taken = 0 := by
      by_contra htaken
      obtain ⟨u, hu, e', he', hused⟩ := taken_received hr l (lookup_mem hl) htaken
      rw [lookup_fd hl] at hused
      exact (hr.unused opened (perform_uses sh self Solicited)
        (fun s s' g harr fd hfd => arrive_uses harr hfd) (run_usesOwn self) huses).2 u hu e' he' hused
    rw [hfirst, ← List.head?_eq_getElem?] at hd
    refine ⟨l.take fd, ?_, ?_⟩
    · rw [heq, lookup_map (Listener.take_fd · fd), hl]
      rfl
    · rw [l.take_header]
      exact first_solicited hr l (lookup_mem hl) d hd
  · intro s s' g harr _ e he
    obtain ⟨d, _, _, rfl⟩ := harr
    exact he.keeps fun _ _ hl => deliver_keeps hl

/-- A raw socket is the one of the exchange it was opened for. -/
theorem opened_header {admits : State sh → Datagram → Prop}
    (h : Reachable (system sh self admits) (fun _ _ _ _ => True) (start sh myIp extPort intPort) P) :
    ∀ t ∈ P.threads, ∀ e ∈ t.past, ∀ fd, opened e = some fd →
      ∃ l, lookup fd P.shared.listeners = some l ∧ l.header = t.tag.header := by
  refine h.since (E := fun s g e => ∀ fd, opened e = some fd →
    ∃ l, lookup fd s.listeners = some l ∧ l.header = g.header) ?_ ?_
  · intro s before after g past o k r s' born _ hperf
    refine ⟨fun fd hfd => ?_, fun g' e he fd hfd => ?_⟩
    · obtain ⟨hnone, _, _⟩ | ⟨fd', hsome, _, hfresh, heq⟩ | ⟨_, _, _, hnone, _⟩ :=
        listens_cases hperf.2.1
      · cases hnone.symm.trans hfd
      · cases hsome.symm.trans hfd
        rw [heq]
        exact ⟨_, lookup_new hfresh _, rfl⟩
      · cases hnone.symm.trans hfd
    · obtain ⟨l, hl, hheader⟩ := he fd hfd
      obtain ⟨l', hl', hsame⟩ := hperf.2.1.keeps hl
      exact ⟨l', hl', hsame.trans hheader⟩
  · intro s s' g harr g' e he fd hfd
    obtain ⟨d, _, _, rfl⟩ := harr
    obtain ⟨l, hl, hheader⟩ := he fd hfd
    obtain ⟨l', hl', hsame⟩ := deliver_keeps hl
    exact ⟨l', hl', hsame.trans hheader⟩

/-- As long as the first datagram that comes after a raw socket was opened is
from the destination of its exchange, whatever a handler returns under the
header of its exchange was sent by the destination. -/
theorem replies_attributed (sh : Shaping ConnectionEntry) (self : Self) (myIp : String)
    (extPort intPort : BitVec 16) (P : JobPool sh)
    (h : Reachable (system sh self Solicited) (fun _ _ _ _ => True) (start sh myIp extPort intPort) P)
    (t : JobThread) (ht : t ∈ P.threads) (pkt : List Byte) (pktLen : Nat) (ce : ConnectionEntry)
    (sock : Int) (datagram buffer : List Byte) (fuel : Nat)
    (htag : t.tag = .callback (.task (.exitingUdp pkt pktLen ce sock) datagram buffer fuel)) :
    ∀ m ∈ messages t.past, Attributed (retrieveHeader pkt) m := by
  intro m hm
  have hreach := h.thread t ht
  have hown := (run_usesOwn self t.tag).reaches hreach (perform_fits h t ht)
  rw [htag] at hreach
  obtain ⟨fd, size, bytes, pId, hops, he, hframe⟩ := exitingUdp_returns self sock hreach hm
  refine ⟨pId, hops, bytes, hframe, ?_⟩
  obtain ⟨l, hl, hsender⟩ := answered_reachable h t ht _ he fd bytes rfl
  have hheld : fd ∈ t.past.filterMap opened := by
    rcases hown with ⟨hnone, _⟩ | ⟨_, hheld⟩
    · cases (hnone _ he).symm.trans rfl
    · exact hheld _ he fd rfl
  obtain ⟨e', he', hopened⟩ := List.mem_filterMap.mp hheld
  obtain ⟨l', hl', hheader⟩ := opened_header h t ht e' he' fd hopened
  cases hl.symm.trans hl'
  rw [hsender, hheader, htag]
  rfl

end Runs

instance (self : Self) (admits : State sh → Datagram → Prop) :
    DecidablePred (system sh self admits).fatal :=
  inferInstanceAs (DecidablePred Stop.Fatal)

instance (s : State sh) (d : Datagram) : Decidable (Solicited s d) :=
  inferInstanceAs (Decidable (∀ l ∈ s.listeners, l.copies = [] → sender d.bytes = destination l.header))

instance (d : Datagram) (g : Job) : Decidable (Carries d g) := by
  unfold Carries
  split <;> infer_instance

def request : Job := .callback (.vnf (udpArgs udpFrame))

def carrier : Job → Datagram
  | .datagram d => d
  | _ => ⟨plainIp 17 ++ plainUdp ++ udpFrame, by decide⟩

def response : Datagram where
  bytes := [0x45, 0, 0, 31, 0, 0, 0, 0, 64, 17, 0, 0, 10, 0, 1, 1, 10, 0, 0, 9] ++
    [0, 80, 0xde, 0xa8, 0, 11, 0, 0] ++ [0x78, 0x79, 0x7a]
  short := by decide

/-- A datagram from 10.0.0.1:5000, which is not the destination. -/
def stray : Datagram := ⟨udpPacket.bytes, by decide⟩

def rawWorld (admits : State plain → Datagram → Prop) [∀ s d, Decidable (admits s d)] :
    World (system plain proxy admits) where
  resolve s g o := match o with
    | .rawSocket protocol =>
      if protocol = 17 then
        if lookup 8 s.listeners = none then
          some (some 8, { s with listeners := s.listeners ++ [⟨8, g.header, [], 0⟩] }, [])
        else none
      else some (some 7, s, [])
    | .recvfrom fd _ =>
      (lookup fd s.listeners).bind fun l => l.copies[l.taken]?.map fun d =>
        (some d.bytes, { s with listeners := s.listeners.map (Listener.take fd) }, [])
    | o =>
      let next := s.endpoint.serve 7 ⟨"10.0.2.1", 57000, false⟩ [] o
      some (next.1, { s with endpoint := next.2 }, Egress.started .callback 4 o)
  performs s g o r s' born h := by
    cases o with
    | rawSocket protocol =>
      dsimp only at h
      split at h
      · rename_i hudp
        split at h
        · rename_i hfresh
          cases h
          exact ⟨rfl, by simp [Listens, hudp, hfresh], rfl⟩
        · cases h
      · rename_i hudp
        cases h
        exact ⟨rfl, by simp [Listens, hudp], rfl⟩
    | recvfrom fd size =>
      obtain ⟨l, hl, h⟩ := Option.bind_eq_some_iff.mp h
      obtain ⟨d, hd, h⟩ := Option.map_eq_some_iff.mp h
      cases h
      exact ⟨rfl, Or.inr ⟨l, d, hl, hd, rfl, rfl⟩, rfl⟩
    | goAsync task =>
      cases h
      exact ⟨rfl, rfl, Egress.started_starts _ _ _⟩
    | _ =>
      cases h
      exact ⟨s.endpoint.serve_performs .., rfl, rfl⟩
  accept s g := if Carries (carrier g) g ∧ admits s (carrier g) then some (s.deliver (carrier g)) else none
  arrives s g s' h := by
    split at h
    · rename_i hadmitted
      cases h
      exact ⟨_, hadmitted.1, hadmitted.2, rfl⟩
    · cases h

def listening : List (Move Job) := .arrive request :: steps 3 0 ++ steps 5 1

def framed : List Byte :=
  (Egress.answerHeader (retrieveHeader udpFrame) 0 1).bytes ++ stray.bytes

theorem response_attributed : ∃ P : JobPool plain, ∃ t ∈ P.threads, ∃ m ∈ messages t.past,
    Attributed (retrieveHeader udpFrame) m := by
  obtain ⟨P, hP, hdone⟩ := (rawWorld Solicited).exists_reachable (fun _ _ _ _ => True)
    (start plain "10.0.0.9" 57000 57001) (listening ++ .arrive (.datagram response) :: steps 3 1)
    (fun P => decide (∃ t ∈ P.threads, t.tag = .callback (.task (.exitingUdp udpFrame
      udpFrame.length (sampleConnection.entry .udp) (-1)) [] [] 4) ∧ messages t.past ≠ []))
    (by decide +kernel)
  obtain ⟨t, ht, htag, hsome⟩ := of_decide_eq_true hdone
  obtain ⟨m, hm⟩ := List.exists_mem_of_ne_nil _ hsome
  exact ⟨P, t, ht, m, hm, replies_attributed plain proxy "10.0.0.9" 57000 57001 P hP t ht _ _ _ _ _ _
    _ htag m hm⟩

/-- Any datagram that comes first is returned as the answer of the exchange. -/
theorem stray_returned : ∃ P : JobPool plain,
    Reachable (system plain proxy fun _ _ => True) (fun _ _ _ _ => True)
      (start plain "10.0.0.9" 57000 57001) P ∧
    ∃ t ∈ P.threads, t.tag = .callback (.task (.exitingUdp udpFrame udpFrame.length
      (sampleConnection.entry .udp) (-1)) [] [] 4) ∧
      ∃ m ∈ messages t.past, ¬ Attributed (retrieveHeader udpFrame) m := by
  obtain ⟨P, hP, hdone⟩ := (rawWorld fun _ _ => True).exists_reachable (fun _ _ _ _ => True)
    (start plain "10.0.0.9" 57000 57001)
    (listening ++ .arrive (.datagram stray) :: .arrive (.datagram response) :: steps 3 1)
    (fun P => decide (∃ t ∈ P.threads, t.tag = .callback (.task (.exitingUdp udpFrame
      udpFrame.length (sampleConnection.entry .udp) (-1)) [] [] 4) ∧ framed ∈ messages t.past))
    (by decide +kernel)
  obtain ⟨t, ht, htag, hm⟩ := of_decide_eq_true hdone
  refine ⟨P, hP, t, ht, htag, framed, hm, ?_⟩
  intro hattributed
  obtain ⟨pId, hops, d, hframe, hsender⟩ := hattributed
  have hd : d = stray.bytes := by
    have hdrop := congrArg (List.drop headerSize) hframe
    rw [framed, drop_bytes_append, drop_bytes_append] at hdrop
    exact hdrop.symm
  rw [hd] at hsender
  exact absurd hsender (by decide)

end Ironhide.Proofs.UdpAttribution
