import Ironhide.Lib.Relaying
import Ironhide.Model.Server

namespace Ironhide.Proofs.Servers
open Model Model.Server Lib.Bytes Lib.Program Lib.Relaying PacketUtils

variable {φ π : Type}

/-- What a server receives and its handlers are for. -/
inductive Message (φ : Type) where
  | datagram (server : Role) (socketFd : φ) (clientAddress : SockaddrIn) (bytes : List Byte)
  | connection (server : Role) (newSocketFd : φ) (clientAddress : SockaddrIn)
  deriving DecidableEq, Repr

def ofUdp (server : Role) (args : UdpArgs φ) : Message φ :=
  .datagram server args.socketFd args.clientAddress (args.pkt.take args.pktLen)

def ofTcp (server : Role) (args : TcpArgs φ) : Message φ :=
  .connection server args.newSocketFd args.clientAddress

def ofArgs (server : Role) : Args φ π → Message φ
  | .udp args _ => ofUdp server args
  | .tcp args => ofTcp server args

def brings (server : Role) : Event (Op φ π) (Reply φ π) → Option (Message φ)
  | ⟨.recvfrom fd _ _, some (bytes, clientAddress)⟩ => some (.datagram server fd clientAddress bytes)
  | ⟨.accept _, some (newSocketFd, clientAddress)⟩ =>
    some (.connection server newSocketFd clientAddress)
  | _ => none

def hands (server : Role) : Op φ π → Option (Message φ)
  | .goAsync _ args => some (ofArgs server args)
  | _ => none

/-- What is done to set a server up brings nothing and hands nothing over. -/
def SetsUp : Op φ π → Prop
  | .recvfrom .. | .accept _ | .goAsync .. => False
  | _ => True

theorem SetsUp.hands {server : Role} {o : Op φ π} (h : SetsUp o) : hands server o = none := by
  cases o with
  | recvfrom | accept | goAsync => exact h.elim
  | _ => rfl

theorem SetsUp.brings {server : Role} {o : Op φ π} (h : SetsUp o) (r : Reply φ π o) :
    brings server ⟨o, r⟩ = none := by
  cases o with
  | recvfrom | accept | goAsync => exact h.elim
  | _ => rfl

theorem relays_of_setsUp (server : Role) {α : Type} {p : Service φ π α} (h : p.All SetsUp) :
    Relays (brings server) (hands server) p none :=
  relays_of_all (h.mono fun _ ho => ⟨ho.hands, ho.brings⟩)

theorem openSocket_all {P : Op φ π → Prop} (type : Nat) (port : BitVec 16)
    (hstopped : P (.setStopped false)) (hsocket : P (.socket type))
    (hreuse : ∀ fd, P (.setReuseAddr fd)) (hbind : ∀ fd, P (.bind fd (anyAddress port))) :
    (openSocket type port : Service φ π φ).All P := by
  refine ⟨hstopped, fun _ => ⟨hsocket, fun reply => ?_⟩⟩
  cases reply with
  | none => trivial
  | some fd =>
    refine ⟨hreuse fd, fun _ => ⟨hbind fd, fun bound => ?_⟩⟩
    cases bound <;> trivial

theorem catchSignal_all {P : Op φ π → Prop} {number : Nat} (h : P (.signal number)) :
    (catchSignal number : Service φ π Unit).All P := by
  refine ⟨h, fun reply => ?_⟩
  cases reply <;> trivial

theorem setupSignCatching_all {P : Op φ π → Prop} (h : ∀ number, P (.signal number)) :
    (setupSignCatching : Service φ π Unit).All P :=
  (catchSignal_all (h _)).bind fun _ => (catchSignal_all (h _)).bind fun _ => catchSignal_all (h _)

theorem serve_relays (server : Role) {round : Service φ π Unit}
    (h : Relays (brings server) (hands server) round none) (fuel : Nat) :
    Relays (brings server) (hands server) (serve round fuel) none := by
  induction fuel with
  | zero => rfl
  | succ fuel ih =>
    refine ⟨rfl, fun stopped => ?_⟩
    cases stopped with
    | false => exact h.bind fun _ => ih
    | true => rfl

theorem udpRound_relays (server : Role) (socketFd : φ) :
    Relays (brings server) (hands server) (udpRound socketFd : Service φ π Unit) none := by
  refine ⟨rfl, fun args => ?_⟩
  rcases args with _ | args
  · rfl
  refine ⟨rfl, fun buffer => ?_⟩
  rcases buffer with _ | ⟨pkt, bytes⟩
  · rfl
  refine ⟨rfl, fun reply => ?_⟩
  rcases reply with _ | ⟨received, clientAddress⟩
  · exact ⟨rfl, fun _ => rfl⟩
  · refine ⟨?_, fun _ => rfl⟩
    simp [hands, brings, ofArgs, ofUdp, overwrite]

theorem tcpRound_relays (server : Role) (socketFd : φ) :
    Relays (brings server) (hands server) (tcpRound socketFd : Service φ π Unit) none := by
  refine ⟨rfl, fun args => ?_⟩
  rcases args with _ | args
  · rfl
  refine ⟨rfl, fun reply => ?_⟩
  rcases reply with _ | ⟨newSocketFd, clientAddress⟩
  · exact ⟨rfl, fun _ => rfl⟩
  · exact ⟨rfl, fun _ => rfl⟩

theorem openSocket_relays (server : Role) (type : Nat) (port : BitVec 16) :
    Relays (brings server) (hands server) (openSocket type port : Service φ π φ) none :=
  relays_of_setsUp server (openSocket_all type port trivial trivial (fun _ => trivial) fun _ => trivial)

theorem setupSignCatching_relays (server : Role) :
    Relays (brings server) (hands server) (setupSignCatching : Service φ π Unit) none :=
  relays_of_setsUp server (setupSignCatching_all fun _ => trivial)

/-- A server hands over what it receives, at once, as it is, and nothing else. -/
theorem run_relays (extPort intPort : BitVec 16) (fuel : Nat) (server : Role) :
    Relays (brings server) (hands server) (run extPort intPort fuel server : Service φ π Unit)
      none := by
  have hudp (port : BitVec 16) :
      Relays (brings server) (hands server) (runUdp port fuel : Service φ π Unit) none :=
    (openSocket_relays server 2 port).bind fun fd => (setupSignCatching_relays server).bind fun _ =>
      serve_relays server (udpRound_relays server fd) fuel
  have htcp (port : BitVec 16) :
      Relays (brings server) (hands server) (runTcp port fuel : Service φ π Unit) none := by
    refine (openSocket_relays server 1 port).bind fun fd => ⟨rfl, fun listening => ?_⟩
    cases listening with
    | false => rfl
    | true => exact (setupSignCatching_relays server).bind fun _ =>
        serve_relays server (tcpRound_relays server fd) fuel
  cases server with
  | internalUdp => exact hudp intPort
  | externalUdp => exact hudp extPort
  | tcp => exact htcp extPort

section Sized

def Sized : Args φ π → Prop
  | .udp args _ => args.pktLen ≤ args.pkt.length
  | .tcp _ => True

def HandsSized : Op φ π → Prop
  | .goAsync _ args => Sized args
  | _ => True

theorem serve_all {P : Op φ π → Prop} {round : Service φ π Unit} (hstopped : P .isStopped)
    (hround : round.All P) (fuel : Nat) : (serve round fuel).All P := by
  induction fuel with
  | zero => trivial
  | succ fuel ih =>
    refine ⟨hstopped, fun stopped => ?_⟩
    cases stopped with
    | false => exact hround.bind fun _ => ih
    | true => trivial

theorem udpRound_handsSized (fd : φ) : (udpRound fd : Service φ π Unit).All HandsSized := by
  refine ⟨trivial, fun args => ?_⟩
  rcases args with _ | args
  · trivial
  refine ⟨trivial, fun buffer => ?_⟩
  rcases buffer with _ | ⟨pkt, bytes⟩
  · trivial
  refine ⟨trivial, fun reply => ?_⟩
  rcases reply with _ | ⟨received, clientAddress⟩
  · exact ⟨trivial, fun _ => trivial⟩
  · refine ⟨?_, fun _ => trivial⟩
    change received.length ≤ (overwrite bytes received).length
    rw [overwrite, List.length_append]
    exact Nat.le_add_right _ _

theorem tcpRound_handsSized (fd : φ) : (tcpRound fd : Service φ π Unit).All HandsSized := by
  refine ⟨trivial, fun args => ?_⟩
  rcases args with _ | args
  · trivial
  refine ⟨trivial, fun reply => ?_⟩
  rcases reply with _ | ⟨newSocketFd, clientAddress⟩
  · exact ⟨trivial, fun _ => trivial⟩
  · exact ⟨trivial, fun _ => trivial⟩

/-- Whatever a server hands over is within its buffer. -/
theorem run_handsSized (extPort intPort : BitVec 16) (fuel : Nat) (server : Role) :
    (run extPort intPort fuel server : Service φ π Unit).All HandsSized := by
  have hopen (type : Nat) (port : BitVec 16) :
      (openSocket type port : Service φ π φ).All HandsSized :=
    openSocket_all type port trivial trivial (fun _ => trivial) fun _ => trivial
  have hudp (port : BitVec 16) : (runUdp port fuel : Service φ π Unit).All HandsSized :=
    (hopen 2 port).bind fun fd => (setupSignCatching_all fun _ => trivial).bind fun _ =>
      serve_all trivial (udpRound_handsSized fd) fuel
  have htcp (port : BitVec 16) : (runTcp port fuel : Service φ π Unit).All HandsSized := by
    refine (hopen 1 port).bind fun fd => ⟨trivial, fun listening => ?_⟩
    cases listening with
    | false => trivial
    | true => exact (setupSignCatching_all fun _ => trivial).bind fun _ =>
        serve_all trivial (tcpRound_handsSized fd) fuel
  cases server with
  | internalUdp => exact hudp intPort
  | externalUdp => exact hudp extPort
  | tcp => exact htcp extPort

end Sized

section Bound

def source : Op φ π → Option φ
  | .recvfrom fd .. => some fd
  | .accept fd => some fd
  | _ => none

def ReceivesOn (fd : φ) (o : Op φ π) : Prop := ∀ x, source o = some x → x = fd

def FromPort (port : BitVec 16) (past : List (Event (Op φ π) (Reply φ π))) (o : Op φ π) : Prop :=
  ∀ fd, source o = some fd → ⟨.bind fd (anyAddress port), true⟩ ∈ past

variable {port : BitVec 16} {past : List (Event (Op φ π) (Reply φ π))}

theorem fromPort_of_setsUp {o : Op φ π} (h : SetsUp o) : FromPort port past o := by
  intro fd hfd
  cases o with
  | recvfrom | accept | goAsync => exact h.elim
  | _ => cases hfd

theorem openSocket_binds {type : Nat} {es : List (Event (Op φ π) (Reply φ π))} {fd : φ}
    (h : (openSocket type port : Service φ π φ).Runs es (.ok fd)) :
    ⟨.bind fd (anyAddress port), true⟩ ∈ es := by
  obtain ⟨_, es₁, rfl, h₁⟩ := Prog.runs_op.mp h
  obtain ⟨reply, es₂, rfl, h₂⟩ := Prog.runs_op.mp h₁
  rcases reply with _ | fd'
  · cases h₂
  obtain ⟨_, es₃, rfl, h₃⟩ := Prog.runs_op.mp h₂
  obtain ⟨bound, es₄, rfl, h₄⟩ := Prog.runs_op.mp h₃
  cases bound with
  | false => cases h₄
  | true =>
    cases h₄
    simp

theorem allPast_of_bound {α : Type} {p : Service φ π α} {fd : φ}
    (h : p.All (ReceivesOn fd))
    (hbound : ⟨.bind fd (anyAddress port), true⟩ ∈ past) : p.AllPast (FromPort port) past := by
  induction p generalizing past with
  | ret a => trivial
  | throw e => trivial
  | op o k ih =>
    refine ⟨fun x hx => ?_, fun r => ih r (h.2 r) (List.mem_append_left _ hbound)⟩
    rw [h.1 x hx]
    exact hbound

theorem SetsUp.receivesOn {o : Op φ π} (h : SetsUp o) (fd : φ) : ReceivesOn fd o := by
  intro x hx
  cases o with
  | recvfrom | accept | goAsync => exact h.elim
  | _ => cases hx

theorem serve_source {round : Service φ π Unit} {fd : φ}
    (hround : round.All (ReceivesOn fd)) (fuel : Nat) : (serve round fuel).All (ReceivesOn fd) :=
  serve_all (SetsUp.receivesOn (by trivial) fd) hround fuel

theorem udpRound_source (fd : φ) :
    (udpRound fd : Service φ π Unit).All (ReceivesOn fd) := by
  refine ⟨SetsUp.receivesOn (by trivial) fd, fun args => ?_⟩
  rcases args with _ | args
  · trivial
  refine ⟨SetsUp.receivesOn (by trivial) fd, fun buffer => ?_⟩
  rcases buffer with _ | ⟨pkt, bytes⟩
  · trivial
  refine ⟨fun x hx => (Option.some.inj hx).symm, fun reply => ?_⟩
  rcases reply with _ | ⟨received, clientAddress⟩
  · exact ⟨SetsUp.receivesOn (by trivial) fd, fun _ => trivial⟩
  · exact ⟨fun x hx => (by cases hx), fun _ => trivial⟩

theorem tcpRound_source (fd : φ) :
    (tcpRound fd : Service φ π Unit).All (ReceivesOn fd) := by
  refine ⟨SetsUp.receivesOn (by trivial) fd, fun args => ?_⟩
  rcases args with _ | args
  · trivial
  refine ⟨fun x hx => (Option.some.inj hx).symm, fun reply => ?_⟩
  rcases reply with _ | ⟨newSocketFd, clientAddress⟩
  · exact ⟨SetsUp.receivesOn (by trivial) fd, fun _ => trivial⟩
  · exact ⟨fun x hx => (by cases hx), fun _ => trivial⟩

theorem setupSignCatching_source (fd : φ) :
    (setupSignCatching : Service φ π Unit).All (ReceivesOn fd) :=
  setupSignCatching_all fun _ => SetsUp.receivesOn (by trivial) fd

theorem openSocket_allPast (type : Nat) :
    (openSocket type port : Service φ π φ).AllPast (FromPort port) past :=
  (openSocket_all (P := SetsUp) type port trivial trivial (fun _ => trivial) fun _ => trivial).allPast
    (R := FromPort port) fun _ _ ho => fromPort_of_setsUp ho

def portOf (extPort intPort : BitVec 16) : Role → BitVec 16
  | .internalUdp => intPort
  | .externalUdp | .tcp => extPort

/-- A server receives only from a socket that it has bound to its port. -/
theorem run_fromPort (extPort intPort : BitVec 16) (fuel : Nat) (server : Role) :
    (run extPort intPort fuel server : Service φ π Unit).AllPast
      (FromPort (portOf extPort intPort server)) [] := by
  have hudp (port : BitVec 16) :
      (runUdp port fuel : Service φ π Unit).AllPast (FromPort port) [] := by
    refine (openSocket_allPast 2).bind fun fd es hrun => ?_
    refine allPast_of_bound ?_ (openSocket_binds hrun)
    exact (setupSignCatching_source fd).bind fun _ => serve_source (udpRound_source fd) fuel
  have htcp (port : BitVec 16) :
      (runTcp port fuel : Service φ π Unit).AllPast (FromPort port) [] := by
    refine (openSocket_allPast 1).bind fun fd es hrun => ?_
    refine allPast_of_bound ⟨SetsUp.receivesOn (by trivial) fd, fun listening => ?_⟩
      (openSocket_binds hrun)
    cases listening with
    | false => trivial
    | true => exact (setupSignCatching_source fd).bind fun _ =>
        serve_source (tcpRound_source fd) fuel
  cases server with
  | internalUdp => exact hudp intPort
  | externalUdp => exact hudp extPort
  | tcp => exact htcp extPort

end Bound

end Ironhide.Proofs.Servers
