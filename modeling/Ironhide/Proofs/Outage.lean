import Ironhide.Model.Egress
import Ironhide.Proofs.Keys

namespace Ironhide.Proofs.Outage
open Model Lib.Bytes Lib.Program Keys

variable {φ α : Type}

/-- What the servers of the two proxies run, each in a thread of its own. -/
inductive Callback (φ : Type) where
  | ingress (callback : Ingress.Callback φ)
  | egress (callback : Egress.Callback φ)

def start [Descriptor φ] (self : Self) : Callback φ → Handler φ Unit
  | .ingress callback => Ingress.start self callback
  | .egress callback => Egress.start self callback

def isFailure : Except Exn α → Bool
  | .error (.failure _) => true
  | _ => false

def failed : Event (Op φ) (Reply φ) → Bool
  | ⟨.addEntry .., r⟩ => isFailure r
  | ⟨.updateEntry .., r⟩ => isFailure r
  | ⟨.deleteEntry _, r⟩ => isFailure r
  | ⟨.getRouteList _, r⟩ => isFailure r
  | _ => false

def Escaped : Stop → Prop
  | .exn (.failure _) => True
  | _ => False

/-- The requests of a handler that stand inside a `try` block: the registration
and the route lookup of the TCP server's handler. -/
def caught : Callback φ → Op φ → Bool
  | .ingress (.tcp ..), .addEntry .. => true
  | .ingress (.tcp ..), .getRouteList _ => true
  | _, _ => false

section Escapes
variable {inTry : Op φ → Bool}

/-- A failed request that `inTry` does not mark, and nothing else, ends the
program with the failure. -/
structure Escapes (inTry : Op φ → Bool) (p : Handler φ α) : Prop where
  raises : p.Raises (fun e => failed e = true ∧ inTry e.op = false) Escaped

theorem Escapes.bind {β : Type} {p : Handler φ α} {f : α → Handler φ β} (h : Escapes inTry p)
    (hf : ∀ a, Escapes inTry (f a)) : Escapes inTry (p >>= f) :=
  ⟨h.raises.bind fun a => (hf a).raises⟩

theorem Escapes.ret (a : α) : Escapes inTry (.ret a : Handler φ α) := ⟨trivial⟩

theorem Escapes.throw {stop : Stop} (h : ¬ Escaped stop) :
    Escapes inTry (.throw stop : Handler φ α) := ⟨h⟩

/-- An operation that is no request. -/
theorem Escapes.op {o : Op φ} {k : Reply φ o → Handler φ α}
    (h : ∀ r, failed (⟨o, r⟩ : Event (Op φ) (Reply φ)) = false)
    (hk : ∀ r, Escapes inTry (k r)) : Escapes inTry (.op o k) := by
  refine ⟨fun r => .inr ⟨fun hfailed => ?_, (hk r).raises⟩⟩
  have hr := hfailed.1
  rw [h r] at hr
  cases hr

theorem raise_escaped {x : Except Exn α} (h : isFailure x = true) :
    ∃ stop, (raise x : Handler φ α) = .throw stop ∧ Escaped stop := by
  unfold isFailure at h
  split at h
  · exact ⟨_, rfl, trivial⟩
  · cases h

theorem raise_escapes {x : Except Exn α} (h : isFailure x = false) :
    Escapes inTry (raise x : Handler φ α) := by
  cases x with
  | ok a => exact .ret a
  | error x =>
    apply Escapes.throw
    intro hx
    cases x with
    | failure w => cases h
    | _ => exact hx

/-- A request whose answer is let through. -/
theorem Escapes.request {o : Op φ} {answer : Reply φ o → Except Exn α} (h : inTry o = false)
    (hr : ∀ r, failed (⟨o, r⟩ : Event (Op φ) (Reply φ)) = isFailure (answer r)) :
    Escapes inTry (.op o fun r => raise (answer r)) := by
  refine ⟨fun r => ?_⟩
  cases hf : isFailure (answer r) with
  | true => exact .inl ⟨⟨(hr r).trans hf, h⟩, raise_escaped hf⟩
  | false =>
    refine .inr ⟨fun hfailed => ?_, (raise_escapes hf).raises⟩
    have hfr := hfailed.1
    rw [hr r, hf] at hfr
    cases hfr

/-- Inside the `try` block the failures of the requests marked do not get out. -/
theorem Escapes.try {p : Handler φ Ingress.Turn}
    (h : p.All fun o => ∀ r, failed (⟨o, r⟩ : Event (Op φ) (Reply φ)) = true → inTry o = true) :
    Escapes inTry (p.rescue Ingress.catchFailure) := by
  refine ⟨Prog.Raises.rescue ?_ ?_⟩
  · refine h.mono fun o ho r hfailed => ?_
    have htry := ho r hfailed.1
    rw [hfailed.2] at htry
    cases htry
  · intro stop
    unfold Ingress.catchFailure
    split
    · trivial
    · rename_i hstop
      intro hescaped
      unfold Escaped at hescaped
      split at hescaped
      · exact hstop _ rfl
      · exact hescaped

theorem checked_escapes (c : Copied α) : Escapes inTry (checked c : Handler φ α) := by
  unfold checked
  split
  · exact .ret _
  · exact .throw id

/-- The source's classifier throws `std::out_of_range` only. -/
theorem classifyPkt_escapes (myIp : String) (extPort : BitVec 16) (pkt : List Byte) (pktLen : Nat) :
    Escapes inTry (classifyPkt (Self.source myIp extPort) pkt pktLen : Handler φ String) := by
  rw [classifyPkt_source]
  split
  · split
    · split
      · exact .ret _
      · exact .throw id
    · exact .throw id
  · exact .throw id

theorem servicePathId_escapes (sfcid : String) :
    Escapes inTry (servicePathId sfcid : Handler φ (BitVec 32)) := by
  unfold servicePathId stoi
  apply Escapes.bind
  · apply raise_escapes
    split <;> rfl
  · exact fun n => .ret _

theorem getRouteList_escapes (h : ∀ pId, inTry (.getRouteList pId) = false) (sfcid : String) :
    Escapes inTry (getRouteList sfcid : Handler φ (List Address)) := by
  unfold getRouteList
  exact (servicePathId_escapes sfcid).bind fun pId => .request (h pId) fun _ => rfl

theorem forward_escapes (sfcid : String) (path : List Address) (hop : Address) (saddr : BitVec 32)
    (source : BitVec 16) (daddr : BitVec 32) (dest : BitVec 16) (direction : Byte)
    (pkt : List Byte) (size : Nat) :
    Escapes inTry (forward sfcid path hop saddr source daddr dest direction pkt size :
      Handler φ Unit) := by
  unfold forward
  refine (servicePathId_escapes sfcid).bind fun pId => .op (fun _ => rfl) fun resolved => ?_
  cases resolved with
  | true => exact .ret ()
  | false => exact .throw id

end Escapes

section Handlers
variable {inTry : Op φ → Bool} (myIp : String) (extPort : BitVec 16)

theorem enteringRound_escapes (args : TcpArgs φ) (pkt : List Byte) (fuel : Nat)
    (st : Ingress.Entering) (received : List Byte) :
    Escapes (caught (.ingress (.tcp args pkt fuel)))
      (Ingress.enteringRound (Self.source myIp extPort) args st received) := by
  unfold Ingress.enteringRound
  refine (classifyPkt_escapes _ _ _ _).bind fun sfcid => ?_
  dsimp only
  split
  · refine (checked_escapes _).bind fun headers => ?_
    refine Escapes.bind (.try (Ingress.tryForward_all ?_ ?_ ?_ _ _)) fun turn => ?_
    · exact fun _ _ _ => rfl
    · exact fun _ _ _ => rfl
    · exact fun _ _ _ _ hfailed => absurd hfailed Bool.false_ne_true
    · cases turn <;> exact .ret _
  · exact .ret _

theorem manageEnteringTcpPackets_escapes (args : TcpArgs φ) (pkt : List Byte) (fuel : Nat) :
    Escapes (caught (.ingress (.tcp args pkt fuel)))
      (Ingress.manageEnteringTcpPackets (Self.source myIp extPort) args pkt fuel) := by
  have hloop (n : Nat) (st : Ingress.Entering) :
      Escapes (caught (.ingress (.tcp args pkt fuel)))
        (Ingress.enteringLoop (Self.source myIp extPort) args n st) := by
    induction n generalizing st with
    | zero => exact .throw id
    | succ n ih =>
      refine .op (fun _ => rfl) fun reply => ?_
      match reply with
      | none => exact .throw id
      | some [] => exact .ret _
      | some (b :: bs) =>
        refine (enteringRound_escapes myIp extPort args pkt fuel st (b :: bs)).bind fun next => ?_
        dsimp only
        split
        · exact ih _
        · exact .ret _
  refine (hloop fuel _).bind fun last => ?_
  unfold Ingress.afterLoop
  apply Escapes.bind
  · split
    · exact .request rfl fun _ => rfl
    · exact .ret ()
  · intro _
    split
    · exact .op (fun _ => rfl) fun _ => .ret ()
    · exact .ret ()

theorem manageEnteringUdpPackets_escapes (args : UdpArgs φ) :
    Escapes (caught (.ingress (.udp args)))
      (Ingress.manageEnteringUdpPackets (Self.source myIp extPort) args) := by
  unfold Ingress.manageEnteringUdpPackets
  refine (classifyPkt_escapes _ _ _ _).bind fun sfcid => ?_
  refine (checked_escapes _).bind fun headers => ?_
  refine Escapes.bind (.request rfl fun _ => rfl) fun _ => ?_
  refine (getRouteList_escapes (fun _ => rfl) sfcid).bind fun path => ?_
  cases path with
  | nil => exact .ret ()
  | cons hop hops => exact forward_escapes ..

theorem ingress_managePktFromChain_escapes (args : UdpArgs φ) :
    Escapes (caught (.ingress (.vnf args))) (Ingress.managePktFromChain args) := by
  have hpayload (pktCalc : Nat) :
      Escapes (caught (.ingress (.vnf args))) (Ingress.payloadFrom args pktCalc) := by
    unfold Ingress.payloadFrom
    split
    · exact .ret _
    · exact .throw id
  unfold Ingress.managePktFromChain
  refine .op (fun _ => rfl) fun _ => ?_
  refine (checked_escapes _).bind fun ipHdr => .op (fun _ => rfl) fun sock => ?_
  cases connType ipHdr.protocol
  · refine (hpayload _).bind fun payload => .op (fun _ => rfl) fun (respC : Int) => ?_
    change Escapes _ (if respC < 0 then _ else _)
    split
    · exact .throw id
    · exact .op (fun _ => rfl) fun _ => .op (fun _ => rfl) fun _ => .ret ()
  · refine (hpayload _).bind fun payload => .op (fun _ => rfl) fun (respC : Int) => ?_
    change Escapes _ (if respC < 0 then _ else _)
    split
    · exact .throw id
    · exact .request rfl fun _ => rfl

section Egress
variable (callback : Egress.Callback φ)

theorem egress_caught (o : Op φ) : caught (.egress callback) o = false := by
  cases o <;> rfl

theorem sendBack_escapes (header : SfcHeader) (received : List Byte) (receivedLen : Nat)
    (noRoute again : Bool) :
    Escapes (caught (.egress callback)) (Egress.sendBack (Self.source myIp extPort) header received
      receivedLen noRoute again) := by
  unfold Egress.sendBack
  refine (classifyPkt_escapes _ _ _ _).bind fun sfcid => ?_
  refine (getRouteList_escapes (fun _ => egress_caught _ _) sfcid).bind fun path => ?_
  cases path with
  | nil => exact .ret _
  | cons hop hops => exact (forward_escapes ..).bind fun _ => .ret _

theorem exitingUdpLoop_escapes (header : SfcHeader) (rawSocket : φ) (n : Nat) (buffer : List Byte) :
    Escapes (caught (.egress callback))
      (Egress.exitingUdpLoop (Self.source myIp extPort) header rawSocket n buffer) := by
  induction n generalizing buffer with
  | zero => exact .throw id
  | succ n ih =>
    refine .op (fun _ => rfl) fun reply => ?_
    match reply with
    | none => exact .throw id
    | some [] => exact .ret ()
    | some (b :: bs) =>
      refine (sendBack_escapes myIp extPort callback header _ _ _ _).bind fun again => ?_
      cases again with
      | false => exact .ret ()
      | true => exact ih _

theorem exitingTcpLoop_escapes (header : SfcHeader) (socket : φ) (n : Nat)
    (received : List Byte) :
    Escapes (caught (.egress callback))
      (Egress.exitingTcpLoop (Self.source myIp extPort) header socket n received) := by
  induction n generalizing received with
  | zero => exact .throw id
  | succ n ih =>
    refine .op (fun _ => rfl) fun reply => ?_
    match reply with
    | none => exact .throw id
    | some [] => exact .ret ()
    | some (b :: bs) =>
      refine (sendBack_escapes myIp extPort callback header _ _ _ _).bind fun again => ?_
      cases again with
      | false => exact .ret ()
      | true => exact ih _

theorem manageExitingUdpPackets_escapes (pkt : List Byte) (pktLen : Nat) (ce : ConnectionEntry)
    (sock : φ) (datagram buffer : List Byte) (fuel : Nat) :
    Escapes (caught (.egress callback)) (Egress.manageExitingUdpPackets
      (Self.source myIp extPort) pkt pktLen ce sock datagram buffer fuel) := by
  unfold Egress.manageExitingUdpPackets
  dsimp only
  apply Escapes.bind
  · refine .op (fun _ => rfl) fun reply => ?_
    cases reply with
    | none => exact .throw id
    | some s => exact .ret s
  · intro s
    split
    · exact .throw id
    · apply Escapes.bind
      · refine .op (fun _ => rfl) fun reply => ?_
        cases reply with
        | none => exact .throw id
        | some rawSocket =>
          refine .op (fun _ => rfl) fun bound => ?_
          cases bound with
          | true => exact .ret _
          | false => exact .op (fun _ => rfl) fun _ => .throw id
      · intro rawSocket
        refine .op (fun _ => rfl) fun (sent : Int) => ?_
        change Escapes _ (if sent < 0 then _ else _)
        split
        · exact .throw id
        · refine Escapes.bind (.request (egress_caught _ _) fun _ => rfl) fun _ => ?_
          exact exitingUdpLoop_escapes ..

theorem manageExitingTcpPackets_escapes [Descriptor φ] (pkt : List Byte) (pktLen : Nat)
    (ce : ConnectionEntry) (socket : φ) (received : List Byte) (fuel : Nat) :
    Escapes (caught (.egress callback)) (Egress.manageExitingTcpPackets
      (Self.source myIp extPort) pkt pktLen ce socket received fuel) := by
  unfold Egress.manageExitingTcpPackets
  dsimp only
  split
  · exact .throw id
  · apply Escapes.bind
    · by_cases hs : Descriptor.num socket = -1
      · rw [Egress.destination_new _ _ _ hs]
        refine .op (fun _ => rfl) fun reply => ?_
        cases reply with
        | none => exact .throw id
        | some new => exact Escapes.bind (.request (egress_caught _ _) fun _ => rfl) fun _ => .ret _
      · rw [Egress.destination_known _ _ _ hs]
        exact .ret _
    · exact fun socket => .op (fun _ => rfl) fun _ => exitingTcpLoop_escapes ..

theorem egress_managePktFromChain_escapes (args : UdpArgs φ) :
    Escapes (caught (.egress callback)) (Egress.managePktFromChain args) := by
  unfold Egress.managePktFromChain
  refine .op (fun _ => rfl) fun _ => ?_
  refine (checked_escapes _).bind fun headers => .op (fun _ => rfl) fun sock => ?_
  cases connType headers.1.protocol
  · exact .op (fun _ => rfl) fun _ => .ret ()
  · exact .op (fun _ => rfl) fun _ => .ret ()

end Egress

theorem start_escapes [Descriptor φ] (g : Callback φ) :
    Escapes (caught g) (start (Self.source myIp extPort) g) := by
  match g with
  | .ingress (.tcp ..) => exact manageEnteringTcpPackets_escapes ..
  | .ingress (.udp _) => exact manageEnteringUdpPackets_escapes ..
  | .ingress (.vnf _) => exact ingress_managePktFromChain_escapes _
  | .egress (.vnf _) => exact egress_managePktFromChain_escapes ..
  | .egress (.task (.exitingTcp ..) ..) => exact manageExitingTcpPackets_escapes ..
  | .egress (.task (.exitingUdp _ _ _ sock) ..) =>
    exact manageExitingUdpPackets_escapes _ _ _ _ _ _ sock _ _ _

end Handlers

/-- The failure of a request does not leave the thread function exactly when
every request that fails stands inside the `try` block of the TCP server's handler. -/
theorem failure_contained_iff [Descriptor φ] (myIp : String) (extPort : BitVec 16) (g : Callback φ)
    (es : List (Event (Op φ) (Reply φ))) (out : Except Stop Unit)
    (h : (start (Self.source myIp extPort) g).Runs es out) :
    (∀ w, out ≠ .error (.exn (.failure w))) ↔
      ∀ e ∈ es, failed e = true → caught g e.op = true := by
  have hraises := h.raises (start_escapes myIp extPort g).raises
  constructor
  · intro hout e he hfailed
    cases htry : caught g e.op with
    | true => rfl
    | false =>
      obtain ⟨stop, hstop, hescaped⟩ := hraises.mpr ⟨e, he, hfailed, htry⟩
      unfold Escaped at hescaped
      split at hescaped
      · exact absurd hstop (hout _)
      · exact hescaped.elim
  · intro hall w hw
    obtain ⟨e, he, hfailed, htry⟩ := hraises.mp ⟨_, hw, trivial⟩
    rw [hall e he hfailed] at htry
    cases htry

def noRoutes (cs : List (List Byte)) : (o : Op Int) → Reply Int o × List (List Byte)
  | .getRouteList _ =>
    (.error (.failure "Error while making the requestto route backend"), cs)
  | o => grant 7 (Address.ofParts "10.0.0.7" 9000) cs o

def tcpOutage : List (Event (Op Int) (Reply Int)) × Except Stop Unit :=
  (start proxy (.ingress (.tcp ⟨5, SockaddrIn.zero⟩ [] 3))).exec noRoutes [Framing.tcpPacket]

theorem tcp_contained : (∃ e ∈ tcpOutage.1, failed e = true) ∧
    ∀ w, tcpOutage.2 ≠ .error (.exn (.failure w)) :=
  ⟨by decide +kernel, (failure_contained_iff "10.0.0.9" 57000 _ _ _ (Prog.runs_exec _ _ _)).mpr
    (by decide +kernel)⟩

/-- The same outage at a client's datagram. -/
theorem udp_failure_escapes :
    ¬ ∀ (g : Callback Int) (es : List (Event (Op Int) (Reply Int))) (out : Except Stop Unit),
      (start proxy g).Runs es out → ∀ w, out ≠ .error (.exn (.failure w)) := by
  intro h
  refine h _ _ _ (Prog.runs_exec noRoutes
    (start proxy (.ingress (.udp (udpArgs udpPacket.bytes)))) [])
    "Error while making the requestto route backend" ?_
  decide +kernel

end Ironhide.Proofs.Outage
