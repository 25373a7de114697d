import Ironhide.Model.Ingress
import Ironhide.Model.Egress

namespace Ironhide.Proofs.Classify
open Model Lib.Bytes Lib.Program PacketUtils Classifier

/-- The packet gets the id its type has in the chain map, and the step of a
handler that classifies it does not end the thread. -/
structure Classified (pkt : List Byte) (pktLen : Nat) : Prop where
  inBounds : (Classifier.classifyPkt pkt pktLen).inBounds = true
  chain : ∃ sfcid, sfcMap (setPkt pkt pktLen).value = some sfcid ∧
    (Classifier.classifyPkt pkt pktLen).value = .ok sfcid
  survives : ∀ myIp extPort, (Model.classifyPkt (Self.source myIp extPort) pkt pktLen :
    Handler Int String) ≠ .throw (.exn .outOfRange)

/-- The protocols the mapper has a type of its own for. A header length below 3
leaves the protocol byte of the struct uncopied, and zero. -/
def KnownProtocol (pkt : List Byte) : Prop :=
  (retrieveIpHeader pkt).value.protocol = 6 ∨ (retrieveIpHeader pkt).value.protocol = 17

theorem setPkt_short {pkt : List Byte} {pktLen : Nat} (h : pktLen ≤ ipHdrLen) :
    setPkt pkt pktLen = ⟨.default, []⟩ := if_neg (Nat.not_lt.mpr h)

theorem setPkt_long {pkt : List Byte} {pktLen : Nat} (h : ipHdrLen < pktLen) :
    (setPkt pkt pktLen).copies = (retrieveIpHeader pkt).copies ∧
      ((setPkt pkt pktLen).value = .default ↔ ¬ KnownProtocol pkt) := by
  unfold setPkt KnownProtocol
  rw [if_pos h]
  refine ⟨rfl, ?_⟩
  dsimp only
  split
  · rename_i h6
    simp [h6]
  · rename_i h6
    split
    · rename_i h17
      simp [h17]
    · rename_i h17
      exact ⟨fun _ hknown => hknown.elim h6 h17, fun _ => rfl⟩

/-- Packets too short to inspect, and packets of other protocols, are of the
default type. -/
theorem setPkt_default_iff (pkt : List Byte) (pktLen : Nat) :
    (setPkt pkt pktLen).value = .default ↔ (ipHdrLen < pktLen → ¬ KnownProtocol pkt) := by
  by_cases hlen : ipHdrLen < pktLen
  · rw [(setPkt_long hlen).2]
    exact ⟨fun h _ => h, fun h => h hlen⟩
  · rw [setPkt_short (Nat.not_lt.mp hlen)]
    exact ⟨fun _ h => absurd h hlen, fun _ => rfl⟩

/-- Only a packet that is looked at can make the copy of its header overrun. -/
theorem classifyPkt_inBounds (pkt : List Byte) (pktLen : Nat) :
    (Classifier.classifyPkt pkt pktLen).inBounds = true ↔
      (ipHdrLen < pktLen → ipPktLen pkt ≤ ipHdrLen) := by
  unfold Classifier.classifyPkt
  rw [Copied.inBounds_mk]
  by_cases hlen : ipHdrLen < pktLen
  · rw [Copied.inBounds, (setPkt_long hlen).1, ← Copied.inBounds, retrieveIpHeader_inBounds,
      decide_eq_true_iff]
    exact ⟨fun h _ => h, fun h => h hlen⟩
  · rw [setPkt_short (Nat.not_lt.mp hlen)]
    exact ⟨fun _ h => absurd h hlen, fun _ => rfl⟩

/-- The default type is no key of the chain map, and `at` throws. -/
theorem classifyPkt_default {pkt : List Byte} {pktLen : Nat}
    (h : (setPkt pkt pktLen).value = .default) :
    (Classifier.classifyPkt pkt pktLen).value = .error .outOfRange := by
  unfold Classifier.classifyPkt
  dsimp only
  rw [h]
  rfl

theorem classifyPkt_filed {pkt : List Byte} {pktLen : Nat}
    (h : (setPkt pkt pktLen).value ≠ .default) :
    sfcMap (setPkt pkt pktLen).value = some "0" ∧
      (Classifier.classifyPkt pkt pktLen).value = .ok "0" := by
  unfold Classifier.classifyPkt
  dsimp only
  cases ht : (setPkt pkt pktLen).value with
  | default => exact absurd ht h
  | tcp => exact ⟨rfl, rfl⟩
  | udp => exact ⟨rfl, rfl⟩

section Handlers
variable {φ : Type} {myIp : String} {extPort : BitVec 16} {pkt : List Byte} {pktLen : Nat}

theorem classifyPkt_throws (hin : (Classifier.classifyPkt pkt pktLen).inBounds = true)
    (h : (setPkt pkt pktLen).value = .default) :
    (Model.classifyPkt (Self.source myIp extPort) pkt pktLen : Handler φ String) =
      .throw (.exn .outOfRange) := by
  unfold Model.classifyPkt Self.source
  rw [checked_ok hin, Prog.ret_bind, classifyPkt_default h, raise_error]

/-- The three places that classify a packet: a datagram of a client, what a
client's connection brings, an answer. None of them gets past it. -/
theorem handlers_end (hin : (Classifier.classifyPkt pkt pktLen).inBounds = true)
    (h : (setPkt pkt pktLen).value = .default) :
    (∀ args : UdpArgs φ, args.pkt = pkt → args.pktLen = pktLen →
      Ingress.manageEnteringUdpPackets (Self.source myIp extPort) args =
        .throw (.exn .outOfRange)) ∧
    (∀ (args : TcpArgs φ) (st : Ingress.Entering) (received : List Byte),
      overwrite st.pkt received = pkt → received.length = pktLen →
      Ingress.enteringRound (Self.source myIp extPort) args st received =
        .throw (.exn .outOfRange)) ∧
    ∀ (header : SfcHeader) (noRoute again : Bool),
      (Egress.sendBack (Self.source myIp extPort) header pkt pktLen noRoute again :
        Handler φ Bool) = .throw (.exn .outOfRange) := by
  have hstep : (Model.classifyPkt (Self.source myIp extPort) pkt pktLen : Handler φ String) =
      .throw (.exn .outOfRange) := classifyPkt_throws hin h
  refine ⟨?_, ?_, ?_⟩
  · rintro args rfl rfl
    unfold Ingress.manageEnteringUdpPackets
    rw [hstep, Prog.throw_bind]
  · rintro args st received rfl rfl
    unfold Ingress.enteringRound
    dsimp only
    rw [hstep, Prog.throw_bind]
  · intro header noRoute again
    unfold Egress.sendBack
    rw [hstep, Prog.throw_bind]

end Handlers

/-- A packet is classified exactly when it is longer than an IP header, its
first byte does not declare a longer one, and its protocol is TCP or UDP. -/
theorem classified_iff (pkt : List Byte) (pktLen : Nat) :
    Classified pkt pktLen ↔
      ipHdrLen < pktLen ∧ ipPktLen pkt ≤ ipHdrLen ∧ KnownProtocol pkt := by
  constructor
  · intro h
    obtain ⟨sfcid, hchain, -⟩ := h.chain
    have hfiled : (setPkt pkt pktLen).value ≠ .default := by
      intro hdefault
      rw [hdefault] at hchain
      cases hchain
    rw [Ne, setPkt_default_iff, Classical.not_imp, Classical.not_not] at hfiled
    obtain ⟨hlen, hknown⟩ := hfiled
    exact ⟨hlen, (classifyPkt_inBounds pkt pktLen).mp h.inBounds hlen, hknown⟩
  · intro hparts
    obtain ⟨hlen, hfits, hknown⟩ := hparts
    have hin := (classifyPkt_inBounds pkt pktLen).mpr fun _ => hfits
    have hfiled : (setPkt pkt pktLen).value ≠ .default := by
      intro hdefault
      exact (setPkt_default_iff pkt pktLen).mp hdefault hlen hknown
    obtain ⟨hchain, hvalue⟩ := classifyPkt_filed hfiled
    refine ⟨hin, ⟨"0", hchain, hvalue⟩, fun myIp extPort hstep => ?_⟩
    unfold Model.classifyPkt Self.source at hstep
    rw [checked_ok hin, Prog.ret_bind, hvalue, raise_ok] at hstep
    cases hstep

def echoRequest : List Byte :=
  [0x45, 0, 0, 28, 0, 0, 0, 0, 64, 1, 0, 0, 10, 0, 0, 1, 10, 0, 1, 1, 8, 0, 0xf7, 0xff, 0, 0, 0, 0]

theorem echo_request_not_classified : ¬ ∀ pkt : List Byte, Classified pkt pkt.length := by
  intro h
  obtain ⟨sfcid, hchain, -⟩ := (h echoRequest).chain
  have hdefault : (setPkt echoRequest echoRequest.length).value = .default := by decide
  rw [hdefault] at hchain
  cases hchain

end Ironhide.Proofs.Classify
