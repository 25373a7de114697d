import Ironhide.Proofs.EndToEnd

namespace Ironhide.Proofs.Answered
open Model Lib.Bytes Lib.Text Lib.Program Lib.StdMap Lib.SearchTree Lib.Threads
open Lib.Threads.System Lib.Schedule Lib.Relaying Lib.Hosting Lib.Passing PacketUtils SfcUtilities
open Observed Servers Process Table Keys Translation Returning EndToEnd

section Egress
variable {sh : Shaping ConnectionEntry} {self : Self} {intPort : BitVec 16}
  {guard : Bool × DeadConnections.State sh → List (ProcessThread (Egress.Callback Int)) →
    Server.Thread ⊕ Egress.Callback Int → ProcessOp → Prop}
  {P : EgressProcess.EgressPool sh}

/-- What a task has received, with the ends that the header of its frame names. -/
def responsesTo (t : ProcessThread (Egress.Callback Int)) : List (Ends × List Byte) :=
  match t.tag with
  | .inr (.task task ..) => seen (takes (Prod.mk (headerEnds (retrieveHeader (taskPkt task))))) t
  | _ => []

/-- What the tasks of an egress have received from servers. -/
def responses (P : EgressProcess.EgressPool sh) : List (Ends × List Byte) :=
  P.threads.flatMap responsesTo

def answers (P : EgressProcess.EgressPool sh) : List (List Byte) :=
  P.threads.flatMap (seenOfTask fun e => Observed.message e.op)

/-- Every frame an egress sends off is made of something a server has sent, no
two of the same. -/
theorem answers_framedBack
    (h : Reachable (EgressProcess.process sh self intPort) guard
      (EgressProcess.start sh self intPort) P) :
    AtMostOnce FramedBack (responses P) (answers P) := by
  refine .flatMap fun t ht => ?_
  obtain ⟨tag, past, p⟩ := t
  match tag with
  | .inl tag => exact .nil
  | .inr (.vnf args) => exact .nil
  | .inr (.task task datagram buffer fuel) =>
    obtain ⟨es, q, rfl, hthread⟩ := guest_reaches h ht
    have hmade := (task_returns self task datagram buffer fuel).reaches hthread
    change AtMostOnce FramedBack (seen (takes _) _) (seen _ _)
    rwa [seen_right, seen_right]

end Egress

section Ingress
variable {sh : Shaping ConnectionEntry} {self : Self} {intPort : BitVec 16}
  {guard : Bool × IngressRuns.State (stdMap sh) → List (ProcessThread (Ingress.Callback Int)) →
    Server.Thread ⊕ Ingress.Callback Int → ProcessOp → Prop}
  {P : IngressProcess.IngressPool (stdMap sh)}

def chainDatagram : Message Int → Option (List Byte)
  | .datagram .internalUdp _ _ bytes => some bytes
  | _ => none

def arrived (P : IngressProcess.IngressPool (stdMap sh)) : List (List Byte) :=
  (P.threads.flatMap (taken received)).filterMap chainDatagram

/-- What the handler of a frame has sent to a client, through which socket: all
but the acknowledgement, which is the first thing it sends. -/
def returnedBy (t : ProcessThread (Ingress.Callback Int)) : List (Int × Output) :=
  match t.tag with
  | .inr (.vnf _) => (t.past.drop 1).filterMap (ofHandler fun e => writesOn e.op)
  | _ => []

def returned (P : IngressProcess.IngressPool (stdMap sh)) : List (Int × Output) :=
  P.threads.flatMap returnedBy

/-- The thing goes to where the table has pointed, when asked for the ends that the
header of a frame names and the protocol of the thing. -/
def Found (P : IngressProcess.IngressPool (stdMap sh)) (frame : List Byte) (w : Int × Output) :
    Prop :=
  ∃ t ∈ P.threads, ∃ sock, (headerEntry (retrieveHeader frame) w.2.prt, sock) ∈
    seen IngressProcess.lookup t ∧ SentTo sock w

/-- What a handler returns for its frame, to where the table has pointed. -/
theorem returnedBy_made {args : UdpArgs Int} {past : List HandlerEvent}
    {p : Prog ProcessOp ProcessReply (Server.Stop ⊕ Stop) Unit} {q : Handler Int Unit}
    (ht : ⟨.inr (.vnf args), past.map rightEvent, p⟩ ∈ P.threads)
    (hlen : args.pktLen ≤ args.pkt.length)
    (hreach : (Ingress.managePktFromChain args).Reaches past q) :
    AtMostOnce (fun frame w => Returns frame w.2 ∧ Found P frame w) [args.pkt.take args.pktLen]
      (returnedBy ⟨.inr (.vnf args), past.map rightEvent, p⟩) := by
  rw [managePktFromChain_afterAck] at hreach
  obtain ⟨rfl, _⟩ | ⟨sent, past, rfl, hafter⟩ := Prog.reaches_op.mp hreach
  · exact .nil
  have hreturned : returnedBy ⟨.inr (.vnf args),
      (⟨.sendto args.socketFd PacketUtils.ack args.clientAddress, sent⟩ :: past).map rightEvent, p⟩ =
      past.filterMap fun e => writesOn e.op :=
    seen_right (fun e => writesOn e.op) (Ingress.Callback.vnf args) past p
  rw [hreturned]
  have hmade := (afterAck_passes hlen).reaches hafter
  rw [filterMap_takesNothing, List.append_nil] at hmade
  refine hmade.imp_mem fun frame hframe w hw hreturns => ⟨hreturns, ?_⟩
  cases List.mem_singleton.mp hframe
  obtain ⟨e, he, hwrites⟩ := List.mem_filterMap.mp hw
  obtain ⟨before, after, rfl⟩ := List.append_of_mem he
  obtain ⟨sock, hmem, hsent⟩ := hafter.allPast (afterAck_toFound args []) rfl w hwrites
  obtain ⟨_, _, hheader⟩ := frame_split hlen (hreturns.1.trans (List.length_take_le _ _))
  rw [hheader, List.nil_append] at hmem
  refine ⟨_, ht, sock, List.mem_filterMap.mpr
    ⟨rightEvent ⟨.retrieveConnection2 _, sock⟩, List.mem_map_of_mem ?_, rfl⟩, hsent⟩
  exact List.mem_cons_of_mem _ (List.mem_append_left _ hmem)

def frameOf (t : ProcessThread (Ingress.Callback Int)) : Option (List Byte) :=
  (handling (messageOf IngressProcess.message) t).bind chainDatagram

/-- What an ingress returns to its clients is made of frames from the chain, no
two of the same. -/
theorem returned_made (h : Reachable (IngressProcess.process (stdMap sh) self intPort) guard
    (IngressProcess.start (stdMap sh) self intPort) P) :
    AtMostOnce (fun frame w => Returns frame w.2 ∧ Found P frame w) (arrived P) (returned P) := by
  have hthreads : AtMostOnce (fun frame w => Returns frame w.2 ∧ Found P frame w)
      (P.threads.flatMap fun t => (frameOf t).toList) (returned P) := by
    refine .flatMap fun t ht => ?_
    have hsized := IngressProcess.givenSized h t ht
    obtain ⟨tag, past, p⟩ := t
    match tag with
    | .inl tag => exact .nil
    | .inr (.tcp ..) => exact .nil
    | .inr (.udp args) => exact .nil
    | .inr (.vnf args) =>
      obtain ⟨es, q, rfl, hthread⟩ := guest_reaches h ht
      exact returnedBy_made ht hsized hthread
  refine hthreads.mono_in ?_
  rw [← List.filterMap_eq_flatMap_toList]
  have hsub := messages_subperm IngressProcess.manages_message IngressProcess.born_nil h chainDatagram
  rwa [List.filterMap_filterMap] at hsub

end Ingress

section Responses
variable {sh sh' : Shaping ConnectionEntry} {self self' : Self} {intPort intPort' : BitVec 16}
  {guard : Bool × IngressRuns.State (stdMap sh) → List (ProcessThread (Ingress.Callback Int)) →
    Server.Thread ⊕ Ingress.Callback Int → ProcessOp → Prop}
  {guard' : Bool × DeadConnections.State sh' → List (ProcessThread (Egress.Callback Int)) →
    Server.Thread ⊕ Egress.Callback Int → ProcessOp → Prop}
  {I : IngressProcess.IngressPool (stdMap sh)} {E : EgressProcess.EgressPool sh'}

/-- A client that the ingress's servers have received from, and of whose bytes its
handler reads these ends. -/
def Heard (I : IngressProcess.IngressPool (stdMap sh)) (prt : ProtocolType) (ends : Ends)
    (sock : Int × SockaddrIn) : Prop :=
  ∃ b, IngressProcess.Served I sock b ∧ b.prt = prt ∧ b.ends = ends

theorem heard_of_known {hdr : SfcHeader} {prt : ProtocolType} {sock : Int × SockaddrIn}
    (h : IngressProcess.Known I self (headerEntry hdr prt) sock) :
    Heard I prt (headerEnds hdr) sock := by
  obtain ⟨b, hserved, hkey⟩ := h
  obtain ⟨sfcid, _, hsame⟩ := Option.map_eq_some_iff.mp hkey
  obtain ⟨hsaddr, hdaddr, hsource, hdest, _, hprt⟩ := ConnectionEntry.mk.inj hsame
  refine ⟨b, hserved, hprt, ?_⟩
  generalize b.ends = ends at hsaddr hdaddr hsource hdest
  obtain ⟨saddr, daddr, source, dest⟩ := ends
  cases inetNtoa_injective hsaddr
  cases inetNtoa_injective hdaddr
  cases htons_injective hsource
  cases htons_injective hdest
  rfl

/-- The thing is the payload of a response, and goes to where the lookup for it has
pointed: a client with the ends of the frame that was answered, or nowhere. -/
def ReturnedTo (I : IngressProcess.IngressPool (stdMap sh)) (response : Ends × List Byte)
    (w : Int × Output) : Prop :=
  Carries w.2.prt response.2 w.2.bytes ∧ ∃ sock, SentTo sock w ∧
    (sock = (Descriptor.notFound, SockaddrIn.zero) ∨ Heard I w.2.prt response.1 sock)

/-- An ingress and an egress in whatever states they can reach, joined by a chain
that may lose frames and change their order: what the ingress returns to clients
is the payload of packets that servers have sent to the egress, none of them
twice, and it goes to a client of whose bytes the very ends were read that the
egress had the answered frame for. -/
theorem responses_returned
    (hI : Reachable (IngressProcess.process (stdMap sh) self intPort) guard
      (IngressProcess.start (stdMap sh) self intPort) I)
    (hE : Reachable (EgressProcess.process sh' self' intPort') guard'
      (EgressProcess.start sh' self' intPort') E)
    (hchain : AtMostOnce Carried (answers E) (arrived I)) :
    AtMostOnce (ReturnedTo I) (responses E) (returned I) := by
  refine (((answers_framedBack hE).trans hchain).trans (returned_made hI)).imp ?_
  rintro ⟨ends, bytes⟩ w ⟨frame, ⟨m, ⟨hdr, rfl, hends⟩, hcarried⟩, ⟨_, hcarries⟩, hfound⟩
  have hframe : frame.drop headerSize = bytes :=
    hcarried.packet.trans (Framing.drop_bytes_append hdr bytes)
  have hheader : headerEnds (retrieveHeader frame) = ends := by
    rw [hcarried.ends, Framing.retrieveHeader_append]
    exact hends
  rw [hframe] at hcarries
  obtain ⟨t, ht, sock, hlookup, hsent⟩ := hfound
  refine ⟨hcarries, sock, hsent, ?_⟩
  refine (IngressProcess.lookup_registered hI ht hlookup).imp_right fun h => ?_
  obtain ⟨u, hu, hreg⟩ := h
  rw [← hheader]
  exact heard_of_known (IngressProcess.known_of_registered hI hu hreg)

def answerFrame : List Byte := (sampleConnection.header 1 1).bytes ++ udpPacket.bytes

theorem answerFrame_carried : Carried answerFrame answerFrame := ⟨rfl, rfl, by decide⟩

def answeredWorld : World (IngressProcess.process (stdMap plain) proxy 57001) :=
  workingWorld Server.ingressStart 57000 57001
    (IngressRuns.grantingWorld (stdMap plain) proxy 4 (fun _ => "") []) 3 IngressProcess.managed
    IngressProcess.managed_manages fun role => if role = .internalUdp then answerFrame
      else udpPacket.bytes

/-- The answer goes back through both processes, to the client that has sent the datagram. -/
theorem responses_returned_datagram :
    ∃ (I : IngressProcess.IngressPool (stdMap plain)) (E : EgressProcess.EgressPool plain),
      returned I = [(4, .datagram udpPacket.payload SockaddrIn.zero)] ∧
      AtMostOnce (ReturnedTo I) (responses E) (returned I) ∧
      Heard I .udp (packetEnds udpPacket) (4, SockaddrIn.zero) := by
  obtain ⟨I, hI, hdone⟩ := answeredWorld.exists_reachable Joined
    (IngressProcess.start (stdMap plain) proxy 57001)
    (.arrive (.inl .main) :: steps 3 0 ++ steps 12 2 ++ steps 3 4 ++ steps 12 1 ++ steps 3 5)
    (fun P => decide (arrived P = [answerFrame] ∧
      returned P = [(4, .datagram udpPacket.payload SockaddrIn.zero)])) (by decide +kernel)
  obtain ⟨E, hE, hsent⟩ := (egressWorld udpPacket.bytes).exists_reachable Joined
    (EgressProcess.start plain proxy 57001)
    (.arrive (.inl .main) :: steps 1 0 ++ steps 12 1 ++ steps 3 2 ++ steps 8 3)
    (fun P => decide (answers P = [answerFrame] ∧
      ∀ response ∈ responses P, response.1 = packetEnds udpPacket)) (by decide +kernel)
  obtain ⟨harrived, hreturned⟩ := of_decide_eq_true hdone
  obtain ⟨hanswers, hends⟩ := of_decide_eq_true hsent
  have hmade := responses_returned hI hE (by
    rw [hanswers, harrived]
    exact .of_forall₂ (.cons answerFrame_carried .nil))
  refine ⟨I, E, hreturned, hmade, ?_⟩
  obtain ⟨response, hresponse, _, sock, hsock, hfound⟩ :=
    hmade.exists_input (b := (4, .datagram udpPacket.payload SockaddrIn.zero)) (by simp [hreturned])
  cases hsock
  rw [hends response hresponse] at hfound
  exact hfound.resolve_left (by simp)

end Responses

end Ironhide.Proofs.Answered
