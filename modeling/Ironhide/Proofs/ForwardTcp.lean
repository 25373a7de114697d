import Ironhide.Model.Ingress
import Ironhide.Proofs.Framing
import Ironhide.Proofs.Observed

namespace Ironhide.Proofs.ForwardTcp
open Model Lib.Bytes Lib.Program PacketUtils SfcUtilities Framing Observed Ingress

variable {φ : Type}

/-- All that was sent off, in order, without the SFC headers. -/
def carried (es : List (Event (Op φ) (Reply φ))) : List Byte :=
  ((messages es).map (List.drop headerSize)).flatten

/-- Receives bring at most what fits, roulette answers ok and has a route, sends succeed. -/
def Granted : Event (Op φ) (Reply φ) → Prop
  | ⟨.recv _ size, r⟩ => ∃ bs, r = some bs ∧ bs.length ≤ size
  | ⟨.addEntry .., r⟩ => r = .ok ()
  | ⟨.deleteEntry _, r⟩ => r = .ok ()
  | ⟨.getRouteList _, r⟩ => ∃ hop hops, r = .ok (hop :: hops)
  | ⟨.sendAndWaitResponse .., r⟩ => r = true
  | _ => True

/-- Chunks are never empty, so nothing more was received only if there was no chunk. -/
theorem flatten_eq_nil {cs : List (List Byte)} (h : ∀ c ∈ cs, c ≠ []) : cs.flatten = [] ↔ cs = [] := by
  cases cs with
  | nil => simp
  | cons c cs => simp [h c]

section Loop
variable (myIp : String) (extPort : BitVec 16) (args : TcpArgs φ)

/-- Once a packet has been forwarded on the only chain there is, a round is silent. -/
theorem enteringRound_later (st : Entering) (bs : List Byte) (hfirst : st.firstPkt = false)
    (hprev : st.prevSfcid = "0") :
    (∃ stop, enteringRound (Self.source myIp extPort) args st bs = .throw stop) ∨
      enteringRound (Self.source myIp extPort) args st bs =
        .ret ({ st with pkt := overwrite st.pkt bs, sfcid := "0" }, true) := by
  simp only [enteringRound, classifyPkt_source, hfirst, hprev]
  split
  · split
    · split
      · exact Or.inr rfl
      · exact Or.inl ⟨_, rfl⟩
    · exact Or.inl ⟨_, rfl⟩
  · exact Or.inl ⟨_, rfl⟩

theorem enteringLoop_silent (n : Nat) (st : Entering) (hfirst : st.firstPkt = false)
    (hprev : st.prevSfcid = "0") :
    (enteringLoop (Self.source myIp extPort) args n st).All (fun o => message o = none) := by
  induction n generalizing st with
  | zero => trivial
  | succ n ih =>
    refine ⟨rfl, fun reply => ?_⟩
    match reply with
    | none => trivial
    | some [] => trivial
    | some (b :: bs) =>
      change Prog.All _ (enteringRound (Self.source myIp extPort) args st (b :: bs) >>= fun next =>
        if next.2 then enteringLoop (Self.source myIp extPort) args n next.1
        else .ret ((b :: bs).length, next.1))
      rcases enteringRound_later myIp extPort args st (b :: bs) hfirst hprev with ⟨stop, h⟩ | h
      · rw [h]
        trivial
      · rw [h]
        exact ih _ hfirst hprev

/-- The first round with packet bytes in hand: what it needs of the bytes is
that they can be classified and that their headers fit the structs. -/
def Readable (pkt : List Byte) (readSize : Nat) : Prop :=
  ipHdrLen < readSize ∧ (retrieveIpTcpHeader pkt).inBounds = true ∧
    ((retrieveIpHeader pkt).value.protocol = 6 ∨ (retrieveIpHeader pkt).value.protocol = 17)

theorem enteringRound_unreadable (st : Entering) (bs : List Byte) (hfirst : st.firstPkt = true)
    (h : ¬ Readable (overwrite st.pkt bs) bs.length) :
    ∃ stop, enteringRound (Self.source myIp extPort) args st bs = .throw stop := by
  simp only [enteringRound, classifyPkt_source, hfirst, Bool.true_or, if_true]
  split
  · split
    · split
      · refine ⟨.undefined, ?_⟩
        have hcopy : (retrieveIpTcpHeader (overwrite st.pkt bs)).inBounds = false := by
          by_contra hc
          exact h ⟨by assumption, by simpa using hc, by assumption⟩
        simp [checked, hcopy]
      · exact ⟨_, rfl⟩
    · exact ⟨_, rfl⟩
  · exact ⟨_, rfl⟩

theorem servicePathId_zero : (servicePathId "0" : Handler φ (BitVec 32)) = .ret 0 := by
  have h : stoi "0" = .ok 0 := by decide
  simp [servicePathId, h]

/-- The `try` block on chain 0 when roulette has a route: register, ask, forward. -/
theorem tryForward_granted (st : Entering) (hs : st.sfcid = "0") (n : Nat)
    {es : List (Event (Op φ) (Reply φ))} {out : Except Stop Turn}
    (h : (tryForward args st n).Runs es out) (hg : ∀ e ∈ es, Granted e) :
    out = .ok .forwarded ∧ chunks es = [] ∧
      ∃ hdr : SfcHeader, messages es = [hdr.bytes ++ st.pkt.take n] := by
  rw [tryForward, addEntry_bind, Prog.runs_op] at h
  obtain ⟨added, es₁, rfl, h₁⟩ := h
  have hadd : added = .ok () := hg _ List.mem_cons_self
  subst hadd
  simp only [raise_ok, Prog.ret_bind, hs, getRouteList, servicePathId_zero, Prog.perform_bind,
    Prog.op_bind, Prog.runs_op] at h₁
  obtain ⟨route, es₂, rfl, h₂⟩ := h₁
  have hroute : ∃ hop hops, route = .ok (hop :: hops) :=
    hg ⟨_, route⟩ (List.mem_cons_of_mem _ List.mem_cons_self)
  obtain ⟨hop, hops, rfl⟩ := hroute
  simp only [raise_ok, Prog.ret_bind, forward, servicePathId_zero, Prog.perform_bind,
    Prog.op_bind, Prog.runs_op] at h₂
  obtain ⟨sent, es₃, rfl, h₃⟩ := h₂
  have hsent : sent = true :=
    hg ⟨_, sent⟩ (List.mem_cons_of_mem _ (List.mem_cons_of_mem _ List.mem_cons_self))
  subst hsent
  simp only [if_true, Prog.ret_bind, Prog.pure_eq, Prog.runs_ret] at h₃
  obtain ⟨rfl, rfl⟩ := h₃
  exact ⟨rfl, rfl, _, rfl⟩

theorem enteringRound_readable (st : Entering) (bs : List Byte) (hfirst : st.firstPkt = true)
    (h : Readable (overwrite st.pkt bs) bs.length) {es : List (Event (Op φ) (Reply φ))}
    {out : Except Stop (Entering × Bool)}
    (hr : (enteringRound (Self.source myIp extPort) args st bs).Runs es out)
    (hg : ∀ e ∈ es, Granted e) :
    chunks es = [] ∧ (∃ hdr : SfcHeader, messages es = [hdr.bytes ++ bs]) ∧
      ∃ st', out = .ok (st', true) ∧ st'.firstPkt = false ∧ st'.prevSfcid = "0" := by
  obtain ⟨hlen, hcopies, hprot⟩ := h
  have hip : ipPktLen (overwrite st.pkt bs) ≤ ipHdrLen := by
    rw [retrieveIpTcpHeader_inBounds] at hcopies
    simp only [Bool.and_eq_true, decide_eq_true_eq] at hcopies
    exact hcopies.1
  simp only [enteringRound, classifyPkt_source, hlen, hip, hprot, if_true, Prog.ret_bind, hfirst,
    Bool.true_or, checked, hcopies] at hr
  rw [Prog.runs_bind] at hr
  have hpkt : (overwrite st.pkt bs).take bs.length = bs := List.take_left
  rcases hr with ⟨x, hx, rfl⟩ | ⟨turn, es₁, es₂, rfl, ht, hr⟩
  · rw [Prog.runs_rescue] at hx
    rcases hx with ⟨_, _, hout⟩ | ⟨e, es₁, es₂, rfl, htry, _⟩
    · cases hout
    · obtain ⟨hout, _⟩ := tryForward_granted args _ rfl _ htry (fun e he => hg e (by simp [he]))
      cases hout
  · rw [Prog.runs_rescue] at ht
    rcases ht with ⟨turn', htry, hout⟩ | ⟨e, es₃, es₄, rfl, htry, _⟩
    · cases hout
      obtain ⟨hout, hchunks, hdr, hmsg⟩ :=
        tryForward_granted args _ rfl _ htry (fun e he => hg e (by simp [he]))
      cases hout
      simp only [Prog.pure_eq, Prog.runs_ret] at hr
      obtain ⟨rfl, rfl⟩ := hr
      rw [List.append_nil]
      rw [hpkt] at hmsg
      exact ⟨hchunks, ⟨hdr, hmsg⟩, _, rfl, rfl, rfl⟩
    · obtain ⟨hout, _⟩ := tryForward_granted args _ rfl _ htry (fun e he => hg e (by simp [he]))
      cases hout

/-- A run that receives nothing sends nothing; otherwise the first chunk is sent
if it can be read at all, and nothing behind it is. -/
theorem enteringLoop_outcome (buffer : List Byte) (n : Nat) {es : List (Event (Op φ) (Reply φ))}
    {out : Except Stop (Nat × Entering)}
    (h : (enteringLoop (Self.source myIp extPort) args n (Entering.start buffer)).Runs es out)
    (hg : ∀ e ∈ es, Granted e) :
    (chunks es = [] ∧ messages es = []) ∨
    ∃ c rest, chunks es = c :: rest ∧
      ((Readable (overwrite buffer c) c.length ∧ ∃ hdr : SfcHeader, messages es = [hdr.bytes ++ c]) ∨
        (¬ Readable (overwrite buffer c) c.length ∧ messages es = [])) := by
  cases n with
  | zero =>
    obtain ⟨rfl, _⟩ := Prog.runs_throw.mp h
    exact Or.inl ⟨rfl, rfl⟩
  | succ n =>
    obtain ⟨rfl, _⟩ | ⟨rfl, _⟩ | ⟨b, bs, es₁, rfl, h₁⟩ := runs_enteringLoop h
    · exact Or.inl ⟨rfl, rfl⟩
    · exact Or.inl ⟨rfl, rfl⟩
    · have hg₁ : ∀ e ∈ es₁, Granted e := fun e he => hg e (List.mem_cons_of_mem _ he)
      refine Or.inr ⟨b :: bs, chunks es₁, rfl, ?_⟩
      change (_ ∧ ∃ hdr : SfcHeader, messages es₁ = _) ∨ (_ ∧ messages es₁ = [])
      by_cases hread : Readable (overwrite buffer (b :: bs)) (b :: bs).length
      · refine Or.inl ⟨hread, ?_⟩
        rw [Prog.runs_bind] at h₁
        rcases h₁ with ⟨x, hx, rfl⟩ | ⟨next, es₂, es₃, rfl, hx, h₂⟩
        · obtain ⟨_, _, _, hout, _⟩ := enteringRound_readable myIp extPort args
            (Entering.start buffer) (b :: bs) rfl hread hx hg₁
          cases hout
        · obtain ⟨_, ⟨hdr, hmsg⟩, st', hout, hfirst, hprev⟩ :=
            enteringRound_readable myIp extPort args (Entering.start buffer) (b :: bs) rfl hread hx
              (fun e he => hg₁ e (List.mem_append_left _ he))
          cases hout
          have hsilent : messages es₃ = [] := messages_quiet
            (h₂.all (enteringLoop_silent myIp extPort args n st' hfirst hprev))
          exact ⟨hdr, by rw [messages_append, hmsg, hsilent]; rfl⟩
      · obtain ⟨stop, hstop⟩ := enteringRound_unreadable myIp extPort args (Entering.start buffer)
          (b :: bs) rfl hread
        rw [hstop] at h₁
        obtain ⟨rfl, _⟩ := Prog.runs_throw.mp h₁
        exact Or.inr ⟨hread, rfl⟩

end Loop

/-- What follows the loop neither receives nor sends. -/
theorem afterLoop_silent (args : TcpArgs φ) (readSize : Nat) (st : Entering)
    {es : List (Event (Op φ) (Reply φ))} {out : Except Stop Unit}
    (h : (afterLoop args readSize st).Runs es out) : chunks es = [] ∧ messages es = [] := by
  have hall := h.all (afterLoop_all (P := fun o => message o = none ∧ ¬ Receives o)
    (fun ce => ⟨rfl, id⟩) ⟨rfl, id⟩ readSize st)
  exact ⟨chunks_quiet fun e he => (hall e he).2, messages_quiet fun e he => (hall e he).1⟩

/-- The bytes sent off are the bytes received exactly when there were none or a
single readable chunk. -/
theorem carried_eq_received_iff_readable (myIp : String) (extPort : BitVec 16) (args : TcpArgs φ)
    (buffer : List Byte) (fuel : Nat) {es : List (Event (Op φ) (Reply φ))} {out : Except Stop Unit}
    (h : (manageEnteringTcpPackets (Self.source myIp extPort) args buffer fuel).Runs es out)
    (hg : ∀ e ∈ es, Granted e) :
    carried es = received es ↔
      chunks es = [] ∨ ∃ c, chunks es = [c] ∧ Readable (overwrite buffer c) c.length := by
  have hloop : ∃ es₁, (∃ out₁, (enteringLoop (Self.source myIp extPort) args fuel
      (Entering.start buffer)).Runs es₁ out₁) ∧ (∀ e ∈ es₁, Granted e) ∧
      chunks es = chunks es₁ ∧ messages es = messages es₁ := by
    rw [manageEnteringTcpPackets, Prog.runs_bind] at h
    rcases h with ⟨x, hx, rfl⟩ | ⟨last, es₁, es₂, rfl, hx, ha⟩
    · exact ⟨es, ⟨_, hx⟩, hg, rfl, rfl⟩
    · obtain ⟨hc, hm⟩ := afterLoop_silent args last.1 last.2 ha
      exact ⟨es₁, ⟨_, hx⟩, fun e he => hg e (List.mem_append_left _ he),
        by rw [chunks_append, hc, List.append_nil], by rw [messages_append, hm, List.append_nil]⟩
  obtain ⟨es₁, ⟨out₁, hrun⟩, hg₁, hc, hm⟩ := hloop
  have hne : ∀ c ∈ chunks es₁, c ≠ [] := fun c hmem => mem_chunks hmem
  rw [carried, received, hc, hm]
  rcases enteringLoop_outcome myIp extPort args buffer fuel hrun hg₁ with
    ⟨hnil, hmsg⟩ | ⟨c, rest, hcs, ⟨hread, hdr, hmsg⟩ | ⟨hread, hmsg⟩⟩
  · simp [hnil, hmsg]
  · rw [hcs] at hne ⊢
    have hrest : rest.flatten = [] ↔ rest = [] :=
      flatten_eq_nil fun d hd => hne d (List.mem_cons_of_mem _ hd)
    simp only [hmsg, List.map_cons, List.map_nil, drop_bytes_append, List.flatten_cons,
      List.flatten_nil, List.append_nil, List.self_eq_append_right, hrest]
    constructor
    · intro h
      exact Or.inr ⟨c, by rw [h], hread⟩
    · intro h
      rcases h with h | ⟨d, hd, _⟩
      · cases h
      · exact (List.cons.inj hd).2
  · rw [hcs] at hne ⊢
    have hc : c ≠ [] := hne c List.mem_cons_self
    simp only [hmsg, List.map_nil, List.flatten_nil, List.flatten_cons]
    constructor
    · intro h
      exact absurd (List.append_eq_nil_iff.mp h.symm).1 hc
    · intro h
      rcases h with h | ⟨d, hd, hd'⟩
      · cases h
      · rw [← (List.cons.inj hd).1] at hd'
        exact absurd hd' hread

theorem grant_granted (fd : φ) (hop : Address) (cs : List (List Byte)) (o : Op φ) :
    Granted ⟨o, (grant fd hop cs o).1⟩ := by
  cases o with
  | recv fd' size => exact ⟨_, rfl, List.length_take_le ..⟩
  | getRouteList pId => exact ⟨hop, [], rfl⟩
  | addEntry | deleteEntry | sendAndWaitResponse => rfl
  | read | recvfrom | send | sendto | shutdown | close | rawSocket | bind | connectToServer |
    updateEntry | retrieveConnection2 | goAsync => trivial

def clientRun (cs : List (List Byte)) : List (Event (Op Int) (Reply Int)) × Except Stop Unit :=
  (manageEnteringTcpPackets (Self.source "10.0.0.9" 57000) ⟨7, SockaddrIn.zero⟩ [] 4).exec
    (grant 7 ⟨"10.0.2.1", 57000, false⟩) cs

theorem one_chunk_forwarded : carried (clientRun [tcpPacket]).1 = received (clientRun [tcpPacket]).1 :=
  (carried_eq_received_iff_readable "10.0.0.9" 57000 ⟨7, SockaddrIn.zero⟩ [] 4
    (Prog.runs_exec _ _ _) (Prog.exec_all _ (grant_granted _ _) _ _)).mpr
    (Or.inr ⟨tcpPacket, by decide +kernel, by decide, by decide, by decide⟩)

/-- Two packets in two chunks: the second one is received and not forwarded. -/
theorem second_chunk_dropped :
    (manageEnteringTcpPackets (Self.source "10.0.0.9" 57000) ⟨7, SockaddrIn.zero⟩ [] 4).Runs
      (clientRun [tcpPacket, tcpPacket]).1 (.ok ()) ∧
    (∀ e ∈ (clientRun [tcpPacket, tcpPacket]).1, Granted e) ∧
    received (clientRun [tcpPacket, tcpPacket]).1 = tcpPacket ++ tcpPacket ∧
    carried (clientRun [tcpPacket, tcpPacket]).1 ≠ received (clientRun [tcpPacket, tcpPacket]).1 := by
  have hrun := Prog.runs_exec (grant (7 : Int) ⟨"10.0.2.1", 57000, false⟩)
    (manageEnteringTcpPackets (Self.source "10.0.0.9" 57000) ⟨7, SockaddrIn.zero⟩ [] 4)
    [tcpPacket, tcpPacket]
  refine ⟨?_, Prog.exec_all _ (grant_granted _ _) _ _, by decide +kernel, ?_⟩
  · exact hrun
  · intro h
    have hlen := congrArg List.length h
    exact absurd hlen (by decide +kernel)

end Ironhide.Proofs.ForwardTcp
