import Ironhide.Proofs.FromChain
import Ironhide.Proofs.IngressRuns
import Ironhide.Proofs.Keys

namespace Ironhide.Proofs.UnknownConnection
open Model Lib.Program Lib.StdMap Lib.SearchTree Lib.Threads Lib.Threads.System Lib.Schedule
open FromChain IngressRuns Keys Table

/-- What `retrieve_connection_2` gives for a key that is not in the table. -/
def unknown : Int × SockaddrIn := (-1, SockaddrIn.zero)

def FailsOnNone : Event (Op Int) (Reply Int) → Prop
  | ⟨.send fd _, r⟩ => fd = -1 → r < 0
  | ⟨.sendto fd _ _, r⟩ => fd = -1 → r < 0
  | _ => True

def FindsNothing : Event (Op Int) (Reply Int) → Prop
  | ⟨.retrieveConnection2 _, sock⟩ => sock = unknown
  | _ => True

/-- The program is under way or has stopped in a way that ends the process. -/
def Unreturned (q : Handler Int Unit) : Prop :=
  (pending q).isSome = true ∨ ∃ stop, q = .throw stop ∧ stop.Fatal

theorem Unreturned.fatal {stop : Stop} (h : stop.Fatal) : Unreturned (.throw stop) :=
  Or.inr ⟨stop, rfl, h⟩

/-- An operation after which there is only a fatal stop, whatever it gave. -/
theorem op_unreturned {o : Op Int} {k : Reply Int o → Handler Int Unit}
    {es : List (Event (Op Int) (Reply Int))} {q : Handler Int Unit} {stop : Stop}
    (h : Prog.Reaches (.op o k) es q) (hstop : stop.Fatal)
    (hthrow : ∀ r, ⟨o, r⟩ ∈ es → k r = .throw stop) : Unreturned q := by
  obtain ⟨rfl, rfl⟩ | ⟨r, es', rfl, h'⟩ := Prog.reaches_op.mp h
  · exact Or.inl rfl
  · rw [hthrow r List.mem_cons_self] at h'
    obtain ⟨rfl, rfl⟩ := Prog.reaches_throw.mp h'
    exact .fatal hstop

/-- Without a client the payload goes to descriptor -1, in both branches. -/
theorem deliver_unreturned {args : UdpArgs Int} {es : List (Event (Op Int) (Reply Int))}
    {q : Handler Int Unit} (h : Prog.Reaches (deliver args unknown) es q)
    (hfail : ∀ e ∈ es, FailsOnNone e) : Unreturned q := by
  by_cases hoff : payloadOffset args ≤ args.pktLen
  · cases hp : chainPrt args with
    | tcp =>
      rw [deliver_tcp args unknown hp hoff] at h
      exact op_unreturned h (by decide) fun r hr => if_pos (hfail _ hr rfl)
    | udp =>
      rw [deliver_udp args unknown hp hoff] at h
      exact op_unreturned h (by decide) fun r hr => if_pos (hfail _ hr rfl)
  · rw [deliver_short args unknown hoff] at h
    obtain ⟨rfl, rfl⟩ := Prog.reaches_throw.mp h
    exact .fatal (by decide)

theorem managePktFromChain_unreturned {args : UdpArgs Int}
    {es : List (Event (Op Int) (Reply Int))} {q : Handler Int Unit}
    (h : Prog.Reaches (Ingress.managePktFromChain args) es q) (hnone : ∀ e ∈ es, FindsNothing e)
    (hfail : ∀ e ∈ es, FailsOnNone e) : Unreturned q := by
  by_cases hfit : Fits args
  · rw [managePktFromChain_eq args hfit] at h
    obtain ⟨rfl, rfl⟩ | ⟨n, es₁, rfl, h₁⟩ := Prog.reaches_op.mp h
    · exact Or.inl rfl
    obtain ⟨rfl, rfl⟩ | ⟨sock, es₂, rfl, h₂⟩ := Prog.reaches_op.mp h₁
    · exact Or.inl rfl
    have hsock : sock = unknown := hnone _ (List.mem_cons_of_mem _ List.mem_cons_self)
    rw [hsock] at h₂
    exact deliver_unreturned h₂ fun e he =>
      hfail e (List.mem_cons_of_mem _ (List.mem_cons_of_mem _ he))
  · rw [managePktFromChain_overrun args hfit] at h
    obtain ⟨rfl, rfl⟩ | ⟨n, es₁, rfl, h₁⟩ := Prog.reaches_op.mp h
    · exact Or.inl rfl
    · obtain ⟨rfl, rfl⟩ := Prog.reaches_throw.mp h₁
      exact .fatal (by decide)

/-- The handler of a packet from the chain whose lookup finds nothing never
returns: once it has nothing left to do it has taken the process down. -/
theorem unknown_never_dropped (sh : Shaping ConnectionEntry) (self : Self) (myIp : String)
    (extPort intPort : BitVec 16) (P : CallPool (stdMap sh))
    (h : Reachable (system (stdMap sh) self) (fun _ _ _ _ => True)
      (start (stdMap sh) myIp extPort intPort) P)
    (t : Thread (Ingress.Callback Int) (Op Int) (Reply Int) Stop Unit) (ht : t ∈ P.threads)
    (args : UdpArgs Int) (htag : t.tag = .vnf args) (hnone : ∀ e ∈ t.past, FindsNothing e)
    (hfail : ∀ e ∈ t.past, FailsOnNone e) :
    t.prog ≠ .ret () ∧
      (pending t.prog = none → ¬ (system (stdMap sh) self).Alive P.threads) := by
  have hreach := h.thread t ht
  rw [htag] at hreach
  have hq := managePktFromChain_unreturned hreach hnone hfail
  refine ⟨fun hret => ?_, fun hdone halive => ?_⟩
  · rw [hret] at hq
    rcases hq with hpend | ⟨stop, hstop, _⟩
    · cases hpend
    · cases hstop
  · rcases hq with hpend | ⟨stop, hstop, hfatal⟩
    · rw [hdone] at hpend
      cases hpend
    · exact halive t ht stop hstop hfatal

instance : DecidablePred FailsOnNone
  | ⟨.send fd _, r⟩ | ⟨.sendto fd _ _, r⟩ => inferInstanceAs (Decidable (fd = -1 → r < 0))
  | ⟨.recv .., _⟩ | ⟨.read .., _⟩ | ⟨.recvfrom .., _⟩ | ⟨.shutdown .., _⟩ | ⟨.close _, _⟩
  | ⟨.rawSocket _, _⟩ | ⟨.bind .., _⟩ | ⟨.connectToServer .., _⟩ | ⟨.addEntry .., _⟩
  | ⟨.updateEntry .., _⟩ | ⟨.deleteEntry _, _⟩ | ⟨.retrieveConnection2 _, _⟩
  | ⟨.getRouteList _, _⟩ | ⟨.sendAndWaitResponse .., _⟩ | ⟨.goAsync _, _⟩ => isTrue trivial

instance : DecidablePred FindsNothing
  | ⟨.retrieveConnection2 _, sock⟩ => inferInstanceAs (Decidable (sock = unknown))
  | ⟨.recv .., _⟩ | ⟨.read .., _⟩ | ⟨.recvfrom .., _⟩ | ⟨.send .., _⟩ | ⟨.sendto .., _⟩
  | ⟨.shutdown .., _⟩ | ⟨.close _, _⟩ | ⟨.rawSocket _, _⟩ | ⟨.bind .., _⟩
  | ⟨.connectToServer .., _⟩ | ⟨.addEntry .., _⟩ | ⟨.updateEntry .., _⟩ | ⟨.deleteEntry _, _⟩
  | ⟨.getRouteList _, _⟩ | ⟨.sendAndWaitResponse .., _⟩ | ⟨.goAsync _, _⟩ => isTrue trivial

def emptyWorld : World (system (stdMap plain) proxy) :=
  grantingWorld (stdMap plain) proxy 3 (fun _ => "") []

def forged : List (Move (Ingress.Callback Int)) := .arrive (.vnf (udpArgs udpFrame)) :: steps 3 0

theorem forged_not_dropped : ∃ (P : CallPool (stdMap plain))
    (t : Thread (Ingress.Callback Int) (Op Int) (Reply Int) Stop Unit),
    t ∈ P.threads ∧ t.prog ≠ .ret () ∧ ¬ (system (stdMap plain) proxy).Alive P.threads := by
  obtain ⟨P, hP, hdone⟩ := emptyWorld.exists_reachable (fun _ _ _ _ => True)
    (start _ "10.0.0.9" 57000 57001) forged
    (fun P => decide (∃ t ∈ P.threads, t.tag = .vnf (udpArgs udpFrame) ∧
      (∀ e ∈ t.past, FindsNothing e) ∧ (∀ e ∈ t.past, FailsOnNone e) ∧ pending t.prog = none))
    (by decide +kernel)
  obtain ⟨t, ht, htag, hnone, hfail, hdone⟩ := of_decide_eq_true hdone
  obtain ⟨hret, hdead⟩ := unknown_never_dropped plain proxy "10.0.0.9" 57000 57001 P hP t ht _ htag
    hnone hfail
  exact ⟨P, t, ht, hret, hdead hdone⟩

/-- One forged packet ends the process of an ingress that has no client yet. -/
theorem forged_ends_process : ∃ P : CallPool (stdMap plain),
    Reachable (system (stdMap plain) proxy) (fun _ _ _ _ => True)
      (start _ "10.0.0.9" 57000 57001) P ∧
    (∀ t ∈ P.threads, t.tag = .vnf (udpArgs udpFrame) ∧ ∀ e ∈ t.past, FailsOnNone e) ∧
    P.shared.endpoint.connectionMap.1.entries = [] ∧
    ¬ (system (stdMap plain) proxy).Alive P.threads := by
  obtain ⟨P, hP, hdead⟩ := emptyWorld.exists_reachable (fun _ _ _ _ => True)
    (start _ "10.0.0.9" 57000 57001) forged
    (fun P => decide ((∀ t ∈ P.threads, t.tag = .vnf (udpArgs udpFrame) ∧
      ∀ e ∈ t.past, FailsOnNone e) ∧ P.shared.endpoint.connectionMap.1.entries = [] ∧
      ¬ (system (stdMap plain) proxy).Alive P.threads)) (by decide +kernel)
  obtain ⟨hthreads, hempty, hend⟩ := of_decide_eq_true hdead
  exact ⟨P, hP, hthreads, hempty, hend⟩

end Ironhide.Proofs.UnknownConnection
