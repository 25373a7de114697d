import Ironhide.Lib.Accounts
import Ironhide.Proofs.EgressProcess
import Ironhide.Proofs.IngressProcess

namespace Ironhide.Proofs.ServerMemory
open Model Model.Server Lib.Program Lib.StdMap Lib.SearchTree Lib.Threads Lib.Threads.System
open Lib.Schedule Lib.Relaying Lib.Hosting Lib.Accounts Lib.Accounts.Account PacketUtils Servers
open Process Table

section Blocks
variable {φ π : Type}

def acquired : Event (Op φ π) (Reply φ π) → List π
  | ⟨.malloc, some args⟩ => [args]
  | ⟨.newBuffer _, some (pkt, _)⟩ => [pkt]
  | _ => []

def handedOver : Event (Op φ π) (Reply φ π) → List π
  | ⟨.goAsync block (.udp _ pkt), _⟩ => [block, pkt]
  | ⟨.goAsync block (.tcp _), _⟩ => [block]
  | _ => []

def freed : Event (Op φ π) (Reply φ π) → List π
  | ⟨.free args, _⟩ => [args]
  | _ => []

def abandoned : Event (Op φ π) (Reply φ π) → List π
  | ⟨.recvfrom _ pkt _, none⟩ => [pkt]
  | _ => []

def blocks : Account (Op φ π) (Reply φ π) π where
  gains := acquired
  losses e := handedOver e ++ freed e ++ abandoned e

def maxHeld : Role → Nat
  | .internalUdp | .externalUdp => 2
  | .tcp => 1

variable {bound : Nat}

theorem openSocket_balances (type : Nat) (port : BitVec 16) :
    blocks.Balances bound (openSocket type port : Service φ π φ) [] :=
  balances_of_all (openSocket_all type port (fun _ => ⟨rfl, rfl⟩) (fun _ => ⟨rfl, rfl⟩)
    (fun _ _ => ⟨rfl, rfl⟩) fun _ _ => ⟨rfl, rfl⟩)

theorem setupSignCatching_balances :
    blocks.Balances bound (setupSignCatching : Service φ π Unit) [] :=
  balances_of_all (setupSignCatching_all fun _ _ => ⟨rfl, rfl⟩)

theorem serve_balances {round : Service φ π Unit} (h : blocks.Balances bound round []) (fuel : Nat) :
    blocks.Balances bound (serve round fuel) [] := by
  induction fuel with
  | zero => exact Nat.zero_le _
  | succ fuel ih =>
    refine .idle (fun _ => ⟨rfl, rfl⟩) (Nat.zero_le _) fun stopped => ?_
    cases stopped with
    | false => exact h.bind fun _ => ih
    | true => rfl

/-- The buffer of a receive that fails is given up, its `args` are freed. -/
theorem udpRound_balances (socketFd : φ) :
    blocks.Balances 2 (udpRound socketFd : Service φ π Unit) [] := by
  refine ⟨by simp, fun args => ?_⟩
  rcases args with _ | args
  · exact ⟨[], .refl [], rfl⟩
  refine ⟨[args], .refl _, by simp, fun buffer => ?_⟩
  rcases buffer with _ | ⟨pkt, bytes⟩
  · exact ⟨[args], .refl _, Nat.le_succ 1⟩
  refine ⟨[pkt, args], .refl _, by simp, fun reply => ?_⟩
  rcases reply with _ | ⟨received, clientAddress⟩
  · exact ⟨[args], .refl _, by simp, fun _ => ⟨[], .refl _, rfl⟩⟩
  · exact ⟨[pkt, args], .refl _, by simp, fun _ => ⟨[], .swap .., rfl⟩⟩

theorem tcpRound_balances (socketFd : φ) :
    blocks.Balances 1 (tcpRound socketFd : Service φ π Unit) [] := by
  refine ⟨by simp, fun args => ?_⟩
  rcases args with _ | args
  · exact ⟨[], .refl [], rfl⟩
  refine ⟨[args], .refl _, by simp, fun reply => ?_⟩
  rcases reply with _ | ⟨newSocketFd, clientAddress⟩
  · exact ⟨[args], .refl _, by simp, fun _ => ⟨[], .refl _, rfl⟩⟩
  · exact ⟨[args], .refl _, by simp, fun _ => ⟨[], .refl _, rfl⟩⟩

theorem run_balances (extPort intPort : BitVec 16) (fuel : Nat) (server : Role) :
    blocks.Balances (maxHeld server) (run extPort intPort fuel server : Service φ π Unit) [] := by
  have hudp (port : BitVec 16) : blocks.Balances 2 (runUdp port fuel : Service φ π Unit) [] :=
    (openSocket_balances 2 port).bind fun fd => setupSignCatching_balances.bind fun _ =>
      serve_balances (udpRound_balances fd) fuel
  have htcp (port : BitVec 16) : blocks.Balances 1 (runTcp port fuel : Service φ π Unit) [] := by
    refine (openSocket_balances 1 port).bind fun fd =>
      .idle (fun _ => ⟨rfl, rfl⟩) (Nat.zero_le _) fun listening => ?_
    cases listening with
    | false => exact Nat.zero_le _
    | true => exact setupSignCatching_balances.bind fun _ =>
        serve_balances (tcpRound_balances fd) fuel
  cases server with
  | internalUdp => exact hudp intPort
  | externalUdp => exact hudp extPort
  | tcp => exact htcp extPort

def Issues (server : Role) : Op φ π → Prop
  | .thread _ | .join _ => False
  | .newBuffer _ | .recvfrom .. | .goAsync _ (.udp ..) => server ≠ .tcp
  | .listen .. | .accept _ | .goAsync _ (.tcp _) => server = .tcp
  | _ => True

theorem openSocket_issues (server : Role) (type : Nat) (port : BitVec 16) :
    (openSocket type port : Service φ π φ).All (Issues server) :=
  openSocket_all type port trivial trivial (fun _ => trivial) fun _ => trivial

theorem udpRound_issues {server : Role} (h : server ≠ .tcp) (socketFd : φ) :
    (udpRound socketFd : Service φ π Unit).All (Issues server) := by
  refine ⟨trivial, fun args => ?_⟩
  rcases args with _ | args
  · trivial
  refine ⟨h, fun buffer => ?_⟩
  rcases buffer with _ | ⟨pkt, bytes⟩
  · trivial
  refine ⟨h, fun reply => ?_⟩
  rcases reply with _ | ⟨received, clientAddress⟩
  · exact ⟨trivial, fun _ => trivial⟩
  · exact ⟨h, fun _ => trivial⟩

theorem tcpRound_issues (socketFd : φ) :
    (tcpRound socketFd : Service φ π Unit).All (Issues .tcp) := by
  refine ⟨trivial, fun args => ?_⟩
  rcases args with _ | args
  · trivial
  refine ⟨rfl, fun reply => ?_⟩
  rcases reply with _ | ⟨newSocketFd, clientAddress⟩
  · exact ⟨trivial, fun _ => trivial⟩
  · exact ⟨rfl, fun _ => trivial⟩

/-- A server starts no server, and that for connections has no buffers. -/
theorem run_issues (extPort intPort : BitVec 16) (fuel : Nat) (server : Role) :
    (run extPort intPort fuel server : Service φ π Unit).All (Issues server) := by
  have hudp (port : BitVec 16) (h : server ≠ .tcp) :
      (runUdp port fuel : Service φ π Unit).All (Issues server) :=
    (openSocket_issues server 2 port).bind fun fd => (setupSignCatching_all fun _ => trivial).bind
      fun _ => serve_all trivial (udpRound_issues h fd) fuel
  have htcp (port : BitVec 16) : (runTcp port fuel : Service φ π Unit).All (Issues .tcp) := by
    refine (openSocket_issues .tcp 1 port).bind fun fd => ⟨rfl, fun listening => ?_⟩
    cases listening with
    | false => trivial
    | true => exact (setupSignCatching_all fun _ => trivial).bind fun _ =>
        serve_all trivial (tcpRound_issues fd) fuel
  cases server with
  | internalUdp => exact hudp intPort (by simp)
  | externalUdp => exact hudp extPort (by simp)
  | tcp => exact htcp extPort

theorem Issues.abandoned_eq {o : Op φ π} (h : Issues .tcp o) (r : Reply φ π o) :
    abandoned (π := π) ⟨o, r⟩ = [] := by
  cases o with
  | recvfrom => exact absurd rfl h
  | _ => rfl

end Blocks

section Roles
variable {σ Γ : Type} {S : System σ Γ (Model.Op Int) (Model.Reply Int) Model.Stop Unit}
  {main : Service Int Nat Unit} {extPort intPort : BitVec 16}
  {manages : Role → Args Int Nat → Γ → Prop} {s s' : Bool × σ}

def threadOf {φ π : Type} : Server.Op φ π → Option Role
  | .thread role => some role
  | _ => none

def launches : Server.Thread ⊕ Γ → ProcessOp → Option Role
  | .inl _, .inl o => threadOf o
  | _, _ => none

def isMain : Server.Thread ⊕ Γ → Bool
  | .inl .main => true
  | _ => false

/-- What an operation starts is the server it names, or a handler, and not `main`. -/
theorem born_roles {g : Server.Thread ⊕ Γ} {o : ProcessOp} {r : ProcessReply o}
    {born : List (Server.Thread ⊕ Γ)}
    (h : (hosted (host main extPort intPort manages) S).perform s g o r s' born) :
    born.filterMap roleOf = (launches g o).toList ∧ born.countP isMain = 0 ∧ s'.1 = s.1 := by
  match g, o with
  | .inr g, .inr o =>
    obtain ⟨own, rfl, _, hshared⟩ := h
    refine ⟨List.filterMap_eq_nil_iff.mpr fun b hb => ?_, List.countP_eq_zero.mpr fun b hb => ?_,
      hshared⟩
    all_goals
      obtain ⟨g', _, rfl⟩ := List.mem_map.mp hb
      simp [roleOf, isMain]
  | .inl tag, .inl o =>
    obtain ⟨tags, arriving, rfl, ⟨hshared, hlaunch⟩, _⟩ := h
    cases o with
    | thread role =>
      obtain ⟨⟨fuel, rfl⟩, rfl⟩ := hlaunch
      exact ⟨rfl, rfl, hshared⟩
    | goAsync block args =>
      obtain ⟨rfl, _, _, g, _, rfl, _⟩ := hlaunch
      exact ⟨rfl, rfl, hshared⟩
    | _ =>
      obtain ⟨rfl, rfl⟩ := hlaunch
      exact ⟨rfl, rfl, hshared⟩
  | .inl _, .inr _ => exact h.elim
  | .inr _, .inl _ => exact h.elim

variable {guard : Bool × σ → List (ProcessThread Γ) → Server.Thread ⊕ Γ → ProcessOp → Prop}
  {P : ProcessPool σ Γ} {s₀ : σ} {roles : List Role}

theorem one_main (h : Reachable (hosted (host main extPort intPort manages) S) guard (false, s₀) P) :
    P.threads.countP (fun t => isMain t.tag) = if P.shared.1 then 1 else 0 := by
  refine h.invariant
    (fun P => P.threads.countP (fun t => isMain t.tag) = if P.shared.1 then 1 else 0) rfl ?_
  intro P Q _ ih hst
  cases hst with
  | @run s s' before after g past o k r born _ _ hperf =>
    obtain ⟨_, hborn, hshared⟩ := born_roles hperf
    have hspawn : (born.map (hosted (host main extPort intPort manages) S).spawn).countP
        (fun t => isMain t.tag) = 0 := by
      rw [List.countP_map]
      exact hborn
    change List.countP _ (_ ++ _) = if s'.1 then 1 else 0
    rw [hshared, List.countP_append, hspawn, ← ih, List.countP_append, List.countP_append,
      List.countP_cons, List.countP_cons, Nat.add_zero]
  | @arrive s s' ts g _ harr =>
    obtain ⟨tag, rfl, ⟨hfalse, htrue, rfl⟩, _⟩ := harr
    change List.countP _ ts = if s.1 then 1 else 0 at ih
    rw [hfalse] at ih
    change List.countP _ (ts ++ [_]) = if s'.1 then 1 else 0
    rw [htrue, List.countP_append, ih]
    rfl

theorem start_handsOn (hmain : HandsOn threadOf main roles) (g : Server.Thread ⊕ Γ) :
    HandsOn (launches g) ((hosted (host main extPort intPort manages) S).start g)
      (if isMain g then roles else []) := by
  match g with
  | .inr g => exact handsOn_of_all (right_all (fun _ _ => rfl) (Prog.all_true _))
  | .inl .main => exact left_handsOn (fun _ => rfl) hmain
  | .inl (.server role fuel) =>
    refine handsOn_of_all (left_all (fun o ho => ?_) (run_issues extPort intPort fuel role))
    cases o with
    | thread => exact ho.elim
    | _ => rfl

/-- Each server is started once, by `main`. -/
theorem servers_subperm (hmain : HandsOn threadOf main roles)
    (h : Reachable (hosted (host main extPort intPort manages) S) guard (false, s₀) P) :
    (P.threads.filterMap fun t => roleOf t.tag).Subperm roles := by
  have hperm : (P.threads.flatMap (handed launches)).Perm (P.threads.filterMap (handling roleOf)) := by
    refine handed_perm h (fun _ _ _ _ _ _ hperf => (born_roles hperf).1) ?_
    rintro _ _ _ ⟨tag, rfl, ⟨_, _, rfl⟩, _⟩
    rfl
  have hone : P.threads.countP (fun t => isMain t.tag) ≤ 1 := by
    rw [one_main h]
    split <;> omega
  have hprefix : P.threads.flatMap (handed launches) <+: roles :=
    flatMap_prefix hone fun t ht => (start_handsOn hmain t.tag).reaches (h.thread t ht)
  exact hperm.symm.subperm.trans hprefix.sublist.subperm

def mayHold : Server.Thread ⊕ Γ → Nat
  | .inl (.server role _) => maxHeld role
  | _ => 0

theorem sum_mayHold (ts : List (ProcessThread Γ)) : (ts.map fun t => mayHold t.tag).sum =
    ((ts.filterMap fun t => roleOf t.tag).map maxHeld).sum := by
  induction ts with
  | nil => rfl
  | cons t ts ih =>
    obtain ⟨tag, past, p⟩ := t
    rw [List.map_cons, List.sum_cons, ih, filterMap_cons_toList, List.map_append, List.sum_append]
    match tag with
    | .inl .main => rfl
    | .inl (.server role fuel) => rfl
    | .inr g => rfl

theorem start_balances (hmain : main.All blocks.Idle) (g : Server.Thread ⊕ Γ) :
    blocks.left.Balances (mayHold g)
      ((hosted (host main extPort intPort manages) S).start g) [] := by
  match g with
  | .inr g => exact right_balances _
  | .inl .main => exact left_balances (balances_of_all hmain)
  | .inl (.server role fuel) => exact left_balances (run_balances extPort intPort fuel role)

/-- What has been noted of what the servers of a process do. -/
def notedBy (f : Event (Server.Op Int Nat) (Server.Reply Int Nat) → List Nat)
    (ts : List (ProcessThread Γ)) : List Nat :=
  ts.flatMap (noted (ofLeft f))

theorem notedBy_losses (ts : List (ProcessThread Γ)) :
    (notedBy blocks.losses ts).Perm
      (notedBy handedOver ts ++ notedBy freed ts ++ notedBy abandoned ts) := by
  have happend (f g : Event (Server.Op Int Nat) (Server.Reply Int Nat) → List Nat) :
      (notedBy (fun e => f e ++ g e) ts).Perm (notedBy f ts ++ notedBy g ts) := by
    rw [notedBy, ofLeft_append]
    exact flatMap_noted_append ..
  exact (happend _ _).trans ((happend _ _).append_right _)

/-- There are no other servers than these, none of them twice, and the blocks of
memory that they have got are with a handler, free, given up or in their hands. -/
structure Accounted (roles : List Role) (ts : List (ProcessThread Γ)) : Prop where
  servers : (ts.filterMap fun t => roleOf t.tag).Subperm roles
  blocks : ∃ held, held.length ≤ (roles.map maxHeld).sum ∧ (notedBy acquired ts).Perm
    (notedBy handedOver ts ++ notedBy freed ts ++ notedBy abandoned ts ++ held)
  tcp : ∀ t ∈ ts, roleOf t.tag = some .tcp → noted (ofLeft abandoned) t = []

theorem accounted (hidle : main.All ServerMemory.blocks.Idle) (hmain : HandsOn threadOf main roles)
    (h : Reachable (hosted (host main extPort intPort manages) S) guard (false, s₀) P) :
    Accounted roles P.threads := by
  have hservers := servers_subperm hmain h
  refine ⟨hservers, ?_, ?_⟩
  · obtain ⟨held, hlength, hperm⟩ := balances_threads h (start_balances hidle)
    refine ⟨held, hlength.trans ?_, hperm.trans ((notedBy_losses _).append_right _)⟩
    rw [sum_mayHold]
    exact sum_map_le maxHeld hservers
  · rintro ⟨tag, past, p⟩ ht hrole
    match tag with
    | .inl .main => cases hrole
    | .inr g => cases hrole
    | .inl (.server role fuel) =>
      cases hrole
      obtain ⟨es, q, rfl, _, hreach⟩ := reaches_left (h.thread _ ht)
      refine List.flatMap_eq_nil_iff.mpr fun e he => ?_
      obtain ⟨e', he', rfl⟩ := List.mem_map.mp he
      exact ((hreach.all (run_issues extPort intPort fuel .tcp)).2 e' he').abandoned_eq e'.reply

end Roles

section Processes
variable {sh sh' : Shaping ConnectionEntry} {self self' : Self} {intPort intPort' : BitVec 16}
  {guard : Bool × IngressRuns.State (stdMap sh) → List (ProcessThread (Ingress.Callback Int)) →
    Server.Thread ⊕ Ingress.Callback Int → ProcessOp → Prop}
  {guard' : Bool × DeadConnections.State sh' → List (ProcessThread (Egress.Callback Int)) →
    Server.Thread ⊕ Egress.Callback Int → ProcessOp → Prop}
  {I : IngressProcess.IngressPool (stdMap sh)} {E : EgressProcess.EgressPool sh'}

theorem idle_thread (role : Role) : blocks.Idle (.thread role : Server.Op Int Nat) :=
  fun _ => ⟨rfl, rfl⟩

theorem idle_join (role : Role) : blocks.Idle (.join role : Server.Op Int Nat) :=
  fun _ => ⟨rfl, rfl⟩

theorem ingressStart_idle : (ingressStart : Service Int Nat Unit).All blocks.Idle :=
  ⟨idle_thread _, fun _ => ⟨idle_thread _, fun _ => ⟨idle_thread _, fun _ =>
    ⟨idle_join _, fun _ => ⟨idle_join _, fun _ => ⟨idle_join _, fun _ => trivial⟩⟩⟩⟩⟩⟩

theorem egressStart_idle : (egressStart : Service Int Nat Unit).All blocks.Idle :=
  ⟨idle_thread _, fun _ => ⟨idle_join _, fun _ => trivial⟩⟩

theorem ingressStart_handsOn :
    HandsOn threadOf (ingressStart : Service Int Nat Unit) [.internalUdp, .externalUdp, .tcp] :=
  ⟨_, rfl, fun _ => ⟨_, rfl, fun _ => ⟨_, rfl, fun _ => ⟨_, rfl, fun _ => ⟨_, rfl, fun _ =>
    ⟨_, rfl, fun _ => trivial⟩⟩⟩⟩⟩⟩

theorem egressStart_handsOn : HandsOn threadOf (egressStart : Service Int Nat Unit) [.internalUdp] :=
  ⟨_, rfl, fun _ => ⟨_, rfl, fun _ => trivial⟩⟩

/-- The servers of an ingress hold five blocks at most, that of an egress two. All
else they have got is a handler's or free, but for the buffers of receives that
fail, which only the servers for datagrams lose. -/
theorem blocks_accounted
    (hI : Reachable (IngressProcess.process (stdMap sh) self intPort) guard
      (IngressProcess.start (stdMap sh) self intPort) I)
    (hE : Reachable (EgressProcess.process sh' self' intPort') guard'
      (EgressProcess.start sh' self' intPort') E) :
    Accounted [.internalUdp, .externalUdp, .tcp] I.threads ∧ Accounted [.internalUdp] E.threads :=
  ⟨accounted ingressStart_idle ingressStart_handsOn hI,
    accounted egressStart_idle egressStart_handsOn hE⟩

def deaf (s : Bool × IngressRuns.State (stdMap plain)) :
    Server.Thread ⊕ Ingress.Callback Int → (o : ProcessOp) →
      Option (ProcessReply o × (Bool × IngressRuns.State (stdMap plain)) ×
        List (Server.Thread ⊕ Ingress.Callback Int))
  | .inl _, .inl (.recvfrom ..) => some (none, s, [])
  | g, o => IngressProcess.ingressWorld.resolve s g o

theorem deaf_performs (s : Bool × IngressRuns.State (stdMap plain))
    (g : Server.Thread ⊕ Ingress.Callback Int) (o : ProcessOp) (r : ProcessReply o)
    (s' : Bool × IngressRuns.State (stdMap plain)) (born : List (Server.Thread ⊕ Ingress.Callback Int))
    (h : deaf s g o = some (r, s', born)) :
    (IngressProcess.process (stdMap plain) Keys.proxy 57001).perform s g o r s' born := by
  unfold deaf at h
  split at h
  · cases h
    exact ⟨[], none, rfl, ⟨rfl, rfl, rfl⟩, rfl⟩
  · exact IngressProcess.ingressWorld.performs _ _ _ _ _ _ h

def deafWorld : World (IngressProcess.process (stdMap plain) Keys.proxy 57001) where
  resolve := deaf
  performs := deaf_performs
  accept := IngressProcess.ingressWorld.accept
  arrives := IngressProcess.ingressWorld.arrives

/-- A receive fails on the ingress; the buffer is lost. -/
theorem blocks_accounted_lost :
    ∃ (I : IngressProcess.IngressPool (stdMap plain)) (E : EgressProcess.EgressPool plain),
      notedBy acquired I.threads = [1, 2, 1] ∧ notedBy freed I.threads = [1] ∧
      notedBy abandoned I.threads = [2] ∧
      Accounted [.internalUdp, .externalUdp, .tcp] I.threads ∧
      Accounted [.internalUdp] E.threads := by
  obtain ⟨I, hI, hdone⟩ := deafWorld.exists_reachable Joined
    (IngressProcess.start (stdMap plain) Keys.proxy 57001)
    (.arrive (.inl .main) :: steps 3 0 ++ steps 14 2)
    (fun P => decide (notedBy acquired P.threads = [1, 2, 1] ∧ notedBy freed P.threads = [1] ∧
      notedBy abandoned P.threads = [2])) (by decide +kernel)
  obtain ⟨E, hE, -⟩ := EgressProcess.egressWorld.exists_reachable Joined
    (EgressProcess.start plain Keys.proxy 57001) (.arrive (.inl .main) :: steps 1 0 ++ steps 12 1)
    (fun P => decide (notedBy handedOver P.threads = [1, 2])) (by decide +kernel)
  obtain ⟨hacquired, hfreed, hlost⟩ := of_decide_eq_true hdone
  exact ⟨I, E, hacquired, hfreed, hlost, blocks_accounted hI hE⟩

end Processes

end Ironhide.Proofs.ServerMemory
