import Ironhide.Proofs.Process
import Ironhide.Proofs.Translation
import Mathlib.Data.List.Flatten

namespace Ironhide.Proofs.EgressProcess
open Model Lib.Bytes Lib.Program Lib.StdMap Lib.SearchTree Lib.Threads Lib.Threads.System
open Lib.Schedule Lib.Relaying Lib.Hosting Servers Process Table Keys Translation

def manages : Server.Role → Server.Args Int Nat → Egress.Callback Int → Prop
  | .internalUdp, .udp args _, g => g = .vnf args
  | _, _, _ => False

/-- The message a handler works on. A task works on what a handler has handed it. -/
def message : Egress.Callback Int → Option (Message Int)
  | .vnf args => some (ofUdp .internalUdp args)
  | .task .. => none

variable {sh : Shaping ConnectionEntry} {self : Self} {intPort : BitVec 16}

/-- The egress as it runs: `main` in `Egress::start`, its server, the handlers
this starts and the tasks that they start. -/
abbrev process (sh : Shaping ConnectionEntry) (self : Self) (intPort : BitVec 16) :=
  hosted (host Server.egressStart self.extPort intPort manages) (DeadConnections.system sh self)

def start (sh : Shaping ConnectionEntry) (self : Self) (intPort : BitVec 16) :
    Bool × DeadConnections.State sh :=
  (false, DeadConnections.start sh self.myIp self.extPort intPort)

abbrev EgressThread := Lib.Threads.Thread (Server.Thread ⊕ Egress.Callback Int) ProcessOp
  ProcessReply (Server.Stop ⊕ Stop) Unit

abbrev EgressPool (sh : Shaping ConnectionEntry) :=
  ProcessPool (DeadConnections.State sh) (Egress.Callback Int)

variable {guard : Bool × DeadConnections.State sh → List EgressThread →
  Server.Thread ⊕ Egress.Callback Int → ProcessOp → Prop} {P : EgressPool sh}

theorem manages_message (role : Server.Role) (args : Server.Args Int Nat)
    (g : Egress.Callback Int) (h : manages role args g) : message g = some (ofArgs role args) := by
  match role, args with
  | .internalUdp, .udp args pkt =>
    cases h
    rfl
  | .internalUdp, .tcp _ => exact h.elim
  | .externalUdp, _ => exact h.elim
  | .tcp, _ => exact h.elim

/-- What the handlers start works on no message of its own. -/
theorem born_tasks (s : DeadConnections.State sh) (g : Egress.Callback Int) (o : Op Int)
    (r : Reply Int o) (s' : DeadConnections.State sh) (born : List (Egress.Callback Int))
    (h : (DeadConnections.system sh self).perform s g o r s' born) :
    born.filterMap message = [] := by
  refine List.filterMap_eq_nil_iff.mpr fun g hg => ?_
  obtain ⟨task, datagram, buffer, fuel, _, rfl⟩ := h.2.2.2.2.task hg
  rfl

section Tasks

def handsTask : Op Int → Option (List Byte)
  | .goAsync task => some (taskFrame task)
  | _ => none

def tasksOf : Server.Thread ⊕ Egress.Callback Int → ProcessOp → Option (List Byte)
  | .inr _, .inr o => handsTask o
  | _, _ => none

def taskOf : Server.Thread ⊕ Egress.Callback Int → Option (List Byte)
  | .inr (.task task ..) => some (taskFrame task)
  | _ => none

def bytesOf : Message Int → Option (List Byte)
  | .datagram _ _ _ bytes => some bytes
  | .connection .. => none

theorem taskOf_launched {tags : List Server.Thread} {arriving : Option (Egress.Callback Int)}
    (h : ∀ g ∈ arriving, ∃ args, g = .vnf args) :
    (tags.map Sum.inl ++ arriving.toList.map Sum.inr).filterMap taskOf = [] := by
  refine List.filterMap_eq_nil_iff.mpr fun g hg => ?_
  rcases List.mem_append.mp hg with hg | hg
  · obtain ⟨tag, _, rfl⟩ := List.mem_map.mp hg
    rfl
  · obtain ⟨g, hmem, rfl⟩ := List.mem_map.mp hg
    obtain ⟨args, rfl⟩ := h g (Option.mem_toList.mp hmem)
    rfl

/-- A task is started by handing it over. -/
theorem born_taskOf {s s' : Bool × DeadConnections.State sh}
    {g : Server.Thread ⊕ Egress.Callback Int} {o : ProcessOp} {r : ProcessReply o}
    {born : List (Server.Thread ⊕ Egress.Callback Int)}
    (h : (process sh self intPort).perform s g o r s' born) :
    born.filterMap taskOf = (tasksOf g o).toList := by
  match g, o with
  | .inl tag, .inl o =>
    obtain ⟨tags, arriving, rfl, _, harr⟩ := h
    refine taskOf_launched fun g hg => ?_
    cases hg
    exact harr.2
  | .inr g, .inr o =>
    obtain ⟨own, rfl, hperf, _⟩ := h
    have hstarts := hperf.2.2.2.2
    cases o with
    | goAsync task =>
      obtain ⟨datagram, buffer, fuel, rfl⟩ := hstarts
      rfl
    | _ =>
      cases hstarts
      rfl
  | .inl _, .inr _ => exact h.elim
  | .inr _, .inl _ => exact h.elim

/-- The handler of a datagram hands on one task at most, with the datagram. -/
theorem handler_tasks {args : UdpArgs Int} {past : List (Event (Op Int) (Reply Int))}
    {q : Handler Int Unit} (h : (Egress.managePktFromChain args).Reaches past q) :
    (past.filterMap fun e => handsTask e.op).Sublist [args.pkt.take args.pktLen] := by
  obtain ⟨rfl, _⟩ | ⟨sent, past₁, rfl, h₁⟩ := Prog.reaches_op.mp h
  · exact List.nil_sublist _
  by_cases hin : (PacketUtils.retrieveIpUdpHeader
      (args.pkt.drop SfcUtilities.headerSize)).inBounds = true
  · rw [checked_ok hin, Prog.ret_bind] at h₁
    obtain ⟨rfl, _⟩ | ⟨sock, past₂, rfl, h₂⟩ := Prog.reaches_op.mp h₁
    · exact List.nil_sublist _
    cases hprt : connType (PacketUtils.retrieveIpUdpHeader
      (args.pkt.drop SfcUtilities.headerSize)).value.1.protocol
    all_goals
      rw [hprt] at h₂
      obtain ⟨rfl, _⟩ | ⟨_, past₃, rfl, h₃⟩ := Prog.reaches_op.mp h₂
      · exact List.nil_sublist _
      · obtain ⟨rfl, _⟩ := Prog.reaches_ret.mp h₃
        exact List.Sublist.refl _
  · rw [checked_overrun hin] at h₁
    obtain ⟨rfl, _⟩ := Prog.reaches_throw.mp h₁
    exact List.nil_sublist _

theorem task_tasks {task : Model.Task Int} {datagram buffer : List Byte} {fuel : Nat}
    {past : List (Event (Op Int) (Reply Int))} {q : Handler Int Unit}
    (h : (Egress.start self (.task task datagram buffer fuel)).Reaches past q) :
    (past.filterMap fun e => handsTask e.op) = [] := by
  refine List.filterMap_eq_nil_iff.mpr fun e he => ?_
  have hworks := (h.all (DeadConnections.task_works self task datagram buffer fuel)).2 e he
  obtain ⟨o, r⟩ := e
  cases o with
  | goAsync => exact hworks.elim
  | _ => rfl

theorem start_tasks {g : Egress.Callback Int} {past : List (Event (Op Int) (Reply Int))}
    {q : Handler Int Unit} (h : (Egress.start self g).Reaches past q) :
    (past.filterMap fun e => handsTask e.op).Sublist ((message g).bind bytesOf).toList := by
  cases g with
  | vnf args => exact handler_tasks h
  | task task datagram buffer fuel =>
    rw [task_tasks h]
    exact List.nil_sublist _

/-- A thread of the process hands on one task at most, with what it works on. -/
theorem thread_tasks (h : Reachable (process sh self intPort) guard (start sh self intPort) P) :
    ∀ t ∈ P.threads, (handed tasksOf t).Sublist
      ((handling (messageOf message) t).bind bytesOf).toList := by
  rintro ⟨tag, past, p⟩ ht
  cases tag with
  | inl tag =>
    have hnone : handed tasksOf (⟨.inl tag, past, p⟩ : EgressThread) = [] :=
      List.filterMap_eq_nil_iff.mpr fun _ _ => rfl
    rw [hnone]
    exact List.nil_sublist _
  | inr g =>
    obtain ⟨es, q, rfl, hthread⟩ := guest_reaches h ht
    have hsub := start_tasks hthread
    rwa [handed, List.filterMap_map]

/-- Every task is for something that was received, no two for the same. -/
theorem tasks_subperm
    (h : Reachable (process sh self intPort) guard (start sh self intPort) P) :
    (P.threads.filterMap (handling taskOf)).Subperm
      ((P.threads.flatMap (taken received)).filterMap bytesOf) := by
  have htasks : (P.threads.flatMap (handed tasksOf)).Perm (P.threads.filterMap (handling taskOf)) := by
    refine handed_perm h (fun _ _ _ _ _ _ hperf => born_taskOf hperf) ?_
    rintro _ _ _ ⟨tag, rfl, _⟩
    rfl
  have hsub : (P.threads.flatMap (handed tasksOf)).Sublist
      ((P.threads.filterMap (handling (messageOf message))).filterMap bytesOf) := by
    rw [List.filterMap_filterMap, List.filterMap_eq_flatMap_toList]
    exact List.Sublist.flatMap_right _ (thread_tasks h)
  have hmessages := messages_subperm manages_message born_tasks h bytesOf
  exact htasks.symm.subperm.trans (hsub.subperm.trans hmessages)

/-- Whatever the egress receives on its internal port is worked on by one handler
thread, but for what the server is about to hand over, and by one task at most:
nothing goes to a server twice, or that has not come from the chain. -/
theorem worked_on_once
    (h : Reachable (process sh self intPort) guard (start sh self intPort) P) :
    (P.threads.flatMap (taken received)).Perm (P.threads.filterMap (handling (messageOf message)) ++
      P.threads.filterMap (waiting handsOver)) ∧
    (∀ t ∈ P.threads, OnPort self.extPort intPort t) ∧
    (P.threads.filterMap (handling taskOf)).Subperm
      ((P.threads.flatMap (taken received)).filterMap bytesOf) :=
  ⟨messages_perm manages_message born_tasks h, onPort h, tasks_subperm h⟩

section Genuine

/-- A handler is given no more than its buffer holds, and a task what is left to
do for a frame. -/
def GivenSoundly : Server.Thread ⊕ Egress.Callback Int → Prop
  | .inl _ => True
  | .inr (.vnf args) => args.pktLen ≤ args.pkt.length
  | .inr (.task task ..) => Genuine task

def StartsSoundly : Server.Thread ⊕ Egress.Callback Int → ProcessOp → Prop
  | _, .inl o => HandsSized o
  | _, .inr o => StartsGenuine o

theorem start_startsSoundly (g : Server.Thread ⊕ Egress.Callback Int) (hg : GivenSoundly g) :
    ((process sh self intPort).start g).All (StartsSoundly g) := by
  match g with
  | .inl .main =>
    refine left_all (P := HandsSized) (fun _ ho => ho) ?_
    exact ⟨trivial, fun _ => ⟨trivial, fun _ => trivial⟩⟩
  | .inl (.server role fuel) =>
    exact left_all (P := HandsSized) (fun _ ho => ho) (run_handsSized self.extPort intPort fuel role)
  | .inr (.vnf args) =>
    exact right_all (P := StartsGenuine) (fun _ ho => ho) (egress_startsGenuine hg)
  | .inr (.task task datagram buffer fuel) =>
    refine right_all (P := DeadConnections.Works) (fun o ho => ?_)
      (DeadConnections.task_works self task datagram buffer fuel)
    cases o with
    | goAsync task => exact ho.elim
    | _ => trivial

theorem givenSoundly (h : Reachable (process sh self intPort) guard (start sh self intPort) P) :
    ∀ t ∈ P.threads, GivenSoundly t.tag := by
  refine h.tagged start_startsSoundly ?_ ?_
  · intro s g o r s' born hperf _ ho b hb
    match g, o with
    | .inl tag, .inl o =>
      obtain ⟨tags, arriving, rfl, ⟨_, hlaunch⟩, _⟩ := hperf
      rcases List.mem_append.mp hb with hb | hb
      · obtain ⟨tag, _, rfl⟩ := List.mem_map.mp hb
        trivial
      · obtain ⟨g, hg, rfl⟩ := List.mem_map.mp hb
        cases o with
        | goAsync block args =>
          obtain ⟨_, role, fuel, g', rfl, rfl, hman⟩ := hlaunch
          cases List.mem_singleton.mp hg
          match role, args with
          | .internalUdp, .udp args pkt =>
            cases hman
            exact ho
          | .internalUdp, .tcp _ => exact hman.elim
          | .externalUdp, _ => exact hman.elim
          | .tcp, _ => exact hman.elim
        | _ =>
          obtain ⟨_, rfl⟩ := hlaunch
          cases hg
    | .inr g, .inr o =>
      obtain ⟨own, rfl, hown, _⟩ := hperf
      obtain ⟨g', hg', rfl⟩ := List.mem_map.mp hb
      obtain ⟨task, datagram, buffer, fuel, rfl, rfl⟩ := hown.2.2.2.2.task hg'
      exact ho
    | .inl _, .inr _ => exact hperf.elim
    | .inr _, .inl _ => exact hperf.elim
  · rintro _ _ _ ⟨tag, rfl, _⟩
    trivial

end Genuine

section World

def managed (role : Server.Role) (args : Server.Args Int Nat) : Option (Egress.Callback Int) :=
  match role, args with
  | .internalUdp, .udp args _ => some (.vnf args)
  | _, _ => none

theorem managed_manages (role : Server.Role) (args : Server.Args Int Nat)
    (g : Egress.Callback Int) (h : managed role args = some g) : manages role args g := by
  match role, args with
  | .internalUdp, .udp args pkt => exact (Option.some.inj h).symm
  | .internalUdp, .tcp _ => cases h
  | .externalUdp, _ => cases h
  | .tcp, _ => cases h

def egressWorld : World (process plain proxy 57001) :=
  workingWorld Server.egressStart 57000 57001 DeadConnections.closingWorld 4 managed
    managed_manages fun _ => EgressFlow.chainArgs.pkt

end World

/-- One packet is with its task, the next one is still in hand. -/
theorem worked_on_once_packet : ∃ P : EgressPool plain,
    Reachable (process plain proxy 57001) Joined (start plain proxy 57001) P ∧
    (P.threads.filterMap (handling taskOf)).length = 1 ∧
    (P.threads.filterMap (waiting handsOver)).length = 1 ∧
    (P.threads.filterMap (handling taskOf)).Subperm
      ((P.threads.flatMap (taken received)).filterMap bytesOf) := by
  obtain ⟨P, hP, hdone⟩ := egressWorld.exists_reachable Joined (start plain proxy 57001)
    (.arrive (.inl .main) :: steps 1 0 ++ steps 12 1 ++ steps 3 2 ++ steps 4 3 ++ steps 4 1)
    (fun P => decide ((P.threads.filterMap (handling taskOf)).length = 1 ∧
      (P.threads.filterMap (waiting handsOver)).length = 1)) (by decide +kernel)
  obtain ⟨htask, hwaiting⟩ := of_decide_eq_true hdone
  exact ⟨P, hP, htask, hwaiting, (worked_on_once hP).2.2⟩

end Tasks

end Ironhide.Proofs.EgressProcess
