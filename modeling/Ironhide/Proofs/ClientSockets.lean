import Ironhide.Lib.Resources
import Ironhide.Model.Client

namespace Ironhide.Proofs.ClientSockets
open Model Lib.Bytes Lib.Program Lib.Resources Client

variable {φ : Type} [Descriptor φ]

def sockets : Ledger (Client.Op φ) (Client.Reply φ) φ where
  opens
    | ⟨.socket .., fd⟩ => if Descriptor.num fd < 0 then none else some fd
    | _ => none
  closes
    | .close fd => some fd
    | _ => none

def SocketGives (fd : φ) : Prop := Descriptor.num fd = -1 ∨ Descriptor.num fd > 0

/-- What becomes of the calls for one address, if they are made. -/
structure Attempt (φ : Type) where
  socket : φ
  connect : Int
  sendto : Int

/-- The host's addresses, what is to become of each, and the attempt under way. -/
structure Network (φ : Type) where
  result : List Addrinfo
  now : Option (Attempt φ)
  later : List (Attempt φ)

def Network.over (tries : List (Addrinfo × Attempt φ)) : Network φ :=
  ⟨tries.map Prod.fst, none, tries.map Prod.snd⟩

def Network.answer : Network φ → (o : Client.Op φ) → Client.Reply φ o × Network φ
  | n, .getaddrinfo .. => (some n.result, n)
  | n, .socket .. =>
    match n.later with
    | [] => (Descriptor.notFound, n)
    | a :: later => (a.socket, { n with now := some a, later })
  | n, .connect .. => ((n.now.elim (-1) Attempt.connect : Int), n)
  | n, .sendto .. => ((n.now.elim (-1) Attempt.sendto : Int), n)
  | n, .close _ => ((), n)

def Accepts (t : Addrinfo × Attempt φ) : Bool :=
  Descriptor.num t.2.socket > 0 && t.2.connect ≠ -1 && t.2.sendto > 0

def delivered : Event (Client.Op φ) (Client.Reply φ) → Option (φ × List Byte × List Byte × Int)
  | ⟨.sendto fd message addr, n⟩ => if n > 0 then some (fd, message, addr, n) else none
  | _ => none

def StopsThere (es : List (Event (Client.Op φ) (Client.Reply φ))) : Prop :=
  ∀ before e after, es = before ++ e :: after → (delivered e).isSome → ∀ e' ∈ after, ∃ fd, e'.op = .close fd

/-- The first address that takes the message is sent it, and then everything is closed. -/
structure SentOnce [DecidableEq φ] (message : List Byte) (tries : List (Addrinfo × Attempt φ))
    (held : List φ) (run : List (Event (Client.Op φ) (Client.Reply φ)) × Except Stop Unit) : Prop where
  returns : run.2 = .ok ()
  sent : run.1.filterMap delivered =
    ((tries.find? Accepts).map fun t => (t.2.socket, message, t.1.aiAddr, t.2.sendto)).toList
  stops : StopsThere run.1
  closed : sockets.after held run.1 = some []

omit [Descriptor φ] in
theorem stopsThere_cons {e : Event (Client.Op φ) (Client.Reply φ)}
    {es : List (Event (Client.Op φ) (Client.Reply φ))} (he : delivered e = none)
    (h : StopsThere es) : StopsThere (e :: es) := by
  intro before d after heq hd
  cases before with
  | nil =>
    obtain ⟨rfl, _⟩ := List.cons.inj heq
    rw [he] at hd
    cases hd
  | cons b before => exact h before d after (List.cons.inj heq).2 hd

section Send
variable {message : List Byte}

def closing (sfd : φ) : List (Event (Client.Op φ) (Client.Reply φ)) :=
  if Descriptor.num sfd > 0 then [⟨.close sfd, ()⟩] else []

theorem closeOpen_exec {α : Type} (sfd : φ) (f : Unit → Calls φ α) (n : Network φ) :
    (closeOpen sfd >>= f).exec Network.answer n =
      (closing sfd ++ ((f ()).exec Network.answer n).1, ((f ()).exec Network.answer n).2) := by
  unfold closeOpen closing
  by_cases h : Descriptor.num sfd > 0
  · rw [if_pos h, if_pos h]
    rfl
  · rw [if_neg h, if_neg h]
    rfl

theorem closeOpen_ret (sfd : φ) : (closeOpen sfd >>= fun _ => .ret ()) = (closeOpen sfd : Calls φ Unit) := by
  unfold closeOpen
  split <;> rfl

/-- The rest of `send_and_wait_response`, from the loop on. -/
def sendRest (message : List Byte) (rps : List Addrinfo) (sfd : φ) : Calls φ Unit :=
  sendLoop message rps sfd >>= closeOpen

/-- One turn of the loop: the address takes the message, or the loop goes on. -/
theorem sendRest_cons (t : Addrinfo × Attempt φ) (rps : List Addrinfo) (sfd : φ)
    (result : List Addrinfo) (now : Option (Attempt φ)) (later : List (Attempt φ)) :
    let opened : Event (Client.Op φ) (Client.Reply φ) :=
      ⟨.socket t.1.aiFamily t.1.aiSocktype t.1.aiProtocol, t.2.socket⟩
    let connected : Event (Client.Op φ) (Client.Reply φ) :=
      ⟨.connect t.2.socket t.1.aiAddr, t.2.connect⟩
    let sent : Event (Client.Op φ) (Client.Reply φ) :=
      ⟨.sendto t.2.socket message t.1.aiAddr, t.2.sendto⟩
    let rest := (sendRest message rps t.2.socket).exec Network.answer ⟨result, some t.2, later⟩
    (sendRest message (t.1 :: rps) sfd).exec Network.answer ⟨result, now, t.2 :: later⟩ =
      if Descriptor.num t.2.socket > 0 then
        if t.2.connect ≠ -1 then
          if t.2.sendto > 0 then
            (closing sfd ++ opened :: connected :: sent :: closing t.2.socket, .ok ())
          else (closing sfd ++ opened :: connected :: sent :: rest.1, rest.2)
        else (closing sfd ++ opened :: connected :: rest.1, rest.2)
      else (closing sfd ++ opened :: rest.1, rest.2) := by
  intro opened connected sent rest
  have hend : (closeOpen t.2.socket : Calls φ Unit).exec Network.answer ⟨result, some t.2, later⟩ =
      (closing t.2.socket, .ok ()) := by
    unfold closeOpen closing
    split <;> rfl
  rw [sendRest, sendLoop, Prog.bind_assoc, closeOpen_exec]
  simp only [Prog.perform_bind, Prog.op_bind, Prog.exec, Network.answer]
  by_cases hs : Descriptor.num t.2.socket > 0
  · by_cases hc : t.2.connect = -1
    · simp [hs, hc, Prog.exec, Network.answer, rest, opened, connected, sendRest]
    · by_cases hr : t.2.sendto > 0
      · simp [hs, hc, hr, Prog.exec, Network.answer, opened, connected, sent, hend]
      · simp [hs, hc, hr, Prog.exec, Network.answer, rest, opened, connected, sent, sendRest]
  · simp [hs, rest, opened, sendRest]

variable [DecidableEq φ] {tries : List (Addrinfo × Attempt φ)} {held held' : List φ}
  {es : List (Event (Client.Op φ) (Client.Reply φ))} {out : Except Stop Unit}

def heldBy (sfd : φ) : List φ := if Descriptor.num sfd > 0 then [sfd] else []

theorem SentOnce.cons {e : Event (Client.Op φ) (Client.Reply φ)} (h : SentOnce message tries held' (es, out))
    (he : delivered e = none) (hheld : sockets.after held (e :: es) = sockets.after held' es) :
    SentOnce message tries held (e :: es, out) where
  returns := h.returns
  sent := by
    rw [List.filterMap_cons_none he]
    exact h.sent
  stops := stopsThere_cons he h.stops
  closed := hheld.trans h.closed

theorem SentOnce.quiet {e : Event (Client.Op φ) (Client.Reply φ)} (h : SentOnce message tries held (es, out))
    (he : delivered e = none) (hq : sockets.Quiet e) : SentOnce message tries held (e :: es, out) :=
  h.cons he (Ledger.after_quiet_cons hq)

theorem SentOnce.closing {sfd : φ} (h : SentOnce message tries [] (es, out)) :
    SentOnce message tries (heldBy sfd) (closing sfd ++ es, out) := by
  unfold heldBy ClientSockets.closing
  split
  · exact h.cons rfl (Ledger.after_closes rfl)
  · exact h

theorem SentOnce.opened {sfd : φ} {family socktype protocol : Nat} (hsfd : SocketGives sfd)
    (h : SentOnce message tries (heldBy sfd) (es, out)) :
    SentOnce message tries [] (⟨.socket family socktype protocol, sfd⟩ :: es, out) := by
  rcases hsfd with hnone | hsome
  · rw [heldBy, if_neg (by omega)] at h
    exact h.quiet rfl ⟨if_pos (by omega), rfl⟩
  · rw [heldBy, if_pos hsome] at h
    exact h.cons rfl (Ledger.after_opens (if_neg (by omega)) rfl)

/-- An address that does not take the message is passed over. -/
theorem SentOnce.skip {t : Addrinfo × Attempt φ} (ht : Accepts t = false)
    (h : SentOnce message tries held (es, out)) : SentOnce message (t :: tries) held (es, out) :=
  { h with sent := by rw [List.find?_cons_of_neg (by simp [ht])]; exact h.sent }

omit [DecidableEq φ] in
theorem closing_closes {sfd : φ} {e : Event (Client.Op φ) (Client.Reply φ)} (h : e ∈ closing sfd) :
    e = ⟨.close sfd, ()⟩ := by
  unfold ClientSockets.closing at h
  split at h
  · exact List.mem_singleton.mp h
  · cases h

/-- The address takes the message, and its socket is closed. -/
theorem sentOnce_accepted {t : Addrinfo × Attempt φ} (ht : Accepts t = true) :
    SentOnce message (t :: tries) (heldBy t.2.socket)
      (⟨.sendto t.2.socket message t.1.aiAddr, t.2.sendto⟩ :: closing t.2.socket, .ok ()) where
  returns := rfl
  sent := by
    have hr : t.2.sendto > 0 := by
      simp only [Accepts, Bool.and_eq_true, decide_eq_true_eq] at ht
      exact ht.2
    have hrest : (closing t.2.socket).filterMap delivered = [] := by
      rw [List.filterMap_eq_nil_iff]
      intro e he
      rw [closing_closes he]
      rfl
    have hsent : delivered (⟨.sendto t.2.socket message t.1.aiAddr, t.2.sendto⟩ :
        Event (Client.Op φ) (Client.Reply φ)) =
          some (t.2.socket, message, t.1.aiAddr, t.2.sendto) := if_pos hr
    rw [List.filterMap_cons_some hsent, hrest, List.find?_cons_of_pos ht]
    rfl
  stops := by
    intro before e after heq he e' he'
    have hmem : e' ∈ closing t.2.socket := by
      cases before with
      | nil =>
        rw [(List.cons.inj heq).2]
        exact he'
      | cons b before =>
        rw [(List.cons.inj heq).2]
        exact List.mem_append_right _ (List.mem_cons_of_mem _ he')
    rw [closing_closes hmem]
    exact ⟨_, rfl⟩
  closed := by
    rw [Ledger.after_quiet_cons ⟨rfl, rfl⟩]
    unfold heldBy ClientSockets.closing
    split
    · exact Ledger.after_closes rfl
    · rfl

/-- The loop tries the addresses in order; by induction on the list. -/
theorem sendRest_sentOnce (message : List Byte) (hsocket : ∀ t ∈ tries, SocketGives t.2.socket) (sfd : φ)
    (result : List Addrinfo) (now : Option (Attempt φ)) :
    SentOnce message tries (heldBy sfd) ((sendRest message (tries.map Prod.fst) sfd).exec
      Network.answer ⟨result, now, tries.map Prod.snd⟩) := by
  induction tries generalizing sfd now with
  | nil =>
    change SentOnce message [] (heldBy sfd)
      ((closeOpen sfd : Calls φ Unit).exec Network.answer ⟨result, now, []⟩)
    have hdone : SentOnce message ([] : List (Addrinfo × Attempt φ)) [] ([], .ok ()) :=
      ⟨rfl, rfl, fun before e after heq => by simp at heq, rfl⟩
    rw [← closeOpen_ret, closeOpen_exec]
    exact hdone.closing
  | cons t tries ih =>
    have ht : SocketGives t.2.socket := hsocket t List.mem_cons_self
    have hrest := ih (fun u hu => hsocket u (List.mem_cons_of_mem _ hu)) t.2.socket (some t.2)
    rw [List.map_cons, List.map_cons, sendRest_cons]
    split
    · rename_i hs
      split
      · rename_i hc
        split
        · rename_i hr
          have haccepts : Accepts t = true := by simp [Accepts, hs, hc, hr]
          exact ((sentOnce_accepted haccepts).quiet rfl ⟨rfl, rfl⟩).opened ht |>.closing
        · rename_i hr
          have hskip : Accepts t = false := by simp [Accepts, hr]
          have hfailed : delivered (⟨.sendto t.2.socket message t.1.aiAddr, t.2.sendto⟩ :
              Event (Client.Op φ) (Client.Reply φ)) = none := if_neg hr
          exact (((hrest.skip hskip).quiet hfailed ⟨rfl, rfl⟩).quiet rfl ⟨rfl, rfl⟩).opened ht |>.closing
      · rename_i hc
        have hskip : Accepts t = false := by simp [Accepts, hc]
        exact ((hrest.skip hskip).quiet rfl ⟨rfl, rfl⟩).opened ht |>.closing
    · rename_i hs
      have hskip : Accepts t = false := by simp [Accepts, hs]
      exact ((hrest.skip hskip).opened ht).closing

/-- Whatever becomes of the calls for each address: the client returns, the first
address that takes the message gets it, no other is tried after that, and every
descriptor that was opened has been closed once. -/
theorem sends_at_most_once (message : List Byte) (dst : String) (port : BitVec 16)
    (tries : List (Addrinfo × Attempt φ)) (hsocket : ∀ t ∈ tries, SocketGives t.2.socket) :
    SentOnce message tries []
      ((sendAndWaitResponse message dst port).exec Network.answer (Network.over tries)) := by
  have hloop := sendRest_sentOnce message hsocket Descriptor.notFound
    (tries.map Prod.fst) none
  have hheld : heldBy (Descriptor.notFound : φ) = [] := if_neg (by simp)
  rw [hheld] at hloop
  exact hloop.quiet rfl ⟨rfl, rfl⟩

def twoTries : List (Addrinfo × Attempt Int) :=
  [(⟨10, 2, 17, [1]⟩, ⟨5, -1, -1⟩), (⟨2, 2, 17, [2]⟩, ⟨5, 0, 3⟩)]

theorem second_address_sent :
    SentOnce [7, 8, 9] twoTries [] ((sendAndWaitResponse [7, 8, 9] "10.0.1.9" 57001).exec
      Network.answer (Network.over twoTries)) :=
  sends_at_most_once [7, 8, 9] "10.0.1.9" 57001 twoTries (by
    intro t ht
    simp only [twoTries, List.mem_cons, List.not_mem_nil, or_false] at ht
    rcases ht with rfl | rfl
    · exact Or.inr (by decide)
    · exact Or.inr (by decide))

end Send

section Connect
variable {es : List (Event (Client.Op φ) (Client.Reply φ))}

/-- What the operating system promises of an event. -/
def Promised : Event (Client.Op φ) (Client.Reply φ) → Prop
  | ⟨.socket .., fd⟩ => SocketGives fd
  | _ => True

def Connected (es : List (Event (Client.Op φ) (Client.Reply φ))) (sfd : φ) : Prop :=
  ∃ addr n, ⟨.connect sfd addr, n⟩ ∈ es ∧ n ≠ -1

/-- What is left open is one descriptor, the connected one. -/
def LeavesOne [DecidableEq φ] (es : List (Event (Client.Op φ) (Client.Reply φ))) (sock : φ) : Prop :=
  sockets.after [] es = some [sock] ∧ Connected es sock

theorem closeOpen_runs {α : Type} {sfd : φ} {f : Unit → Calls φ α} {out : Except Stop α}
    (h : (closeOpen sfd >>= f).Runs es out) :
    ∃ es', es = closing sfd ++ es' ∧ (f ()).Runs es' out := by
  unfold closeOpen at h
  unfold closing
  by_cases hs : Descriptor.num sfd > 0
  · rw [if_pos hs] at h
    obtain ⟨u, es', rfl, hf⟩ := Prog.runs_op.mp h
    exact ⟨es', by rw [if_pos hs]; rfl, hf⟩
  · rw [if_neg hs] at h
    exact ⟨es, by rw [if_neg hs]; rfl, h⟩

/-- One turn of the loop: the address is connected to, or the loop goes on. -/
theorem connectLoop_cons {rp : Addrinfo} {rps : List Addrinfo} {sfd : φ} {out : Except Stop (φ × Bool)}
    (h : (connectLoop (rp :: rps) sfd).Runs es out) :
    ∃ fd es', es = closing sfd ++ ⟨.socket rp.aiFamily rp.aiSocktype rp.aiProtocol, fd⟩ :: es' ∧
      ((¬ Descriptor.num fd > 0 ∧ (connectLoop rps fd).Runs es' out) ∨
        ∃ n es'', es' = ⟨.connect fd rp.aiAddr, n⟩ :: es'' ∧
          ((n = -1 ∧ (connectLoop rps fd).Runs es'' out) ∨
            (n ≠ -1 ∧ Descriptor.num fd > 0 ∧ es'' = [] ∧ out = .ok (fd, true)))) := by
  rw [connectLoop] at h
  obtain ⟨es₁, rfl, h₁⟩ := closeOpen_runs h
  obtain ⟨fd, es₂, rfl, h₂⟩ := Prog.runs_op.mp h₁
  refine ⟨fd, es₂, rfl, ?_⟩
  change Prog.Runs (if Descriptor.num fd > 0 then _ else _) es₂ out at h₂
  split at h₂
  · rename_i hfd
    obtain ⟨n, es₃, rfl, h₃⟩ := Prog.runs_op.mp h₂
    refine Or.inr ⟨n, es₃, rfl, ?_⟩
    change Prog.Runs (if n ≠ -1 then _ else _) es₃ out at h₃
    split at h₃
    · rename_i hn
      obtain ⟨rfl, rfl⟩ := Prog.runs_ret.mp h₃
      exact Or.inr ⟨hn, hfd, rfl, rfl⟩
    · rename_i hn
      exact Or.inl ⟨not_not.mp hn, h₃⟩
  · rename_i hfd
    exact Or.inl ⟨hfd, h₂⟩

variable [DecidableEq φ] {held : List φ}

theorem after_closing {sfd : φ} {es' : List (Event (Client.Op φ) (Client.Reply φ))} :
    sockets.after (heldBy sfd ++ held) (closing sfd ++ es') = sockets.after held es' := by
  unfold heldBy closing
  split
  · exact Ledger.after_closes rfl
  · rfl

theorem after_opened {sfd : φ} {es' : List (Event (Client.Op φ) (Client.Reply φ))}
    {family socktype protocol : Nat} (hsfd : SocketGives sfd) :
    sockets.after held (⟨.socket family socktype protocol, sfd⟩ :: es') =
      sockets.after (heldBy sfd ++ held) es' := by
  rcases hsfd with hnone | hsome
  · rw [heldBy, if_neg (by omega)]
    exact Ledger.after_quiet_cons ⟨if_pos (by omega), rfl⟩
  · rw [heldBy, if_pos hsome]
    exact Ledger.after_opens (if_neg (by omega)) rfl

/-- Every descriptor but the last has been closed, whatever else is open. -/
theorem connectLoop_held {rps : List Addrinfo} {sfd sfd' : φ} {connected : Bool}
    (h : (connectLoop rps sfd).Runs es (.ok (sfd', connected))) (hes : ∀ e ∈ es, Promised e)
    (held : List φ) : sockets.after (heldBy sfd ++ held) es = some (heldBy sfd' ++ held) ∧
      (connected = true → Descriptor.num sfd' > 0 ∧ Connected es sfd') := by
  induction rps generalizing es sfd with
  | nil =>
    obtain ⟨rfl, hout⟩ := Prog.runs_ret.mp h
    cases hout
    exact ⟨rfl, fun hc => by cases hc⟩
  | cons rp rps ih =>
    obtain ⟨fd, es', rfl, hturn⟩ := connectLoop_cons h
    have hfd : SocketGives fd := hes _ (List.mem_append_right _ List.mem_cons_self)
    have hes' : ∀ e ∈ es', Promised e := fun e he =>
      hes e (List.mem_append_right _ (List.mem_cons_of_mem _ he))
    rw [after_closing, after_opened hfd]
    have hmore {es'' : List (Event (Client.Op φ) (Client.Reply φ))} (hsub : ∀ e ∈ es'', e ∈ es')
        (hc : Connected es'' sfd') : Connected (closing sfd ++
          ⟨.socket rp.aiFamily rp.aiSocktype rp.aiProtocol, fd⟩ :: es') sfd' := by
      obtain ⟨addr, n, hmem, hn⟩ := hc
      exact ⟨addr, n, List.mem_append_right _ (List.mem_cons_of_mem _ (hsub _ hmem)), hn⟩
    obtain ⟨_, hrest⟩ | ⟨n, es'', rfl, ⟨_, hrest⟩ | ⟨hn, hpos, rfl, hout⟩⟩ := hturn
    · obtain ⟨hafter, hconn⟩ := ih hrest hes'
      exact ⟨hafter, fun hc => ⟨(hconn hc).1, hmore (fun _ he => he) (hconn hc).2⟩⟩
    · obtain ⟨hafter, hconn⟩ := ih hrest fun e he => hes' e (List.mem_cons_of_mem _ he)
      rw [Ledger.after_quiet_cons ⟨rfl, rfl⟩]
      exact ⟨hafter, fun hc => ⟨(hconn hc).1,
        hmore (fun _ he => List.mem_cons_of_mem _ he) (hconn hc).2⟩⟩
    · cases hout
      rw [Ledger.after_quiet_cons ⟨rfl, rfl⟩]
      exact ⟨rfl, fun _ => ⟨hpos, hmore (fun _ he => he) ⟨_, n, List.mem_singleton_self _, hn⟩⟩⟩

/-- Whenever it returns, the socket it opened first is open still, beside the
connected one. -/
theorem first_socket_left {dst : String} {port : BitVec 16} {sock : φ} {addr : SockaddrIn}
    (h : (connectToServer dst port).Runs es (.ok (sock, addr))) (hes : ∀ e ∈ es, Promised e) :
    ¬ LeavesOne es sock ∧ Connected es sock ∧
      ∃ first es', es = ⟨.socket 2 1 0, first⟩ :: es' ∧ sockets.after [] es = some [sock, first] := by
  obtain ⟨first, es₁, rfl, h₁⟩ := Prog.runs_op.mp h
  change Prog.Runs (if Descriptor.num first < 0 then _ else _) es₁ _ at h₁
  split at h₁
  · cases (Prog.runs_throw.mp h₁).2
  rename_i hneg
  have hfirst : SocketGives first := hes _ List.mem_cons_self
  have hpos : Descriptor.num first > 0 := by
    rcases hfirst with hnone | hsome
    · omega
    · exact hsome
  have hheld : sockets.after ([] : List φ) (⟨.socket 2 1 0, first⟩ :: es₁) = sockets.after [first] es₁ := by
    rw [after_opened hfirst, heldBy, if_pos hpos]
    rfl
  cases hp : inetPton dst with
  | none =>
    rw [hp] at h₁
    cases (Prog.runs_throw.mp h₁).2
  | some ip =>
    rw [hp] at h₁
    obtain ⟨result, es₂, rfl, h₂⟩ := Prog.runs_op.mp h₁
    cases result with
    | none => cases (Prog.runs_throw.mp h₂).2
    | some result =>
      have hbind : Prog.Runs (connectLoop result Descriptor.notFound >>= fun p =>
          if p.2 = true then .ret (p.1, ⟨2, htons port, ip⟩) else .throw .exit) es₂
            (.ok (sock, addr)) := h₂
      obtain ⟨x, _, hx⟩ | ⟨⟨sfd, connected⟩, es₃, es₄, rfl, hloop, hend⟩ := Prog.runs_bind.mp hbind
      · cases hx
      · cases connected with
        | false => cases (Prog.runs_throw.mp hend).2
        | true =>
          obtain ⟨rfl, hout⟩ := Prog.runs_ret.mp hend
          cases hout
          obtain ⟨hafter, hconn⟩ := connectLoop_held hloop (fun e he => hes e (by simp [he])) [first]
          obtain ⟨hsock, hmem⟩ := hconn rfl
          rw [heldBy, heldBy, if_neg (by simp), if_pos hsock] at hafter
          have hall : sockets.after [] (⟨.socket 2 1 0, first⟩ ::
              ⟨.getaddrinfo dst (Model.toString port.toNat) 1 6, some result⟩ :: (es₃ ++ [])) =
                some [sfd, first] := by
            rw [hheld, Ledger.after_quiet_cons ⟨rfl, rfl⟩, List.append_nil]
            exact hafter
          have hconnected : Connected (⟨.socket 2 1 0, first⟩ ::
              ⟨.getaddrinfo dst (Model.toString port.toNat) 1 6, some result⟩ :: (es₃ ++ [])) sfd := by
            obtain ⟨a, n, hmem, hn⟩ := hmem
            exact ⟨a, n, by simp [hmem], hn⟩
          refine ⟨fun hone => ?_, hconnected, first, _, rfl, hall⟩
          rw [LeavesOne, hall] at hone
          simp at hone
end Connect

section Sample

def httpCalls : List (Event (Client.Op Int) (Client.Reply Int)) :=
  [⟨.socket 2 1 0, (4 : Int)⟩,
    ⟨.getaddrinfo "10.0.1.1" (Model.toString 80) 1 6, some [⟨2, 1, 6, []⟩]⟩,
    ⟨.socket 2 1 6, (5 : Int)⟩, ⟨.connect 5 [], (0 : Int)⟩]

def httpAddress : SockaddrIn := ⟨2, 0x5000, 0x0101000a⟩

theorem httpCalls_runs :
    (connectToServer "10.0.1.1" 80).Runs httpCalls (.ok ((5 : Int), httpAddress)) :=
  .op (.op (.op (.op (.ret _))))

theorem httpCalls_promised : ∀ e ∈ httpCalls, Promised e := by
  intro e he
  simp only [httpCalls, List.mem_cons, List.not_mem_nil, or_false] at he
  rcases he with rfl | rfl | rfl | rfl
  · exact Or.inr (by decide)
  · trivial
  · exact Or.inr (by decide)
  · trivial

/-- Descriptor 5 is connected and given back, and 4 is open as well. -/
theorem two_descriptors_left :
    (connectToServer "10.0.1.1" 80).Runs httpCalls (.ok ((5 : Int), httpAddress)) ∧
      sockets.after [] httpCalls = some [5, 4] ∧ ¬ LeavesOne httpCalls (5 : Int) := by
  have hafter : sockets.after [] httpCalls = some [(5 : Int), 4] := by decide
  refine ⟨httpCalls_runs, hafter, fun hone => ?_⟩
  rw [LeavesOne, hafter] at hone
  simp at hone

theorem first_socket_left_http :
    ¬ LeavesOne httpCalls (5 : Int) ∧ Connected httpCalls (5 : Int) ∧
      ∃ first es', httpCalls = ⟨.socket 2 1 0, first⟩ :: es' ∧
        sockets.after [] httpCalls = some [5, first] :=
  first_socket_left httpCalls_runs httpCalls_promised

end Sample

end Ironhide.Proofs.ClientSockets
