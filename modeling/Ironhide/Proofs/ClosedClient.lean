import Ironhide.Proofs.IngressRuns
import Ironhide.Proofs.Keys
import Ironhide.Proofs.RemoteIds

namespace Ironhide.Proofs.ClosedClient
open Model Lib.Bytes Lib.Program Lib.StdMap PacketUtils Table RemoteIds

/-- What roulette and the resolver say while the ingress is at a segment. -/
structure Answers where
  created : Except Exn String
  route : Except Exn (List Address)
  resolved : Bool
  deriving DecidableEq, Repr

/-- What one receive brings, and what is answered until the next one. -/
structure Segment extends Answers where
  bytes : List Byte
  nonempty : bytes ≠ []
  fits : bytes.length ≤ bufferSize

structure World (T : MapOps ConnectionEntry) where
  first : Endpoint T Int
  calls : List (Call Int)
  now : Answers
  left : List Segment
  /-- What roulette answers to a deletion. -/
  deleted : Bool
  /-- Whether the connection breaks instead of being closed. -/
  broken : Bool

variable {T : MapOps ConnectionEntry}

namespace World

def start (e : Endpoint T Int) (segs : List Segment) (deleted broken : Bool) : World T where
  first := e
  calls := []
  now := ⟨.ok "", .ok [], true⟩
  left := segs
  deleted := deleted
  broken := broken

/-- The endpoint, and the ids the calls have created and not passed on for deletion. -/
def remote (w : World T) : Remote T Int := Remote.run ⟨w.first, []⟩ w.calls

def called (w : World T) (c : Call Int) : World T := { w with calls := w.calls ++ [c] }

theorem remote_called (w : World T) (c : Call Int) : (w.called c).remote = w.remote.step c :=
  Remote.run_snoc _ _ _

/-- Deletions are answered; what the handler does not use fails. -/
def answer (w : World T) : (o : Op Int) → Reply Int o × World T
  | .recv .. =>
    match w.left with
    | [] => (if w.broken then none else some [], w)
    | seg :: left => (some seg.bytes, { w with left, now := seg.toAnswers })
  | .addEntry ce fd sockin endpoint protocol =>
    ((w.remote.endpoint.addEntry ce fd sockin endpoint protocol w.now.created).result,
      w.called (.addEntry ce fd sockin endpoint protocol w.now.created))
  | .updateEntry ce fd sockin endpoint =>
    ((w.remote.endpoint.updateEntry ce fd sockin endpoint (.ok true)).result,
      w.called (.updateEntry ce fd sockin endpoint (.ok true)))
  | .deleteEntry ce =>
    ((w.remote.endpoint.deleteEntry ce (.ok w.deleted)).result,
      w.called (.deleteEntry ce (.ok w.deleted)))
  | .retrieveConnection2 ce => (w.remote.endpoint.retrieveConnection2 ce, w)
  | .getRouteList .. => (w.now.route, w)
  | .sendAndWaitResponse .. => (w.now.resolved, w)
  | .shutdown .. | .close .. | .goAsync .. => ((), w)
  | .read .. | .recvfrom .. => (none, w)
  | .send .. | .sendto .. => (-1, w)
  | .rawSocket .. => (none, w)
  | .bind .. => (false, w)
  | .connectToServer .. => (none, w)

end World

def Answers.turn (a : Answers) : Ingress.Turn :=
  match a.created, a.route with
  | .error _, _ => .failed
  | .ok _, .error _ => .failed
  | .ok _, .ok [] => .noRoute
  | .ok _, .ok (_ :: _) => .forwarded

def Answers.id (a : Answers) : Option String :=
  match a.created with
  | .ok id => if id = "" then none else some id
  | .error _ => none

section Round
variable {args : TcpArgs Int} {st : Ingress.Entering} {w w' : World T}

def registration (args : TcpArgs Int) (ce : ConnectionEntry) (created : Except Exn String) :
    Call Int :=
  .addEntry ce args.newSocketFd args.clientAddress .ingressT .tcp created

theorem result_addEntry (e : Endpoint T Int) (ce : ConnectionEntry) (fd : Int)
    (sockin : SockaddrIn) (endpoint : EndpointType) (protocol : ProtocolType)
    (created : Except Exn String) :
    (e.addEntry ce fd sockin endpoint protocol created).result = created.map fun _ => () := by
  cases created with
  | error x => rfl
  | ok id => by_cases h : id = "" <;> simp [Endpoint.addEntry, h, Except.map]

theorem result_deleteEntry (e : Endpoint T Int) (ce : ConnectionEntry) (deleted : Bool) :
    (e.deleteEntry ce (.ok deleted)).result = .ok () := by
  rw [Endpoint.deleteEntry]
  split <;> rfl

theorem play_raise_ok {α : Type} {x : Except Exn α} {a : α} :
    (raise x : Handler Int α).play World.answer w = (.ok a, w') ↔ x = .ok a ∧ w' = w := by
  cases x with
  | ok b => simp [eq_comm]
  | error e => simp

theorem play_checked_ok {α : Type} {c : Copied α} {a : α} :
    (checked c : Handler Int α).play World.answer w = (.ok a, w') ↔
      c.inBounds = true ∧ c.value = a ∧ w' = w := by
  by_cases h : c.inBounds = true
  · rw [checked_ok h]
    simp [h, eq_comm]
  · rw [checked_overrun h]
    simp [h]

theorem stoi_not_failure {s what : String} : stoi s ≠ .error (.failure what) := by
  intro h
  unfold stoi at h
  split at h <;> cases h

/-- The `try` block registers the connection; when it returns it does so as the
answers say, and only they make it fail with roulette's exception. -/
theorem tryForward_play (args : TcpArgs Int) (st : Ingress.Entering) (w : World T) (size : Nat) :
    ∃ out, (Ingress.tryForward args st size).play World.answer w =
        (out, w.called (registration args st.entry w.now.created)) ∧
      (∀ turn, out = .ok turn → turn = w.now.turn) ∧
      ∀ what, out = .error (.exn (.failure what)) → w.now.turn = .failed := by
  simp only [Ingress.tryForward, addEntry_bind, Prog.play_op, World.answer, result_addEntry]
  cases hcreated : w.now.created with
  | error x =>
    refine ⟨_, rfl, by simp, fun _ _ => ?_⟩
    rw [Answers.turn, hcreated]
  | ok id =>
    simp only [Except.map, raise_ok, Prog.ret_bind, getRouteList, servicePathId]
    cases hstoi : stoi st.sfcid with
    | error x =>
      refine ⟨_, rfl, by simp, fun what h => ?_⟩
      cases h
      exact absurd hstoi stoi_not_failure
    | ok n =>
      cases hroute : w.now.route with
      | error x =>
        refine ⟨.error (.exn x), ?_, by simp, fun _ _ => ?_⟩
        · simp [World.answer, World.called, hroute, registration]
        · rw [Answers.turn, hcreated, hroute]
      | ok path =>
        cases path with
        | nil =>
          refine ⟨.ok .noRoute, ?_, fun turn h => ?_, by simp⟩
          · simp [World.answer, World.called, hroute, registration]
          · cases h
            rw [Answers.turn, hcreated, hroute]
        | cons hop hops =>
          cases hresolved : w.now.resolved with
          | false =>
            refine ⟨.error .exit, ?_, by simp, by simp⟩
            simp [World.answer, World.called, hroute, registration, forward, servicePathId, hstoi,
              hresolved]
          | true =>
            refine ⟨.ok .forwarded, ?_, fun turn h => ?_, by simp⟩
            · simp [World.answer, World.called, hroute, registration, forward, servicePathId, hstoi,
                hresolved]
            · cases h
              rw [Answers.turn, hcreated, hroute]

/-- Registering and forwarding ends as the answers say, and has made one call. -/
theorem rescued_play {size : Nat} {turn : Ingress.Turn}
    (h : ((Ingress.tryForward args st size).rescue Ingress.catchFailure).play World.answer w =
      (.ok turn, w')) :
    turn = w.now.turn ∧ w' = w.called (registration args st.entry w.now.created) := by
  obtain ⟨out, hplay, hok, hfailure⟩ := tryForward_play args st w size
  rw [Prog.play_rescue_ok, hplay] at h
  rcases h with h | ⟨e, w₁, h, hcatch⟩
  · cases h
    exact ⟨hok turn rfl, rfl⟩
  · cases h
    unfold Ingress.catchFailure at hcatch
    split at hcatch
    · rename_i what
      cases hcatch
      exact ⟨(hfailure what rfl).symm, rfl⟩
    · cases hcatch

end Round

/-- A segment in the receive buffer, where a longer one before it may show behind it. -/
structure View where
  pkt : List Byte
  seg : Segment

def views : List Byte → List Segment → List View
  | _, [] => []
  | pkt, seg :: segs => ⟨overwrite pkt seg.bytes, seg⟩ :: views (overwrite pkt seg.bytes) segs

namespace View

def chain (self : Self) (v : View) : String :=
  (self.classify v.pkt v.seg.bytes.length).value.toOption.getD ""

def headers (v : View) : Iphdr × Tcphdr := (retrieveIpTcpHeader v.pkt).value

def entry (v : View) (sfcid : String) : ConnectionEntry :=
  connectionEntry v.headers.1.saddr v.headers.1.daddr v.headers.2.source v.headers.2.dest sfcid .tcp

def key (self : Self) (v : View) : ConnectionEntry := v.entry (v.chain self)

end View

def forwardedChain (st : Ingress.Entering) : Option String :=
  if st.firstPkt then none else some st.prevSfcid

section Loop
variable {self : Self} {args : TcpArgs Int} {st st' : Ingress.Entering} {w w' : World T}

theorem classifyPkt_play_ok {pkt : List Byte} {n : Nat} {sfcid : String} :
    (classifyPkt self pkt n : Handler Int String).play World.answer w = (.ok sfcid, w') ↔
      (self.classify pkt n).inBounds = true ∧ (self.classify pkt n).value = .ok sfcid ∧ w' = w := by
  simp only [classifyPkt, Prog.play_bind_ok, play_checked_ok, play_raise_ok]
  constructor
  · intro h
    obtain ⟨x, w₁, ⟨hin, rfl, rfl⟩, hx, rfl⟩ := h
    exact ⟨hin, hx, rfl⟩
  · intro h
    obtain ⟨hin, hx, rfl⟩ := h
    exact ⟨_, _, ⟨hin, rfl, rfl⟩, hx, rfl⟩

/-- A round skips a segment of the chain forwarded last, and registers any other. -/
theorem round_play {v : View} {again : Bool} (hpkt : v.pkt = overwrite st.pkt v.seg.bytes)
    (hnow : w.now = v.seg.toAnswers)
    (h : (Ingress.enteringRound self args st v.seg.bytes).play World.answer w =
      (.ok (st', again), w')) :
    st'.pkt = v.pkt ∧ st'.sfcid = v.chain self ∧
    ((forwardedChain st = some (v.chain self) ∧ w' = w ∧ again = true ∧
        st'.headers = st.headers ∧ forwardedChain st' = forwardedChain st) ∨
      (forwardedChain st ≠ some (v.chain self) ∧
        w' = w.called (registration args (v.key self) v.seg.created) ∧
        again = decide (v.seg.turn ≠ .noRoute) ∧ st'.headers = v.headers ∧
        forwardedChain st' = if v.seg.turn = .forwarded then some (v.chain self)
          else forwardedChain st)) := by
  rw [Ingress.enteringRound] at h
  obtain ⟨sfcid, w₁, hclass, hrest⟩ := Prog.play_bind_ok.mp h
  obtain ⟨-, hvalue, rfl⟩ := classifyPkt_play_ok.mp hclass
  have hchain : v.chain self = sfcid := by
    rw [View.chain, hpkt, hvalue]
    rfl
  dsimp only at hrest
  split at hrest
  · rename_i hnew
    obtain ⟨headers, w₂, hheaders, htry⟩ := Prog.play_bind_ok.mp hrest
    obtain ⟨-, hvalue', rfl⟩ := play_checked_ok.mp hheaders
    have hheaders' : v.headers = headers := by rw [View.headers, hpkt, hvalue']
    obtain ⟨turn, w₃, hrescued, hturn⟩ := Prog.play_bind_ok.mp htry
    obtain ⟨rfl, rfl⟩ := rescued_play hrescued
    have hprev : forwardedChain st ≠ some (v.chain self) := by
      rw [forwardedChain, hchain]
      rcases (Bool.or_eq_true _ _).mp hnew with hfirst | hne
      · simp [hfirst]
      · intro heq
        split at heq
        · cases heq
        · exact of_decide_eq_true hne (Option.some.inj heq).symm
    have hkey : v.key self = Ingress.Entering.entry { st with pkt := v.pkt, sfcid, headers } := by
      rw [View.key, View.entry, hchain, hheaders']
      rfl
    rw [hnow] at hturn
    rw [hchain, hkey, hheaders', hpkt]
    cases hends : v.seg.turn with
    | forwarded =>
      rw [hends] at hturn
      cases hturn
      exact ⟨rfl, rfl, .inr ⟨hchain ▸ hprev, rfl, rfl, rfl, rfl⟩⟩
    | noRoute =>
      rw [hends] at hturn
      cases hturn
      exact ⟨rfl, rfl, .inr ⟨hchain ▸ hprev, rfl, rfl, rfl, rfl⟩⟩
    | failed =>
      rw [hends] at hturn
      cases hturn
      exact ⟨rfl, rfl, .inr ⟨hchain ▸ hprev, rfl, rfl, rfl, rfl⟩⟩
  · rename_i hold
    cases hrest
    refine ⟨hpkt.symm, hchain.symm, .inl ⟨?_, rfl, rfl, rfl, rfl⟩⟩
    rw [Bool.or_eq_true, decide_eq_true_eq, not_or, Bool.not_eq_true, not_not] at hold
    rw [forwardedChain, hchain, if_neg (by simp [hold.1]), hold.2]

end Loop

/-- Which segments are registered after one of chain `last` was forwarded, and
whether the loop is left for want of a route. -/
def walk (self : Self) : Option String → List View → List View × Bool
  | _, [] => ([], false)
  | last, v :: vs =>
    if last = some (v.chain self) then walk self last vs
    else if v.seg.turn = .noRoute then ([v], true)
    else
      let rest := walk self (if v.seg.turn = .forwarded then some (v.chain self) else last) vs
      (v :: rest.1, rest.2)

section Walk
variable {self : Self} {last : Option String} {v : View} {vs : List View}

theorem walk_skip (h : last = some (v.chain self)) :
    walk self last (v :: vs) = walk self last vs := if_pos h

theorem walk_stop (h : last ≠ some (v.chain self)) (hstop : v.seg.turn = .noRoute) :
    walk self last (v :: vs) = ([v], true) := by
  rw [walk, if_neg h, if_pos hstop]

theorem walk_register (h : last ≠ some (v.chain self)) (hgo : v.seg.turn ≠ .noRoute) :
    walk self last (v :: vs) =
      (v :: (walk self (if v.seg.turn = .forwarded then some (v.chain self) else last) vs).1,
        (walk self (if v.seg.turn = .forwarded then some (v.chain self) else last) vs).2) := by
  rw [walk, if_neg h, if_neg hgo]

end Walk

section Loop
variable {self : Self} {args : TcpArgs Int}

/-- What the loop has done with the segments when it is over: the calls, the size
of the last receive, and the variables the key is made of. -/
structure Walked (s : Self) (args : TcpArgs Int) (st : Ingress.Entering) (vs : List View)
    (w : World T) (size : Nat) (st' : Ingress.Entering) (w' : World T) : Prop where
  first : w'.first = w.first
  calls : w'.calls = w.calls ++ (walk s (forwardedChain st) vs).1.map
    fun v => registration args (v.key s) v.seg.created
  size : size = 0 ↔ (walk s (forwardedChain st) vs).2 = false
  headers : st'.headers =
    (walk s (forwardedChain st) vs).1.foldl (fun _ v => v.headers) st.headers
  sfcid : (walk s (forwardedChain st) vs).2 = false →
    st'.sfcid = vs.foldl (fun _ v => v.chain s) st.sfcid

section Walked
variable {st st₁ st' : Ingress.Entering} {v : View} {vs : List View} {size : Nat} {w w' : World T}

theorem Walked.skip (hskip : forwardedChain st = some (v.chain self))
    (hsfcid : st₁.sfcid = v.chain self) (hheaders : st₁.headers = st.headers)
    (hchain : forwardedChain st₁ = forwardedChain st)
    (h : Walked self args st₁ vs w size st' w') : Walked self args st (v :: vs) w size st' w' := by
  obtain ⟨hfirst, hcalls, hsize, hheaders', hsfcid'⟩ := h
  rw [hchain] at hcalls hsize hheaders' hsfcid'
  rw [hheaders] at hheaders'
  rw [hsfcid] at hsfcid'
  constructor
  · exact hfirst
  all_goals rw [walk_skip hskip]
  · exact hcalls
  · exact hsize
  · exact hheaders'
  · exact hsfcid'

theorem Walked.register (hnew : forwardedChain st ≠ some (v.chain self))
    (hgo : v.seg.turn ≠ .noRoute) (hsfcid : st₁.sfcid = v.chain self)
    (hheaders : st₁.headers = v.headers)
    (hchain : forwardedChain st₁ =
      if v.seg.turn = .forwarded then some (v.chain self) else forwardedChain st)
    (h : Walked self args st₁ vs (w.called (registration args (v.key self) v.seg.created)) size
      st' w') : Walked self args st (v :: vs) w size st' w' := by
  obtain ⟨hfirst, hcalls, hsize, hheaders', hsfcid'⟩ := h
  rw [hchain] at hcalls hsize hheaders' hsfcid'
  rw [hheaders] at hheaders'
  rw [hsfcid] at hsfcid'
  constructor
  · exact hfirst
  all_goals rw [walk_register hnew hgo]
  · rw [hcalls, World.called, List.append_assoc]
    rfl
  · exact hsize
  · exact hheaders'
  · exact hsfcid'

theorem Walked.stop (hnew : forwardedChain st ≠ some (v.chain self))
    (hstop : v.seg.turn = .noRoute) (hheaders : st'.headers = v.headers) (hsize : size ≠ 0) :
    Walked self args st (v :: vs) w size st'
      (w.called (registration args (v.key self) v.seg.created)) := by
  constructor
  · rfl
  all_goals rw [walk_stop hnew hstop]
  · rfl
  · exact iff_of_false hsize (by simp)
  · exact hheaders
  · exact fun h => (nomatch h)

/-- A receive makes no call. -/
theorem Walked.received {now : Answers} {left : List Segment}
    (h : Walked self args st vs { w with now, left } size st' w') :
    Walked self args st vs w size st' w' :=
  ⟨h.first, h.calls, h.size, h.headers, h.sfcid⟩

end Walked

theorem loop_play {segs : List Segment} {n size : Nat} {st st' : Ingress.Entering} {w w' : World T}
    (hleft : w.left = segs)
    (h : (Ingress.enteringLoop self args n st).play World.answer w = (.ok (size, st'), w')) :
    Walked self args st (views st.pkt segs) w size st' w' := by
  induction segs generalizing n st w with
  | nil =>
    cases n with
    | zero => cases h
    | succ n =>
      rw [Ingress.enteringLoop, Prog.perform_bind, Prog.play_op] at h
      simp only [World.answer, hleft] at h
      cases hbroken : w.broken with
      | true =>
        rw [hbroken] at h
        cases h
      | false =>
        rw [hbroken] at h
        cases h
        exact ⟨rfl, (List.append_nil _).symm, iff_of_true rfl rfl, rfl, fun _ => rfl⟩
  | cons seg segs ih =>
    cases n with
    | zero => cases h
    | succ n =>
      rw [Ingress.enteringLoop, Prog.perform_bind, Prog.play_op] at h
      simp only [World.answer, hleft] at h
      obtain ⟨b, bs, hbytes⟩ := List.exists_cons_of_ne_nil seg.nonempty
      rw [hbytes] at h
      dsimp only at h
      rw [← hbytes] at h
      obtain ⟨⟨st₁, again⟩, w₁, hround, hnext⟩ := Prog.play_bind_ok.mp h
      dsimp only at hnext
      obtain ⟨hpkt, hsfcid, ⟨hskip, rfl, rfl, hheaders, hchain⟩ |
        ⟨hnew, rfl, rfl, hheaders, hchain⟩⟩ :=
        round_play (v := ⟨overwrite st.pkt seg.bytes, seg⟩) rfl rfl hround
      · have hrest := ih rfl hnext
        rw [hpkt] at hrest
        exact (hrest.skip hskip hsfcid hheaders hchain).received
      · by_cases hstop : seg.turn = .noRoute
        · rw [if_neg (by simp [hstop])] at hnext
          cases hnext
          have hsize : seg.bytes.length ≠ 0 := by simp [hbytes]
          exact (Walked.stop hnew hstop hheaders hsize).received
        · rw [if_pos (by simp [hstop])] at hnext
          have hrest := ih rfl hnext
          rw [hpkt] at hrest
          exact (hrest.register hnew hstop hsfcid hheaders hchain).received

end Loop

def added (cs : List (Call Int)) : List ConnectionEntry := cs.filterMap fun c => c.inserted.map Prod.fst

/-- Nothing is left under the keys, and every id has been passed on for deletion. -/
structure Clean (r : Remote T Int) (keys : List ConnectionEntry) : Prop where
  connection : ∀ ce ∈ keys, T.find r.endpoint.connectionMap ce = none
  remote : ∀ ce ∈ keys, T.find r.endpoint.mapToRemote ce = none
  ids : r.live = []

theorem cStr_cStr (s : String) : cStr (cStr s) = cStr s := by
  have htext : (cStr s).toList = s.toList.takeWhile (· ≠ '\x00') := String.toList_ofList
  rw [cStr, htext, List.takeWhile_idem]
  rfl

def Registers (cs : List (Call Int)) : Prop := ∀ c ∈ cs, ∃ v, c.inserted = some (c.key, v)

section Registered
variable {K : Set ConnectionEntry} {Good : {α : Type} → T.M α → Prop} {e : Endpoint T Int}
  {cs : List (Call Int)}

theorem not_deletes_of_inserted {c : Call Int} {v : ConnectionEntry × Int × SockaddrIn}
    (h : c.inserted = some v) (ce : ConnectionEntry) : ¬ c.deletes ce := by
  cases c with
  | deleteEntry => cases h
  | _ => exact id

theorem mem_added (h : Registers cs) {ce : ConnectionEntry} :
    ce ∈ added cs ↔ ∃ c ∈ cs, c.key = ce := by
  rw [added, List.mem_filterMap]
  constructor
  · intro hce
    obtain ⟨c, hc, hinserted⟩ := hce
    obtain ⟨v, hv⟩ := h c hc
    rw [hv] at hinserted
    exact ⟨c, hc, Option.some.inj hinserted⟩
  · intro hce
    obtain ⟨c, hc, rfl⟩ := hce
    obtain ⟨v, hv⟩ := h c hc
    exact ⟨c, hc, by rw [hv]; rfl⟩

/-- What was registered is found as long as nothing is deleted. -/
theorem found_of_registers (hT : FiniteOn T K Good) (he : Good e.connectionMap)
    (h : Registers cs) (hcs : ∀ c ∈ cs, c.key ∈ K) {c : Call Int} (hc : c ∈ cs) :
    (T.find (Remote.run ⟨e, []⟩ cs).endpoint.connectionMap c.key).isSome = true := by
  obtain ⟨before, after, rfl⟩ := List.append_of_mem hc
  obtain ⟨v, hv⟩ := h c hc
  have hbefore := good_runCalls hT before he fun d hd => hcs d (by simp [hd])
  have hfound := found_runCalls hT after (good_run hT hbefore (hcs c hc))
    (fun d hd => hcs d (by simp [hd])) (hcs c hc)
    (fun d hd => not_deletes_of_inserted (h d (by simp [hd])).choose_spec _)
    (found_inserted hT hbefore (hcs c hc) hv)
  rw [Remote.endpoint_run, runCalls, List.foldl_append, List.foldl_cons]
  rw [runCalls, runCalls] at hfound
  rw [hfound]
  rfl

theorem mem_live (h : Registers cs) {p : ConnectionEntry × String} :
    p ∈ (Remote.run ⟨e, []⟩ cs).live ↔ ∃ c ∈ cs, created c = some p := by
  induction cs using List.reverseRecOn with
  | nil => simp [Remote.run]
  | append_singleton cs c ih =>
    have hdel := not_deletes_of_inserted (h c (by simp)).choose_spec
    have hstep := stepped (Remote.run ⟨e, []⟩ cs) c
    rw [Remote.run_snoc]
    simp only [List.mem_append, List.mem_singleton, or_and_right, exists_or, exists_eq_left]
    rw [← ih fun d hd => h d (by simp [hd])]
    generalize Remote.run ⟨e, []⟩ cs = r at hstep
    generalize r.step c = s at hstep
    cases hstep with
    | created hcreated _ _ hlive =>
      rw [hlive, hcreated, List.mem_cons, or_comm, Option.some.injEq]
      exact or_congr_right eq_comm
    | deleted => exact absurd rfl (hdel _)
    | absent => exact absurd rfl (hdel _)
    | other hcreated _ hlive =>
      rw [hlive, hcreated]
      simp

/-- The last id of a key was created for it, when any was. -/
theorem lastId_of_created (h : Registers cs) {c : Call Int} (hc : c ∈ cs)
    {ce : ConnectionEntry} {id : String} (hcreated : created c = some (ce, id)) :
    ∃ id', lastId ce cs = some id' ∧ ∃ c' ∈ cs, created c' = some (ce, id') := by
  induction cs using List.reverseRecOn with
  | nil => cases hc
  | append_singleton cs d ih =>
    have hdel := not_deletes_of_inserted (h d (by simp)).choose_spec
    have hold (hc' : c ∈ cs) : ∃ id', lastId ce cs = some id' ∧
        ∃ c' ∈ cs ++ [d], created c' = some (ce, id') := by
      obtain ⟨id', hlast, c', hmem, hcreated'⟩ := ih (fun d hd => h d (by simp [hd])) hc'
      exact ⟨id', hlast, c', by simp [hmem], hcreated'⟩
    cases hd : created d with
    | none =>
      rw [lastId_other ce cs hd hdel]
      rcases List.mem_append.mp hc with hc | hc
      · exact hold hc
      · rw [List.mem_singleton.mp hc, hd] at hcreated
        cases hcreated
    | some p =>
      obtain ⟨ce', id'⟩ := p
      rw [lastId_created ce cs hd]
      by_cases hce : ce' = ce
      · subst hce
        exact ⟨id', if_pos rfl, d, by simp, hd⟩
      · rw [if_neg hce]
        rcases List.mem_append.mp hc with hc | hc
        · exact hold hc
        · rw [List.mem_singleton.mp hc, hd] at hcreated
          cases hcreated
          exact absurd rfl hce

/-- Without a deletion everything stays. -/
theorem not_clean_of_registers (hT : FiniteOn T K Good) (he : Good e.connectionMap)
    (h : Registers cs) (hcs : ∀ c ∈ cs, c.key ∈ K) (hne : cs ≠ []) :
    ¬ Clean (Remote.run ⟨e, []⟩ cs) (added cs) := by
  intro hclean
  obtain ⟨c, hc⟩ := List.exists_mem_of_ne_nil cs hne
  have hfound := found_of_registers hT he h hcs hc
  rw [hclean.connection c.key ((mem_added h).mpr ⟨c, hc, rfl⟩)] at hfound
  cases hfound

/-- All ids the calls have created are one, which reaches roulette as it is. -/
def OneId (cs : List (Call Int)) : Prop :=
  ∀ c ∈ cs, ∀ c' ∈ cs, ∀ p q, created c = some p → created c' = some q → p.2 = q.2 ∧ cStr p.2 = p.2

/-- One deletion leaves nothing exactly when it is for the one key and the one id
there are. -/
theorem clean_deleted_iff (hT : FiniteOn T K Good) (he : Good e.connectionMap)
    (he' : Good e.mapToRemote) (h : Registers cs) (hcs : ∀ c ∈ cs, c.key ∈ K) (hne : cs ≠ [])
    {ce : ConnectionEntry} (hce : ce ∈ K) (deleted : Bool) :
    Clean ((Remote.run ⟨e, []⟩ cs).step (.deleteEntry ce (.ok deleted))) (added cs) ↔
      (∀ c ∈ cs, c.key = ce) ∧ OneId cs := by
  have htracks := (tracks_nil he he').run hT cs hcs
  have hfound (c : Call Int) (hc : c ∈ cs) := found_of_registers hT he h hcs hc
  have hlive (p : ConnectionEntry × String) : p ∈ (Remote.run ⟨e, []⟩ cs).live ↔ _ := mem_live h
  have hstep := stepped (Remote.run ⟨e, []⟩ cs) (.deleteEntry ce (.ok deleted))
  have hframe (k : ConnectionEntry) (hk : k ∈ K) (hne : k ≠ ce) :
      T.find ((Remote.run ⟨e, []⟩ cs).step (.deleteEntry ce (.ok deleted))).endpoint.connectionMap k =
        T.find (Remote.run ⟨e, []⟩ cs).endpoint.connectionMap k :=
    found_frame hT htracks.goodConnection hce hk hne
  generalize Remote.run ⟨e, []⟩ cs = r at htracks hfound hlive hstep hframe ⊢
  generalize r.step (.deleteEntry ce (.ok deleted)) = s at hstep hframe ⊢
  obtain ⟨c₀, hc₀⟩ := List.exists_mem_of_ne_nil cs hne
  have hdeletes (hkeys : ∀ c ∈ cs, c.key = ce) :=
    stepped_deletes hstep (hkeys c₀ hc₀ ▸ hfound c₀ hc₀)
  constructor
  · intro hclean
    have hkeys : ∀ c ∈ cs, c.key = ce := by
      intro c hc
      by_contra hother
      have hstays := hfound c hc
      rw [← hframe c.key (hcs c hc) hother,
        hclean.connection c.key ((mem_added h).mpr ⟨c, hc, rfl⟩)] at hstays
      cases hstays
    obtain ⟨hlive', _, _⟩ := hdeletes hkeys
    -- all ids are the one that is passed, which has been cut already
    have hpassed (c : Call Int) (hc : c ∈ cs) (p : ConnectionEntry × String)
        (hp : created c = some p) : p.2 = cStr ((T.find r.endpoint.mapToRemote ce).getD "") := by
      by_contra hleft
      have hmem : p ∈ s.live := by
        rw [hlive']
        exact List.mem_filter.mpr ⟨(hlive p).mpr ⟨c, hc, hp⟩, decide_eq_true hleft⟩
      rw [hclean.ids] at hmem
      cases hmem
    refine ⟨hkeys, ?_⟩
    intro c hc c' hc' p q hp hq
    rw [hpassed c hc p hp, hpassed c' hc' q hq, cStr_cStr]
    exact ⟨rfl, rfl⟩
  · intro hone
    obtain ⟨hkeys, hids⟩ := hone
    have hadded : ∀ k ∈ added cs, k = ce := by
      intro k hk
      obtain ⟨c, hc, rfl⟩ := (mem_added h).mp hk
      exact hkeys c hc
    obtain ⟨hlive', hconn, hremote⟩ := hdeletes hkeys
    refine ⟨?_, ?_, ?_⟩
    · intro k hk
      rw [hadded k hk, hconn, hT.erase_self _ _ htracks.goodConnection hce]
    · intro k hk
      rw [hadded k hk, hremote]
      exact hT.erase_insert_self htracks.goodRemote hce _
    · rw [hlive', List.filter_eq_nil_iff]
      intro p hp hleft
      obtain ⟨c, hc, hcreated⟩ := (hlive p).mp hp
      have hp' : p.1 = ce := (created_key hcreated).symm.trans (hkeys c hc)
      obtain ⟨id, hlast, c', hc', hcreated'⟩ := lastId_of_created h hc
        (show created c = some (ce, p.2) from hp' ▸ hcreated)
      have hstored := (htracks.stored ce hce id hlast).2.1
      obtain ⟨heq, hwhole⟩ := hids c hc c' hc' p (ce, id) hcreated hcreated'
      refine of_decide_eq_true hleft ?_
      rw [hstored, Option.getD_some]
      exact hwhole.symm.trans (congrArg cStr heq)

end Registered

/-- A list up to its first element with `p`, that one included. -/
def upTo {α : Type} (p : α → Bool) : List α → List α
  | [] => []
  | a :: l => a :: if p a then [] else upTo p l

def firsts (vs : List View) : List View := upTo (fun v => v.seg.turn = .forwarded) vs

/-- The segments are all of one chain, and the first ones, up to the one that is
forwarded, show one pair of addresses and ports, find a route, and are given one
id at most, which has no zero character. -/
structure Tidy (s : Self) (vs : List View) : Prop where
  chain : ∀ v ∈ vs, ∀ v' ∈ vs, v.chain s = v'.chain s
  key : ∀ v ∈ firsts vs, ∀ v' ∈ firsts vs, v.key s = v'.key s
  route : ∀ v ∈ firsts vs, v.seg.turn ≠ .noRoute
  id : ∀ v ∈ firsts vs, ∀ v' ∈ firsts vs, ∀ a b, v.seg.id = some a → v'.seg.id = some b →
    a = b ∧ cStr a = a

section Tidy
variable {self : Self} {last : Option String} {vs : List View}

theorem walk_subset (last : Option String) : ∀ v ∈ (walk self last vs).1, v ∈ vs := by
  induction vs generalizing last with
  | nil => exact fun v h => h
  | cons u vs ih =>
    intro v hv
    by_cases hskip : last = some (u.chain self)
    · rw [walk_skip hskip] at hv
      exact List.mem_cons_of_mem _ (ih last v hv)
    · by_cases hstop : u.seg.turn = .noRoute
      · rw [walk_stop hskip hstop] at hv
        exact List.mem_singleton.mp hv ▸ List.mem_cons_self
      · rw [walk_register hskip hstop] at hv
        rcases List.mem_cons.mp hv with rfl | hv
        · exact List.mem_cons_self
        · exact List.mem_cons_of_mem _ (ih _ v hv)

/-- The loop is only left early for a segment it has registered. -/
theorem walk_stopped (h : (walk self last vs).2 = true) : (walk self last vs).1 ≠ [] := by
  induction vs generalizing last with
  | nil => cases h
  | cons u vs ih =>
    by_cases hskip : last = some (u.chain self)
    · rw [walk_skip hskip] at h ⊢
      exact ih h
    · by_cases hstop : u.seg.turn = .noRoute
      · rw [walk_stop hskip hstop]
        exact List.cons_ne_nil _ _
      · rw [walk_register hskip hstop]
        exact List.cons_ne_nil _ _

/-- The first segment is registered. -/
theorem walk_first (h : vs ≠ []) : (walk self none vs).1 ≠ [] := by
  cases vs with
  | nil => exact absurd rfl h
  | cons u vs =>
    have hnew : none ≠ some (u.chain self) := nofun
    by_cases hstop : u.seg.turn = .noRoute
    · rw [walk_stop hnew hstop]
      exact List.cons_ne_nil _ _
    · rw [walk_register hnew hstop]
      exact List.cons_ne_nil _ _

/-- A segment that is skipped is on the chain of one that is registered. -/
theorem walk_chain (h : (walk self last vs).2 = false) : ∀ v ∈ vs, last = some (v.chain self) ∨
    ∃ u ∈ (walk self last vs).1, u.chain self = v.chain self := by
  induction vs generalizing last with
  | nil => exact fun v hv => (nomatch hv)
  | cons w vs ih =>
    intro v hv
    by_cases hskip : last = some (w.chain self)
    · rw [walk_skip hskip] at h ⊢
      rcases List.mem_cons.mp hv with rfl | hv
      · exact .inl hskip
      · exact ih h v hv
    · by_cases hstop : w.seg.turn = .noRoute
      · rw [walk_stop hskip hstop] at h
        cases h
      · rw [walk_register hskip hstop] at h ⊢
        rcases List.mem_cons.mp hv with rfl | hv
        · exact .inr ⟨v, List.mem_cons_self, rfl⟩
        · rcases ih h v hv with hlast | ⟨u, hu, hchain⟩
          · split at hlast
            · exact .inr ⟨w, List.mem_cons_self, Option.some.inj hlast⟩
            · exact .inl hlast
          · exact .inr ⟨u, List.mem_cons_of_mem _ hu, hchain⟩

variable {sfcid : String}

/-- After a segment of their chain was forwarded, all are skipped. -/
theorem walk_same (h : ∀ v ∈ vs, v.chain self = sfcid) : walk self (some sfcid) vs = ([], false) := by
  induction vs with
  | nil => rfl
  | cons v vs ih =>
    rw [walk_skip (congrArg some (h v List.mem_cons_self).symm)]
    exact ih fun v' hv' => h v' (List.mem_cons_of_mem _ hv')

/-- Segments of one chain are registered up to the first that is forwarded, as
long as there is a route. -/
theorem walk_one_chain (h : ∀ v ∈ vs, v.chain self = sfcid) :
    ((walk self none vs).2 = false ↔ ∀ v ∈ firsts vs, v.seg.turn ≠ .noRoute) ∧
      ((walk self none vs).2 = false → (walk self none vs).1 = firsts vs) := by
  induction vs with
  | nil => exact ⟨iff_of_true rfl fun v hv => (nomatch hv), fun _ => rfl⟩
  | cons u vs ih =>
    have hrest : ∀ v ∈ vs, v.chain self = sfcid := fun v hv => h v (List.mem_cons_of_mem _ hv)
    have hnew : none ≠ some (u.chain self) := nofun
    cases hturn : u.seg.turn with
    | forwarded =>
      have hfirsts : firsts (u :: vs) = [u] := by simp [firsts, upTo, hturn]
      rw [walk_register hnew (by simp [hturn]), hturn, if_pos rfl, h u List.mem_cons_self,
        walk_same hrest, hfirsts]
      exact ⟨iff_of_true rfl (by simp [hturn]), fun _ => rfl⟩
    | noRoute =>
      have hfirsts : firsts (u :: vs) = u :: firsts vs := by simp [firsts, upTo, hturn]
      rw [walk_stop hnew hturn, hfirsts]
      exact ⟨iff_of_false (by simp) fun hgo => hgo u List.mem_cons_self hturn, fun hgo => (nomatch hgo)⟩
    | failed =>
      have hfirsts : firsts (u :: vs) = u :: firsts vs := by simp [firsts, upTo, hturn]
      rw [walk_register hnew (by simp [hturn]), hturn, if_neg (by simp), hfirsts]
      obtain ⟨hgo, hwalk⟩ := ih hrest
      refine ⟨?_, fun hrun => congrArg (u :: ·) (hwalk hrun)⟩
      rw [List.forall_mem_cons, hgo]
      exact (and_iff_right (by simp [hturn])).symm

end Tidy

/-- What the calls of a returned loop come to, on the side of the segments. -/
theorem tidy_iff {self : Self} {vs : List View} (hgo : (walk self none vs).2 = false) {u z : View}
    (hu : u ∈ (walk self none vs).1) (hz : z ∈ vs) :
    Tidy self vs ↔ (∀ v ∈ (walk self none vs).1, v.key self = u.entry (z.chain self)) ∧
      ∀ v ∈ (walk self none vs).1, ∀ v' ∈ (walk self none vs).1, ∀ a b,
        v.seg.id = some a → v'.seg.id = some b → a = b ∧ cStr a = a := by
  constructor
  · intro h
    have hchain : ∀ v ∈ vs, v.chain self = z.chain self := fun v hv => h.chain v hv z hz
    have hwalk := (walk_one_chain hchain).2 hgo
    rw [hwalk] at hu ⊢
    refine ⟨fun v hv => (h.key v hv u hu).trans ?_, h.id⟩
    rw [View.key, h.chain u (walk_subset none u (hwalk ▸ hu)) z hz]
  · intro h
    obtain ⟨hkey, hid⟩ := h
    have hregistered : ∀ v ∈ (walk self none vs).1, v.chain self = z.chain self :=
      fun v hv => congrArg ConnectionEntry.sfcid (hkey v hv)
    have hchain : ∀ v ∈ vs, v.chain self = z.chain self := by
      intro v hv
      rcases walk_chain hgo v hv with hlast | ⟨w, hw, hchain⟩
      · cases hlast
      · exact hchain.symm.trans (hregistered w hw)
    obtain ⟨hroute, hwalk⟩ := walk_one_chain hchain
    rw [hwalk hgo] at hkey hid
    exact ⟨fun v hv v' hv' => (hchain v hv).trans (hchain v' hv').symm,
      fun v hv v' hv' => (hkey v hv).trans (hkey v' hv').symm, hroute.mp hgo, hid⟩

/-- Where the loop is left early, something is amiss with the segments. -/
theorem not_tidy_of_stopped {self : Self} {vs : List View} (hstop : (walk self none vs).2 = true) :
    ¬ Tidy self vs := by
  intro h
  obtain ⟨u, hu⟩ := List.exists_mem_of_ne_nil _ (walk_stopped hstop)
  have hchain : ∀ v ∈ vs, v.chain self = u.chain self :=
    fun v hv => h.chain v hv u (walk_subset none u hu)
  rw [(walk_one_chain hchain).1.mpr h.route] at hstop
  cases hstop

theorem foldl_last {α β : Type} (f : α → β) {l : List α} (hne : l ≠ []) (b : β) :
    ∃ a ∈ l, l.foldl (fun _ a => f a) b = f a := by
  induction l generalizing b with
  | nil => exact absurd rfl hne
  | cons a l ih =>
    by_cases hl : l = []
    · subst hl
      exact ⟨a, List.mem_cons_self, rfl⟩
    · obtain ⟨a', ha', heq⟩ := ih hl (f a)
      exact ⟨a', List.mem_cons_of_mem _ ha', heq⟩

theorem afterLoop_play {args : TcpArgs Int} {size : Nat} {st : Ingress.Entering} {w w' : World T}
    (h : (Ingress.afterLoop args size st).play World.answer w = (.ok (), w')) :
    w' = if size = 0 then w.called (.deleteEntry st.entry (.ok w.deleted)) else w := by
  obtain ⟨_, w₁, hdelete, hclose⟩ := Prog.play_bind_ok.mp h
  have hsame : w' = w₁ := by
    split at hclose
    · cases hclose
      rfl
    · cases hclose
      rfl
  subst hsame
  split at hdelete
  · rename_i hsize
    rw [if_pos hsize]
    change (raise (w.remote.endpoint.deleteEntry st.entry (.ok w.deleted)).result).play _ _ = _
      at hdelete
    rw [result_deleteEntry] at hdelete
    cases hdelete
    rfl
  · rename_i hsize
    rw [if_neg hsize]
    cases hdelete
    rfl

section Calls
variable {self : Self} {args : TcpArgs Int} {vs : List View}

def registrations (self : Self) (args : TcpArgs Int) (vs : List View) : List (Call Int) :=
  vs.map fun v => registration args (v.key self) v.seg.created

theorem registrations_registers : Registers (registrations self args vs) := by
  intro c hc
  obtain ⟨v, _, rfl⟩ := List.mem_map.mp hc
  exact ⟨_, rfl⟩

theorem created_registration (v : View) :
    created (registration args (v.key self) v.seg.created) = v.seg.id.map fun id => (v.key self, id) := by
  rw [Answers.id]
  cases hcreated : v.seg.created with
  | error x => rfl
  | ok id => by_cases hid : id = "" <;> simp [created, registration, hid]

theorem oneId_registrations : OneId (registrations self args vs) ↔
    ∀ v ∈ vs, ∀ v' ∈ vs, ∀ a b, v.seg.id = some a → v'.seg.id = some b → a = b ∧ cStr a = a := by
  simp only [OneId, registrations, List.forall_mem_map, created_registration]
  constructor
  · intro h v hv v' hv' a b ha hb
    exact h v hv v' hv' (v.key self, a) (v'.key self, b) (by rw [ha]; rfl) (by rw [hb]; rfl)
  · intro h v hv v' hv' p q hp hq
    obtain ⟨a, ha, rfl⟩ := Option.map_eq_some_iff.mp hp
    obtain ⟨b, hb, rfl⟩ := Option.map_eq_some_iff.mp hq
    exact h v hv v' hv' a b ha hb

end Calls

/-- The key the loop ends with is made of the headers of a segment it registered
and the chain of one it saw. -/
theorem Walked.entry {self : Self} {args : TcpArgs Int} {pkt : List Byte} {vs : List View}
    {size : Nat} {st : Ingress.Entering} {w w' : World T}
    (h : Walked self args (Ingress.Entering.start pkt) vs w size st w')
    (hgo : (walk self none vs).2 = false) (hne : vs ≠ []) :
    ∃ u ∈ (walk self none vs).1, ∃ z ∈ vs, st.entry = u.entry (z.chain self) := by
  obtain ⟨u, hu, hheaders⟩ := foldl_last View.headers (walk_first hne)
    (Ingress.Entering.start pkt).headers
  obtain ⟨z, hz, hsfcid⟩ := foldl_last (View.chain self) hne (Ingress.Entering.start pkt).sfcid
  refine ⟨u, hu, z, hz, ?_⟩
  rw [Ingress.Entering.entry, View.entry, (h.sfcid hgo).trans hsfcid, h.headers.trans hheaders]

/-- A client that has closed leaves nothing behind exactly when its segments were tidy. -/
theorem nothing_left_iff {K : Set ConnectionEntry} {Good : {α : Type} → T.M α → Prop}
    (hT : FiniteOn T K Good) {e : Endpoint T Int} (he : Good e.connectionMap)
    (he' : Good e.mapToRemote) {self : Self} {args : TcpArgs Int} {pkt : List Byte}
    {fuel : Nat} {segs : List Segment} {deleted broken : Bool} {w : World T}
    (hK : ∀ v ∈ views pkt segs, ∀ v' ∈ views pkt segs, v.entry (v'.chain self) ∈ K)
    (h : (Ingress.manageEnteringTcpPackets self args pkt fuel).play World.answer
      (World.start e segs deleted broken) = (.ok (), w)) :
    Clean w.remote (added w.calls) ↔ Tidy self (views pkt segs) := by
  obtain ⟨⟨size, st⟩, w₁, hloop, hafter⟩ := Prog.play_bind_ok.mp h
  have hw : w = if size = 0 then w₁.called (.deleteEntry st.entry (.ok w₁.deleted)) else w₁ :=
    afterLoop_play hafter
  have hwalked : Walked self args (Ingress.Entering.start pkt) (views pkt segs)
      (World.start e segs deleted broken) size st w₁ := loop_play rfl hloop
  have hfirst : w₁.first = e := hwalked.first
  have hcalls : w₁.calls = registrations self args (walk self none (views pkt segs)).1 :=
    hwalked.calls
  have hsize : size = 0 ↔ (walk self none (views pkt segs)).2 = false := hwalked.size
  have hregisters : Registers w₁.calls := hcalls ▸ registrations_registers
  have hkeys : ∀ c ∈ w₁.calls, c.key ∈ K := by
    intro c hc
    rw [hcalls] at hc
    obtain ⟨v, hv, rfl⟩ := List.mem_map.mp hc
    exact hK v (walk_subset none v hv) v (walk_subset none v hv)
  rw [← hfirst] at he he'
  by_cases hclosed : size = 0
  · have hgo := hsize.mp hclosed
    rw [if_pos hclosed] at hw
    subst hw
    have hadded : added (w₁.called (.deleteEntry st.entry (.ok w₁.deleted))).calls = added w₁.calls := by
      simp [World.called, added, Call.inserted]
    rw [World.remote_called, World.remote, hadded]
    by_cases hnil : views pkt segs = []
    · rw [hnil] at hcalls ⊢
      rw [hcalls]
      refine iff_of_true ⟨?_, ?_, rfl⟩ ⟨?_, ?_, ?_, ?_⟩
      all_goals exact fun _ hmem => (nomatch hmem)
    · obtain ⟨u, hu, z, hz, hentry⟩ := hwalked.entry hgo hnil
      have hne : w₁.calls ≠ [] := fun heq =>
        walk_first hnil (List.map_eq_nil_iff.mp (hcalls.symm.trans heq))
      have hce : st.entry ∈ K := hentry ▸ hK u (walk_subset none u hu) z hz
      rw [clean_deleted_iff hT he he' hregisters hkeys hne hce, tidy_iff hgo hu hz, ← hentry, hcalls,
        oneId_registrations]
      exact and_congr_left' List.forall_mem_map
  · have hstop : (walk self none (views pkt segs)).2 = true := by
      rw [← Bool.not_eq_false, ← hsize]
      exact hclosed
    rw [if_neg hclosed] at hw
    subst hw
    refine iff_of_false (not_clean_of_registers hT he hregisters hkeys fun heq => ?_)
      (not_tidy_of_stopped hstop)
    exact walk_stopped hstop (List.map_eq_nil_iff.mp (hcalls.symm.trans heq))

section Sample
open Keys Framing

def segment (route : List Address) : Segment where
  created := .ok "5f3e"
  route := .ok route
  resolved := true
  bytes := tcpPacket
  nonempty := by simp [tcpPacket, plainIp]
  fits := by decide

def served (seg : Segment) : Except Stop Unit × World (stdMap plain) :=
  (Ingress.manageEnteringTcpPackets proxy ⟨5, SockaddrIn.zero⟩ [] 2).play World.answer
    (World.start (.new (stdMap plain) Int "10.0.0.9" 57000 57001) [seg] true false)

def unrouted : Segment := segment []

def routed : Segment := segment [⟨"10.0.2.1", 57000, false⟩]

theorem routed_client_leaves_nothing :
    Clean (served routed).2.remote (added (served routed).2.calls) := by
  have hT := stdMap_finiteOn plain (ConnectionEntry.chain_singleton (sampleConnection.entry .tcp))
  have hviews : views [] [routed] = [⟨tcpPacket, routed⟩] := rfl
  have hkey : View.entry ⟨tcpPacket, routed⟩ (View.chain proxy ⟨tcpPacket, routed⟩) =
      sampleConnection.entry .tcp := by decide +kernel
  refine (nothing_left_iff hT hT.good_empty hT.good_empty ?_ (Prod.ext (by decide +kernel) rfl)).mpr ?_
  · rw [hviews]
    simp only [List.forall_mem_singleton]
    exact hkey
  · have hfirsts : firsts [⟨tcpPacket, routed⟩] = [⟨tcpPacket, routed⟩] := rfl
    rw [hviews]
    constructor
    · simp
    · simp [hfirsts]
    · rw [hfirsts]
      simp only [List.forall_mem_singleton]
      decide
    · rw [hfirsts]
      simp only [List.forall_mem_singleton]
      intro a b ha hb
      cases ha
      cases hb
      decide

/-- Roulette has no route for the packet: the entry stays, and so does its id. -/
theorem unrouted_client_leaves_entry :
    (served unrouted).1 = .ok () ∧ ¬ Clean (served unrouted).2.remote (added (served unrouted).2.calls) := by
  refine ⟨by decide +kernel, fun h => ?_⟩
  have hids : (served unrouted).2.remote.live ≠ [] := by decide +kernel
  exact hids h.ids

end Sample

end Ironhide.Proofs.ClosedClient
