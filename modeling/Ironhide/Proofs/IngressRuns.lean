import Ironhide.Lib.Schedule
import Ironhide.Model.Ingress
import Ironhide.Proofs.Table

namespace Ironhide.Proofs.IngressRuns
open Model Lib.Bytes Lib.Program Lib.StdMap Lib.Threads Lib.Threads.System Lib.Schedule Table

/-- The ingress's endpoint, and the calls its handlers have made on it. -/
structure State (T : MapOps ConnectionEntry) where
  endpoint : Endpoint T Int
  calls : List (Call Int)

variable {T : MapOps ConnectionEntry}

def start (T : MapOps ConnectionEntry) (myIp : String) (extPort intPort : BitVec 16) : State T :=
  ⟨.new T Int myIp extPort intPort, []⟩

/-- The call that an operation makes, with what roulette answers, and its result. -/
def Calls (e : Endpoint T Int) : (o : Op Int) → Reply Int o → Option (Call Int) → Prop
  | .addEntry ce fd sockin endpoint protocol, r, c => ∃ answer,
    c = some (.addEntry ce fd sockin endpoint protocol answer) ∧
      r = (e.addEntry ce fd sockin endpoint protocol answer).result
  | .updateEntry ce fd sockin endpoint, r, c => ∃ answer,
    c = some (.updateEntry ce fd sockin endpoint answer) ∧
      r = (e.updateEntry ce fd sockin endpoint answer).result
  | .deleteEntry ce, r, c => ∃ answer,
    c = some (.deleteEntry ce answer) ∧ r = (e.deleteEntry ce answer).result
  | .retrieveConnection2 ce, r, c =>
    c = some (.retrieveConnection2 ce) ∧ r = e.retrieveConnection2 ce
  | _, _, c => c = none

/-- Handlers of clients, datagrams and packets from the chain, in any number and
any order, with anything for an answer. -/
def system (T : MapOps ConnectionEntry) (self : Self) :
    System (State T) (Ingress.Callback Int) (Op Int) (Reply Int) Stop Unit where
  start := Ingress.start self
  perform s _ o r s' born := born = [] ∧ ∃ c, Calls s.endpoint o r c ∧
    s' = ⟨runCalls s.endpoint c.toList, s.calls ++ c.toList⟩
  arrive s s' _ := s' = s
  fatal := Stop.Fatal

abbrev CallPool (T : MapOps ConnectionEntry) :=
  Pool (State T) (Ingress.Callback Int) (Op Int) (Reply Int) Stop Unit

/-- The endpoint is the one the calls lead to. -/
theorem endpoint_eq {self : Self} {myIp : String} {extPort intPort : BitVec 16} {P : CallPool T}
    {guard : State T → List (Thread (Ingress.Callback Int) (Op Int) (Reply Int) Stop Unit) →
      Ingress.Callback Int → Op Int → Prop}
    (h : Reachable (system T self) guard (start T myIp extPort intPort) P) :
    P.shared.endpoint = runCalls (.new T Int myIp extPort intPort) P.shared.calls := by
  refine h.invariant (fun P => P.shared.endpoint =
    runCalls (.new T Int myIp extPort intPort) P.shared.calls) rfl ?_
  intro P Q _ ih hst
  cases hst with
  | @run s s' before after g past o k r born _ _ hperf =>
    obtain ⟨-, c, -, rfl⟩ := hperf
    change s.endpoint = _ at ih
    change runCalls s.endpoint c.toList = _
    rw [ih, runCalls, runCalls, runCalls, List.foldl_append]
  | arrive _ harr =>
    cases harr
    exact ih

section World
variable (T) (self : Self) (fd : Int) (ids : List (Call Int) → String)

def grants (id : String) : Op Int → Option (Call Int)
  | .addEntry ce fd sockin endpoint protocol =>
    some (.addEntry ce fd sockin endpoint protocol (.ok id))
  | .updateEntry ce fd sockin endpoint => some (.updateEntry ce fd sockin endpoint (.ok true))
  | .deleteEntry ce => some (.deleteEntry ce (.ok true))
  | .retrieveConnection2 ce => some (.retrieveConnection2 ce)
  | _ => none

theorem grants_calls (e : Endpoint T Int) (id : String) (received : List Byte) (o : Op Int) :
    Calls e o (e.serve fd ⟨"10.0.2.1", 57000, false⟩ received o).1 (grants id o) := by
  cases o with
  | addEntry ce fd sockin endpoint protocol =>
    refine ⟨.ok id, rfl, ?_⟩
    simp only [Endpoint.addEntry]
    split <;> rfl
  | updateEntry => exact ⟨.ok true, rfl, rfl⟩
  | deleteEntry ce =>
    refine ⟨.ok true, rfl, ?_⟩
    simp only [Endpoint.deleteEntry]
    split <;> rfl
  | retrieveConnection2 => exact ⟨rfl, rfl⟩
  | _ => rfl

def grantingWorld (received : List Byte) : World (system T self) where
  resolve s _ o :=
    let c := grants (ids s.calls) o
    some ((s.endpoint.serve fd ⟨"10.0.2.1", 57000, false⟩ received o).1,
      ⟨runCalls s.endpoint c.toList, s.calls ++ c.toList⟩, [])
  performs s g o r s' born h := by
    cases h
    exact ⟨rfl, _, grants_calls T fd s.endpoint _ received o, rfl⟩
  accept s _ := some s
  arrives s g s' h := (Option.some.inj h).symm

end World

instance (self : Self) : DecidablePred (system T self).fatal :=
  inferInstanceAs (DecidablePred Stop.Fatal)

end Ironhide.Proofs.IngressRuns
