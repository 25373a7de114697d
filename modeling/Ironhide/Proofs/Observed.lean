import Ironhide.Model.Handler

namespace Ironhide.Proofs.Observed
open Model Lib.Bytes Lib.Program

variable {φ : Type}

/-- What an operation hands to a peer: bytes on a connection, or a datagram. -/
def written : Op φ → Option (List Byte)
  | .send _ bytes => some bytes
  | .sendto _ bytes _ => some bytes
  | _ => none

def message : Op φ → Option (List Byte)
  | .sendAndWaitResponse m _ _ => some m
  | _ => none

def looksUp : Op φ → Bool
  | .retrieveConnection2 _ => true
  | _ => false

def chunk : Event (Op φ) (Reply φ) → Option (List Byte)
  | ⟨.recv _ _, some (b :: bs)⟩ => some (b :: bs)
  | ⟨.read _ _, some (b :: bs)⟩ => some (b :: bs)
  | ⟨.recvfrom _ _, some (b :: bs)⟩ => some (b :: bs)
  | _ => none

def outputs (es : List (Event (Op φ) (Reply φ))) : List (List Byte) :=
  es.filterMap (fun e => written e.op)

def messages (es : List (Event (Op φ) (Reply φ))) : List (List Byte) :=
  es.filterMap (fun e => message e.op)

def chunks (es : List (Event (Op φ) (Reply φ))) : List (List Byte) := es.filterMap chunk

def received (es : List (Event (Op φ) (Reply φ))) : List Byte := (chunks es).flatten

/-- What went out on one descriptor; the result of a send is how much of it did. -/
def writtenOn [DecidableEq φ] (fd : φ) (es : List (Event (Op φ) (Reply φ))) : List Byte :=
  es.flatMap fun
    | ⟨.send fd' bytes, n⟩ => if fd' = fd then bytes.take n.toNat else []
    | ⟨.sendto fd' bytes _, n⟩ => if fd' = fd then bytes.take n.toNat else []
    | _ => []

variable (es es' : List (Event (Op φ) (Reply φ)))

theorem outputs_append : outputs (es ++ es') = outputs es ++ outputs es' := List.filterMap_append

theorem messages_append : messages (es ++ es') = messages es ++ messages es' :=
  List.filterMap_append

theorem chunks_append : chunks (es ++ es') = chunks es ++ chunks es' := List.filterMap_append

def Receives : Op φ → Prop
  | .recv .. | .read .. | .recvfrom .. => True
  | _ => False

theorem chunk_none {e : Event (Op φ) (Reply φ)} (h : ¬ Receives e.op) : chunk e = none := by
  unfold chunk
  split
  · exact absurd trivial h
  · exact absurd trivial h
  · exact absurd trivial h
  · rfl

theorem chunk_ne_nil {e : Event (Op φ) (Reply φ)} {c : List Byte} (h : chunk e = some c) :
    c ≠ [] := by
  unfold chunk at h
  split at h
  all_goals cases h
  all_goals simp

variable {es}

theorem mem_chunks {c : List Byte} (h : c ∈ chunks es) : c ≠ [] := by
  obtain ⟨e, _, he⟩ := List.mem_filterMap.mp h
  exact chunk_ne_nil he

/-- What the operations of a run say of their messages holds of its messages. -/
theorem mem_messages {m : List Byte} {P : Op φ → Prop} (hm : m ∈ messages es)
    (h : ∀ e ∈ es, P e.op) : ∃ dst port, P (.sendAndWaitResponse m dst port) := by
  obtain ⟨e, he, hmsg⟩ := List.mem_filterMap.mp hm
  have hP := h e he
  unfold message at hmsg
  split at hmsg
  · rename_i dst port hop
    cases hmsg
    exact ⟨dst, port, hop ▸ hP⟩
  · cases hmsg

theorem outputs_quiet (h : ∀ e ∈ es, written e.op = none) : outputs es = [] :=
  List.filterMap_eq_nil_iff.mpr h

theorem messages_quiet (h : ∀ e ∈ es, message e.op = none) : messages es = [] :=
  List.filterMap_eq_nil_iff.mpr h

theorem chunks_quiet (h : ∀ e ∈ es, ¬ Receives e.op) : chunks es = [] :=
  List.filterMap_eq_nil_iff.mpr fun e he => chunk_none (h e he)

/-- When the first part of a handler cannot receive, what was received was
received in the second. -/
theorem chunks_bind {α β : Type} {p : Handler φ α} {f : α → Handler φ β} {out : Except Stop β}
    {c : List Byte} (h : (p >>= f).Runs es out) (hp : p.All fun o => ¬ Receives o)
    (hc : c ∈ chunks es) :
    ∃ a es₁ es₂, es = es₁ ++ es₂ ∧ c ∈ chunks es₂ ∧ (f a).Runs es₂ out := by
  rcases Prog.runs_bind.mp h with ⟨x, hx, _⟩ | ⟨a, es₁, es₂, rfl, hx, hf⟩
  · rw [chunks_quiet (hx.all hp)] at hc
    cases hc
  · rw [chunks_append, chunks_quiet (hx.all hp), List.nil_append] at hc
    exact ⟨a, es₁, es₂, rfl, hc, hf⟩

/-- When the first part of a handler cannot send to the chain, what was sent was
sent in the second. -/
theorem messages_bind {α β : Type} {p : Handler φ α} {f : α → Handler φ β} {q : Handler φ β}
    {m : List Byte} (h : Prog.Reaches (p >>= f) es q) (hp : p.All fun o => message o = none)
    (hm : m ∈ messages es) :
    ∃ a es₁ es₂, es = es₁ ++ es₂ ∧ m ∈ messages es₂ ∧ Prog.Reaches (f a) es₂ q := by
  rcases Prog.reaches_bind.mp h with ⟨p', hp', _⟩ | ⟨a, es₁, es₂, rfl, hrun, hf⟩
  · rw [messages_quiet (hp'.all hp).2] at hm
    cases hm
  · rw [messages_append, messages_quiet (hrun.all hp), List.nil_append] at hm
    exact ⟨a, es₁, es₂, rfl, hm, hf⟩

section WrittenOn
variable [DecidableEq φ] (fd : φ)

theorem writtenOn_send (fd' : φ) (bytes : List Byte) (n : Int) :
    writtenOn fd (⟨.send fd' bytes, n⟩ :: es) =
      (if fd' = fd then bytes.take n.toNat else []) ++ writtenOn fd es := rfl

theorem writtenOn_sendto (fd' : φ) (bytes : List Byte) (addr : SockaddrIn) (n : Int) :
    writtenOn fd (⟨.sendto fd' bytes addr, n⟩ :: es) =
      (if fd' = fd then bytes.take n.toNat else []) ++ writtenOn fd es := rfl

theorem writtenOn_quiet (h : ∀ e ∈ es, written e.op = none) : writtenOn fd es = [] := by
  apply List.flatMap_eq_nil_iff.mpr
  intro e he
  have hw := h e he
  split
  · cases hw
  · cases hw
  · rfl

/-- No more goes out than was handed to a send. -/
theorem writtenOn_length_le (n : Int) (fd' : φ) (bytes : List Byte) :
    (if fd' = fd then bytes.take n.toNat else []).length ≤ bytes.length := by
  split
  · exact List.length_take_le' ..
  · exact Nat.zero_le _

end WrittenOn

end Ironhide.Proofs.Observed
