import Ironhide.Model.Egress
import Ironhide.Proofs.Framing
import Ironhide.Proofs.Observed

namespace Ironhide.Proofs.SendBack
open Model Lib.Bytes Lib.Program PacketUtils SfcUtilities Framing Observed Egress

variable {φ : Type}

/-- A frame for the answer `c`, under a header for the chain it is classified to. -/
def AnswerFrame (self : Self) (header : SfcHeader) (buffer c m : List Byte) : Prop :=
  ∃ sfcid n hops, (self.classify (overwrite buffer c) c.length).inBounds = true ∧
    (self.classify (overwrite buffer c) c.length).value = .ok sfcid ∧ stoi sfcid = .ok n ∧
    m = (answerHeader header (BitVec.ofInt 32 n) hops).bytes ++ c

/-- A round returns at most one frame, and receives nothing. -/
theorem sendBack_messages {self : Self} {header : SfcHeader} {buffer c : List Byte}
    {noRoute again : Bool} {es : List (Event (Op φ) (Reply φ))} {out : Except Stop Bool}
    (h : (sendBack self header (overwrite buffer c) c.length noRoute again).Runs es out) :
    chunks es = [] ∧ (messages es = [] ∨ ∃ m, messages es = [m] ∧ AnswerFrame self header buffer c m) := by
  have hquiet : chunks es = [] := chunks_quiet (h.all (P := fun o => ¬ Receives o)
    (sendBack_all (fun _ => id) (fun _ _ _ => id) self header _ _ noRoute again))
  refine ⟨hquiet, ?_⟩
  rw [sendBack, Prog.runs_bind] at h
  rcases h with ⟨x, hx, rfl⟩ | ⟨sfcid, es₁, es₂, rfl, hx, h⟩
  · obtain ⟨rfl, _⟩ := runs_classifyPkt hx
    exact Or.inl rfl
  · obtain ⟨rfl, hclass⟩ := runs_classifyPkt hx
    obtain ⟨hbounds, hvalue⟩ := hclass sfcid rfl
    rw [List.nil_append]
    rw [Prog.runs_bind] at h
    rcases h with ⟨x, hr, rfl⟩ | ⟨path, es₃, es₄, rfl, hr, h⟩
    · obtain ⟨rfl, _⟩ | ⟨n, answer, _, rfl, _⟩ := runs_getRouteList hr
      · exact Or.inl rfl
      · exact Or.inl rfl
    · have hroute : messages es₃ = [] := by
        obtain ⟨rfl, _⟩ | ⟨n, answer, _, rfl, _⟩ := runs_getRouteList hr
        · rfl
        · rfl
      rw [messages_append, hroute, List.nil_append]
      cases path with
      | nil =>
        obtain ⟨rfl, _⟩ := Prog.runs_ret.mp h
        exact Or.inl rfl
      | cons hop hops =>
        have hsent : ∃ out', (forward sfcid (hop :: hops) hop header.sourceAddress header.sourcePort
            header.destinationAddress header.destinationPort 1 (overwrite buffer c) c.length :
            Handler φ Unit).Runs es₄ out' := by
          rw [Prog.runs_bind] at h
          rcases h with ⟨x, hf, _⟩ | ⟨u, es₅, es₆, rfl, hf, h⟩
          · exact ⟨_, hf⟩
          · obtain ⟨rfl, _⟩ := Prog.runs_ret.mp h
            rw [List.append_nil]
            exact ⟨_, hf⟩
        obtain ⟨out', hf⟩ := hsent
        obtain ⟨rfl, _⟩ | ⟨n, resolved, hn, rfl, _⟩ := runs_forward hf
        · exact Or.inl rfl
        · refine Or.inr ⟨_, rfl, sfcid, n, (hop :: hops).length, hbounds, hvalue, hn, ?_⟩
          rw [prependHeader, overwrite, List.take_left]
          rfl

end Ironhide.Proofs.SendBack
