import NetStack.Proofs.Tcp.Halves

namespace NetStack.Tcp.Connection

def Concluded (c : Connection) : Prop :=
  c.active = false → (c.inbound.failed = true ∧ c.outbound.failed = true) ∨
    (c.inboundComplete = true ∧ c.outboundComplete = true)

variable {c : Connection}

theorem concluded_of_active (active : c.active = true) : c.Concluded := by
  intro inactive
  simp [active] at inactive

theorem Concluded.settle (concluded : c.Concluded) : c.settle.Concluded := by
  intro inactive
  by_cases active : c.active = true
  · right
    show c.inboundComplete = true ∧ c.outboundComplete = true
    simp only [Connection.settle, active, Bool.true_and, Bool.not_eq_false', Bool.and_eq_true] at inactive
    exact inactive.1
  · exact concluded (by simpa using active)

theorem Concluded.abort (concluded : c.Concluded) : c.abort.Concluded := by
  unfold Connection.abort
  split
  · exact fun _ => .inl ⟨rfl, rfl⟩
  · exact concluded

theorem Concluded.finish (concluded : c.Concluded) : c.finish.Concluded := by
  unfold Connection.finish
  dsimp only
  split
  · rename_i sends
    rw [Bool.and_eq_true] at sends
    exact Concluded.settle (concluded_of_active sends.1)
  · intro inactive
    rcases concluded inactive with failed | ⟨inbound, outbound⟩
    · exact .inl failed
    · have atEnd : c.outbound.atEnd = true := by
        simp only [outboundComplete, Bool.and_eq_true] at outbound
        exact outbound.1.1
      have ended : c.outbound.endInput = c.outbound := by
        rw [ByteStream.endInput, ← (c.outbound.atEnd_iff.mp atEnd).1]
      refine .inr ⟨inbound, ?_⟩
      rw [ended]
      exact outbound

theorem Concluded.receive (concluded : c.Concluded) (segment : Segment) :
    (c.receive segment).Concluded := by
  unfold Connection.receive
  split
  · exact concluded
  · rename_i proceeds
    split
    · exact fun _ => .inl ⟨rfl, rfl⟩
    · apply Concluded.settle
      apply concluded_of_active
      show (answer _ segment).active = true
      rw [active_answer]
      simp_all

theorem Concluded.tick (concluded : c.Concluded) (span : Duration) : (c.tick span).Concluded := by
  unfold Connection.tick
  split
  · rename_i active
    dsimp only
    split
    · exact Concluded.abort (concluded_of_active active)
    · exact Concluded.settle (concluded_of_active active)
  · exact concluded

theorem Concluded.step (concluded : c.Concluded) (op : Op) : (c.step op).2.Concluded := by
  cases op with
  | connect =>
    rw [step_connect]
    split
    · rename_i allowed
      rw [Bool.and_eq_true] at allowed
      exact concluded_of_active allowed.1
    · exact concluded
  | write data =>
    rw [step_write]
    split
    · rename_i allowed
      simp only [Bool.and_eq_true] at allowed
      dsimp only
      split <;> exact concluded_of_active allowed.1.1
    · exact concluded
  | finish => exact concluded.finish
  | receive segment => exact concluded.receive segment
  | tick span => exact concluded.tick span
  | abort => exact concluded.abort
  | read | dispatch | wait => exact concluded

end NetStack.Tcp.Connection
