import Mathlib.Data.Bool.Basic
import Mathlib.Data.List.Infix
import NetStack.Proofs.Tcp.Numbering
import NetStack.Tcp.Segment

namespace NetStack.Tcp

structure Transcript where
  isn : SeqNo
  opened : Bool
  text : Bytes
  closed : Bool

namespace Transcript

def length (t : Transcript) : Nat := t.opened.toNat + t.text.length + t.closed.toNat

structure Extends (later earlier : Transcript) : Prop where
  isn : later.isn = earlier.isn
  opened : earlier.opened = true → later.opened = true
  text : earlier.text <+: later.text
  closed : earlier.closed = true → later.closed = true ∧ later.text = earlier.text

theorem Extends.refl (t : Transcript) : t.Extends t :=
  ⟨rfl, id, List.prefix_rfl, fun closed => ⟨closed, rfl⟩⟩

theorem Extends.trans {last between first : Transcript} (later : last.Extends between)
    (earlier : between.Extends first) : last.Extends first where
  isn := later.isn.trans earlier.isn
  opened := later.opened ∘ earlier.opened
  text := earlier.text.trans later.text
  closed := by
    intro closed
    obtain ⟨still, same⟩ := earlier.closed closed
    obtain ⟨last, unchanged⟩ := later.closed still
    exact ⟨last, unchanged.trans same⟩

theorem Extends.length_le {later earlier : Transcript} (extension : later.Extends earlier) :
    earlier.length ≤ later.length := by
  have opened := Bool.toNat_le_toNat (Bool.le_iff_imp.mpr extension.opened)
  have text := extension.text.length_le
  have closed := Bool.toNat_le_toNat (Bool.le_iff_imp.mpr fun closed => (extension.closed closed).1)
  unfold length
  omega

/-- The segment says, from `position` on, what the transcript says there. -/
structure Covers (t : Transcript) (position : Nat) (segment : Segment) : Prop where
  seqno : segment.seqno = .ofPosition position t.isn
  stop_le : position + segment.space ≤ t.length
  payload : segment.payload <+: t.text.drop (position - 1)
  syn : segment.flags.syn = true → t.opened = true ∧ position = 0 ∧ segment.space = 1
  start : position = 0 → segment.flags.syn = true ∨ segment.space = 0
  fin : segment.flags.fin = true →
    t.closed = true ∧ position + segment.payload.length = t.text.length + 1

theorem Covers.extend {t later : Transcript} {position : Nat} {segment : Segment}
    (covers : t.Covers position segment) (extension : later.Extends t) :
    later.Covers position segment where
  seqno := by rw [covers.seqno, extension.isn]
  stop_le := Nat.le_trans covers.stop_le extension.length_le
  payload := covers.payload.trans (extension.text.drop _)
  syn := fun syn => (covers.syn syn).imp_left extension.opened
  start := covers.start
  fin := by
    intro fin
    obtain ⟨closed, stop⟩ := covers.fin fin
    obtain ⟨still, same⟩ := extension.closed closed
    exact ⟨still, by rw [same, stop]⟩

theorem Covers.alone_of_syn {t : Transcript} {position : Nat} {segment : Segment}
    (covers : t.Covers position segment) (syn : segment.flags.syn = true) :
    segment.payload = [] ∧ segment.flags.fin = false := by
  obtain ⟨_, _, space⟩ := covers.syn syn
  unfold Segment.space at space
  rw [syn, Bool.toNat_true] at space
  constructor
  · exact List.length_eq_zero_iff.mp (by omega)
  · exact Bool.toNat_eq_zero.mp (by omega)

theorem Covers.payload_of_start {t : Transcript} {segment : Segment} (covers : t.Covers 0 segment) :
    segment.payload = [] := by
  rcases covers.start rfl with syn | space
  · exact (covers.alone_of_syn syn).1
  · unfold Segment.space at space
    exact List.length_eq_zero_iff.mp (by omega)

/-- A segment that a side may send: a bare reset, or one that covers its transcript somewhere. -/
def Allows (t : Transcript) (segment : Segment) : Prop :=
  (segment.flags.rst = true ∧ segment.payload = []) ∨ ∃ position, t.Covers position segment

theorem Allows.extend {t later : Transcript} {segment : Segment} (allowed : t.Allows segment)
    (extension : later.Extends t) : later.Allows segment := by
  rcases allowed with reset | ⟨position, covers⟩
  · exact .inl reset
  · exact .inr ⟨position, covers.extend extension⟩

theorem covers_of_space_eq_zero {t : Transcript} {segment : Segment}
    (seqno : segment.seqno = .ofPosition t.length t.isn) (empty : segment.space = 0) :
    t.Covers t.length segment := by
  unfold Segment.space at empty
  have noPayload : segment.payload = [] := List.length_eq_zero_iff.mp (by omega)
  have noSyn : segment.flags.syn = false := Bool.toNat_eq_zero.mp (by omega)
  have noFin : segment.flags.fin = false := Bool.toNat_eq_zero.mp (by omega)
  constructor
  · exact seqno
  · unfold Segment.space
    omega
  · rw [noPayload]
    exact List.nil_prefix
  · simp [noSyn]
  · exact fun _ => .inr empty
  · simp [noFin]

end Transcript

end NetStack.Tcp
