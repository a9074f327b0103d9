import AArch64.Control.Decode
import AArch64.Proofs.Decoding.Fields
import AArch64.Proofs.Frame

/-! Decoded branches and system instructions: which register and which system state they can write. -/
namespace AArch64

namespace InstructionWord

variable (w : InstructionWord)

def isSystem : Bool := KeyTable.control.key w == 6 && w.number 25 24 == 1

def isSystemMove (read : Bool) : Bool :=
  w.isSystem && w.number 23 22 == 0 && w.number 20 19 == 3 && w.bit 21 == read

def ClearsExclusive : Prop := w.number 31 12 = 0xD5033 ∧ w.number 7 0 = 0x5F

instance : Decidable w.ClearsExclusive := inferInstanceAs (Decidable (_ ∧ _))

end InstructionWord

namespace ControlOp

/-- The registers of a system move are those of the word. -/
def FitsWord (w : InstructionWord) (op : ControlOp) : Prop :=
  match op with
  | readSystem rt _ => w.isSystemMove true = true ∧ rt = w.rd
  | writeSystem rt r => w.isSystemMove false = true ∧ rt = w.rd ∧ SystemRegister.ofNumber? (w.extractLsb 20 5) = some r
  | clearExclusive => w.isSystem = true
  | _ => True

variable (w : InstructionWord)

theorem yields_decodeCompareBranch : Yields (decodeCompareBranch w) (FitsWord w) :=
  .ite (fun _ => .ok trivial) fun _ => .ok trivial

theorem yields_decodeConditionalBranch : Yields (decodeConditionalBranch w) (FitsWord w) :=
  .guard fun _ => .guard fun _ => .ok trivial

theorem yields_decodeException : Yields (decodeException w) (FitsWord w) := by
  refine .guard fun _ => ?_
  split
  all_goals first
    | exact .error _
    | exact .ok trivial

theorem yields_decodeHint (h : w.isSystem = true) : Yields (decodeHint w) (FitsWord w) := by
  have hnothing : Yields (.ok nothing) (FitsWord w) := .ok trivial
  have hclear : Yields (.ok clearExclusive) (FitsWord w) := .ok h
  unfold decodeHint
  split
  · exact .require fun _ => hnothing
  · exact .guard fun _ => .ite (fun _ => hclear) fun _ => .require fun _ => hnothing
  all_goals exact .error _

theorem yields_decodeSystemInstruction : Yields (decodeSystemInstruction w) (FitsWord w) :=
  .guard fun _ => .guard fun _ => .guard fun _ => .ok trivial

theorem yields_decodeSystemMove (h : w.isSystemMove (w.bit 21) = true) :
    Yields (decodeSystemMove w) (FitsWord w) := by
  unfold decodeSystemMove
  split
  · exact .error _
  next r hr =>
    refine .ite (fun hread => .ok ⟨?_, rfl⟩) fun hwrite => .guard fun _ => .ok ⟨?_, rfl, hr⟩
    · rwa [hread] at h
    · rwa [eq_false_of_ne_true hwrite] at h

theorem yields_decodeSystem (h : w.isSystem = true) : Yields (decodeSystem w) (FitsWord w) := by
  refine .guard fun hzero => ?_
  split
  next => exact yields_decodeHint w h
  next => exact yields_decodeSystemInstruction w
  next => exact .error _
  next => exact .error _
  next hmove _ =>
    refine yields_decodeSystemMove w ?_
    simp_all [InstructionWord.isSystemMove]
  next => exact .error _

theorem yields_decodeRegisterBranch : Yields (decodeRegisterBranch w) (FitsWord w) := by
  refine .guard fun _ => .ite (fun _ => ?_) fun _ => .guard fun _ => .error _
  exact .require fun _ => .ok trivial

theorem yields_decode : Yields (decode w) (FitsWord w) := by
  unfold decode
  split
  next => exact .ok trivial
  next => exact .ok trivial
  next => exact yields_decodeCompareBranch w
  next => exact yields_decodeCompareBranch w
  next => exact yields_decodeConditionalBranch w
  next hkey =>
    unfold decodeRest
    split
    next => exact yields_decodeException w
    next hsystem => exact yields_decodeSystem w (by simp [InstructionWord.isSystem, hkey, hsystem])
    next => exact yields_decodeRegisterBranch w
  next => exact .error _

theorem yields_decodeHostWord : Yields (decodeHostWord w) fun op =>
    op = nothing ∨ op = halt ∨ ∃ kind, op = callout kind := by
  refine .ite (fun _ => .ok (.inr (.inl rfl))) fun _ => ?_
  refine .ite (fun _ => .ok (.inr (.inr ⟨.call, rfl⟩))) fun _ => ?_
  refine .ite (fun _ => .ok (.inr (.inr ⟨.callWithResult, rfl⟩))) fun _ => ?_
  exact .require fun _ => .ok (.inl rfl)

section NoBranch

open InstructionWord

variable {w : InstructionWord}

/-- The staged program counter stays, and so does the monitor unless the word clears it. -/
def Plain (w : InstructionWord) (op : ControlOp) : Prop :=
  op.footprint.nextPc = false ∧ (op.footprint.monitor = true → w.ClearsExclusive)

theorem plain_decodeException : Yields (decodeException w) (Plain w) := by
  refine .guard fun _ => ?_
  split
  all_goals first
    | exact .error _
    | exact .ok ⟨rfl, nofun⟩

theorem plain_decodeHint (h : w.number 31 19 = 0b1101010100000) : Yields (decodeHint w) (Plain w) := by
  unfold decodeHint
  split
  · exact .require fun _ => .ok ⟨rfl, nofun⟩
  next h15 =>
    refine .guard fun hplain => .ite (fun h7 => .ok ⟨rfl, fun _ => ?_⟩) fun _ => .require fun _ => .ok ⟨rfl, nofun⟩
    simp only [Bool.not_eq_true', Bool.not_eq_false, Bool.and_eq_true, beq_iff_eq] at hplain h7
    simp only [ClearsExclusive, number_eq] at h h15 hplain h7 ⊢
    omega
  all_goals exact .error _

theorem plain_decodeSystemMove : Yields (decodeSystemMove w) (Plain w) := by
  unfold decodeSystemMove
  split
  · exact .error _
  next r _ => exact .ite (fun _ => .ok ⟨rfl, nofun⟩) fun _ => .guard fun _ => .ok (by cases r <;> exact ⟨rfl, nofun⟩)

theorem plain_decodeSystem (h : w.number 31 24 = 0b11010101) : Yields (decodeSystem w) (Plain w) := by
  refine .guard fun h23 => ?_
  split
  next h20 h21 =>
    refine plain_decodeHint ?_
    simp only [bne_iff_ne, ne_eq, Decidable.not_not] at h23
    simp only [number_eq, bit_eq_false] at h h23 h20 h21 ⊢
    omega
  next => exact .guard fun _ => .guard fun _ => .guard fun _ => .ok ⟨rfl, nofun⟩
  next => exact .error _
  next => exact .error _
  next => exact plain_decodeSystemMove
  next => exact .error _

end NoBranch

end ControlOp
end AArch64
