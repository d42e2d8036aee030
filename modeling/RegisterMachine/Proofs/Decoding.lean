import RegisterMachine.Disassembly
import RegisterMachine.Proofs.Execution
import RegisterMachine.Proofs.Ram

/-!
The machine and the disassembler read one machine language. The operands that an operation takes are
those of the instruction table, the machine reads them from RAM as the disassembler does, and so a
step is the operation of the instruction that the disassembler finds at the instruction pointer.
-/
namespace RegisterMachine

def Operand.ofCarrier : (kind : OperandKind) → kind.Carrier → Operand
  | .register, index => .register index
  | .byte, value => .byte value
  | .word, value => .word value

def OperandKind.ofWord : (kind : OperandKind) → Nat → kind.Carrier
  | .register, n => UInt8.ofNat n
  | .byte, n => UInt8.ofNat n
  | .word, n => (UInt64.ofNat n).toInt64

def Operands.toList : {kinds : List OperandKind} → Operands kinds → List Operand
  | [], () => []
  | kind :: _, (operand, operands) => .ofCarrier kind operand :: operands.toList

def Instruction.jumps (flag : Flag → Bool) : Instruction → Bool
  | .jump | .jumpRegister => true
  | .jumpEqual => flag .equal
  | .jumpNotEqual => !flag .equal
  | .jumpLessEqual => flag .lesser || flag .equal
  | .jumpGreaterEqual => flag .greater || flag .equal
  | .jumpLess => flag .lesser
  | .jumpGreater => flag .greater
  | _ => false

namespace Run

variable {σ : Type}

theorem jumpIfAny_apply (flags : List Flag) (address : Int64) (machine : Machine σ) :
    jumpIfAny flags address machine = .ok ()
      (if flags.any machine.registers.flag then machine.moveTo address.toUInt64 else machine) := by
  unfold jumpIfAny
  rw [bind_apply, get_apply]
  dsimp only
  split
  · rfl
  · rfl

theorem jumpNotEqual_apply (address : Int64) (machine : Machine σ) :
    jumpNotEqual address machine = .ok ()
      (if !machine.registers.flag .equal then machine.moveTo address.toUInt64 else machine) := by
  unfold jumpNotEqual
  rw [bind_apply, get_apply]
  dsimp only
  split
  · rfl
  · rfl

end Run

namespace Operation

variable {σ : Type}

theorem kinds_ofInstruction (instruction : Instruction) :
    (ofInstruction instruction : Operation σ).kinds = instruction.operands := by
  cases instruction <;> rfl

theorem jumpIfAny_ip {flags : List Flag} {address : Int64} {machine left : Machine σ}
    (hflags : flags.any machine.registers.flag = false)
    (hrun : Run.jumpIfAny flags address machine = .ok () left) : left = machine := by
  rw [Run.jumpIfAny_apply, hflags] at hrun
  cases hrun
  rfl

theorem jumpNotEqual_ip {address : Int64} {machine left : Machine σ}
    (hflag : machine.registers.flag .equal = true)
    (hrun : Run.jumpNotEqual address machine = .ok () left) : left = machine := by
  rw [Run.jumpNotEqual_apply, hflag] at hrun
  cases hrun
  rfl

theorem ip_run {instruction : Instruction} {machine left : Machine σ}
    {operands : Operands (ofInstruction instruction : Operation σ).kinds}
    (hrun : (ofInstruction instruction).run operands machine = .ok () left)
    (hjumps : instruction.jumps machine.registers.flag = false)
    (hplain : instruction ∉
      [.call, .callRegister, .ret, .reset, .breakpoint]) :
    left.registers.ip = machine.registers.ip := by
  have hfoot := writes_run instruction operands machine
  rw [Run.final_of_ok hrun] at hfoot
  cases instruction with
  | jump | jumpRegister => cases hjumps
  | jumpEqual | jumpLess | jumpGreater =>
    rw [jumpIfAny_ip (by simpa [Instruction.jumps] using hjumps) hrun]
  | jumpLessEqual | jumpGreaterEqual =>
    rw [jumpIfAny_ip (by simpa [Instruction.jumps] using hjumps) hrun]
  | jumpNotEqual => rw [jumpNotEqual_ip (by simpa [Instruction.jumps] using hjumps) hrun]
  | call | callRegister | ret | reset | breakpoint => exact absurd (by decide) hplain
  | _ => exact hfoot.ip (by decide)

end Operation

/-- The machine is about to execute an instruction that has a word for its operand. -/
structure Machine.Faces {σ : Type} (machine : Machine σ) (instruction : Instruction)
    (operand : Nat) : Prop where
  running : machine.halted = false
  opcode : machine.memory.readWord machine.registers.ip 1 = .ok instruction.opcode.toNat
  operand : machine.memory.readWord (machine.registers.ip + 1) 8 = .ok operand

namespace Run

variable {σ : Type} {machine : Machine σ}

theorem fetchOperand_apply (kind : OperandKind) (machine : Machine σ) :
    fetchOperand kind machine = match machine.memory.readWord machine.registers.ip kind.size with
      | .ok n => .ok (kind.ofWord n) (machine.moveTo (machine.registers.ip + .ofNat kind.size))
      | .error cause => .error (.fault cause) machine := by
  have hbind : (fetchOperand kind : Run σ kind.Carrier) =
      fetch kind.size >>= fun n => pure (kind.ofWord n) := by
    cases kind <;> rfl
  rw [hbind, bind_apply, fetch_apply]
  cases machine.memory.readWord machine.registers.ip kind.size <;> rfl

theorem fetchOperands_of_faces {instruction : Instruction} {operand : Nat}
    (h : machine.Faces instruction operand) :
    fetchOperands [.word] (machine.ready instruction (machine.registers.ip + 1)) =
      .ok ((UInt64.ofNat operand).toInt64, ())
        (machine.ready instruction (machine.registers.ip + 9)) := by
  let started := machine.ready instruction (machine.registers.ip + 1)
  have hword : started.memory.readWord started.registers.ip OperandKind.word.size =
      .ok operand := by
    rw [(machine.agree_ready instruction (machine.registers.ip + 1)).memory]
    exact h.operand
  have hnext : started.moveTo (machine.registers.ip + 1 + .ofNat 8) =
      machine.ready instruction (machine.registers.ip + 9) := by
    rw [UInt64.add_assoc]
    rfl
  unfold fetchOperands
  rw [bind_apply, fetchOperand_apply, hword, ← hnext]
  rfl

theorem step_of_faces {instruction : Instruction} {operand : Nat}
    {run : Operands [.word] → Run σ Unit} (h : machine.Faces instruction operand)
    (hplain : instruction.privileged = false)
    (hoperation : Operation.ofInstruction instruction = .plain [.word] run) (fuel : Nat) :
    step fuel machine =
      (run ((UInt64.ofNat operand).toInt64, ()) >>= fun _ => pure instruction)
        (machine.ready instruction (machine.registers.ip + 9)) := by
  have hnext := executeNext_of_readWord h.running h.opcode (by simp [hplain])
  unfold operate at hnext
  rw [hoperation, bind_apply, show fetchOperands (Operation.plain [.word] run).kinds _ = _ from
    fetchOperands_of_faces h] at hnext
  dsimp only [Operation.plain] at hnext
  rw [step_eq, stepWith, bind_apply, hnext, bind_apply, bind_apply]
  cases run ((UInt64.ofNat operand).toInt64, ())
      (machine.ready instruction (machine.registers.ip + 9)) with
  | ok _ after => rfl
  | error stop left => rfl

theorem fetchOperand_eq_ok (hmemory : machine.memory.IsRam) {kind : OperandKind}
    (hinside : machine.registers.ip.toNat + kind.size ≤ machine.memory.ram.bytes.size) :
    ∃ operand, fetchOperand kind machine =
        .ok operand (machine.moveTo (machine.registers.ip + .ofNat kind.size)) ∧
      Operand.ofCarrier kind operand = Operand.decode (machine.memory.ram.bytes.extract
        machine.registers.ip.toNat (machine.registers.ip.toNat + kind.size)).toList kind := by
  rw [fetchOperand_apply, hmemory.readWord_eq_ok hinside]
  refine ⟨_, rfl, ?_⟩
  cases kind <;> rfl

theorem fetchOperand_eq_error (hmemory : machine.memory.IsRam) {kind : OperandKind}
    (houtside : machine.memory.ram.bytes.size < machine.registers.ip.toNat + kind.size) :
    ∃ address, fetchOperand kind machine =
      .error (.fault (.outOfBounds address machine.memory.size)) machine := by
  have hpositive : 0 < kind.size := by cases kind <;> decide
  rw [fetchOperand_apply, hmemory.readWord_eq_error hpositive houtside]
  exact ⟨_, rfl⟩

theorem toNat_ip_add (hmemory : machine.memory.IsRam) {size : Nat}
    (hinside : machine.registers.ip.toNat + size ≤ machine.memory.ram.bytes.size) :
    (machine.registers.ip + .ofNat size).toNat = machine.registers.ip.toNat + size :=
  hmemory.toNat_add hinside

theorem fetchOperands_eq_ok {kinds : List OperandKind} {machine : Machine σ}
    (hmemory : machine.memory.IsRam)
    (hinside : machine.registers.ip.toNat ≤ machine.memory.ram.bytes.size) {found : List Operand}
    (hdecode : Disassembly.operandsAt machine.memory.ram.bytes machine.registers.ip.toNat kinds =
      .ok found) :
    ∃ operands : Operands kinds, operands.toList = found ∧
      machine.registers.ip.toNat + OperandKind.totalSize kinds ≤ machine.memory.ram.bytes.size ∧
      fetchOperands kinds machine = .ok operands
        (machine.moveTo (machine.registers.ip + .ofNat (OperandKind.totalSize kinds))) := by
  induction kinds generalizing machine found with
  | nil =>
    cases hdecode
    refine ⟨(), rfl, hinside, ?_⟩
    change EStateM.Result.ok () machine = .ok () (machine.moveTo (machine.registers.ip + 0))
    rw [UInt64.add_zero]
    rfl
  | cons kind kinds ih =>
    unfold Disassembly.operandsAt at hdecode
    split at hdecode
    · rename_i hkind
      obtain ⟨operand, hfetch, hoperand⟩ := fetchOperand_eq_ok hmemory hkind
      have hnext := toNat_ip_add hmemory hkind
      cases hrest : Disassembly.operandsAt machine.memory.ram.bytes
          (machine.registers.ip.toNat + kind.size) kinds with
      | error cause =>
        rw [hrest] at hdecode
        cases hdecode
      | ok rest =>
        rw [hrest] at hdecode
        cases hdecode
        rw [← hnext] at hrest
        let next := machine.moveTo (machine.registers.ip + UInt64.ofNat kind.size)
        have hram : next.memory.IsRam := hmemory
        obtain ⟨operands, hlist, hend, hfetches⟩ := ih hram (hnext ▸ hkind) hrest
        replace hend : (machine.registers.ip + UInt64.ofNat kind.size).toNat +
            OperandKind.totalSize kinds ≤ machine.memory.ram.bytes.size := hend
        refine ⟨(operand, operands), ?_, ?_, ?_⟩
        · rw [← hoperand, ← hlist]
          rfl
        · unfold OperandKind.totalSize
          omega
        · unfold fetchOperands
          rw [bind_apply, hfetch]
          dsimp only
          rw [bind_apply, hfetches]
          dsimp only [OperandKind.totalSize]
          rw [UInt64.ofNat_add, ← UInt64.add_assoc]
          rfl
    · cases hdecode

theorem fetchOperands_eq_error {kinds : List OperandKind} {machine : Machine σ}
    (hmemory : machine.memory.IsRam) {cause : Fault}
    (hdecode : Disassembly.operandsAt machine.memory.ram.bytes machine.registers.ip.toNat kinds =
      .error cause) :
    ∃ place address left, cause = .outOfBounds place machine.memory.size ∧
      fetchOperands kinds machine =
        .error (.fault (.outOfBounds address machine.memory.size)) left := by
  induction kinds generalizing machine with
  | nil => cases hdecode
  | cons kind kinds ih =>
    unfold Disassembly.operandsAt at hdecode
    split at hdecode
    · rename_i hkind
      obtain ⟨operand, hfetch, -⟩ := fetchOperand_eq_ok hmemory hkind
      have hnext := toNat_ip_add hmemory hkind
      cases hrest : Disassembly.operandsAt machine.memory.ram.bytes
          (machine.registers.ip.toNat + kind.size) kinds with
      | ok rest =>
        rw [hrest] at hdecode
        cases hdecode
      | error inner =>
        rw [hrest] at hdecode
        cases hdecode
        rw [← hnext] at hrest
        let next := machine.moveTo (machine.registers.ip + UInt64.ofNat kind.size)
        have hram : next.memory.IsRam := hmemory
        obtain ⟨place, address, left, hcause, hfetches⟩ := ih hram hrest
        refine ⟨place, address, left, hcause, ?_⟩
        unfold fetchOperands
        rw [bind_apply, hfetch]
        dsimp only
        rw [bind_apply, hfetches]
        rfl
    · rename_i hkind
      cases hdecode
      obtain ⟨address, hfetch⟩ := fetchOperand_eq_error hmemory (Nat.lt_of_not_le hkind)
      refine ⟨_, address, machine, rfl, ?_⟩
      unfold fetchOperands
      rw [bind_apply, hfetch]
      rfl

theorem readWord_opcode (hmemory : machine.memory.IsRam) {opcode : UInt8}
    (hopcode : machine.memory.ram.bytes[machine.registers.ip.toNat]? = some opcode) :
    machine.memory.readWord machine.registers.ip 1 = .ok opcode.toNat := by
  obtain ⟨hinside, hbyte⟩ := Array.getElem?_eq_some_iff.mp hopcode
  have hextract : (machine.memory.ram.bytes.extract machine.registers.ip.toNat
      (machine.registers.ip.toNat + 1)).toList = [opcode] := by
    rw [Array.toList_extract, List.extract_eq_take_drop, List.drop_eq_getElem_cons (by simpa using hinside)]
    simp [hbyte]
  rw [hmemory.readWord_eq_ok (by omega), hextract]
  rfl

theorem fetch_opcode (hmemory : machine.memory.IsRam) {opcode : UInt8}
    (hopcode : machine.memory.ram.bytes[machine.registers.ip.toNat]? = some opcode) :
    fetch 1 machine = .ok opcode.toNat (machine.moveTo (machine.registers.ip + .ofNat 1)) := by
  rw [fetch_apply, readWord_opcode hmemory hopcode]

theorem executeNext_of_opcode (hmemory : machine.memory.IsRam) (hrunning : machine.halted = false)
    {opcode : UInt8} {instruction : Instruction}
    (hopcode : machine.memory.ram.bytes[machine.registers.ip.toNat]? = some opcode)
    (hinstruction : Instruction.ofOpcode? opcode = some instruction)
    (hallowed : instruction.privileged = true → machine.registers.privileged = true) :
    executeNext machine =
      (fetchOperands (Operation.ofInstruction instruction).kinds >>= operate instruction)
        (machine.ready instruction (machine.registers.ip + .ofNat 1)) := by
  apply executeNext_of_readWord hrunning ?_ hallowed
  rw [Instruction.ofOpcode?_eq_some_iff.mp hinstruction]
  exact readWord_opcode hmemory hopcode

theorem executeNext_of_decoded (hmemory : machine.memory.IsRam) (hrunning : machine.halted = false)
    {decoded : Decoded}
    (hdecode : Disassembly.decodeAt machine.memory.ram.bytes machine.registers.ip.toNat = .ok decoded)
    (hallowed : decoded.instruction.privileged = true → machine.registers.privileged = true) :
    ∃ operands : Operands (Operation.ofInstruction decoded.instruction : Operation σ).kinds,
      operands.toList = decoded.operands ∧
      machine.registers.ip.toNat + decoded.size ≤ machine.memory.ram.bytes.size ∧
      executeNext machine = operate decoded.instruction operands
        (machine.ready decoded.instruction (machine.registers.ip + .ofNat decoded.size)) := by
  unfold Disassembly.decodeAt at hdecode
  split at hdecode
  · cases hdecode
  rename_i opcode hopcode
  have hinside : machine.registers.ip.toNat + 1 ≤ machine.memory.ram.bytes.size :=
    (Array.getElem?_eq_some_iff.mp hopcode).1
  split at hdecode
  · cases hdecode
  rename_i instruction hinstruction
  cases hoperands : Disassembly.operandsAt machine.memory.ram.bytes
      (machine.registers.ip.toNat + 1) instruction.operands with
  | error cause =>
    rw [hoperands] at hdecode
    cases hdecode
  | ok found =>
    rw [hoperands] at hdecode
    cases hdecode
    let started := machine.ready instruction (machine.registers.ip + UInt64.ofNat 1)
    have hsame : started.memory = machine.memory := (machine.agree_ready ..).memory
    have hnext : started.registers.ip.toNat = machine.registers.ip.toNat + 1 :=
      toNat_ip_add hmemory hinside
    have hkinds : (Operation.ofInstruction instruction : Operation σ).kinds = instruction.operands :=
      Operation.kinds_ofInstruction instruction
    rw [← hnext, ← hsame, ← hkinds] at hoperands
    obtain ⟨operands, hlist, hend, hfetch⟩ :=
      fetchOperands_eq_ok (hsame ▸ hmemory) (by rw [hnext, hsame]; exact hinside) hoperands
    rw [hnext, hsame, hkinds] at hend
    refine ⟨operands, hlist, ?_, ?_⟩
    · dsimp only [Decoded.size, Instruction.operandSize]
      omega
    · rw [executeNext_of_opcode hmemory hrunning hopcode hinstruction hallowed, bind_apply,
        show fetchOperands _ (machine.ready instruction _) = _ from hfetch]
      dsimp only [Decoded.size, Instruction.operandSize]
      rw [UInt64.ofNat_add, ← UInt64.add_assoc, ← hkinds]
      rfl

theorem executeNext_of_undecoded (hmemory : machine.memory.IsRam) (hrunning : machine.halted = false)
    {cause : Fault}
    (hdecode : Disassembly.decodeAt machine.memory.ram.bytes machine.registers.ip.toNat = .error cause)
    (hallowed : ∀ instruction : Instruction,
      machine.memory.ram.bytes[machine.registers.ip.toNat]? = some instruction.opcode →
      instruction.privileged = true → machine.registers.privileged = true) :
    (∃ opcode offset, cause = .unknownOpcode opcode offset ∧
      executeNext machine = .error (.fault cause) machine) ∨
    ∃ place address left, cause = .outOfBounds place machine.memory.size ∧
      executeNext machine = .error (.fault (.outOfBounds address machine.memory.size)) left := by
  unfold Disassembly.decodeAt at hdecode
  split at hdecode
  · rename_i hnone
    cases hdecode
    right
    have houtside := Array.getElem?_eq_none_iff.mp hnone
    rw [executeNext_apply hrunning, bind_apply, fetch_apply,
      hmemory.readWord_eq_error (by decide) (by omega)]
    exact ⟨_, _, _, rfl, rfl⟩
  rename_i opcode hopcode
  split at hdecode
  · rename_i hunknown
    cases hdecode
    left
    rw [executeNext_apply hrunning, bind_apply, fetch_opcode hmemory hopcode]
    dsimp only
    rw [UInt8.ofNat_toNat, execute_unknown hunknown, UInt64.ofNat_toNat]
    exact ⟨_, _, rfl, rfl⟩
  · rename_i instruction hinstruction
    right
    have hinside : machine.registers.ip.toNat + 1 ≤ machine.memory.ram.bytes.size :=
      (Array.getElem?_eq_some_iff.mp hopcode).1
    cases hoperands : Disassembly.operandsAt machine.memory.ram.bytes
        (machine.registers.ip.toNat + 1) instruction.operands with
    | ok found =>
      rw [hoperands] at hdecode
      cases hdecode
    | error inner =>
      rw [hoperands] at hdecode
      cases hdecode
      let started := machine.ready instruction (machine.registers.ip + UInt64.ofNat 1)
      have hsame : started.memory = machine.memory := (machine.agree_ready ..).memory
      have hnext : started.registers.ip.toNat = machine.registers.ip.toNat + 1 :=
        toNat_ip_add hmemory hinside
      have hkinds : (Operation.ofInstruction instruction : Operation σ).kinds =
          instruction.operands := Operation.kinds_ofInstruction instruction
      rw [← hnext, ← hsame, ← hkinds] at hoperands
      obtain ⟨place, address, left, hcause, hfetch⟩ :=
        fetchOperands_eq_error (hsame ▸ hmemory) hoperands
      rw [hsame] at hcause hfetch
      refine ⟨place, address, left, hcause, ?_⟩
      have hsame := Instruction.ofOpcode?_eq_some_iff.mp hinstruction
      rw [executeNext_of_opcode hmemory hrunning hopcode hinstruction
        (hallowed instruction (hsame ▸ hopcode)), bind_apply,
        show fetchOperands _ (machine.ready instruction _) = _ from hfetch]

end Run

theorem Disassembly.opcode_of_decoded {bytes : Array UInt8} {offset : Nat} {decoded : Decoded}
    (h : decodeAt bytes offset = .ok decoded) : bytes[offset]? = some decoded.instruction.opcode := by
  unfold decodeAt at h
  split at h
  · cases h
  rename_i opcode hopcode
  split at h
  · cases h
  rename_i instruction hinstruction
  cases hoperands : operandsAt bytes (offset + 1) instruction.operands with
  | error cause =>
    rw [hoperands] at h
    cases h
  | ok operands =>
    rw [hoperands] at h
    cases h
    rw [Instruction.ofOpcode?_eq_some_iff.mp hinstruction]
    exact hopcode

open Run in
/-- A step is the operation of the instruction that the disassembler finds at the instruction
pointer, applied to the operands that it finds, with the pointer moved past them. What does not
decode does not execute, for the same reason. So a step that goes nowhere by itself moves the pointer
by the size of its instruction. -/
theorem step_follows_decoding {σ : Type} (fuel : Nat) (machine : Machine σ)
    (hmemory : machine.memory.IsRam) (hrunning : machine.halted = false)
    (hallowed : ∀ instruction : Instruction,
      machine.memory.ram.bytes[machine.registers.ip.toNat]? = some instruction.opcode →
      instruction.privileged = true → machine.registers.privileged = true) :
    (∀ decoded, Disassembly.decodeAt machine.memory.ram.bytes machine.registers.ip.toNat =
        .ok decoded →
      ∃ operands : Operands (Operation.ofInstruction decoded.instruction : Operation σ).kinds,
        operands.toList = decoded.operands ∧
        step fuel machine = perform fuel decoded.instruction operands
          (machine.ready decoded.instruction (machine.registers.ip + .ofNat decoded.size))) ∧
    (∀ opcode offset, Disassembly.decodeAt machine.memory.ram.bytes machine.registers.ip.toNat =
        .error (.unknownOpcode opcode offset) →
      step fuel machine = .error (.fault (.unknownOpcode opcode offset)) machine) ∧
    (∀ place size, Disassembly.decodeAt machine.memory.ram.bytes machine.registers.ip.toNat =
        .error (.outOfBounds place size) →
      ∃ address left, step fuel machine = .error (.fault (.outOfBounds address size)) left) ∧
    (∀ instruction left, step fuel machine = .ok instruction left →
      instruction.jumps machine.registers.flag = false →
      instruction ∉ [.call, .callRegister, .ret, .reset, .raise, .breakpoint] →
      left.registers.ip.toNat = machine.registers.ip.toNat + (1 + instruction.operandSize)) := by
  have hdecoded : ∀ decoded,
      Disassembly.decodeAt machine.memory.ram.bytes machine.registers.ip.toNat = .ok decoded →
      decoded.instruction.privileged = true → machine.registers.privileged = true :=
    fun decoded hdecode => hallowed _ (Disassembly.opcode_of_decoded hdecode)
  refine ⟨?_, ?_, ?_, ?_⟩
  · intro decoded hdecode
    obtain ⟨operands, hlist, -, hnext⟩ :=
      executeNext_of_decoded hmemory hrunning hdecode (hdecoded decoded hdecode)
    exact ⟨operands, hlist, step_of_operate hnext fuel⟩
  · intro opcode offset hdecode
    rcases executeNext_of_undecoded hmemory hrunning hdecode hallowed with
      ⟨_, _, _, hnext⟩ | ⟨_, _, _, hcause, _⟩
    · exact step_of_error hnext fuel
    · cases hcause
  · intro place size hdecode
    rcases executeNext_of_undecoded hmemory hrunning hdecode hallowed with
      ⟨_, _, hcause, _⟩ | ⟨_, address, left, hcause, hnext⟩
    · cases hcause
    · cases hcause
      exact ⟨address, left, step_of_error hnext fuel⟩
  · intro instruction left hstep hjumps hplain
    cases hdecode : Disassembly.decodeAt machine.memory.ram.bytes machine.registers.ip.toNat with
    | error cause =>
      rcases executeNext_of_undecoded hmemory hrunning hdecode hallowed with
        ⟨_, _, _, hnext⟩ | ⟨_, _, _, _, hnext⟩
      · rw [step_of_error hnext fuel] at hstep
        cases hstep
      · rw [step_of_error hnext fuel] at hstep
        cases hstep
    | ok decoded =>
      obtain ⟨operands, -, hend, hnext⟩ :=
        executeNext_of_decoded hmemory hrunning hdecode (hdecoded decoded hdecode)
      rw [step_of_operate hnext fuel] at hstep
      obtain ⟨rfl, after, hrun, hleft⟩ := perform_eq_ok hstep
      rw [Operation.raises_eq_none (by simp_all)] at hleft
      subst hleft
      have hready := machine.agree_ready decoded.instruction
        (machine.registers.ip + .ofNat decoded.size)
      rw [← Registers.flag_congr (hready.control (by decide))] at hjumps
      rw [Operation.ip_run hrun hjumps (by simp_all)]
      exact toNat_ip_add hmemory hend

def Machine.aboutToMove : Machine Unit :=
  (Machine.boot {} ⟨⟨#[1, 0x17, 1, 0xfd, 0xff, 0xff, 0xff, 0xff, 0xff, 0xff, 0xff]⟩, none⟩ {} ()).moveTo 1

theorem step_follows_decoding_move :
    Disassembly.decodeAt Machine.aboutToMove.memory.ram.bytes 1 =
      .ok ⟨1, .moveWord, [.register 1, .word (-3)]⟩ ∧
    ∃ operands : Operands (Operation.ofInstruction .moveWord : Operation Unit).kinds,
      operands.toList = [.register 1, .word (-3)] ∧
      Run.step 0 Machine.aboutToMove =
        Run.perform 0 .moveWord operands (Machine.aboutToMove.ready .moveWord 11) := by
  have hdecode : Disassembly.decodeAt Machine.aboutToMove.memory.ram.bytes 1 =
      .ok ⟨1, .moveWord, [.register 1, .word (-3)]⟩ := rfl
  have hallowed : ∀ instruction : Instruction,
      Machine.aboutToMove.memory.ram.bytes[1]? = some instruction.opcode →
      instruction.privileged = true → Machine.aboutToMove.registers.privileged = true := by
    intro instruction hopcode
    have hmove : Instruction.ofOpcode? 0x17 = some instruction :=
      Instruction.ofOpcode?_eq_some_iff.mpr (Option.some.inj hopcode).symm
    cases hmove
    decide
  exact ⟨hdecode, (step_follows_decoding 0 Machine.aboutToMove ⟨rfl, by decide⟩ rfl hallowed).1 _ hdecode⟩

end RegisterMachine
