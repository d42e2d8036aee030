import RegisterMachine.Proofs.Footprint

/-!
What executing one instruction comes to. Reading the opcode and the operands moves the instruction
pointer and may log a line; after that the instruction's operation runs. `executeNext_cases` says so
for every machine and every outcome, and the rest of the theory takes instructions apart through it.
-/
namespace RegisterMachine

namespace Machine

variable {σ : Type}

def traced (machine : Machine σ) (offset : UInt64) (instruction : Instruction) : Machine σ :=
  if machine.config.trace then
    let line := Numeral.hex 8 offset.toNat ++ ": " ++ instruction.mnemonic
    { machine with world := machine.host.log .debug line machine.world }
  else machine

def ready (machine : Machine σ) (instruction : Instruction) (next : UInt64) : Machine σ :=
  (machine.traced machine.registers.ip instruction).moveTo next

@[simp] theorem moveTo_moveTo (machine : Machine σ) (first second : UInt64) :
    (machine.moveTo first).moveTo second = machine.moveTo second := rfl

theorem traced_moveTo (machine : Machine σ) (offset next : UInt64) (instruction : Instruction) :
    (machine.moveTo next).traced offset instruction =
      (machine.traced offset instruction).moveTo next := by
  unfold traced moveTo
  dsimp only
  split
  · rfl
  · rfl

theorem agree_ready (machine : Machine σ) (instruction : Instruction) (next : UInt64) :
    machine.AgreeExcept [.ip, .world] (machine.ready instruction next) := by
  have hmove : (machine.traced machine.registers.ip instruction).AgreeExcept [.ip, .world]
      (machine.ready instruction next) := Run.writes_jump next (by decide) _
  apply AgreeExcept.trans ?_ hmove
  unfold traced
  split
  · exact .setWorld machine _ (by decide)
  · exact .refl machine

end Machine

theorem Operation.raises_eq_none {σ : Type} {instruction : Instruction} (h : instruction ≠ .raise)
    (operands : Operands (ofInstruction instruction : Operation σ).kinds) :
    (ofInstruction instruction).raises operands = none := by
  cases instruction with
  | raise => exact absurd rfl h
  | _ => rfl

namespace Run

variable {σ α β : Type}

theorem trace_apply (offset : UInt64) (instruction : Instruction) (machine : Machine σ) :
    trace offset instruction machine = .ok () (machine.traced offset instruction) := by
  unfold trace Machine.traced
  rw [bind_apply, get_apply]
  dsimp only
  split
  · rfl
  · rfl

def Moves (run : Run σ α) : Prop :=
  ∀ machine : Machine σ, ∃ ip, run.final machine = machine.moveTo ip

theorem Moves.bind {run : Run σ α} {next : α → Run σ β} (hrun : run.Moves)
    (hnext : ∀ a, (next a).Moves) : (run >>= next).Moves := by
  intro machine
  obtain ⟨ip, hip⟩ := hrun machine
  rcases final_bind run next machine with hfinal | ⟨a, _, hfinal⟩
  · rw [hfinal, hip]
    exact ⟨ip, rfl⟩
  · rw [hfinal, hip]
    obtain ⟨after, hafter⟩ := hnext a (machine.moveTo ip)
    rw [hafter, Machine.moveTo_moveTo]
    exact ⟨after, rfl⟩

theorem moves_pure (a : α) : (pure a : Run σ α).Moves :=
  fun machine => ⟨machine.registers.ip, rfl⟩

theorem moves_fetch (width : Nat) : (fetch width : Run σ Nat).Moves := by
  intro machine
  unfold final
  rw [fetch_apply]
  cases machine.memory.readWord machine.registers.ip width with
  | ok n => exact ⟨_, rfl⟩
  | error cause => exact ⟨machine.registers.ip, rfl⟩

theorem moves_fetchOperand (kind : OperandKind) :
    (fetchOperand kind : Run σ kind.Carrier).Moves := by
  cases kind with
  | register => exact (moves_fetch 1).bind fun _ => moves_pure _
  | byte => exact (moves_fetch 1).bind fun _ => moves_pure _
  | word => exact (moves_fetch 8).bind fun _ => moves_pure _

theorem moves_fetchOperands (kinds : List OperandKind) :
    (fetchOperands kinds : Run σ (Operands kinds)).Moves := by
  induction kinds with
  | nil => exact moves_pure ()
  | cons kind kinds ih =>
    unfold fetchOperands
    exact (moves_fetchOperand kind).bind fun _ => ih.bind fun _ => moves_pure _

def operate (instruction : Instruction)
    (operands : Operands (Operation.ofInstruction instruction : Operation σ).kinds) :
    Run σ (Instruction × Option UInt8) := do
  (Operation.ofInstruction instruction).run operands
  return (instruction, (Operation.ofInstruction instruction).raises operands)

theorem execute_apply {opcode : UInt8} {instruction : Instruction}
    (hopcode : Instruction.ofOpcode? opcode = some instruction) {machine : Machine σ}
    (hallowed : instruction.privileged = true → machine.registers.privileged = true)
    (offset : UInt64) :
    execute offset opcode machine =
      (fetchOperands (Operation.ofInstruction instruction).kinds >>= operate instruction)
        (machine.traced offset instruction) := by
  have hguard : (instruction.privileged && !machine.registers.privileged) = false := by
    cases hprivileged : instruction.privileged with
    | false => rfl
    | true => rw [hallowed hprivileged]; rfl
  unfold execute
  rw [hopcode]
  dsimp only
  rw [bind_apply, get_apply]
  dsimp only
  rw [hguard]
  simp only [Bool.false_eq_true, if_false]
  rw [bind_apply, trace_apply]
  rfl

theorem execute_refused {opcode : UInt8} {instruction : Instruction}
    (hopcode : Instruction.ofOpcode? opcode = some instruction) {machine : Machine σ}
    (hinstruction : instruction.privileged = true) (hmachine : machine.registers.privileged = false)
    (offset : UInt64) :
    execute offset opcode machine =
      .error (.fault (.privilegeViolation instruction offset)) (machine.moveTo offset) := by
  unfold execute
  rw [hopcode]
  dsimp only
  rw [bind_apply, get_apply]
  dsimp only
  rw [hinstruction, hmachine]
  rfl

theorem execute_unknown {opcode : UInt8} (hopcode : Instruction.ofOpcode? opcode = none)
    (offset : UInt64) (machine : Machine σ) :
    execute offset opcode machine =
      .error (.fault (.unknownOpcode opcode offset)) (machine.moveTo offset) := by
  unfold execute
  rw [hopcode]
  rfl

theorem final_operate (instruction : Instruction)
    (operands : Operands (Operation.ofInstruction instruction : Operation σ).kinds)
    (machine : Machine σ) : (operate instruction operands).final machine =
      ((Operation.ofInstruction instruction).run operands).final machine := by
  unfold operate
  rcases final_bind ((Operation.ofInstruction instruction).run operands) _ machine with
    hfinal | ⟨_, _, hfinal⟩
  · exact hfinal
  · exact hfinal

theorem executeNext_halted {machine : Machine σ} (hhalted : machine.halted = true) :
    executeNext machine = .ok (.nop, none) machine := by
  unfold executeNext
  rw [bind_apply, get_apply]
  dsimp only
  rw [hhalted]
  rfl

theorem executeNext_apply {machine : Machine σ} (hrunning : machine.halted = false) :
    executeNext machine = (fetch 1 >>= fun opcode =>
      execute machine.registers.ip (.ofNat opcode)) machine := by
  unfold executeNext
  rw [bind_apply, get_apply]
  dsimp only
  rw [hrunning]
  rfl

theorem executeNext_of_readWord {machine : Machine σ} (hrunning : machine.halted = false)
    {instruction : Instruction}
    (hopcode : machine.memory.readWord machine.registers.ip 1 = .ok instruction.opcode.toNat)
    (hallowed : instruction.privileged = true → machine.registers.privileged = true) :
    executeNext machine =
      (fetchOperands (Operation.ofInstruction instruction).kinds >>= operate instruction)
        (machine.ready instruction (machine.registers.ip + 1)) := by
  have hstarted : instruction.privileged = true →
      (machine.moveTo (machine.registers.ip + .ofNat 1)).registers.privileged = true := hallowed
  rw [executeNext_apply hrunning, bind_apply, fetch_apply, hopcode]
  dsimp only
  rw [UInt8.ofNat_toNat, execute_apply (Instruction.ofOpcode?_opcode instruction) hstarted,
    Machine.traced_moveTo]
  rfl

/-- An instruction is refused with the machine untouched, or it stops among its operands, or it
comes to its operation. In the last two cases it is one that the machine allows. -/
theorem executeNext_cases {machine : Machine σ} (hrunning : machine.halted = false) :
    (∃ stop, executeNext machine = .error stop machine) ∨
      ∃ instruction : Instruction,
        (instruction.privileged = true → machine.registers.privileged = true) ∧
        ((∃ stop next, executeNext machine = .error stop (machine.ready instruction next)) ∨
          ∃ operands next,
            fetchOperands (Operation.ofInstruction instruction).kinds
                (machine.ready instruction (machine.registers.ip + 1)) =
              .ok operands (machine.ready instruction next) ∧
            executeNext machine = operate instruction operands (machine.ready instruction next)) := by
  rw [executeNext_apply hrunning, bind_apply, fetch_apply]
  cases machine.memory.readWord machine.registers.ip 1 with
  | error cause => exact .inl ⟨_, rfl⟩
  | ok n =>
    dsimp only
    cases hopcode : Instruction.ofOpcode? (.ofNat n) with
    | none =>
      left
      rw [execute_unknown hopcode]
      exact ⟨_, rfl⟩
    | some instruction =>
      let started := machine.moveTo (machine.registers.ip + .ofNat 1)
      by_cases hallowed : instruction.privileged = true → started.registers.privileged = true
      · right
        refine ⟨instruction, hallowed, ?_⟩
        rw [execute_apply hopcode hallowed, bind_apply]
        let kinds := (Operation.ofInstruction instruction : Operation σ).kinds
        let traced := started.traced machine.registers.ip instruction
        obtain ⟨next, hnext⟩ := moves_fetchOperands kinds traced
        have htraced : traced.moveTo next = machine.ready instruction next := by
          rw [show traced = _ from Machine.traced_moveTo ..]
          rfl
        have hstart : traced = machine.ready instruction (machine.registers.ip + 1) :=
          Machine.traced_moveTo ..
        rw [htraced] at hnext
        cases hfetch : fetchOperands kinds traced with
        | ok operands left =>
          rw [final_of_ok hfetch] at hnext
          subst hnext
          exact .inr ⟨operands, next, hstart ▸ hfetch, rfl⟩
        | error stop left =>
          rw [final_of_error hfetch] at hnext
          subst hnext
          exact .inl ⟨stop, next, rfl⟩
      · left
        simp only [Classical.not_imp, Bool.not_eq_true] at hallowed
        rw [execute_refused hopcode hallowed.1 hallowed.2]
        exact ⟨_, rfl⟩

theorem final_executeNext (machine : Machine σ) :
    executeNext.final machine = machine ∨
      ∃ (instruction : Instruction) (next : UInt64),
        (instruction.privileged = true → machine.registers.privileged = true) ∧
        (executeNext.final machine = machine.ready instruction next ∨
          ∃ operands, executeNext.final machine =
            ((Operation.ofInstruction instruction).run operands).final
              (machine.ready instruction next)) := by
  cases hrunning : machine.halted with
  | true => exact .inl (final_of_ok (executeNext_halted hrunning))
  | false =>
    rcases executeNext_cases hrunning with ⟨stop, hstop⟩ | ⟨instruction, hallowed, hready⟩
    · exact .inl (final_of_error hstop)
    · right
      rcases hready with ⟨stop, next, hstop⟩ | ⟨operands, next, -, hoperate⟩
      · exact ⟨instruction, next, hallowed, .inl (final_of_error hstop)⟩
      · refine ⟨instruction, next, hallowed, .inr ⟨operands, ?_⟩⟩
        rw [← final_operate]
        unfold final
        rw [hoperate]

theorem executeNext_eq_ok {machine after : Machine σ} {instruction : Instruction}
    {raised : Option UInt8} (h : executeNext machine = .ok (instruction, raised) after) :
    (instruction = .nop ∧ raised = none ∧ after = machine) ∨
      ∃ operands next,
        fetchOperands (Operation.ofInstruction instruction).kinds
            (machine.ready instruction (machine.registers.ip + 1)) =
          .ok operands (machine.ready instruction next) ∧
        (Operation.ofInstruction instruction).run operands (machine.ready instruction next) =
          .ok () after ∧
        raised = (Operation.ofInstruction instruction).raises operands := by
  cases hrunning : machine.halted with
  | true =>
    rw [executeNext_halted hrunning] at h
    cases h
    exact .inl ⟨rfl, rfl, rfl⟩
  | false =>
    right
    rcases executeNext_cases hrunning with ⟨stop, hstop⟩ | ⟨found, -, hready⟩
    · rw [hstop] at h
      cases h
    · rcases hready with ⟨stop, next, hstop⟩ | ⟨operands, next, hfetch, hoperate⟩
      · rw [hstop] at h
        cases h
      · rw [hoperate] at h
        obtain ⟨_, left, hrun, hpure⟩ := bind_eq_ok.mp h
        cases hpure
        exact ⟨operands, next, hfetch, hrun, rfl⟩

theorem executeNext_eq_error {machine left : Machine σ} {stop : Stop}
    (h : executeNext machine = .error stop left) :
    left = machine ∨
      ∃ (instruction : Instruction) (next : UInt64), left = machine.ready instruction next ∨
        ∃ operands, (Operation.ofInstruction instruction).run operands
          (machine.ready instruction next) = .error stop left := by
  cases hrunning : machine.halted with
  | true =>
    rw [executeNext_halted hrunning] at h
    cases h
  | false =>
    rcases executeNext_cases hrunning with ⟨_, hrefused⟩ | ⟨instruction, -, hready⟩
    · rw [hrefused] at h
      cases h
      exact .inl rfl
    · right
      rcases hready with ⟨_, next, hfetch⟩ | ⟨operands, next, -, hoperate⟩
      · rw [hfetch] at h
        cases h
        exact ⟨instruction, next, .inl rfl⟩
      · refine ⟨instruction, next, .inr ⟨operands, ?_⟩⟩
        rw [hoperate, operate, bind_apply] at h
        cases hrun : (Operation.ofInstruction instruction).run operands
            (machine.ready instruction next) with
        | ok _ after =>
          rw [hrun] at h
          cases h
        | error cause stopped =>
          rw [hrun] at h
          cases h
          rfl

theorem executeNext_raised {machine after : Machine σ} {instruction : Instruction} {number : UInt8}
    (h : executeNext machine = .ok (instruction, some number) after) :
    ∃ next, after = machine.ready instruction next := by
  rcases executeNext_eq_ok h with ⟨-, hraised, -⟩ | ⟨operands, next, -, hrun, hraised⟩
  · cases hraised
  · by_cases hinstruction : instruction = .raise
    · subst hinstruction
      cases hrun
      exact ⟨next, rfl⟩
    · rw [Operation.raises_eq_none hinstruction] at hraised
      cases hraised

/-- The operation of an instruction applied to its operands, then the interrupt that it raises, taken
within the fuel of the step. -/
def perform (fuel : Nat) (instruction : Instruction)
    (operands : Operands (Operation.ofInstruction instruction : Operation σ).kinds) :
    Run σ Instruction := do
  (Operation.ofInstruction instruction).run operands
  match (Operation.ofInstruction instruction).raises operands with
  | none => pure instruction
  | some number => do
    raise fuel number
    pure instruction

theorem step_of_operate {instruction : Instruction} {machine ready : Machine σ}
    {operands : Operands (Operation.ofInstruction instruction : Operation σ).kinds}
    (h : executeNext machine = operate instruction operands ready) (fuel : Nat) :
    step fuel machine = perform fuel instruction operands ready := by
  rw [step_eq]
  unfold stepWith perform
  rw [bind_apply, h]
  unfold operate
  rw [bind_apply, bind_apply]
  cases (Operation.ofInstruction instruction).run operands ready with
  | error stop left => rfl
  | ok _ left =>
    dsimp only
    rw [pure_apply]
    cases (Operation.ofInstruction instruction).raises operands <;> rfl

theorem step_of_error {machine left : Machine σ} {stop : Stop}
    (h : executeNext machine = .error stop left) (fuel : Nat) :
    step fuel machine = .error stop left := by
  rw [step_eq]
  unfold stepWith
  rw [bind_apply, h]

theorem perform_eq_ok {fuel : Nat} {instruction returned : Instruction} {machine left : Machine σ}
    {operands : Operands (Operation.ofInstruction instruction : Operation σ).kinds}
    (h : perform fuel instruction operands machine = .ok returned left) :
    returned = instruction ∧
      ∃ after, (Operation.ofInstruction instruction).run operands machine = .ok () after ∧
        match (Operation.ofInstruction instruction : Operation σ).raises operands with
        | none => left = after
        | some number => raise fuel number after = .ok () left := by
  unfold perform at h
  obtain ⟨_, after, hrun, hrest⟩ := bind_eq_ok.mp h
  cases hraises : (Operation.ofInstruction instruction : Operation σ).raises operands with
  | none =>
    rw [hraises] at hrest
    cases hrest
    exact ⟨rfl, left, hrun, rfl⟩
  | some number =>
    rw [hraises] at hrest
    obtain ⟨_, taken, htake, hpure⟩ := bind_eq_ok.mp hrest
    cases hpure
    exact ⟨rfl, after, hrun, htake⟩

end Run

end RegisterMachine
