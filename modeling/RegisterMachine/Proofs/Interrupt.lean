import RegisterMachine.Proofs.Execution

/-!
What an interrupt comes to: entered, dispatched to its handler if it has one, and left with the
privilege that the machine had before. Steps and interrupts nest, and whatever nests in them leaves
memory, settings and host alone.
-/
namespace RegisterMachine

def Part.all : List Part := [.general, .ip, .control, .depth, .stack, .handlers, .halted, .world]

namespace Machine

variable {σ : Type}

theorem agree_enterInterrupt (machine : Machine σ) (number : UInt8) :
    machine.AgreeExcept [.general, .ip, .control, .depth, .halted, .world]
      (machine.enterInterrupt number) := by
  unfold enterInterrupt
  cases machine.host.observer with
  | none =>
    refine ⟨rfl, rfl, rfl, fun part hn => ?_⟩
    cases part with
    | control | halted => exact absurd (by decide) hn
    | _ => rfl
  | some observer =>
    refine ⟨rfl, rfl, rfl, fun part hn => ?_⟩
    cases part with
    | stack | handlers => rfl
    | _ => exact absurd (by decide) hn

theorem agree_leaveInterrupt (machine : Machine σ) (privileged : Bool) :
    machine.AgreeExcept [.control, .halted] (machine.leaveInterrupt privileged) := by
  refine ⟨rfl, rfl, rfl, fun part hn => ?_⟩
  cases part with
  | control | halted => exact absurd (by decide) hn
  | _ => rfl

@[simp] theorem leaveInterrupt_privileged (machine : Machine σ) (privileged : Bool) :
    (machine.leaveInterrupt privileged).registers.privileged = privileged := by
  unfold leaveInterrupt Registers.privileged
  rw [Registers.flag_setFlag, if_pos rfl]

theorem leaveInterrupt_leaveInterrupt (machine : Machine σ) (first second : Bool) :
    (machine.leaveInterrupt first).leaveInterrupt second = machine.leaveInterrupt second := by
  unfold leaveInterrupt
  rw [Registers.setFlag_setFlag]

end Machine

namespace Run

variable {σ : Type}

theorem interruptWith_enabled (step : Run σ Instruction) (fuel : Nat) (number : UInt8)
    {machine : Machine σ} (henabled : machine.registers.interruptsEnabled = true) :
    interruptWith step fuel number machine =
      match (match (machine.enterInterrupt number).handlers.find? number with
        | some address => dispatchWith step fuel number address (machine.enterInterrupt number)
        | none => .ok () (machine.enterInterrupt number)) with
      | .ok _ left => .ok () (left.leaveInterrupt machine.registers.privileged)
      | .error stop left => .error stop (left.leaveInterrupt machine.registers.privileged) :=
  if_pos henabled

theorem interruptWith_disabled (step : Run σ Instruction) (fuel : Nat) (number : UInt8)
    {machine : Machine σ} (hdisabled : machine.registers.interruptsEnabled = false) :
    interruptWith step fuel number machine = .ok () machine := by
  unfold interruptWith
  rw [hdisabled]
  rfl

theorem final_interruptWith (step : Run σ Instruction) (fuel : Nat) (number : UInt8)
    {machine : Machine σ} (henabled : machine.registers.interruptsEnabled = true) :
    (interruptWith step fuel number).final machine =
      (match (machine.enterInterrupt number).handlers.find? number with
        | some address =>
          (dispatchWith step fuel number address).final (machine.enterInterrupt number)
        | none => machine.enterInterrupt number).leaveInterrupt machine.registers.privileged := by
  unfold final
  rw [interruptWith_enabled step fuel number henabled]
  cases (machine.enterInterrupt number).handlers.find? number with
  | none => rfl
  | some address =>
    dsimp only
    cases dispatchWith step fuel number address (machine.enterInterrupt number) <;> rfl

theorem interruptWith_eq_ok {step : Run σ Instruction} {fuel : Nat} {number : UInt8}
    {machine left : Machine σ} (henabled : machine.registers.interruptsEnabled = true)
    (h : interruptWith step fuel number machine = .ok () left) :
    ((machine.enterInterrupt number).handlers.find? number = none ∧
      left = (machine.enterInterrupt number).leaveInterrupt machine.registers.privileged) ∨
    ∃ address after, (machine.enterInterrupt number).handlers.find? number = some address ∧
      dispatchWith step fuel number address (machine.enterInterrupt number) = .ok () after ∧
      left = after.leaveInterrupt machine.registers.privileged := by
  rw [interruptWith_enabled step fuel number henabled] at h
  cases hfind : (machine.enterInterrupt number).handlers.find? number with
  | none =>
    rw [hfind] at h
    cases h
    exact .inl ⟨rfl, rfl⟩
  | some address =>
    right
    rw [hfind] at h
    dsimp only at h
    cases hdispatch : dispatchWith step fuel number address (machine.enterInterrupt number) with
    | error stop after =>
      rw [hdispatch] at h
      cases h
    | ok _ after =>
      rw [hdispatch] at h
      cases h
      exact ⟨address, after, rfl, hdispatch, rfl⟩

/-- An interrupt leaves the privilege as it was, whatever its handler does and however it ends. -/
theorem privileged_interruptWith (step : Run σ Instruction) (fuel : Nat) (number : UInt8)
    (machine : Machine σ) :
    ((interruptWith step fuel number).final machine).registers.privileged =
      machine.registers.privileged := by
  cases henabled : machine.registers.interruptsEnabled with
  | true => rw [final_interruptWith step fuel number henabled, Machine.leaveInterrupt_privileged]
  | false => rw [final_of_ok (interruptWith_disabled step fuel number henabled)]

theorem writes_executeNext : (executeNext : Run σ (Instruction × Option UInt8)).Writes Part.all := by
  intro machine
  rcases final_executeNext machine with hsame | ⟨instruction, next, -, hready | ⟨operands, hrun⟩⟩
  · rw [hsame]
    exact .refl machine
  · rw [hready]
    exact (machine.agree_ready instruction next).mono (by decide)
  · rw [hrun]
    have hfoot := Operation.writes_run instruction operands (machine.ready instruction next)
    exact ((machine.agree_ready instruction next).mono (by decide)).trans
      (hfoot.mono (by cases instruction <;> decide))

theorem writes_untilDepth {step : Run σ Instruction} (hstep : step.Writes Part.all) (number : UInt8)
    (depth : UInt64) (fuel : Nat) : (untilDepth step number depth fuel).Writes Part.all := by
  induction fuel with
  | zero =>
    unfold untilDepth
    apply writes_get.bind
    intro _
    exact writes_ite (writes_pure _) (fun machine => .refl machine)
  | succ fuel ih =>
    unfold untilDepth
    apply writes_get.bind
    intro _
    apply writes_ite (writes_pure _)
    apply hstep.bind
    intro _
    apply writes_get.bind
    intro _
    exact writes_ite (writes_fail _) ih

theorem writes_dispatchWith {step : Run σ Instruction} (hstep : step.Writes Part.all) (fuel : Nat)
    (number : UInt8) (address : UInt64) : (dispatchWith step fuel number address).Writes Part.all := by
  unfold dispatchWith
  apply (writes_log _ _ (by decide)).bind
  intro _
  apply writes_get.bind
  intro _
  apply (writes_call address (by decide) (by decide) (by decide)).bind
  intro _
  exact writes_untilDepth hstep number _ fuel

theorem writes_interruptWith {step : Run σ Instruction} (hstep : step.Writes Part.all) (fuel : Nat)
    (number : UInt8) : (interruptWith step fuel number).Writes Part.all := by
  intro machine
  cases henabled : machine.registers.interruptsEnabled with
  | false =>
    rw [final_of_ok (interruptWith_disabled step fuel number henabled)]
    exact .refl machine
  | true =>
    rw [final_interruptWith step fuel number henabled]
    have henter : machine.AgreeExcept Part.all (machine.enterInterrupt number) :=
      (machine.agree_enterInterrupt number).mono (by decide)
    cases (machine.enterInterrupt number).handlers.find? number with
    | none => exact henter.trans ((Machine.agree_leaveInterrupt _ _).mono (by decide))
    | some address =>
      have hdispatch := writes_dispatchWith hstep fuel number address (machine.enterInterrupt number)
      exact (henter.trans hdispatch).trans ((Machine.agree_leaveInterrupt _ _).mono (by decide))

theorem writes_stepWith {take : UInt8 → Run σ Unit} (htake : ∀ number, (take number).Writes Part.all) :
    (stepWith take).Writes Part.all := by
  unfold stepWith
  apply writes_executeNext.bind
  rintro ⟨instruction, raised⟩
  cases raised with
  | none => exact writes_pure _
  | some number => exact (htake number).bind fun _ => writes_pure _

theorem writes_step (fuel : Nat) : (step fuel : Run σ Instruction).Writes Part.all := by
  induction fuel with
  | zero => exact writes_stepWith fun _ machine => .refl machine
  | succ fuel ih => exact writes_stepWith fun number => writes_interruptWith ih fuel number

theorem writes_interrupt (fuel : Nat) (number : UInt8) :
    (interrupt fuel number : Run σ Unit).Writes Part.all :=
  writes_interruptWith (writes_step fuel) fuel number

end Run

end RegisterMachine
