import RegisterMachine.Proofs.Decoding
import RegisterMachine.Proofs.Dispatch

/-!
Calls and returns as brackets. A call puts the address after itself on the stack and a return takes
one from it, so a run whose calls and returns are balanced gives the stack back as it found it. What
a return finds there is then the address after the call that it closes, wherever that call went.
-/
namespace RegisterMachine

variable {σ : Type}

/-- A step that ended well: its instruction, and the machine on either side of it. -/
structure Executed (σ : Type) where
  instruction : Instruction
  before : Machine σ
  after : Machine σ

inductive Steps : Machine σ → List (Executed σ) → Machine σ → Prop
  | nil (machine : Machine σ) : Steps machine [] machine
  | cons {fuel : Nat} {machine next left : Machine σ} {instruction : Instruction}
      {run : List (Executed σ)} (hstep : Run.step fuel machine = .ok instruction next)
      (rest : Steps next run left) : Steps machine (⟨instruction, machine, next⟩ :: run) left

def Instruction.calls : Instruction → Bool
  | .call | .callRegister => true
  | _ => false

/-- The instructions that change the stack or the call depth, or let others do so, and are neither a
call nor a return. -/
def Instruction.unbracketed : List Instruction :=
  [.pushWord, .pushRegister, .pushText, .pop, .popRegister, .callNative, .raise, .reset, .breakpoint]

/-- The calls and returns of the run are a balanced word of opening and closing brackets. -/
inductive Balanced : List (Executed σ) → Prop
  | nil : Balanced []
  | other {executed : Executed σ} {run : List (Executed σ)}
      (hcall : executed.instruction.calls = false) (hret : executed.instruction ≠ .ret)
      (rest : Balanced run) : Balanced (executed :: run)
  | pair {called returned : Executed σ} {inner run : List (Executed σ)}
      (hcall : called.instruction.calls = true) (hret : returned.instruction = .ret)
      (hinner : Balanced inner) (rest : Balanced run) :
      Balanced (called :: (inner ++ returned :: run))

structure Matching (called : Executed σ) (inner : List (Executed σ)) (returned : Executed σ) :
    Prop where
  call : called.instruction.calls = true
  ret : returned.instruction = .ret
  inner : Balanced inner

def Executed.next (executed : Executed σ) : UInt64 :=
  executed.before.registers.ip + .ofNat (1 + executed.instruction.operandSize)

theorem Steps.split {machine left : Machine σ} {first second : List (Executed σ)}
    (h : Steps machine (first ++ second) left) :
    ∃ middle, Steps machine first middle ∧ Steps middle second left := by
  induction first generalizing machine with
  | nil => exact ⟨machine, .nil machine, h⟩
  | cons executed first ih =>
    cases h with
    | cons hstep rest =>
      obtain ⟨middle, hfirst, hsecond⟩ := ih rest
      exact ⟨middle, .cons hstep hfirst, hsecond⟩

theorem Balanced.matching {run : List (Executed σ)} (h : Balanced run)
    {earlier later : List (Executed σ)} {returned : Executed σ}
    (hrun : run = earlier ++ returned :: later) (hret : returned.instruction = .ret) :
    ∃ outer called inner, earlier = outer ++ called :: inner ∧ Matching called inner returned := by
  induction h generalizing earlier later with
  | nil => simp at hrun
  | @other executed run _ hother _ ih =>
    cases earlier with
    | nil =>
      obtain ⟨rfl, -⟩ := List.cons.inj hrun
      exact absurd hret hother
    | cons first earlier =>
      obtain ⟨rfl, hrest⟩ := List.cons.inj hrun
      obtain ⟨outer, called, inner, rfl, hmatching⟩ := ih hrest
      exact ⟨executed :: outer, called, inner, rfl, hmatching⟩
  | @pair opening closing inside run hcall hclosing hinside _ ihInside ihRun =>
    cases earlier with
    | nil =>
      obtain ⟨rfl, -⟩ := List.cons.inj hrun
      rw [hret] at hcall
      cases hcall
    | cons first earlier =>
      obtain ⟨rfl, hrest⟩ := List.cons.inj hrun
      -- The return stands after the closing one, is the closing one, or stands inside the pair.
      rcases List.append_eq_append_iff.mp hrest with ⟨gap, rfl, hafter⟩ | ⟨gap, rfl, hinner⟩
      · cases gap with
        | nil =>
          obtain ⟨rfl, -⟩ := List.cons.inj hafter
          exact ⟨[], opening, inside, by simp, hcall, hret, hinside⟩
        | cons second gap =>
          obtain ⟨rfl, hlater⟩ := List.cons.inj hafter
          obtain ⟨outer, called, inner, rfl, hmatching⟩ := ihRun hlater
          exact ⟨opening :: (inside ++ closing :: outer), called, inner, by simp, hmatching⟩
      · cases gap with
        | nil =>
          obtain ⟨rfl, -⟩ := List.cons.inj hinner
          refine ⟨[], opening, earlier, rfl, hcall, hret, ?_⟩
          simpa using hinside
        | cons second gap =>
          obtain ⟨rfl, -⟩ := List.cons.inj hinner
          obtain ⟨outer, called, inner, rfl, hmatching⟩ := ihInside rfl
          exact ⟨opening :: outer, called, inner, rfl, hmatching⟩

namespace Run

variable {machine left : Machine σ} {fuel : Nat} {instruction : Instruction}

theorem fetchOperands_ip {kinds : List OperandKind} {operands : Operands kinds}
    (h : fetchOperands kinds machine = .ok operands left) :
    left.registers.ip = machine.registers.ip + .ofNat (OperandKind.totalSize kinds) := by
  induction kinds generalizing machine with
  | nil =>
    cases h
    exact (UInt64.add_zero _).symm
  | cons kind kinds ih =>
    obtain ⟨operand, fetched, hfetch, hrest⟩ := bind_eq_ok.mp h
    obtain ⟨later, moved, hlater, hpure⟩ := bind_eq_ok.mp hrest
    cases hpure
    rw [fetchOperand_apply] at hfetch
    split at hfetch
    · cases hfetch
      rw [ih hlater]
      change machine.registers.ip + .ofNat kind.size + .ofNat (OperandKind.totalSize kinds) =
        machine.registers.ip + .ofNat (kind.size + OperandKind.totalSize kinds)
      rw [UInt64.ofNat_add, UInt64.add_assoc]
    · cases hfetch

theorem executeNext_of_step (h : step fuel machine = .ok instruction left)
    (hraise : instruction ≠ .raise) : executeNext machine = .ok (instruction, none) left := by
  obtain ⟨raised, after, hnext, -, ⟨rfl, rfl⟩ | ⟨number, rfl, -⟩⟩ := Trace.step_eq_ok h
  · exact hnext
  · rcases executeNext_eq_ok hnext with ⟨-, hnone, -⟩ | ⟨operands, next, -, -, hraises⟩
    · cases hnone
    · rw [Operation.raises_eq_none hraise] at hraises
      cases hraises

theorem step_other (h : step fuel machine = .ok instruction left)
    (hbracketed : instruction ∉ Instruction.unbracketed) (hcall : instruction.calls = false)
    (hret : instruction ≠ .ret) :
    left.stack = machine.stack ∧ left.registers.depth = machine.registers.depth := by
  have hraise : instruction ≠ .raise := by
    rintro rfl
    exact hbracketed (by decide)
  rcases executeNext_eq_ok (executeNext_of_step h hraise) with
    ⟨-, -, rfl⟩ | ⟨operands, next, -, hrun, -⟩
  · exact ⟨rfl, rfl⟩
  · have hready := machine.agree_ready instruction next
    have hfoot := Operation.writes_run instruction operands (machine.ready instruction next)
    rw [final_of_ok hrun] at hfoot
    have hparts : .stack ∉ instruction.writes ∧ .depth ∉ instruction.writes := by
      revert hbracketed hcall hret
      cases instruction <;> decide
    rw [hfoot.stack hparts.1, hfoot.depth hparts.2, hready.stack (by decide),
      hready.depth (by decide)]
    exact ⟨rfl, rfl⟩

theorem step_call (h : step fuel machine = .ok instruction left)
    (hcall : instruction.calls = true) :
    machine.stack.push (.ofWord (machine.registers.ip + .ofNat (1 + instruction.operandSize))) =
        .ok left.stack ∧
      left.registers.depth = machine.registers.depth + 1 := by
  have hraise : instruction ≠ .raise := by
    rintro rfl
    cases hcall
  rcases executeNext_eq_ok (executeNext_of_step h hraise) with
    ⟨rfl, -, -⟩ | ⟨operands, next, hfetch, hrun, -⟩
  · cases hcall
  · have hready := machine.agree_ready instruction next
    have hnext : next = machine.registers.ip + .ofNat (1 + instruction.operandSize) := by
      have hip := fetchOperands_ip hfetch
      rw [Operation.kinds_ofInstruction] at hip
      rw [UInt64.ofNat_add, ← UInt64.add_assoc]
      exact hip
    obtain ⟨address, hcalled⟩ : ∃ address,
        call address (machine.ready instruction next) = .ok () left := by
      cases instruction with
      | call => exact ⟨_, hrun⟩
      | callRegister =>
        obtain ⟨value, same, hget, hjump⟩ := bind_eq_ok.mp hrun
        cases getRegister_eq_ok hget
        exact ⟨_, hjump⟩
      | _ => cases hcall
    refine ⟨?_, call_depth hcalled⟩
    obtain ⟨stack, hpush, rfl⟩ := call_eq_ok hcalled
    rw [← hnext, ← hready.stack (by decide)]
    exact hpush

theorem step_ret (h : step fuel machine = .ok .ret left) :
    ∃ value, machine.stack.pop = .ok (value, left.stack) ∧
      value.asWord = .ok left.registers.ip ∧
      left.registers.depth = machine.registers.depth - 1 := by
  rcases executeNext_eq_ok (executeNext_of_step h (by decide)) with
    ⟨hnop, -⟩ | ⟨operands, next, -, hrun, -⟩
  · cases hnop
  · have hready := machine.agree_ready .ret next
    obtain ⟨-, value, stack, address, hpop, hword, rfl⟩ := ret_eq_ok hrun
    rw [hready.stack (by decide)] at hpop
    refine ⟨value, hpop, hword, ?_⟩
    rw [hready.depth (by decide)]

end Run

theorem Run.step_ret_of_push {under : Stack} {address : UInt64} {machine left : Machine σ}
    {fuel : Nat} (hpush : under.push (.ofWord address) = .ok machine.stack)
    (h : Run.step fuel machine = .ok .ret left) :
    left.stack = under ∧ left.registers.ip = address ∧
      left.registers.depth = machine.registers.depth - 1 := by
  obtain ⟨value, hpop, hword, hdepth⟩ := Run.step_ret h
  rw [Stack.pop_of_push hpush] at hpop
  obtain ⟨rfl, hstack⟩ := Prod.mk.inj (Except.ok.inj hpop)
  exact ⟨hstack.symm, (Except.ok.inj hword).symm, hdepth⟩

/-- By induction on the brackets: inside a pair the stack holds what its call put on it. -/
theorem Balanced.restores {run : List (Executed σ)} (hbalanced : Balanced run)
    (hbracketed : ∀ executed ∈ run, executed.instruction ∉ Instruction.unbracketed)
    {machine left : Machine σ} (h : Steps machine run left) :
    left.stack = machine.stack ∧ left.registers.depth = machine.registers.depth := by
  induction hbalanced generalizing machine left with
  | nil =>
    cases h
    exact ⟨rfl, rfl⟩
  | other hcall hret _ ih =>
    cases h with
    | cons hstep rest =>
      obtain ⟨hstack, hdepth⟩ := ih (fun later hlater => hbracketed later (.tail _ hlater)) rest
      obtain ⟨hsame, hsameDepth⟩ := Run.step_other hstep (hbracketed _ (.head _)) hcall hret
      exact ⟨hstack.trans hsame, hdepth.trans hsameDepth⟩
  | @pair called returned inner run hcall hret _ _ ihInner ihRun =>
    cases h with
    | cons hstep rest =>
      obtain ⟨closing, hinner, hclose⟩ := rest.split
      cases hclose with
      | cons hreturn rest =>
        obtain ⟨hpush, hdeeper⟩ := Run.step_call hstep hcall
        obtain ⟨hinnerStack, hinnerDepth⟩ :=
          ihInner (fun later hlater => hbracketed later (by simp [hlater])) hinner
        obtain ⟨hstack, hdepth⟩ :=
          ihRun (fun later hlater => hbracketed later (by simp [hlater])) rest
        cases hret
        obtain ⟨hunder, -, hback⟩ := Run.step_ret_of_push (hinnerStack ▸ hpush) hreturn
        refine ⟨hstack.trans hunder, ?_⟩
        rw [hdepth, hback, hinnerDepth, hdeeper, UInt64.add_sub_cancel]

/-- A run of calls, returns and instructions that leave stack and call depth alone, whose calls and
returns are balanced, ends with the stack and the call depth with which it began. Each of its returns
closes a call, and goes to the address after the call that it closes. -/
theorem returns_go_back (machine left : Machine σ) (run : List (Executed σ))
    (h : Steps machine run left)
    (hbracketed : ∀ executed ∈ run, executed.instruction ∉ Instruction.unbracketed)
    (hbalanced : Balanced run) :
    left.stack = machine.stack ∧
    left.registers.depth = machine.registers.depth ∧
    (∀ earlier returned later, run = earlier ++ returned :: later → returned.instruction = .ret →
      ∃ outer called inner, earlier = outer ++ called :: inner ∧ Matching called inner returned) ∧
    ∀ outer called inner returned later, run = outer ++ called :: (inner ++ returned :: later) →
      Matching called inner returned → returned.after.registers.ip = called.next := by
  obtain ⟨hstack, hdepth⟩ := hbalanced.restores hbracketed h
  refine ⟨hstack, hdepth, fun earlier returned later => hbalanced.matching, ?_⟩
  rintro outer called inner returned later rfl ⟨hcall, hret, hinner⟩
  obtain ⟨start, -, hcalled⟩ := h.split
  cases hcalled with
  | cons hstep rest =>
    obtain ⟨closing, hbetween, hclose⟩ := rest.split
    cases hclose with
    | cons hreturn _ =>
      obtain ⟨hpush, -⟩ := Run.step_call hstep hcall
      obtain ⟨hsame, -⟩ := hinner.restores
        (fun later hlater => hbracketed later (by simp [hlater])) hbetween
      cases hret
      exact (Run.step_ret_of_push (hsame ▸ hpush) hreturn).2.1

def Machine.ahead (machine : Machine σ) : Nat → Machine σ
  | 0 => machine
  | count + 1 => (Run.step 0).final (machine.ahead count)

/-- A machine that calls address 13, where address 23 is called, and then the address in register 0,
which is 23 too. -/
def Machine.calling : Machine Unit :=
  let code := #[0x22, 13, 0, 0, 0, 0, 0, 0, 0, 0x23, 0, 0x01, 0x02, 0x22, 23, 0, 0, 0, 0, 0, 0, 0,
    0x24, 0x24]
  { Machine.boot {} ⟨⟨code⟩, none⟩ {} () with
    registers := { Machine.bootRegisters {} with general := #[23] }
    stack := { values := #[.int 7] } }

theorem returns_go_back_calling :
    ∃ run, run.map (·.instruction) = [.call, .call, .ret, .ret, .callRegister, .ret, .nop] ∧
      Steps Machine.calling run (Machine.calling.ahead 7) ∧ Balanced run ∧
      (Machine.calling.ahead 7).stack = Machine.calling.stack ∧
      (Machine.calling.ahead 7).registers.depth = 0 ∧
      (Machine.calling.ahead 4).registers.ip = 9 := by
  let executed (count : Nat) (instruction : Instruction) : Executed Unit :=
    ⟨instruction, Machine.calling.ahead count, Machine.calling.ahead (count + 1)⟩
  have hstep : ∀ count instruction,
      (Run.step 0).value? (Machine.calling.ahead count) = some instruction →
      Run.step 0 (Machine.calling.ahead count) =
        .ok instruction (Machine.calling.ahead (count + 1)) :=
    fun _ _ => Run.eq_ok_of_value?
  have hsteps : Steps Machine.calling
      [executed 0 .call, executed 1 .call, executed 2 .ret, executed 3 .ret,
        executed 4 .callRegister, executed 5 .ret, executed 6 .nop] (Machine.calling.ahead 7) :=
    .cons (hstep 0 _ (by decide +kernel)) <| .cons (hstep 1 _ (by decide +kernel)) <|
    .cons (hstep 2 _ (by decide +kernel)) <| .cons (hstep 3 _ (by decide +kernel)) <|
    .cons (hstep 4 _ (by decide +kernel)) <| .cons (hstep 5 _ (by decide +kernel)) <|
    .cons (hstep 6 _ (by decide +kernel)) <| .nil _
  have hinner : Balanced [executed 1 .call, executed 2 .ret] := .pair rfl rfl .nil .nil
  have hlast : Balanced [executed 4 .callRegister, executed 5 .ret, executed 6 .nop] :=
    .pair rfl rfl .nil (.other rfl (by decide) .nil)
  have hbalanced := Balanced.pair (show (executed 0 .call).instruction.calls = true from rfl)
    (show (executed 3 .ret).instruction = .ret from rfl) hinner hlast
  have hbracketed : ∀ step ∈ [executed 0 .call, executed 1 .call, executed 2 .ret,
      executed 3 .ret, executed 4 .callRegister, executed 5 .ret, executed 6 .nop],
      step.instruction ∉ Instruction.unbracketed := by
    simp [executed, Instruction.unbracketed]
  have h := returns_go_back Machine.calling _ _ hsteps hbracketed hbalanced
  refine ⟨_, rfl, hsteps, hbalanced, h.1, h.2.1, ?_⟩
  exact h.2.2.2 [] (executed 0 .call) [executed 1 .call, executed 2 .ret] (executed 3 .ret) _ rfl
    ⟨rfl, rfl, hinner⟩

end RegisterMachine
