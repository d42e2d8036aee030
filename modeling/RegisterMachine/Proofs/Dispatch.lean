import RegisterMachine.Proofs.StackEffect
import RegisterMachine.Proofs.Trace

/-!
Where the run of a handler ends. Its loop only waits for the call depth of its entry to come back;
since a step moves the depth by one at most, and a nested interrupt does not move it at all, the depth
comes back with the return that matches the call of the handler and not before.
-/
namespace RegisterMachine

/-- Whether the host takes over, and may change the registers. -/
def Cause.hooks : Cause → Bool
  | .instruction .breakpoint | .interrupt _ => true
  | _ => false

def Cause.calls : Cause → Bool
  | .instruction .call | .instruction .callRegister | .handler _ => true
  | _ => false

/-- The event is no reset, the host does not change the call depth in it, and it does not call from
the greatest depth that there is. -/
structure Event.Balanced {σ : Type} (event : Event σ) : Prop where
  reset : event.cause ≠ .instruction .reset
  hooks : event.cause.hooks = true → event.after.registers.depth = event.before.registers.depth
  calls : event.cause.calls = true → event.before.registers.depth.toNat + 1 < Word.count 8

instance {σ : Type} (event : Event σ) : Decidable event.Balanced :=
  decidable_of_iff (event.cause ≠ .instruction .reset ∧
      (event.cause.hooks = true →
        event.after.registers.depth = event.before.registers.depth) ∧
      (event.cause.calls = true → event.before.registers.depth.toNat + 1 < Word.count 8))
    ⟨fun ⟨hreset, hhooks, hcalls⟩ => ⟨hreset, hhooks, hcalls⟩,
      fun h => ⟨h.reset, h.hooks, h.calls⟩⟩

namespace Run

variable {σ : Type} {machine left after : Machine σ}

theorem executeNext_depth {instruction : Instruction} {raised : Option UInt8}
    (h : executeNext machine = .ok (instruction, raised) after) (hreset : instruction ≠ .reset)
    (hbreakpoint : instruction = .breakpoint →
      after.registers.depth = machine.registers.depth) :
    (instruction = .ret ∧ ∃ next, ret (machine.ready .ret next) = .ok () after) ∨
    ((Cause.instruction instruction).calls = true ∧
      ∃ address next, call address (machine.ready instruction next) = .ok () after) ∨
    after.registers.depth = machine.registers.depth := by
  rcases executeNext_eq_ok h with ⟨-, -, rfl⟩ | ⟨operands, next, -, hrun, -⟩
  · exact .inr (.inr rfl)
  · have hready := (machine.agree_ready instruction next).depth (by decide)
    have hfoot := Operation.writes_run instruction operands (machine.ready instruction next)
    rw [final_of_ok hrun] at hfoot
    by_cases hwrites : .depth ∈ instruction.writes
    · cases instruction with
      | ret => exact .inl ⟨rfl, next, hrun⟩
      | call => exact .inr (.inl ⟨rfl, _, next, hrun⟩)
      | callRegister =>
        obtain ⟨value, same, hget, hcall⟩ := bind_eq_ok.mp hrun
        cases getRegister_eq_ok hget
        exact .inr (.inl ⟨rfl, _, next, hcall⟩)
      | breakpoint => exact .inr (.inr (hbreakpoint rfl))
      | reset => exact absurd rfl hreset
      | _ => exact absurd hwrites (by decide)
    · exact .inr (.inr ((hfoot.depth hwrites).trans hready))

theorem ret_depth {next : UInt64} (h : ret (machine.ready .ret next) = .ok () after) :
    machine.registers.depth.toNat = after.registers.depth.toNat + 1 := by
  obtain ⟨hdepth, value, stack, address, -, -, rfl⟩ := ret_eq_ok h
  rw [(machine.agree_ready .ret next).depth (by decide)] at hdepth ⊢
  have hpositive : machine.registers.depth.toNat ≠ 0 :=
    fun hzero => hdepth (UInt64.toNat_inj.mp hzero)
  have hone : (1 : UInt64) ≤ machine.registers.depth := by
    rw [UInt64.le_iff_toNat_le, UInt64.toNat_one]
    omega
  rw [UInt64.toNat_sub_of_le _ _ hone, UInt64.toNat_one]
  omega

theorem call_depth {instruction : Instruction} {address next : UInt64}
    (h : call address (machine.ready instruction next) = .ok () after) :
    after.registers.depth = machine.registers.depth + 1 := by
  obtain ⟨stack, -, rfl⟩ := call_eq_ok h
  rw [(machine.agree_ready instruction next).depth (by decide)]

theorem toNat_depth_add_one {depth : UInt64} (h : depth.toNat + 1 < Word.count 8) :
    (depth + 1).toNat = depth.toNat + 1 := by
  rw [UInt64.toNat_add, UInt64.toNat_one]
  exact Nat.mod_eq_of_lt h

theorem callHandler_eq_ok {number : UInt8} {address : UInt64}
    (h : callHandler number address machine = .ok () after) :
    machine.stack.push (.ofWord machine.registers.ip) = .ok after.stack ∧
      after.registers.depth = machine.registers.depth + 1 ∧ after.host = machine.host := by
  obtain ⟨_, logged, hlog, hcall⟩ := bind_eq_ok.mp h
  cases hlog
  obtain ⟨stack, hpush, rfl⟩ := call_eq_ok hcall
  exact ⟨hpush, rfl, rfl⟩

theorem dispatchWith_depth {step : Run σ Instruction} {bound : Nat} {number : UInt8}
    {address : UInt64} (h : dispatchWith step bound number address machine = .ok () left) :
    left.registers.depth = machine.registers.depth := by
  obtain ⟨called, -, hloop⟩ := dispatchWith_eq_ok h
  exact Trace.depth_of_untilDepth hloop

theorem interruptWith_depth {step : Run σ Instruction} {bound : Nat} {number : UInt8}
    (h : interruptWith step bound number machine = .ok () left)
    (henter : machine.registers.interruptsEnabled = true →
      (machine.enterInterrupt number).registers.depth = machine.registers.depth) :
    left.registers.depth = machine.registers.depth := by
  cases henabled : machine.registers.interruptsEnabled with
  | false =>
    rw [interruptWith_disabled step bound number henabled] at h
    cases h
    rfl
  | true =>
    rcases interruptWith_eq_ok henabled h with ⟨-, rfl⟩ | ⟨address, ended, -, hdispatch, rfl⟩
    · exact henter henabled
    · exact (dispatchWith_depth hdispatch).trans (henter henabled)

theorem step_depth {fuel : Nat} {instruction : Instruction}
    (h : step fuel machine = .ok instruction left)
    (hbalanced : ∀ event ∈ Trace.step fuel machine, event.Balanced) :
    (instruction = .ret ∧
      machine.registers.depth.toNat = left.registers.depth.toNat + 1) ∨
    machine.registers.depth ≤ left.registers.depth := by
  obtain ⟨raised, after, hnext, hevent, htaken⟩ := Trace.step_eq_ok h
  have hself := hbalanced _ hevent
  have hleft : left.registers.depth = after.registers.depth := by
    rcases htaken with ⟨-, rfl⟩ | ⟨number, -, hraise, hsubset⟩
    · rfl
    · cases fuel with
      | zero => cases hraise
      | succ fuel =>
        apply interruptWith_depth hraise
        intro henabled
        exact (hbalanced ⟨.interrupt number, after, after.enterInterrupt number⟩
          (hsubset (Recorder.entered_subset henabled (.head _)))).hooks rfl
  have hreset : instruction ≠ .reset := fun heq => hself.reset (congrArg Cause.instruction heq)
  have hbreakpoint : instruction = .breakpoint →
      after.registers.depth = machine.registers.depth := by
    rintro rfl
    exact hself.hooks rfl
  rw [hleft]
  rcases executeNext_depth hnext hreset hbreakpoint with
    ⟨rfl, next, hret⟩ | ⟨hcalls, address, next, hcall⟩ | hsame
  · exact .inl ⟨rfl, ret_depth hret⟩
  · right
    have hroom : machine.registers.depth.toNat + 1 < Word.count 8 := hself.calls hcalls
    rw [call_depth hcall, UInt64.le_iff_toNat_le, toNat_depth_add_one hroom]
    omega
  · right
    rw [hsame]
    exact UInt64.le_refl _

theorem looping_above {fuel bound : Nat} {depth : UInt64}
    (hbalanced : ∀ looped ∈ Trace.looping (step fuel) depth bound machine,
      ∀ event ∈ Trace.step fuel looped, event.Balanced)
    (hstart : depth < machine.registers.depth) :
    ∀ looped ∈ Trace.looping (step fuel) depth bound machine,
      depth < looped.registers.depth := by
  apply Trace.looping_induction (fun looped => depth < looped.registers.depth) hstart
  intro looped hlooped instruction next habove hstep hnext
  rw [UInt64.lt_iff_toNat_lt] at habove ⊢
  have hne : next.registers.depth.toNat ≠ depth.toNat :=
    fun heq => hnext (UInt64.toNat_inj.mp heq)
  rcases step_depth hstep (hbalanced looped hlooped) with ⟨-, hup⟩ | hnotUp
  · omega
  · rw [UInt64.le_iff_toNat_le] at hnotUp
    omega

end Run

open Run in
/-- A dispatch executes instructions only above the call depth of its entry. If it ends, its last
instruction is the return from the call of its handler. -/
theorem dispatch_ends_at_return {σ : Type} (fuel bound : Nat) (number : UInt8) (address : UInt64)
    (machine : Machine σ)
    (hbalanced : ∀ event ∈ Trace.dispatch fuel bound number address machine, event.Balanced) :
    (∀ looped ∈ Trace.dispatching (step fuel) bound number address machine,
      machine.registers.depth < looped.registers.depth) ∧
    ∀ left, dispatchWith (step fuel) bound number address machine = .ok () left →
      ∃ last,
        (Trace.dispatching (step fuel) bound number address machine).getLast? = some last ∧
        step fuel last = .ok .ret left ∧
        last.registers.depth.toNat = machine.registers.depth.toNat + 1 ∧
        left.registers.depth = machine.registers.depth := by
  unfold Trace.dispatching
  cases hcall : callHandler number address machine with
  | error stop called =>
    refine ⟨fun looped hlooped => absurd hlooped List.not_mem_nil, fun left h => ?_⟩
    obtain ⟨_, hcalled, -⟩ := dispatchWith_eq_ok h
    rw [hcall] at hcalled
    cases hcalled
  | ok _ called =>
    have hroom : machine.registers.depth.toNat + 1 < Word.count 8 :=
      (hbalanced ⟨.handler number, machine, called⟩
        (Recorder.called_subset hcall (.head _))).calls rfl
    have hsteps : ∀ looped ∈ Trace.looping (step fuel) machine.registers.depth bound called,
        ∀ event ∈ Trace.step fuel looped, event.Balanced := fun looped hlooped event hevent =>
      hbalanced event (Trace.step_subset_dispatch hcall hlooped hevent)
    obtain ⟨-, hdepth, -⟩ := callHandler_eq_ok hcall
    have hstart : machine.registers.depth < called.registers.depth := by
      rw [hdepth, UInt64.lt_iff_toNat_lt, toNat_depth_add_one hroom]
      omega
    have habove := looping_above hsteps hstart
    refine ⟨habove, fun left h => ?_⟩
    obtain ⟨_, hcalled, hloop⟩ := dispatchWith_eq_ok h
    cases hcall.symm.trans hcalled
    obtain ⟨last, instruction, hlast, hstep⟩ := Trace.looping_last hloop (UInt64.ne_of_lt hstart).symm
    have hmem := List.mem_of_getLast? hlast
    have hend := Trace.depth_of_untilDepth hloop
    have hbefore := habove last hmem
    rw [UInt64.lt_iff_toNat_lt] at hbefore
    rcases step_depth hstep (hsteps last hmem) with ⟨rfl, hup⟩ | hnotUp
    · exact ⟨last, hlast, hstep, hend ▸ hup, hend⟩
    · rw [UInt64.le_iff_toNat_le, hend] at hnotUp
      omega

/-- A machine whose handler at address 0 calls address 10, where interrupt 2 is raised, with a handler
at address 13. -/
def Machine.nesting : Machine Unit :=
  { Machine.boot {} ⟨⟨#[0x22, 10, 0, 0, 0, 0, 0, 0, 0, 0x24, 0x05, 2, 0x24, 0x24]⟩, none⟩ {} () with
    handlers := ⟨[(1, 0), (2, 13)]⟩ }

open Run in
theorem dispatch_ends_at_return_nesting :
    (∀ event ∈ Trace.dispatch 3 4 1 0 Machine.nesting, event.Balanced) ∧
    ∃ left last,
      dispatchWith (step 3) 4 1 0 Machine.nesting = .ok () left ∧
      (Trace.dispatching (step 3) 4 1 0 Machine.nesting).getLast? = some last ∧
      step 3 last = .ok .ret left ∧ last.registers.depth.toNat = 1 ∧ left.registers.depth = 0 := by
  have hbalanced : ∀ event ∈ Trace.dispatch 3 4 1 0 Machine.nesting, event.Balanced := by
    decide +kernel
  have hends : (dispatchWith (step 3) 4 1 0).succeeds Machine.nesting = true := by
    decide +kernel
  have hleft := eq_ok_of_succeeds hends
  obtain ⟨last, hlast⟩ := (dispatch_ends_at_return 3 4 1 0 Machine.nesting hbalanced).2 _ hleft
  exact ⟨hbalanced, _, last, hleft, hlast⟩

end RegisterMachine
