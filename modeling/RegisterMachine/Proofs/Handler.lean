import RegisterMachine.Proofs.Dispatch

/-!
Handlers that keep to their part of the stack. The call of a handler saves the instruction pointer on
the stack; as long as the handler, and whatever nests in it, takes nothing from below that, its last
return finds the saved pointer and the machine goes on as if nothing had happened.
-/
namespace RegisterMachine

variable {σ : Type}

structure Host.LeavesRegisters (host : Host σ) : Prop where
  observer : ∀ observer, host.observer = some observer → ∀ number registers world,
    (observer number registers world).1 = registers
  breakpoint : ∀ hook, host.breakpoint = some hook → ∀ registers world,
    (hook registers world).1 = registers

def Machine.nextNative? (machine : Machine σ) : Option (Native σ) :=
  match machine.memory.readWord (machine.registers.ip + 1) 8 with
  | .ok address => machine.native? (.ofNat address)
  | .error _ => none

def Cause.executes : Cause → Bool
  | .instruction _ => true
  | _ => false

/-- The event is no reset, an instruction finds more than `height` values on the stack, and a native
call takes none of the lowest `height + 1`. -/
structure Event.Disciplined (height : Nat) (event : Event σ) : Prop where
  reset : event.cause ≠ .instruction .reset
  frame : event.cause.executes = true → height < event.before.stack.size
  native : event.cause = .instruction .callNative → ∀ native ∈ event.before.nextNative?,
    native.params.length ≤ event.before.stack.size - (height + 1)

instance (height : Nat) (event : Event σ) : Decidable (event.Disciplined height) :=
  decidable_of_iff (event.cause ≠ .instruction .reset ∧
      (event.cause.executes = true → height < event.before.stack.size) ∧
      (event.cause = .instruction .callNative → ∀ native ∈ event.before.nextNative?,
        native.params.length ≤ event.before.stack.size - (height + 1)))
    ⟨fun ⟨hreset, hframe, hnative⟩ => ⟨hreset, hframe, hnative⟩,
      fun h => ⟨h.reset, h.frame, h.native⟩⟩

namespace Host.LeavesRegisters

variable {machine after : Machine σ}

theorem enterInterrupt (h : machine.host.LeavesRegisters) (number : UInt8) :
    (machine.enterInterrupt number).registers = machine.registers.setFlag .privileged true := by
  unfold Machine.enterInterrupt
  cases hobserver : machine.host.observer with
  | none => rfl
  | some observer => exact h.observer observer hobserver _ _ _

theorem runBreakpoint (h : machine.host.LeavesRegisters)
    (hrun : Run.breakpoint machine = .ok () after) : after.registers = machine.registers := by
  unfold Run.breakpoint at hrun
  rw [Run.bind_apply, Run.get_apply] at hrun
  dsimp only at hrun
  cases hhook : machine.host.breakpoint with
  | none =>
    rw [hhook] at hrun
    cases hrun
    rfl
  | some hook =>
    rw [hhook] at hrun
    cases hrun
    exact h.breakpoint hook hhook _ _

end Host.LeavesRegisters

namespace Run

variable {under base : Stack} {saved : Value} {machine after left : Machine σ}

theorem pop_frame (hbase : under.push saved = .ok base) {stack rest : Stack} {value : Value}
    (hbelow : base.Below stack) (hpop : stack.pop = .ok (value, rest)) :
    rest = under ∨ base.Below rest := by
  have hrest := Stack.below_pop hpop
  have hsize := Stack.size_pop hpop
  have hbaseSize := Stack.size_push hbase
  have hstackSize := hbelow.size_le
  by_cases hfits : base.size ≤ rest.size
  · exact .inr (hbelow.of_size_le hrest hfits)
  · left
    have hunder : under.Below rest :=
      ((Stack.below_push hbase).trans hbelow).of_size_le hrest (by omega)
    exact (hunder.eq_of_size_le (by omega)).symm

theorem fetchOperands_word {operands : Operands [.word]}
    (h : fetchOperands [.word] machine = .ok operands left) :
    ∃ n, machine.memory.readWord machine.registers.ip 8 = .ok n ∧
      operands.1 = (UInt64.ofNat n).toInt64 := by
  obtain ⟨operand, fetched, hfetch, hrest⟩ := bind_eq_ok.mp h
  obtain ⟨n, moved, hread, hpure⟩ := bind_eq_ok.mp hfetch
  cases hrest
  cases hpure
  rw [fetch_apply] at hread
  split at hread
  · rename_i m hword
    cases hread
    exact ⟨n, hword, rfl⟩
  · cases hread

theorem executeNext_native {raised : Option UInt8}
    (h : executeNext machine = .ok (.callNative, raised) after) :
    ∃ (native : Native σ) (rest : Stack), machine.nextNative? = some native ∧
      rest.Below machine.stack ∧ machine.stack.size = native.params.length + rest.size ∧
      rest.Below after.stack := by
  rcases executeNext_eq_ok h with ⟨hnop, -⟩ | ⟨operands, next, hfetch, hrun, -⟩
  · cases hnop
  · obtain ⟨n, hread, hoperand⟩ := fetchOperands_word hfetch
    obtain ⟨native, rest, hnative, hrest, hsize, hafter⟩ := callNative_eq_ok hrun
    have hready := machine.agree_ready .callNative (machine.registers.ip + 1)
    have hagree := machine.agree_ready .callNative next
    refine ⟨native, rest, ?_, ?_, ?_, hafter⟩
    · have hword : machine.memory.readWord (machine.registers.ip + 1) 8 = .ok n := by
        rw [← hready.memory]
        exact hread
      have hsame : machine.native? operands.1.toUInt64 = some native := by
        rw [← hnative]
        unfold Machine.native?
        rw [hagree.memory, hagree.host]
      unfold Machine.nextNative?
      rw [hword, ← hsame, hoperand]
      rfl
    · rw [← hagree.stack (by decide)]
      exact hrest
    · rw [← hagree.stack (by decide)]
      exact hsize

theorem executeNext_frame (hbase : under.push saved = .ok base) {instruction : Instruction}
    {raised : Option UInt8} (h : executeNext machine = .ok (instruction, raised) after)
    (hdisciplined : Event.Disciplined under.size ⟨.instruction instruction, machine, after⟩)
    (hbelow : base.Below machine.stack) : after.stack = under ∨ base.Below after.stack := by
  by_cases hnative : instruction = .callNative
  · subst hnative
    obtain ⟨native, rest, hnext, hrest, hsize, hafter⟩ := executeNext_native h
    have hparams : native.params.length ≤ machine.stack.size - (under.size + 1) :=
      hdisciplined.native rfl native hnext
    have hframe : under.size < machine.stack.size := hdisciplined.frame rfl
    have hbaseSize := Stack.size_push hbase
    exact .inr ((hbelow.of_size_le hrest (by omega)).trans hafter)
  · rcases executeNext_eq_ok h with ⟨-, -, rfl⟩ | ⟨operands, next, -, hrun, -⟩
    · exact .inr hbelow
    · have hreset : instruction ≠ .reset :=
        fun heq => hdisciplined.reset (congrArg Cause.instruction heq)
      have hready := (machine.agree_ready instruction next).stack (by decide)
      rcases Operation.stack_run hrun hreset hnative with hgrow | ⟨value, hpop⟩
      · rw [hready] at hgrow
        exact .inr (hbelow.trans hgrow)
      · rw [hready] at hpop
        exact pop_frame hbase hbelow hpop

/-- Steps with this fuel leave the frame in the stack, or take just its top. -/
def KeepsFrame (σ : Type) (under base : Stack) (fuel : Nat) : Prop :=
  ∀ ⦃machine left : Machine σ⦄ ⦃instruction : Instruction⦄, base.Below machine.stack →
    step fuel machine = .ok instruction left →
    (∀ event ∈ Trace.step fuel machine, event.Disciplined under.size) →
    left.stack = under ∨ base.Below left.stack

theorem looping_frame {fuel bound : Nat} {number : UInt8} {depth : UInt64}
    (hkeeps : KeepsFrame σ under base fuel)
    (hdisciplined : ∀ looped ∈ Trace.looping (step fuel) depth bound machine,
      ∀ event ∈ Trace.step fuel looped, event.Disciplined under.size)
    (hbelow : base.Below machine.stack) (hdepth : machine.registers.depth ≠ depth)
    (h : untilDepth (step fuel) number depth bound machine = .ok () left) :
    ∃ last instruction, last ∈ Trace.looping (step fuel) depth bound machine ∧
      base.Below last.stack ∧ step fuel last = .ok instruction left := by
  have hstep : ∀ looped ∈ Trace.looping (step fuel) depth bound machine, ∀ instruction next,
      step fuel looped = .ok instruction next →
      looped.stack = under ∨ base.Below looped.stack → base.Below looped.stack := by
    intro looped hlooped instruction next hstep hframe
    obtain ⟨_, _, _, hevent, _⟩ := Trace.step_eq_ok hstep
    have hsize : under.size < looped.stack.size :=
      (hdisciplined looped hlooped _ hevent).frame rfl
    rcases hframe with heq | hbelow
    · rw [heq] at hsize
      omega
    · exact hbelow
  have hlooping := Trace.looping_induction
    (fun looped => looped.stack = under ∨ base.Below looped.stack) (.inr hbelow)
    fun looped hlooped instruction next hframe hnext _ =>
      hkeeps (hstep looped hlooped instruction next hnext hframe) hnext
        (hdisciplined looped hlooped)
  obtain ⟨last, instruction, hlast, hnext⟩ := Trace.looping_last h hdepth
  have hmem := List.mem_of_getLast? hlast
  exact ⟨last, instruction, hmem, hstep last hmem instruction left hnext (hlooping last hmem), hnext⟩

theorem dispatch_frame {fuel bound : Nat} {number : UInt8} {address : UInt64}
    (hkeeps : KeepsFrame σ under base fuel)
    (hdisciplined : ∀ event ∈ Trace.dispatch fuel bound number address machine,
      event.Disciplined under.size)
    (hbelow : ∀ called, callHandler number address machine = .ok () called →
      base.Below called.stack)
    (h : dispatchWith (step fuel) bound number address machine = .ok () left) :
    ∃ last instruction, base.Below last.stack ∧ step fuel last = .ok instruction left ∧
      last.registers.depth ≠ machine.registers.depth ∧ last.host = machine.host ∧
      ∀ event ∈ Trace.step fuel last, event.Disciplined under.size := by
  obtain ⟨called, hcalled, hloop⟩ := dispatchWith_eq_ok h
  obtain ⟨-, hdepth, hhost⟩ := callHandler_eq_ok hcalled
  have hne : called.registers.depth ≠ machine.registers.depth := by
    rw [hdepth]
    simp
  have hsteps : ∀ looped ∈ Trace.looping (step fuel) machine.registers.depth bound called,
      ∀ event ∈ Trace.step fuel looped, event.Disciplined under.size :=
    fun looped hlooped event hevent =>
      hdisciplined event (Trace.step_subset_dispatch hcalled hlooped hevent)
  obtain ⟨last, instruction, hmem, hlast, hstep⟩ :=
    looping_frame hkeeps hsteps (hbelow called hcalled) hne hloop
  have hlastDepth : last.registers.depth ≠ machine.registers.depth :=
    Trace.looping_induction (fun looped => looped.registers.depth ≠ machine.registers.depth) hne
      (fun _ _ _ _ _ _ hnext => hnext) last hmem
  have hlastHost : last.host = machine.host := by
    refine Trace.looping_induction (fun looped => looped.host = machine.host) hhost ?_ last hmem
    intro looped _ executed next hlooped hnext _
    rw [← final_of_ok hnext, (writes_step fuel looped).host, hlooped]
  exact ⟨last, instruction, hlast, hstep, hlastDepth, hlastHost, hsteps last hmem⟩

theorem interrupt_frame {fuel : Nat} {number : UInt8} (hkeeps : KeepsFrame σ under base fuel)
    (hdisciplined : ∀ event ∈ Trace.interrupt fuel number machine, event.Disciplined under.size)
    (hbelow : base.Below machine.stack) (h : interrupt fuel number machine = .ok () left) :
    left.stack = under ∨ base.Below left.stack := by
  cases henabled : machine.registers.interruptsEnabled with
  | false =>
    rw [show interrupt fuel number machine = _ from
      interruptWith_disabled (step fuel) fuel number henabled] at h
    cases h
    exact .inr hbelow
  | true =>
    have hentered := (machine.agree_enterInterrupt number).stack (by decide)
    rcases interruptWith_eq_ok henabled h with ⟨-, rfl⟩ | ⟨address, ended, hfind, hdispatch, rfl⟩
    · right
      change base.Below (machine.enterInterrupt number).stack
      rw [hentered]
      exact hbelow
    · have hcalled : ∀ called,
          callHandler number address (machine.enterInterrupt number) = .ok () called →
          base.Below called.stack := by
        intro called hcall
        obtain ⟨hpush, -⟩ := callHandler_eq_ok hcall
        rw [hentered] at hpush
        exact hbelow.trans (Stack.below_push hpush)
      obtain ⟨last, instruction, hlast, hstep, -, -, hlastEvents⟩ := dispatch_frame hkeeps
        (fun event hevent => hdisciplined event (Recorder.dispatchWith_subset henabled hfind hevent))
        hcalled hdispatch
      change ended.stack = under ∨ base.Below ended.stack
      exact hkeeps hlast hstep hlastEvents

/-- By induction on the fuel, since the step may raise an interrupt whose handler steps in turn. -/
theorem step_frame (hbase : under.push saved = .ok base) (fuel : Nat) :
    KeepsFrame σ under base fuel := by
  induction fuel with
  | zero =>
    intro machine left instruction hbelow h hdisciplined
    obtain ⟨raised, after, hnext, hevent, ⟨-, rfl⟩ | ⟨number, -, hraise, -⟩⟩ := Trace.step_eq_ok h
    · exact executeNext_frame hbase hnext (hdisciplined _ hevent) hbelow
    · cases hraise
  | succ fuel ih =>
    intro machine left instruction hbelow h hdisciplined
    obtain ⟨raised, after, hnext, hevent, ⟨-, rfl⟩ | ⟨number, rfl, hraise, hsubset⟩⟩ :=
      Trace.step_eq_ok h
    · exact executeNext_frame hbase hnext (hdisciplined _ hevent) hbelow
    · obtain ⟨next, rfl⟩ := executeNext_raised hnext
      apply interrupt_frame ih (fun event hmem => hdisciplined event (hsubset hmem)) ?_ hraise
      rw [(machine.agree_ready instruction next).stack (by decide)]
      exact hbelow

theorem executeNext_breakpoint {raised : Option UInt8} (hhost : machine.host.LeavesRegisters)
    (h : executeNext machine = .ok (.breakpoint, raised) after) :
    after.registers.depth = machine.registers.depth := by
  rcases executeNext_eq_ok h with ⟨hnop, -⟩ | ⟨operands, next, -, hrun, -⟩
  · cases hnop
  · have hready := machine.agree_ready .breakpoint next
    rw [← hready.host] at hhost
    rw [hhost.runBreakpoint hrun, hready.depth (by decide)]

theorem step_returns (hbase : under.push saved = .ok base) {fuel : Nat} {instruction : Instruction}
    (hhost : machine.host.LeavesRegisters) (hreset : instruction ≠ .reset)
    (hbelow : base.Below machine.stack) (h : step fuel machine = .ok instruction left)
    (hdepth : machine.registers.depth ≠ left.registers.depth)
    (hsize : left.stack.size = under.size) : saved.asWord = .ok left.registers.ip := by
  have hbaseSize := Stack.size_push hbase
  have hbelowSize := hbelow.size_le
  obtain ⟨raised, after, hnext, -, ⟨-, rfl⟩ | ⟨number, rfl, hraise, -⟩⟩ := Trace.step_eq_ok h
  · have hbreakpoint : instruction = .breakpoint →
        left.registers.depth = machine.registers.depth := by
      rintro rfl
      exact executeNext_breakpoint hhost hnext
    rcases executeNext_depth hnext hreset hbreakpoint with
      ⟨rfl, next, hret⟩ | ⟨-, address, next, hcall⟩ | hsame
    · obtain ⟨-, value, stack, address, hpop, hword, rfl⟩ := ret_eq_ok hret
      rw [(machine.agree_ready .ret next).stack (by decide)] at hpop
      have hpopSize := Stack.size_pop hpop
      dsimp only at hsize
      have hwhole : base = machine.stack := hbelow.eq_of_size_le (by omega)
      rw [← hwhole, Stack.pop_of_push hbase] at hpop
      cases hpop
      exact hword
    · obtain ⟨stack, hpush, rfl⟩ := call_eq_ok hcall
      rw [(machine.agree_ready instruction next).stack (by decide)] at hpush
      have hpushSize := Stack.size_push hpush
      dsimp only at hsize
      omega
    · exact absurd hsame.symm hdepth
  · obtain ⟨next, rfl⟩ := executeNext_raised hnext
    have hready := machine.agree_ready instruction next
    rw [← hready.host] at hhost
    cases fuel with
    | zero => cases hraise
    | succ fuel =>
      have hsame := interruptWith_depth hraise fun _ => by rw [hhost.enterInterrupt]; rfl
      rw [hready.depth (by decide)] at hsame
      exact absurd hsame.symm hdepth

end Run

open Run in
/-- An interrupt whose handler keeps to its part of the stack, and leaves as many values on it as it
found, gives the machine back as it was: instruction pointer, call depth, privilege and stack. -/
theorem handler_transparent (fuel : Nat) (number : UInt8) (machine left : Machine σ)
    (henabled : machine.registers.interruptsEnabled = true)
    (hhandler : (machine.handlers.find? number).isSome = true)
    (hhost : machine.host.LeavesRegisters)
    (h : interrupt fuel number machine = .ok () left)
    (hdisciplined : ∀ event ∈ Trace.interrupt fuel number machine,
      event.Disciplined machine.stack.size)
    (hsize : left.stack.size = machine.stack.size) :
    left.registers.ip = machine.registers.ip ∧
    left.registers.depth = machine.registers.depth ∧
    left.registers.privileged = machine.registers.privileged ∧
    left.stack = machine.stack ∧
    left.halted = false := by
  have hentered := machine.agree_enterInterrupt number
  have hregisters := hhost.enterInterrupt number
  rcases interruptWith_eq_ok henabled h with ⟨hnone, -⟩ | ⟨address, ended, hfind, hdispatch, rfl⟩
  · rw [hentered.handlers (by decide)] at hnone
    rw [hnone] at hhandler
    cases hhandler
  · obtain ⟨called, hcalled, -⟩ := dispatchWith_eq_ok hdispatch
    have hbase : machine.stack.push (.ofWord machine.registers.ip) = .ok called.stack := by
      obtain ⟨hpush, -⟩ := callHandler_eq_ok hcalled
      rw [hentered.stack (by decide), hregisters] at hpush
      exact hpush
    have hbelow : ∀ other, callHandler number address (machine.enterInterrupt number) =
        .ok () other → called.stack.Below other.stack := by
      intro other hother
      cases hcalled.symm.trans hother
      exact .refl _
    have hkeeps : KeepsFrame σ machine.stack called.stack fuel := step_frame hbase fuel
    obtain ⟨last, instruction, hlast, hstep, hdepth, hlastHost, hlastEvents⟩ :=
      dispatch_frame hkeeps
        (fun event hevent => hdisciplined event (Recorder.dispatchWith_subset henabled hfind hevent))
        hbelow hdispatch
    have hended := dispatchWith_depth hdispatch
    have hstack : ended.stack = machine.stack := by
      rcases hkeeps hlast hstep hlastEvents with heq | hkept
      · exact heq
      · have hkeptSize := hkept.size_le
        have hcalledSize := Stack.size_push hbase
        change ended.stack.size = machine.stack.size at hsize
        omega
    have hreset : instruction ≠ .reset := by
      obtain ⟨_, _, _, hevent, _⟩ := Trace.step_eq_ok hstep
      exact fun heq => (hlastEvents _ hevent).reset (congrArg Cause.instruction heq)
    have hlastLeaves : last.host.LeavesRegisters := by
      rw [hlastHost, hentered.host]
      exact hhost
    have hip := step_returns hbase hlastLeaves hreset hlast hstep (hended ▸ hdepth)
      (congrArg Stack.size hstack)
    refine ⟨(Except.ok.inj hip).symm, ?_, Machine.leaveInterrupt_privileged _ _, hstack, rfl⟩
    change ended.registers.depth = machine.registers.depth
    rw [hended, hregisters]
    rfl

/-- A machine at address 77 with a value on its stack. Its handler at address 0 pushes a number, calls
the native function `f` with it, pops the result and calls address 29, where interrupt 2 is raised,
with a handler at address 32. -/
def Machine.interrupted : Machine Unit :=
  let code := #[0x1e, 5, 0, 0, 0, 0, 0, 0, 0, 0x29, 33, 0, 0, 0, 0, 0, 0, 0, 0x20, 0x22, 29, 0, 0, 0, 0,
    0, 0, 0, 0x24, 0x05, 2, 0x24, 0x24, 1, 0, 0, 0, 0x66]
  let f : Native Unit := ⟨[.int], some .int, fun args world => (.ok args.head?, world)⟩
  { (Machine.boot {} ⟨⟨code⟩, none⟩ { natives := ⟨[("f", f)]⟩ } ()).moveTo 77 with
    stack := { values := #[.int 7] }
    handlers := ⟨[(1, 0), (2, 32)]⟩ }

open Run in
theorem handler_transparent_interrupted :
    (∀ event ∈ Trace.interrupt 8 1 Machine.interrupted, event.Disciplined 1) ∧
    ∃ left, interrupt 8 1 Machine.interrupted = .ok () left ∧ left.registers.ip = 77 ∧
      left.registers.depth = 0 ∧ left.registers.privileged = false ∧
      left.stack = Machine.interrupted.stack ∧ left.halted = false := by
  have hdisciplined : ∀ event ∈ Trace.interrupt 8 1 Machine.interrupted,
      event.Disciplined 1 := by
    decide +kernel
  have hends : (interrupt 8 1).succeeds Machine.interrupted = true := by
    decide +kernel
  have hsize : ((interrupt 8 1).final Machine.interrupted).stack.size = 1 := by
    decide +kernel
  have hhost : Machine.interrupted.host.LeavesRegisters := by
    refine ⟨?_, ?_⟩
    · intro observer hobserver
      cases hobserver
    · intro hook hhook
      cases hhook
  have hleft := eq_ok_of_succeeds hends
  exact ⟨hdisciplined, _, hleft,
    handler_transparent 8 1 Machine.interrupted _ rfl rfl hhost hleft hdisciplined hsize⟩

end RegisterMachine
