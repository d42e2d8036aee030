import RegisterMachine.Proofs.Decoding
import RegisterMachine.Proofs.History

/-!
What the condition flags tell. They share the control word with the flags that interrupts and other
instructions change at any time, but only a comparison and a reset change them. So wherever a
machine is in its run, they hold the outcome of the last comparison since the last reset, and the
conditional jumps go by the order of the numbers that were compared.
-/
namespace RegisterMachine

variable {σ : Type}

structure Host.LeavesControl (host : Host σ) : Prop where
  observer : ∀ observer, host.observer = some observer → ∀ number registers world,
    (observer number registers world).1.control = registers.control
  breakpoint : ∀ hook, host.breakpoint = some hook → ∀ registers world,
    (hook registers world).1.control = registers.control

def Flag.conditions : List Flag := [.equal, .lesser, .greater]

def Flag.tells (a b : Int64) : Flag → Bool
  | .equal => a = b
  | .lesser => a < b
  | .greater => b < a
  | _ => false

def Instruction.condition? : Instruction → Option (Int64 → Int64 → Bool)
  | .jumpEqual => some fun a b => a = b
  | .jumpNotEqual => some fun a b => a ≠ b
  | .jumpLessEqual => some fun a b => a ≤ b
  | .jumpGreaterEqual => some fun a b => a ≥ b
  | .jumpLess => some fun a b => a < b
  | .jumpGreater => some fun a b => a > b
  | _ => none

def Machine.comparands? (machine : Machine σ) (instruction : Instruction) :
    Option (Int64 × Int64) :=
  let opened := machine.ready instruction (machine.registers.ip + 1)
  match instruction with
  | .compareRegisters =>
    Run.value? (do
      let (a, b, ()) ← Run.fetchOperands [.register, .register]
      return (← Run.getRegister a, ← Run.getRegister b)) opened
  | .compareWord =>
    Run.value? (do
      let (a, word, ()) ← Run.fetchOperands [.register, .word]
      return (← Run.getRegister a, word)) opened
  | _ => none

/-- The last comparison after a moment, from the last one before it. -/
def Moment.compared (known : Option (Int64 × Int64)) (moment : Moment σ) :
    Option (Int64 × Int64) :=
  match moment.act with
  | .reset | .executed .reset => none
  | .executed .compareRegisters => moment.before.comparands? .compareRegisters
  | .executed .compareWord => moment.before.comparands? .compareWord
  | _ => known

def lastCompared (moments : List (Moment σ)) : Option (Int64 × Int64) :=
  moments.foldl Moment.compared none

/-- What the machine tells of its last comparison: by its flags, and by what the conditional jumps
do if they are its next instruction. -/
structure Machine.Tells (machine : Machine σ) (compared : Option (Int64 × Int64)) : Prop where
  /-- No bit of the control word above those of the flags is set. -/
  unused : machine.registers.control.toNat < 32
  clear : compared = none → ∀ flag ∈ Flag.conditions, machine.registers.flag flag = false
  one : ∀ a b, compared = some (a, b) → Flag.conditions.countP machine.registers.flag = 1
  jumps : ∀ a b, compared = some (a, b) → ∀ instruction condition operand,
    instruction.condition? = some condition → machine.Faces instruction operand → ∀ fuel,
      Run.step fuel machine = .ok instruction (machine.ready instruction
        (if condition a b then .ofNat operand else machine.registers.ip + 9))

namespace Registers

/-- The condition flags are those of the comparison, or clear if there was none. -/
structure Records (registers : Registers) (compared : Option (Int64 × Int64)) : Prop where
  unused : registers.control.toNat < 32
  flags : ∀ flag ∈ Flag.conditions,
    registers.flag flag = compared.any fun (a, b) => flag.tells a b

variable {registers other : Registers} {compared : Option (Int64 × Int64)}

theorem control_setFlag_lt (h : registers.control.toNat < 32) (flag : Flag) (value : Bool) :
    (registers.setFlag flag value).control.toNat < 32 := by
  have hmask : (mask flag.bit).toNat < 32 := by cases flag <;> decide
  unfold setFlag putBit
  cases value with
  | true =>
    simp only [if_true, UInt64.toNat_or]
    exact Nat.or_lt_two_pow (n := 5) h hmask
  | false =>
    simp only [Bool.false_eq_true, if_false, UInt64.toNat_and]
    exact Nat.lt_of_le_of_lt Nat.and_le_left h

namespace Records

theorem congr (h : registers.Records compared) (hcontrol : other.control = registers.control) :
    other.Records compared where
  unused := by
    rw [hcontrol]
    exact h.unused
  flags := by
    rw [flag_congr hcontrol]
    exact h.flags

theorem setFlag (h : registers.Records compared) {flag : Flag} (hflag : flag ∉ Flag.conditions)
    (value : Bool) : (registers.setFlag flag value).Records compared where
  unused := control_setFlag_lt h.unused flag value
  flags := by
    intro condition hcondition
    have hother : condition ≠ flag := fun heq => hflag (heq ▸ hcondition)
    rw [flag_setFlag, if_neg hother]
    exact h.flags condition hcondition

theorem compare (h : registers.Records compared) (a b : Int64) :
    (registers.compare a b).Records (some (a, b)) where
  unused := by
    unfold Registers.compare
    exact control_setFlag_lt (control_setFlag_lt (control_setFlag_lt h.unused _ _) _ _) _ _
  flags := by
    intro flag hflag
    rw [flag_compare]
    cases flag with
    | equal | lesser | greater => rfl
    | privileged | interruptsEnabled => exact absurd hflag (by decide)

theorem boot (config : Config) : (Machine.bootRegisters config).Records none := by
  have hzero : (ofCount config.registers).Records none := by
    refine ⟨Nat.zero_lt_succ 31, ?_⟩
    intro flag _
    simp [Registers.flag, hasBit, ofCount]
  exact (hzero.setFlag (by decide) true).setFlag (by decide) config.startPrivileged

theorem equal {a b : Int64} (h : registers.Records (some (a, b))) :
    registers.flag .equal = decide (a = b) := h.flags .equal (by decide)

theorem lesser {a b : Int64} (h : registers.Records (some (a, b))) :
    registers.flag .lesser = decide (a < b) := h.flags .lesser (by decide)

theorem greater {a b : Int64} (h : registers.Records (some (a, b))) :
    registers.flag .greater = decide (b < a) := h.flags .greater (by decide)

theorem countP_conditions {a b : Int64} (h : registers.Records (some (a, b))) :
    Flag.conditions.countP registers.flag = 1 := by
  simp only [Flag.conditions, List.countP_cons, List.countP_nil, h.equal, h.lesser, h.greater]
  by_cases heq : a = b
  · subst heq
    simp [Int64.lt_irrefl]
  · rcases Int64.lt_or_lt_of_ne heq with hless | hmore
    · simp [heq, hless, Int64.lt_asymm hless]
    · simp [heq, hmore, Int64.lt_asymm hmore]

theorem jumps_eq {a b : Int64} (h : registers.Records (some (a, b))) {instruction : Instruction}
    {condition : Int64 → Int64 → Bool} (hcondition : instruction.condition? = some condition) :
    instruction.jumps registers.flag = condition a b := by
  cases instruction with
  | jumpEqual | jumpNotEqual | jumpLess | jumpGreater =>
    cases hcondition
    simp [Instruction.jumps, h.equal, h.lesser, h.greater]
  | jumpLessEqual =>
    cases hcondition
    simp [Instruction.jumps, h.equal, h.lesser, Int64.le_iff_lt_or_eq]
  | jumpGreaterEqual =>
    cases hcondition
    simp [Instruction.jumps, h.equal, h.greater, Int64.le_iff_lt_or_eq, eq_comm]
  | _ => cases hcondition

end Records

end Registers

namespace Run

variable {machine after left : Machine σ}

theorem step_conditional {instruction : Instruction} {condition : Int64 → Int64 → Bool}
    {operand : Nat} (hcondition : instruction.condition? = some condition)
    (h : machine.Faces instruction operand) (fuel : Nat) :
    step fuel machine = .ok instruction (machine.ready instruction
      (if instruction.jumps machine.registers.flag then .ofNat operand
        else machine.registers.ip + 9)) := by
  have hready := machine.agree_ready instruction (machine.registers.ip + 9)
  have hflag := Registers.flag_congr (hready.control (by decide))
  have hgoes {taken : Bool} (htaken : taken = instruction.jumps machine.registers.flag) :
      (if taken then (machine.ready instruction (machine.registers.ip + 9)).moveTo (.ofNat operand)
        else machine.ready instruction (machine.registers.ip + 9)) =
      machine.ready instruction (if instruction.jumps machine.registers.flag then .ofNat operand
        else machine.registers.ip + 9) := by
    rw [← htaken]
    cases taken <;> rfl
  cases instruction with
  | jumpEqual | jumpLessEqual | jumpGreaterEqual | jumpLess | jumpGreater =>
    rw [step_of_faces h rfl rfl]
    dsimp only
    rw [bind_apply, jumpIfAny_apply, hflag, UInt64.toUInt64_toInt64,
      hgoes (by simp [Instruction.jumps])]
    rfl
  | jumpNotEqual =>
    rw [step_of_faces h rfl rfl]
    dsimp only
    rw [bind_apply, jumpNotEqual_apply, hflag, UInt64.toUInt64_toInt64, hgoes (by rfl)]
    rfl
  | _ => cases hcondition

theorem control_breakpoint (h : machine.host.LeavesControl) :
    (breakpoint.final machine).registers.control = machine.registers.control := by
  unfold final breakpoint
  rw [bind_apply, get_apply]
  dsimp only
  cases hhook : machine.host.breakpoint with
  | none => rfl
  | some hook => exact h.breakpoint hook hhook machine.registers machine.world

theorem compareRegisters_apply (a b : UInt8) (machine : Machine σ) :
    compareRegisters a b machine =
      match machine.registers.get a.toNat, machine.registers.get b.toNat with
      | .ok x, .ok y => .ok () { machine with registers := machine.registers.compare x y }
      | .error cause, _ => .error (.fault cause) machine
      | .ok _, .error cause => .error (.fault cause) machine := by
  unfold compareRegisters getRegister
  simp only [bind_apply, get_apply]
  cases machine.registers.get a.toNat with
  | error cause => rfl
  | ok x =>
    simp only [ofExcept_ok, pure_apply]
    cases machine.registers.get b.toNat <;> rfl

theorem compareWord_apply (a : UInt8) (word : Int64) (machine : Machine σ) :
    compareWord a word machine = match machine.registers.get a.toNat with
      | .ok x => .ok () { machine with registers := machine.registers.compare x word }
      | .error cause => .error (.fault cause) machine := by
  unfold compareWord getRegister
  simp only [bind_apply, get_apply]
  cases machine.registers.get a.toNat <;> rfl

theorem comparands?_compareRegisters {a b : UInt8} {x y : Int64} {next : UInt64}
    (hfetch : fetchOperands [.register, .register]
        (machine.ready .compareRegisters (machine.registers.ip + 1)) =
      .ok (a, b, ()) (machine.ready .compareRegisters next))
    (ha : (machine.ready .compareRegisters next).registers.get a.toNat = .ok x)
    (hb : (machine.ready .compareRegisters next).registers.get b.toNat = .ok y) :
    machine.comparands? .compareRegisters = some (x, y) := by
  unfold Machine.comparands? value? getRegister
  simp [bind_apply, hfetch, ha, hb]

theorem comparands?_compareWord {a : UInt8} {x word : Int64} {next : UInt64}
    (hfetch : fetchOperands [.register, .word]
        (machine.ready .compareWord (machine.registers.ip + 1)) =
      .ok (a, word, ()) (machine.ready .compareWord next))
    (ha : (machine.ready .compareWord next).registers.get a.toNat = .ok x) :
    machine.comparands? .compareWord = some (x, word) := by
  unfold Machine.comparands? value? getRegister
  simp [bind_apply, hfetch, ha]

end Run

theorem Registers.Records.tells {machine : Machine σ} {compared : Option (Int64 × Int64)}
    (h : machine.registers.Records compared) : machine.Tells compared where
  unused := h.unused
  clear := by
    rintro rfl
    exact h.flags
  one := by
    rintro a b rfl
    exact h.countP_conditions
  jumps := by
    rintro a b rfl instruction condition operand hcondition hfaces fuel
    rw [Run.step_conditional hcondition hfaces, h.jumps_eq hcondition]

open Run in
theorem Operation.records_run {instruction : Instruction}
    (hplain : instruction ∉ [.reset, .compareRegisters, .compareWord])
    (operands : Operands (ofInstruction instruction : Operation σ).kinds) {machine : Machine σ}
    (hhost : machine.host.LeavesControl) {known : Option (Int64 × Int64)}
    (h : machine.registers.Records known) :
    (((ofInstruction instruction).run operands).final machine).registers.Records known := by
  have hfoot := writes_run instruction operands machine
  cases instruction with
  | reset | compareRegisters | compareWord => exact absurd (by decide) hplain
  | breakpoint => exact h.congr (control_breakpoint hhost)
  | disableInterrupts | enableInterrupts | dropPrivilege => exact h.setFlag (by decide) _
  | _ => exact h.congr (hfoot.control (by decide))

open Run in
theorem Operation.records_stopped {instruction : Instruction}
    {operands : Operands (ofInstruction instruction : Operation σ).kinds}
    {machine left : Machine σ} {stop : Stop}
    (hrun : (ofInstruction instruction).run operands machine = .error stop left)
    (hhost : machine.host.LeavesControl) {known : Option (Int64 × Int64)}
    (h : machine.registers.Records known) : left.registers.Records known := by
  cases instruction with
  | reset => cases hrun
  | compareRegisters =>
    replace hrun := (compareRegisters_apply operands.1 operands.2.1 machine).symm.trans hrun
    split at hrun
    · cases hrun
    · cases hrun
      exact h
    · cases hrun
      exact h
  | compareWord =>
    replace hrun := (compareWord_apply operands.1 operands.2.1 machine).symm.trans hrun
    split at hrun
    · cases hrun
    · cases hrun
      exact h
  | _ =>
    rw [← final_of_error hrun]
    exact records_run (by decide) operands hhost h

namespace Run

variable {machine after left : Machine σ} {known : Option (Int64 × Int64)}

theorem records_executed {instruction : Instruction} {raised : Option UInt8}
    (h : executeNext machine = .ok (instruction, raised) after)
    (hhost : machine.host.LeavesControl) (hrecords : machine.registers.Records known) :
    after.registers.Records (Moment.compared known ⟨.executed instruction, machine, after⟩) := by
  rcases executeNext_eq_ok h with ⟨rfl, -, rfl⟩ | ⟨operands, next, hfetch, hrun, -⟩
  · exact hrecords
  have hready := machine.agree_ready instruction next
  have hstart := hrecords.congr (hready.control (by decide))
  cases instruction with
  | reset =>
    cases hrun
    exact .boot _
  | compareRegisters =>
    obtain ⟨a, b, ⟨⟩⟩ := operands
    replace hrun := (compareRegisters_apply a b _).symm.trans hrun
    split at hrun
    · rename_i x y ha hb
      cases hrun
      change Registers.Records _ (machine.comparands? .compareRegisters)
      rw [comparands?_compareRegisters hfetch ha hb]
      exact hstart.compare x y
    · cases hrun
    · cases hrun
  | compareWord =>
    obtain ⟨a, word, ⟨⟩⟩ := operands
    replace hrun := (compareWord_apply a word _).symm.trans hrun
    split at hrun
    · rename_i x ha
      cases hrun
      change Registers.Records _ (machine.comparands? .compareWord)
      rw [comparands?_compareWord hfetch ha]
      exact hstart.compare x word
    · cases hrun
  | _ =>
    have hplain := Operation.records_run (by decide) operands (hready.host ▸ hhost) hstart
    rw [final_of_ok hrun] at hplain
    exact hplain

theorem records_stopped {stop : Stop} (h : executeNext machine = .error stop left)
    (hhost : machine.host.LeavesControl) (hrecords : machine.registers.Records known) :
    left.registers.Records known := by
  rcases executeNext_eq_error h with rfl | ⟨instruction, next, hready⟩
  · exact hrecords
  have hagree := machine.agree_ready instruction next
  have hstart := hrecords.congr (hagree.control (by decide))
  rcases hready with rfl | ⟨operands, hrun⟩
  · exact hstart
  · exact Operation.records_stopped hrun (hagree.host ▸ hhost) hstart

end Run

/-- Every act of a machine keeps the record: with the flags it shares a word with, whatever they are
set to, on every way into an interrupt and out of it. -/
theorem Moment.Lawful.records {moment : Moment σ} {known : Option (Int64 × Int64)}
    (h : moment.Lawful)
    (hbefore : moment.before.host.LeavesControl ∧ moment.before.registers.Records known) :
    moment.after.host.LeavesControl ∧
      moment.after.registers.Records (moment.compared known) := by
  obtain ⟨hhost, hrecords⟩ := hbefore
  cases h with
  | executed hnext =>
    refine ⟨?_, Run.records_executed hnext hhost hrecords⟩
    rw [← Run.final_of_ok hnext, (Run.writes_executeNext _).host]
    exact hhost
  | stopped hnext =>
    refine ⟨?_, Run.records_stopped hnext hhost hrecords⟩
    rw [← Run.final_of_error hnext, (Run.writes_executeNext _).host]
    exact hhost
  | entered before number =>
    refine ⟨(before.agree_enterInterrupt number).host ▸ hhost, ?_⟩
    have hprivileged := hrecords.setFlag (show .privileged ∉ Flag.conditions by decide) true
    change (before.enterInterrupt number).registers.Records known
    unfold Machine.enterInterrupt
    cases hobserver : before.host.observer with
    | none => exact hprivileged
    | some observer => exact hprivileged.congr (hhost.observer observer hobserver _ _ _)
  | @called before after number address hcall =>
    have hcalled := Run.writes_callHandler number address before
    rw [Run.final_of_ok hcall] at hcalled
    exact ⟨hcalled.host ▸ hhost, hrecords.congr (hcalled.control (by decide))⟩
  | @refused before after number address stop hcall =>
    have hcalled := Run.writes_callHandler number address before
    rw [Run.final_of_error hcall] at hcalled
    exact ⟨hcalled.host ▸ hhost, hrecords.congr (hcalled.control (by decide))⟩
  | left before privileged => exact ⟨hhost, hrecords.setFlag (by decide) privileged⟩
  | reset before => exact ⟨hhost, .boot before.config⟩

/-- The acts of a run follow each other without a gap, also those inside of interrupts and after calls
of the host that stop. Before each of them, after it and at the end, the machine tells of the last
comparison since the last reset. -/
theorem flags_tell_last_comparison (config : Config) (memory : Memory σ) (host : Host σ) (world : σ)
    (hhost : host.LeavesControl) (calls : List HostCall) :
    let machine := Machine.boot config memory host world
    let moments := machine.chronicle calls
    Linked machine moments (machine.after calls) ∧
    (machine.after calls).Tells (lastCompared moments) ∧
    ∀ earlier moment later, moments = earlier ++ moment :: later →
      moment.before.Tells (lastCompared earlier) ∧
      moment.after.Tells (lastCompared (earlier ++ [moment])) := by
  intro machine moments
  have hlinked : Linked machine moments (machine.after calls) := .chronicle machine calls
  obtain ⟨hafter, hall⟩ := hlinked.follows
    (fun known machine => machine.host.LeavesControl ∧ machine.registers.Records known)
    (fun _ _ hmoment => hmoment.records) ⟨hhost, .boot config⟩
  refine ⟨hlinked, hafter.2.tells, ?_⟩
  intro earlier moment later hmoments
  obtain ⟨hbefore, hnext⟩ := hall earlier moment later hmoments
  exact ⟨hbefore.2.tells, hnext.2.tells⟩

/-- A machine that sets a handler for interrupt 1 and raises it. The handler compares register 0
with 5, and a jump to 40 if that is less comes after the interrupt. -/
def Machine.ordering : Machine Unit :=
  Machine.boot { startPrivileged := true }
    ⟨⟨#[0x06, 1, 21, 0, 0, 0, 0, 0, 0, 0, 0x05, 1, 0x11, 40, 0, 0, 0, 0, 0, 0, 0,
      0x0a, 0, 5, 0, 0, 0, 0, 0, 0, 0, 0x24]⟩, none⟩ {} ()

theorem Machine.faces_ordering : (Machine.ordering.after [.runFor 5 2]).Faces .jumpLess 40 := by
  have hagree := ((Preserved.agree ordering).history [.runFor 5 2] (.refl ordering)).1
  have hip : (ordering.after [.runFor 5 2]).registers.ip = 12 := by decide +kernel
  refine ⟨by decide +kernel, ?_, ?_⟩
  · rw [hagree.memory, hip]
    rfl
  · rw [hagree.memory, hip]
    rfl

theorem flags_tell_last_comparison_ordering :
    ∃ left, Run.step 0 (Machine.ordering.after [.runFor 5 2]) = .ok .jumpLess left ∧
      left.registers.ip = 40 := by
  have hhost : Machine.ordering.host.LeavesControl := by
    refine ⟨?_, ?_⟩
    · intro observer hobserver
      cases hobserver
    · intro hook hhook
      cases hhook
  have hlast : lastCompared (Machine.ordering.chronicle [.runFor 5 2]) = some (0, 5) := by
    decide +kernel
  obtain ⟨-, htells, -⟩ := flags_tell_last_comparison { startPrivileged := true }
    Machine.ordering.memory {} () hhost [.runFor 5 2]
  exact ⟨_, htells.jumps 0 5 hlast .jumpLess _ 40 rfl Machine.faces_ordering 0, rfl⟩

end RegisterMachine
