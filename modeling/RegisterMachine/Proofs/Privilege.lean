import RegisterMachine.Proofs.HostCall

/-!
No program makes itself privileged. An interrupt gives privilege to its handler only and takes it
back on every way out, so a machine that runs without privilege is without it after every call of its
host. If no handler was there at the start, no code ever runs with privilege: none is installed, and
no port is used.
-/
namespace RegisterMachine

variable {σ : Type}

/-- The breakpoint hook does not make an unprivileged machine privileged. -/
def Host.LeavesUnprivileged (host : Host σ) : Prop :=
  ∀ hook, host.breakpoint = some hook → ∀ registers world,
    registers.privileged = false → (hook registers world).1.privileged = false

/-- Every callback of the host but those of its ports keeps a property of the host's state. -/
structure Host.KeepsAsideFromPorts (host : Host σ) (untouched : σ → Prop) : Prop where
  observer : ∀ observer, host.observer = some observer → ∀ number registers world,
    untouched world → untouched (observer number registers world).2
  breakpoint : ∀ hook, host.breakpoint = some hook → ∀ registers world,
    untouched world → untouched (hook registers world).2
  natives : ∀ name native, host.natives.find? name = some native → ∀ args world,
    untouched world → untouched (native.call args world).2
  log : ∀ level message world, untouched world → untouched (host.log level message world)

/-- The machine runs without privilege, and neither a reset nor a breakpoint would change that. -/
structure Machine.Confined (machine : Machine σ) : Prop where
  unprivileged : machine.registers.privileged = false
  config : machine.config.startPrivileged = false
  host : machine.host.LeavesUnprivileged

/-- A confined machine without handlers, whose ports have not been used: `untouched` stands for
whatever only they could change. -/
structure Machine.Sealed (untouched : σ → Prop) (machine : Machine σ) : Prop
    extends machine.Confined where
  handlers : ∀ number, machine.handlers.find? number = none
  world : untouched machine.world
  aside : machine.host.KeepsAsideFromPorts untouched

namespace Machine

variable {parts : List Part} {before after : Machine σ}

theorem AgreeExcept.privileged (h : before.AgreeExcept parts after) (hn : .control ∉ parts) :
    after.registers.privileged = before.registers.privileged :=
  congrFun (Registers.flag_congr (h.control hn)) .privileged

theorem Confined.agree (hbefore : before.Confined) (h : before.AgreeExcept parts after)
    (hafter : after.registers.privileged = false) : after.Confined where
  unprivileged := hafter
  config := by rw [h.config]; exact hbefore.config
  host := by rw [h.host]; exact hbefore.host

end Machine

namespace Run

theorem Writes.keepsUnprivileged {α : Type} {run : Run σ α} {parts : List Part}
    (h : run.Writes parts) (hn : .control ∉ parts) :
    run.Keeps fun machine => machine.registers.privileged = false := by
  intro machine hmachine
  rw [(h machine).privileged hn]
  exact hmachine

theorem getRegister_keepsUnprivileged (index : UInt8) :
    (getRegister index : Run σ Int64).Keeps fun machine => machine.registers.privileged = false :=
  Writes.keepsUnprivileged (writes_getRegister index) List.not_mem_nil

theorem compare_keepsUnprivileged (a b : Int64) :
    (compare a b : Run σ Unit).Keeps fun machine => machine.registers.privileged = false := by
  intro machine h
  change (machine.registers.compare a b).flag .privileged = false
  rw [Registers.flag_compare]
  exact h

theorem privileged_setFlag {machine : Machine σ} (h : machine.registers.privileged = false)
    {flag : Flag} {value : Bool} (hflag : flag = .privileged → value = false) :
    ((setFlag flag value).final machine).registers.privileged = false := by
  change (machine.registers.setFlag flag value).flag .privileged = false
  rw [Registers.flag_setFlag]
  split
  · rename_i hsame
    exact hflag hsame.symm
  · exact h

theorem privileged_breakpoint {machine : Machine σ} (h : machine.Confined) :
    ((breakpoint).final machine).registers.privileged = false := by
  unfold final breakpoint
  rw [bind_apply, get_apply]
  dsimp only
  cases hhook : machine.host.breakpoint with
  | none => exact h.unprivileged
  | some hook => exact h.host hook hhook machine.registers machine.world h.unprivileged

theorem bootRegisters_privileged (config : Config) :
    (Machine.bootRegisters config).privileged = config.startPrivileged := by
  unfold Machine.bootRegisters Registers.privileged
  rw [Registers.flag_setFlag, if_pos rfl]

end Run

open Run in
theorem Operation.confined_run {machine : Machine σ} (h : machine.Confined)
    (instruction : Instruction)
    (operands : Operands (ofInstruction instruction : Operation σ).kinds) :
    (((ofInstruction instruction).run operands).final machine).Confined := by
  have hfoot := writes_run instruction operands machine
  apply h.agree hfoot
  cases instruction with
  | reset => exact (bootRegisters_privileged machine.config).trans h.config
  | breakpoint => exact privileged_breakpoint h
  | disableInterrupts => exact privileged_setFlag h.unprivileged (by simp)
  | enableInterrupts => exact privileged_setFlag h.unprivileged (by simp)
  | dropPrivilege => exact privileged_setFlag h.unprivileged (by simp)
  | compareRegisters =>
    exact ((getRegister_keepsUnprivileged _).bind fun _ => (getRegister_keepsUnprivileged _).bind
      fun _ => compare_keepsUnprivileged _ _) machine h.unprivileged
  | compareWord =>
    exact ((getRegister_keepsUnprivileged _).bind fun _ => compare_keepsUnprivileged _ _)
      machine h.unprivileged
  | _ =>
    rw [hfoot.privileged (by decide)]
    exact h.unprivileged

namespace Run

variable {untouched : σ → Prop}

theorem Writes.keepsUntouched {α : Type} {run : Run σ α} {parts : List Part}
    (h : run.Writes parts) (hn : .world ∉ parts) :
    run.Keeps fun machine =>
      machine.host.KeepsAsideFromPorts untouched ∧ untouched machine.world := by
  intro machine hmachine
  rw [(h machine).host, (h machine).world hn]
  exact hmachine

theorem log_keepsUntouched (level : Level) (message : String) :
    (log level message : Run σ Unit).Keeps fun machine =>
      machine.host.KeepsAsideFromPorts untouched ∧ untouched machine.world :=
  fun machine h => ⟨h.1, h.1.log level message machine.world h.2⟩

theorem breakpoint_keepsUntouched :
    (breakpoint : Run σ Unit).Keeps fun machine =>
      machine.host.KeepsAsideFromPorts untouched ∧ untouched machine.world := by
  intro machine h
  unfold final breakpoint
  rw [bind_apply, get_apply]
  dsimp only
  cases hhook : machine.host.breakpoint with
  | none => exact log_keepsUntouched _ _ machine h
  | some hook => exact ⟨h.1, h.1.breakpoint hook hhook machine.registers machine.world h.2⟩

theorem invoke_keepsUntouched (name : String) (args : List Value) :
    (invoke name args : Run σ (Option Value)).Keeps fun machine =>
      machine.host.KeepsAsideFromPorts untouched ∧ untouched machine.world := by
  intro machine h
  have hworld : untouched (machine.host.natives.invoke name args machine.world).2 := by
    unfold Natives.invoke
    cases hnative : machine.host.natives.find? name with
    | none => exact h.2
    | some native => exact h.1.natives name native hnative args machine.world h.2
  unfold final invoke
  simp only [bind_apply, get_apply, set_apply]
  cases (machine.host.natives.invoke name args machine.world).1 with
  | ok value => exact ⟨h.1, hworld⟩
  | error cause => exact ⟨h.1, hworld⟩

theorem callNative_keepsUntouched (address : UInt64) :
    (callNative address : Run σ Unit).Keeps fun machine =>
      machine.host.KeepsAsideFromPorts untouched ∧ untouched machine.world := by
  have hread : (readText address : Run σ String).Writes [] := writes_readText address
  have hpop : ∀ kinds, (popArguments kinds : Run σ (List Value)).Writes [.stack] :=
    fun kinds => writes_popArguments kinds (by decide)
  have hpush : ∀ value, (push value : Run σ Unit).Writes [.stack] :=
    fun value => writes_push value (by decide)
  unfold callNative
  refine Keeps.bind (hread.keepsUntouched (by decide)) fun name => ?_
  refine Keeps.bind keeps_get fun machine => ?_
  cases machine.host.natives.find? name with
  | none => exact keeps_fail _
  | some native =>
    refine keeps_ite (keeps_fail _) ?_
    refine Keeps.bind ((hpop _).keepsUntouched (by decide)) fun args => ?_
    refine Keeps.bind (invoke_keepsUntouched name args) fun result => ?_
    cases result with
    | none => exact keeps_pure _
    | some value => exact (hpush value).keepsUntouched (by decide)

end Run

open Run in
theorem Operation.sealed_run {untouched : σ → Prop} {machine : Machine σ}
    (h : machine.Sealed untouched) {instruction : Instruction}
    (hallowed : instruction.privileged = true → machine.registers.privileged = true)
    (operands : Operands (ofInstruction instruction : Operation σ).kinds) :
    (((ofInstruction instruction).run operands).final machine).Sealed untouched := by
  have hplain : instruction.privileged ≠ true := by
    intro hprivileged
    rw [h.unprivileged] at hallowed
    cases hallowed hprivileged
  have hfoot := writes_run instruction operands machine
  refine ⟨confined_run h.toConfined instruction operands, ?_, ?_, ?_⟩
  · cases instruction with
    | setHandler => exact absurd rfl hplain
    | reset => exact fun _ => rfl
    | _ =>
      rw [hfoot.handlers (by decide)]
      exact h.handlers
  · cases instruction with
    | outWord | outRegister | input => exact absurd rfl hplain
    | breakpoint => exact (breakpoint_keepsUntouched machine ⟨h.aside, h.world⟩).2
    | printPrivilege => exact (log_keepsUntouched _ _ machine ⟨h.aside, h.world⟩).2
    | callNative => exact (callNative_keepsUntouched _ machine ⟨h.aside, h.world⟩).2
    | _ =>
      rw [hfoot.world (by decide)]
      exact h.world
  · rw [hfoot.host]
    exact h.aside

namespace Machine

variable {untouched : σ → Prop}

theorem Confined.ready {machine : Machine σ} (h : machine.Confined) (instruction : Instruction)
    (next : UInt64) : (machine.ready instruction next).Confined := by
  have hready := machine.agree_ready instruction next
  apply h.agree hready
  rw [hready.privileged (by decide)]
  exact h.unprivileged

theorem Sealed.ready {machine : Machine σ} (h : machine.Sealed untouched)
    (instruction : Instruction) (next : UInt64) :
    (machine.ready instruction next).Sealed untouched := by
  have hready := machine.agree_ready instruction next
  refine ⟨h.toConfined.ready instruction next, ?_, ?_, ?_⟩
  · rw [hready.handlers (by decide)]
    exact h.handlers
  · unfold Machine.ready Machine.traced
    split
    · exact h.aside.log _ _ machine.world h.world
    · exact h.world
  · rw [hready.host]
    exact h.aside

theorem untouched_enterInterrupt {machine : Machine σ}
    (haside : machine.host.KeepsAsideFromPorts untouched) (h : untouched machine.world)
    (number : UInt8) : untouched (machine.enterInterrupt number).world := by
  unfold enterInterrupt
  cases hobserver : machine.host.observer with
  | none => exact h
  | some observer => exact haside.observer observer hobserver number _ machine.world h

theorem Confined.interrupt {machine : Machine σ} (h : machine.Confined) (fuel : Nat)
    (number : UInt8) : ((Run.interrupt fuel number).final machine).Confined := by
  apply h.agree (Run.writes_interrupt fuel number machine)
  exact (Run.privileged_interruptWith (Run.step fuel) fuel number machine).trans h.unprivileged

theorem Sealed.interrupt {machine : Machine σ} (h : machine.Sealed untouched) (fuel : Nat)
    (number : UInt8) : ((Run.interrupt fuel number).final machine).Sealed untouched := by
  cases henabled : machine.registers.interruptsEnabled with
  | false =>
    unfold Run.interrupt
    rw [Run.final_of_ok (Run.interruptWith_disabled _ fuel number henabled)]
    exact h
  | true =>
    have henter := machine.agree_enterInterrupt number
    have hhandlers : ∀ other, (machine.enterInterrupt number).handlers.find? other = none := by
      rw [henter.handlers (by decide)]
      exact h.handlers
    have hleft : (Run.interrupt fuel number).final machine =
        (machine.enterInterrupt number).leaveInterrupt machine.registers.privileged := by
      unfold Run.interrupt
      rw [Run.final_interruptWith _ fuel number henabled, hhandlers number]
    refine ⟨h.toConfined.interrupt fuel number, ?_, ?_, ?_⟩
    · rw [hleft]
      exact hhandlers
    · rw [hleft]
      exact untouched_enterInterrupt h.aside h.world number
    · rw [(Run.writes_interrupt fuel number machine).host]
      exact h.aside

theorem Confined.reset {machine : Machine σ} (h : machine.Confined) : machine.reset.Confined where
  unprivileged := (Run.bootRegisters_privileged machine.config).trans h.config
  config := h.config
  host := h.host

theorem Sealed.reset {machine : Machine σ} (h : machine.Sealed untouched) :
    machine.reset.Sealed untouched where
  toConfined := h.toConfined.reset
  handlers _ := rfl
  world := h.world
  aside := h.aside

theorem executeNext_keepsConfined :
    (Run.executeNext : Run σ (Instruction × Option UInt8)).Keeps Confined := by
  intro machine h
  rcases Run.final_executeNext machine with hsame | ⟨instruction, next, -, hready | ⟨operands, hrun⟩⟩
  · rw [hsame]
    exact h
  · rw [hready]
    exact h.ready instruction next
  · rw [hrun]
    exact Operation.confined_run (h.ready instruction next) instruction operands

theorem executeNext_keepsSealed :
    (Run.executeNext : Run σ (Instruction × Option UInt8)).Keeps (Sealed untouched) := by
  intro machine h
  rcases Run.final_executeNext machine with
    hsame | ⟨instruction, next, hallowed, hready | ⟨operands, hrun⟩⟩
  · rw [hsame]
    exact h
  · rw [hready]
    exact h.ready instruction next
  · rw [hrun]
    apply Operation.sealed_run (h.ready instruction next)
    rw [(machine.agree_ready instruction next).privileged (by decide)]
    exact hallowed

theorem Confined.after {machine : Machine σ} (h : machine.Confined) (calls : List HostCall) :
    (machine.after calls).Confined :=
  after_keeps executeNext_keepsConfined (fun fuel number _ h => h.interrupt fuel number)
    (fun _ h => h.reset) calls h

theorem Sealed.after {machine : Machine σ} (h : machine.Sealed untouched)
    (calls : List HostCall) : (machine.after calls).Sealed untouched :=
  after_keeps executeNext_keepsSealed (fun fuel number _ h => h.interrupt fuel number)
    (fun _ h => h.reset) calls h

end Machine

/-- After every sequence of calls of its host, also calls that stop, a machine that was started
without privilege is without it. If it had no handlers at the start it has none, and whatever only
its ports could have changed is unchanged: no port was ever used. -/
theorem never_privileged (machine : Machine σ)
    (hconfig : machine.config.startPrivileged = false)
    (hstart : machine.registers.privileged = false)
    (hhook : machine.host.LeavesUnprivileged) (calls : List HostCall) :
    (machine.after calls).registers.privileged = false ∧
    ((∀ number, machine.handlers.find? number = none) →
      (∀ number, (machine.after calls).handlers.find? number = none) ∧
      ∀ untouched : σ → Prop, machine.host.KeepsAsideFromPorts untouched →
        untouched machine.world → untouched (machine.after calls).world) := by
  have hconfined : machine.Confined := ⟨hstart, hconfig, hhook⟩
  refine ⟨(hconfined.after calls).unprivileged, fun hhandlers => ⟨?_, ?_⟩⟩
  · have hsealed : machine.Sealed fun _ => True :=
      ⟨hconfined, hhandlers, trivial, ⟨by simp, by simp, by simp, by simp⟩⟩
    exact (hsealed.after calls).handlers
  · intro untouched haside hworld
    have hsealed : machine.Sealed untouched := ⟨hconfined, hhandlers, hworld, haside⟩
    exact (hsealed.after calls).world

/-- A machine that raises an interrupt and then writes to a port, whose host counts the uses of the
port and whose observer sets every flag. -/
def Machine.portCounting : Machine Nat :=
  Machine.boot {} ⟨⟨#[0x05, 7, 0x1b, 1, 0, 0, 0, 0, 0, 0, 0, 9, 0, 0, 0, 0, 0, 0, 0]⟩, none⟩
    { ports := ⟨[(1, ⟨fun count => (0, count + 1), fun _ count => count + 1⟩)]⟩
      observer := some fun _ registers count => ({ registers with control := 31 }, count) } 0

theorem never_privileged_portCounting :
    (Machine.portCounting.after [.runFor 5 10, .interrupt 5 7, .step 5]).registers.privileged =
      false ∧
    (Machine.portCounting.after [.runFor 5 10, .interrupt 5 7, .step 5]).world = 0 := by
  have haside : Machine.portCounting.host.KeepsAsideFromPorts fun count => count = 0 := by
    refine ⟨?_, ?_, ?_, ?_⟩
    · intro observer hobserver number registers world h
      cases hobserver
      exact h
    · intro hook hhook
      cases hhook
    · intro name native hnative
      cases hnative
    · exact fun _ _ _ h => h
  have hhook : Machine.portCounting.host.LeavesUnprivileged := by
    intro hook hhook
    cases hhook
  have h := never_privileged Machine.portCounting rfl rfl hhook
    [.runFor 5 10, .interrupt 5 7, .step 5]
  exact ⟨h.1, (h.2 fun _ => rfl).2 (fun count => count = 0) haside rfl⟩

end RegisterMachine
