import RegisterMachine.Proofs.History
import RegisterMachine.Proofs.StackEffect

/-!
What a machine keeps for life. Its stack stays within the limit that it was built with, its register
file keeps its size, and memory, settings and host are those that it was built from: no instruction
writes memory, and none adds or removes a port or a function of the host.
-/
namespace RegisterMachine

variable {σ : Type}

structure Stack.Obeys (limit : Option Nat) (stack : Stack) : Prop where
  limit_eq : stack.limit = limit
  size_le : ∀ most, limit = some most → stack.size ≤ most

structure Host.KeepsCount (host : Host σ) : Prop where
  observer : ∀ observer, host.observer = some observer → ∀ number registers world,
    (observer number registers world).1.general.size = registers.general.size
  breakpoint : ∀ hook, host.breakpoint = some hook → ∀ registers world,
    (hook registers world).1.general.size = registers.general.size

/-- The machine is as large as its settings say, and still has these settings, this memory and this
host. -/
structure Machine.Conforms (config : Config) (memory : Memory σ) (host : Host σ)
    (machine : Machine σ) : Prop where
  stack : machine.stack.Obeys config.maxStack
  count : machine.registers.general.size = config.registers
  memory : machine.memory = memory
  config : machine.config = config
  host : machine.host = host

namespace Stack

variable {limit : Option Nat} {stack lower upper after : Stack} {value : Value}

theorem obeys_empty (limit : Option Nat) : ({ limit } : Stack).Obeys limit :=
  ⟨rfl, fun most _ => Nat.zero_le most⟩

theorem Obeys.of_below (h : upper.Obeys limit) (hbelow : lower.Below upper) : lower.Obeys limit :=
  ⟨hbelow.limit.symm.trans h.limit_eq, fun most hmost =>
    Nat.le_trans hbelow.size_le (h.size_le most hmost)⟩

theorem Obeys.push (h : stack.Obeys limit) (hpush : stack.push value = .ok after) :
    after.Obeys limit := by
  refine ⟨(below_push hpush).limit.trans h.limit_eq, fun most hmost => ?_⟩
  rw [size_push hpush]
  unfold Stack.push at hpush
  rw [h.limit_eq, hmost] at hpush
  dsimp only at hpush
  by_cases hfull : most ≤ stack.size
  · rw [if_pos hfull] at hpush
    cases hpush
  · omega

end Stack

namespace Run

variable {limit : Option Nat} {count : Nat}

theorem Writes.keepsObeys {α : Type} {run : Run σ α} {parts : List Part} (h : run.Writes parts)
    (hn : .stack ∉ parts) : run.Keeps fun machine => machine.stack.Obeys limit := by
  intro machine hmachine
  rw [(h machine).stack hn]
  exact hmachine

theorem push_keepsObeys (value : Value) :
    (push value : Run σ Unit).Keeps fun machine => machine.stack.Obeys limit := by
  intro machine h
  unfold final push
  rw [bind_apply, get_apply]
  dsimp only
  cases hpush : machine.stack.push value with
  | ok stack => exact h.push hpush
  | error cause => exact h

theorem pop_keepsObeys : (pop : Run σ Value).Keeps fun machine => machine.stack.Obeys limit := by
  intro machine h
  unfold final pop
  rw [bind_apply, get_apply]
  dsimp only
  cases hpop : machine.stack.pop with
  | ok popped => exact h.of_below (Stack.below_pop hpop)
  | error cause => exact h

theorem popAs_keepsObeys (α : Type) [OfValue α] :
    (popAs α : Run σ α).Keeps fun machine => machine.stack.Obeys limit := by
  intro machine h
  have hpopped : (machine.stack.popAs α).2.Obeys limit := by
    unfold Stack.popAs
    cases hpop : machine.stack.pop with
    | ok popped => exact h.of_below (Stack.below_pop hpop)
    | error cause => exact h
  unfold final popAs
  simp only [bind_apply, get_apply, modify_apply]
  cases (machine.stack.popAs α).1 with
  | ok a => exact hpopped
  | error cause => exact hpopped

theorem popArguments_keepsObeys (kinds : List Kind) :
    (popArguments kinds : Run σ (List Value)).Keeps fun machine => machine.stack.Obeys limit := by
  induction kinds with
  | nil => exact keeps_pure []
  | cons kind kinds ih =>
    have hcoerce : ∀ value : Value,
        (ofExcept (value.coerce kind) : Run σ Value).Writes [] := fun _ => writes_ofExcept _
    unfold popArguments
    refine ih.bind fun _ => pop_keepsObeys.bind fun value => ?_
    exact ((hcoerce value).keepsObeys (by decide)).bind fun _ => keeps_pure _

theorem callNative_keepsObeys (address : UInt64) :
    (callNative address : Run σ Unit).Keeps fun machine => machine.stack.Obeys limit := by
  have hread : (readText address : Run σ String).Writes [] := writes_readText address
  have hinvoke : ∀ name args, (invoke name args : Run σ (Option Value)).Writes [.world] :=
    fun name args => writes_invoke name args (by decide)
  unfold callNative
  refine Keeps.bind (hread.keepsObeys (by decide)) fun name => ?_
  refine Keeps.bind keeps_get fun machine => ?_
  cases machine.host.natives.find? name with
  | none => exact keeps_fail _
  | some native =>
    refine keeps_ite (keeps_fail _) ?_
    refine (popArguments_keepsObeys native.params).bind fun args => ?_
    refine Keeps.bind ((hinvoke name args).keepsObeys (by decide)) fun result => ?_
    cases result with
    | none => exact keeps_pure _
    | some value => exact push_keepsObeys value

theorem call_keepsObeys (address : UInt64) :
    (call address : Run σ Unit).Keeps fun machine => machine.stack.Obeys limit := by
  unfold call
  refine Keeps.bind keeps_get fun _ => (push_keepsObeys _).bind fun _ => ?_
  exact fun _ h => h

theorem ret_keepsObeys :
    (ret : Run σ Unit).Keeps fun machine => machine.stack.Obeys limit := by
  unfold ret
  refine Keeps.bind keeps_get fun _ => keeps_ite (keeps_fail _) ?_
  exact (popAs_keepsObeys UInt64).bind fun _ _ h => h

theorem Writes.keepsCount {α : Type} {run : Run σ α} {parts : List Part} (h : run.Writes parts)
    (hn : .general ∉ parts) : run.Keeps fun machine => machine.registers.general.size = count := by
  intro machine hmachine
  have hsame : (run.final machine).registers.general = machine.registers.general :=
    (h machine).same .general hn
  rw [hsame]
  exact hmachine

theorem getRegister_keepsCount (index : UInt8) :
    (getRegister index : Run σ Int64).Keeps fun machine =>
      machine.registers.general.size = count :=
  Writes.keepsCount (writes_getRegister index) List.not_mem_nil

theorem setRegister_keepsCount (index : UInt8) (value : Int64) :
    (setRegister index value : Run σ Unit).Keeps fun machine =>
      machine.registers.general.size = count := by
  intro machine h
  unfold final setRegister Registers.set
  rw [bind_apply, get_apply]
  dsimp only
  by_cases hindex : index.toNat < machine.registers.general.size
  · rw [dif_pos hindex]
    exact (Array.size_set hindex).trans h
  · rw [dif_neg hindex]
    exact h

theorem breakpoint_keepsCount {machine : Machine σ} (hhost : machine.host.KeepsCount) :
    ((breakpoint).final machine).registers.general.size = machine.registers.general.size := by
  unfold final breakpoint
  rw [bind_apply, get_apply]
  dsimp only
  cases hhook : machine.host.breakpoint with
  | none => rfl
  | some hook => exact hhost.breakpoint hook hhook machine.registers machine.world

end Run

namespace Operation

open Run

theorem obeys_run {machine : Machine σ} (h : machine.stack.Obeys machine.config.maxStack)
    (instruction : Instruction)
    (operands : Operands (ofInstruction instruction : Operation σ).kinds) :
    (((ofInstruction instruction).run operands).final machine).stack.Obeys
      machine.config.maxStack := by
  have hget : ∀ index, (getRegister index : Run σ Int64).Keeps fun machine' =>
      machine'.stack.Obeys machine.config.maxStack := fun index =>
    Writes.keepsObeys (writes_getRegister index) List.not_mem_nil
  cases instruction with
  | reset => exact Stack.obeys_empty _
  | pushWord => exact push_keepsObeys _ machine h
  | pushRegister => exact ((hget _).bind fun _ => push_keepsObeys _) machine h
  | pushText =>
    exact (Keeps.bind (Writes.keepsObeys (writes_readText _) List.not_mem_nil)
      fun _ => push_keepsObeys _) machine h
  | pop => exact (pop_keepsObeys.bind fun _ => keeps_pure _) machine h
  | popRegister =>
    have hset : ∀ index value, (setRegister index value : Run σ Unit).Writes [.general] :=
      fun index value => writes_setRegister index value (by decide)
    exact ((hget _).bind fun _ => (popAs_keepsObeys Int64).bind fun _ =>
      (hset _ _).keepsObeys (by decide)) machine h
  | call => exact call_keepsObeys _ machine h
  | callRegister => exact ((hget _).bind fun _ => call_keepsObeys _) machine h
  | ret => exact ret_keepsObeys machine h
  | callNative => exact callNative_keepsObeys _ machine h
  | _ => exact (writes_run _ operands).keepsObeys (by decide) machine h

theorem count_run {machine : Machine σ} (hhost : machine.host.KeepsCount)
    (h : machine.registers.general.size = machine.config.registers) (instruction : Instruction)
    (operands : Operands (ofInstruction instruction : Operation σ).kinds) :
    (((ofInstruction instruction).run operands).final machine).registers.general.size =
      machine.config.registers := by
  cases instruction with
  | reset => exact Array.size_replicate
  | breakpoint => exact (breakpoint_keepsCount hhost).trans h
  | moveWord => exact setRegister_keepsCount _ _ machine h
  | addWord | subtractWord | moveRegister =>
    exact ((getRegister_keepsCount _).bind fun _ => setRegister_keepsCount _ _) machine h
  | addRegister | subtractRegister =>
    exact ((getRegister_keepsCount _).bind fun _ => (getRegister_keepsCount _).bind fun _ =>
      setRegister_keepsCount _ _) machine h
  | readByte | readHalf =>
    exact ((getRegister_keepsCount _).bind fun _ =>
      (Writes.keepsCount (writes_read _ _) List.not_mem_nil).bind fun _ =>
        setRegister_keepsCount _ _) machine h
  | input =>
    have hinput : ∀ port, (Run.input port : Run σ UInt64).Writes [.world] :=
      fun port => writes_input port (by decide)
    exact ((getRegister_keepsCount _).bind fun _ =>
      ((hinput _).keepsCount (by decide)).bind fun _ => setRegister_keepsCount _ _) machine h
  | popRegister =>
    have hpop : (popAs Int64 : Run σ Int64).Writes [.stack] := writes_popAs Int64 (by decide)
    exact ((getRegister_keepsCount _).bind fun _ =>
      (hpop.keepsCount (by decide)).bind fun _ => setRegister_keepsCount _ _) machine h
  | _ => exact (writes_run _ operands).keepsCount (by decide) machine h

end Operation

namespace Machine

variable {config : Config} {memory : Memory σ} {host : Host σ} {before after : Machine σ}
  {parts : List Part}

theorem conforms_boot (config : Config) (memory : Memory σ) (host : Host σ) (world : σ) :
    (boot config memory host world).Conforms config memory host :=
  ⟨Stack.obeys_empty _, Array.size_replicate, rfl, rfl, rfl⟩

theorem Conforms.agree (h : before.Conforms config memory host)
    (hagree : before.AgreeExcept parts after) (hstack : after.stack.Obeys config.maxStack)
    (hcount : after.registers.general.size = config.registers) :
    after.Conforms config memory host :=
  ⟨hstack, hcount, hagree.memory.trans h.memory, hagree.config.trans h.config,
    hagree.host.trans h.host⟩

theorem Conforms.aside (h : before.Conforms config memory host)
    (hagree : before.AgreeExcept parts after) (hstack : .stack ∉ parts)
    (hgeneral : .general ∉ parts) : after.Conforms config memory host := by
  apply h.agree hagree
  · rw [hagree.stack hstack]
    exact h.stack
  · have hsame : after.registers.general = before.registers.general := hagree.same .general hgeneral
    rw [hsame]
    exact h.count

theorem Conforms.run (hhost : host.KeepsCount) (h : before.Conforms config memory host)
    (instruction : Instruction)
    (operands : Operands (Operation.ofInstruction instruction : Operation σ).kinds) :
    (((Operation.ofInstruction instruction).run operands).final before).Conforms
      config memory host := by
  have hconfig := h.config
  subst hconfig
  apply h.agree (Operation.writes_run instruction operands before)
  · exact Operation.obeys_run h.stack instruction operands
  · exact Operation.count_run (h.host ▸ hhost) h.count instruction operands

theorem Conforms.enterInterrupt (hhost : host.KeepsCount) (h : before.Conforms config memory host)
    (number : UInt8) : (before.enterInterrupt number).Conforms config memory host := by
  have hentered := before.agree_enterInterrupt number
  apply h.agree hentered
  · rw [hentered.stack (by decide)]
    exact h.stack
  · have hcount := h.count
    have hkeeps : before.host.KeepsCount := h.host ▸ hhost
    unfold Machine.enterInterrupt
    cases hobserver : before.host.observer with
    | none => exact hcount
    | some observer => exact (hkeeps.observer observer hobserver _ _ _).trans hcount

theorem Conforms.callHandler (h : before.Conforms config memory host) (number : UInt8)
    (address : UInt64) :
    ((Run.callHandler number address).final before).Conforms config memory host := by
  have hlog : ∀ level message, (Run.log level message : Run σ Unit).Writes [.world] :=
    fun level message => Run.writes_log level message (by decide)
  have hwrites : (Run.callHandler number address : Run σ Unit).Writes
      [.ip, .depth, .stack, .world] := Run.writes_callHandler number address
  apply h.agree (hwrites before)
  · exact (((hlog _ _).keepsObeys (by decide)).bind fun _ =>
      Run.call_keepsObeys address) before h.stack
  · exact hwrites.keepsCount (by decide) before h.count

theorem Conforms.preserved (hhost : host.KeepsCount) :
    Preserved (Conforms config memory host) where
  executeNext machine h := by
    rcases Run.final_executeNext machine with
      hsame | ⟨instruction, next, -, hready | ⟨operands, hrun⟩⟩
    · rw [hsame]
      exact h
    · rw [hready]
      exact h.aside (machine.agree_ready instruction next) (by decide) (by decide)
    · rw [hrun]
      exact (h.aside (machine.agree_ready instruction next) (by decide) (by decide)).run hhost
        instruction operands
  callHandler number address _ h := h.callHandler number address
  enterInterrupt _ number h := h.enterInterrupt hhost number
  leaveInterrupt machine privileged h :=
    h.aside (machine.agree_leaveInterrupt privileged) (by decide) (by decide)
  reset machine h := by
    have hconfig := h.config
    subst hconfig
    exact ⟨Stack.obeys_empty _, Array.size_replicate, h.memory, rfl, h.host⟩

end Machine

/-- Whatever its host calls it for, and however the calls end, a machine conforms to what it was
built from after every call, and before and after every event of every call. -/
theorem built_machine_conforms (config : Config) (memory : Memory σ) (host : Host σ) (world : σ)
    (hhost : host.KeepsCount) (calls : List HostCall) :
    ((Machine.boot config memory host world).after calls).Conforms config memory host ∧
    ∀ event ∈ (Machine.boot config memory host world).history calls,
      event.Within (Machine.Conforms config memory host) :=
  (Machine.Conforms.preserved hhost).history calls (Machine.conforms_boot config memory host world)

def Host.clearing : Host Unit where
  observer := some fun _ registers world =>
    ({ registers with general := registers.general.map fun _ => 0 }, world)

def Machine.cramped : Machine Unit :=
  Machine.boot { registers := 2, maxStack := some 1 }
    ⟨⟨#[0x1e, 5, 0, 0, 0, 0, 0, 0, 0, 0x1e, 6, 0, 0, 0, 0, 0, 0, 0]⟩, none⟩ Host.clearing ()

theorem built_machine_conforms_cramped :
    Host.clearing.KeepsCount ∧
    (Run.runFor 0 2).succeeds Machine.cramped = false ∧
    (Machine.cramped.after [.runFor 0 2, .interrupt 0 1]).stack.size = 1 ∧
    (Machine.cramped.after [.runFor 0 2, .interrupt 0 1]).Conforms
      { registers := 2, maxStack := some 1 } Machine.cramped.memory Host.clearing := by
  have hhost : Host.clearing.KeepsCount := by
    refine ⟨?_, ?_⟩
    · intro observer hobserver number registers world
      cases hobserver
      exact Array.size_map
    · intro hook hhook
      cases hhook
  refine ⟨hhost, by decide +kernel, by decide +kernel, ?_⟩
  exact (built_machine_conforms _ _ Host.clearing () hhost [.runFor 0 2, .interrupt 0 1]).1

end RegisterMachine
