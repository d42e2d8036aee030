import RegisterMachine.Proofs.Run

/-!
Which parts of a machine an instruction may change. Memory, settings and host are changed by none;
for the rest, `Instruction.writes` names the parts, and `writes_run` says that the operation of the
instruction touches nothing else, however it ends.
-/
namespace RegisterMachine

inductive Part where
  | general | ip | control | depth | stack | handlers | halted | world
  deriving DecidableEq

def Part.Same {σ : Type} (before after : Machine σ) : Part → Prop
  | .general => after.registers.general = before.registers.general
  | .ip => after.registers.ip = before.registers.ip
  | .control => after.registers.control = before.registers.control
  | .depth => after.registers.depth = before.registers.depth
  | .stack => after.stack = before.stack
  | .handlers => after.handlers = before.handlers
  | .halted => after.halted = before.halted
  | .world => after.world = before.world

structure Machine.AgreeExcept {σ : Type} (parts : List Part) (before after : Machine σ) : Prop where
  memory : after.memory = before.memory
  config : after.config = before.config
  host : after.host = before.host
  same : ∀ part ∉ parts, part.Same before after

namespace Machine.AgreeExcept

variable {σ : Type} {parts others : List Part} {first second third : Machine σ}

theorem refl (machine : Machine σ) : machine.AgreeExcept parts machine := by
  refine ⟨rfl, rfl, rfl, fun part _ => ?_⟩
  cases part <;> rfl

theorem trans (h : first.AgreeExcept parts second) (h' : second.AgreeExcept parts third) :
    first.AgreeExcept parts third := by
  refine ⟨h'.memory.trans h.memory, h'.config.trans h.config, h'.host.trans h.host, ?_⟩
  intro part hn
  have hfirst := h.same part hn
  have hsecond := h'.same part hn
  cases part <;> exact Eq.trans hsecond hfirst

theorem mono (h : first.AgreeExcept parts second) (hsub : parts ⊆ others) :
    first.AgreeExcept others second :=
  ⟨h.memory, h.config, h.host, fun part hn => h.same part fun hp => hn (hsub hp)⟩

theorem ip (h : first.AgreeExcept parts second) (hn : .ip ∉ parts) :
    second.registers.ip = first.registers.ip := h.same .ip hn

theorem control (h : first.AgreeExcept parts second) (hn : .control ∉ parts) :
    second.registers.control = first.registers.control := h.same .control hn

theorem depth (h : first.AgreeExcept parts second) (hn : .depth ∉ parts) :
    second.registers.depth = first.registers.depth := h.same .depth hn

theorem stack (h : first.AgreeExcept parts second) (hn : .stack ∉ parts) :
    second.stack = first.stack := h.same .stack hn

theorem handlers (h : first.AgreeExcept parts second) (hn : .handlers ∉ parts) :
    second.handlers = first.handlers := h.same .handlers hn

theorem world (h : first.AgreeExcept parts second) (hn : .world ∉ parts) :
    second.world = first.world := h.same .world hn

theorem setControl (machine : Machine σ) (control : UInt64) (h : .control ∈ parts) :
    machine.AgreeExcept parts
      { machine with registers := { machine.registers with control } } := by
  refine ⟨rfl, rfl, rfl, fun part hn => ?_⟩
  cases part with
  | control => exact absurd h hn
  | _ => rfl

theorem setStack (machine : Machine σ) (stack : Stack) (h : .stack ∈ parts) :
    machine.AgreeExcept parts { machine with stack } := by
  refine ⟨rfl, rfl, rfl, fun part hn => ?_⟩
  cases part with
  | stack => exact absurd h hn
  | _ => rfl

theorem setWorld (machine : Machine σ) (world : σ) (h : .world ∈ parts) :
    machine.AgreeExcept parts { machine with world } := by
  refine ⟨rfl, rfl, rfl, fun part hn => ?_⟩
  cases part with
  | world => exact absurd h hn
  | _ => rfl

theorem goTo (machine : Machine σ) (address depth : UInt64) (hip : .ip ∈ parts)
    (hdepth : .depth ∈ parts) : machine.AgreeExcept parts
      { machine with registers := { machine.registers with depth, ip := address } } := by
  refine ⟨rfl, rfl, rfl, fun part hn => ?_⟩
  cases part with
  | ip => exact absurd hip hn
  | depth => exact absurd hdepth hn
  | _ => rfl

end Machine.AgreeExcept

/-- The parts that an instruction may change once its operands are read. -/
def Instruction.writes : Instruction → List Part
  | .nop | .raise | .testPrivilege => []
  | .halt => [.halted]
  | .reset => [.general, .ip, .control, .depth, .stack, .handlers, .halted]
  | .breakpoint => [.general, .ip, .control, .depth, .world]
  | .setHandler => [.handlers]
  | .disableInterrupts | .enableInterrupts | .dropPrivilege => [.control]
  | .compareRegisters | .compareWord => [.control]
  | .jump | .jumpRegister | .jumpEqual | .jumpNotEqual => [.ip]
  | .jumpLessEqual | .jumpGreaterEqual | .jumpLess | .jumpGreater => [.ip]
  | .addRegister | .addWord | .subtractRegister | .subtractWord => [.general]
  | .moveWord | .moveRegister | .readByte | .readHalf => [.general]
  | .outWord | .outRegister | .printPrivilege => [.world]
  | .input => [.general, .world]
  | .pushWord | .pushRegister | .pop | .pushText => [.stack]
  | .popRegister => [.general, .stack]
  | .call | .callRegister | .ret => [.ip, .depth, .stack]
  | .callNative => [.stack, .world]

namespace Run

variable {σ α β : Type} {parts : List Part}

/-- The run changes the named parts at most, however it ends. -/
def Writes (parts : List Part) (run : Run σ α) : Prop :=
  ∀ machine : Machine σ, machine.AgreeExcept parts (run.final machine)

theorem Writes.bind {run : Run σ α} {next : α → Run σ β} (hrun : run.Writes parts)
    (hnext : ∀ a, (next a).Writes parts) : (run >>= next).Writes parts := by
  intro machine
  rcases final_bind run next machine with hfinal | ⟨a, _, hfinal⟩
  · rw [hfinal]
    exact hrun machine
  · rw [hfinal]
    exact (hrun machine).trans (hnext a _)

theorem writes_pure (a : α) : (pure a : Run σ α).Writes parts :=
  fun machine => .refl machine

theorem writes_get : (get : Run σ (Machine σ)).Writes parts :=
  fun machine => .refl machine

theorem writes_fail (cause : Fault) : (fail cause : Run σ α).Writes parts :=
  fun machine => .refl machine

theorem writes_modify {change : Machine σ → Machine σ}
    (h : ∀ machine : Machine σ, machine.AgreeExcept parts (change machine)) :
    (modify change : Run σ PUnit).Writes parts := h

theorem writes_ofExcept (result : Except Fault α) :
    (ofExcept result : Run σ α).Writes parts := by
  cases result with
  | ok a => exact writes_pure a
  | error cause => exact writes_fail cause

theorem writes_ite {condition : Prop} [Decidable condition] {yes no : Run σ α}
    (hyes : yes.Writes parts) (hno : no.Writes parts) :
    (if condition then yes else no).Writes parts := by
  split
  · exact hyes
  · exact hno

theorem writes_jump (address : UInt64) (h : .ip ∈ parts) :
    (jump address : Run σ Unit).Writes parts := by
  refine fun machine => ⟨rfl, rfl, rfl, fun part hn => ?_⟩
  cases part with
  | ip => exact absurd h hn
  | _ => rfl

theorem writes_log (level : Level) (message : String) (h : .world ∈ parts) :
    (log level message : Run σ Unit).Writes parts :=
  fun machine => .setWorld machine _ h

theorem writes_setFlag (flag : Flag) (value : Bool) (h : .control ∈ parts) :
    (setFlag flag value : Run σ Unit).Writes parts :=
  fun machine => .setControl machine _ h

theorem writes_compare (a b : Int64) (h : .control ∈ parts) :
    (compare a b : Run σ Unit).Writes parts :=
  fun machine => .setControl machine _ h

theorem writes_getRegister (index : UInt8) : (getRegister index : Run σ Int64).Writes parts := by
  unfold getRegister
  exact writes_get.bind fun _ => writes_ofExcept _

theorem writes_setRegister (index : UInt8) (value : Int64) (h : .general ∈ parts) :
    (setRegister index value : Run σ Unit).Writes parts := by
  intro machine
  unfold final setRegister Registers.set
  by_cases hindex : index.toNat < machine.registers.general.size
  · simp only [bind_apply, get_apply, dif_pos hindex, ofExcept_ok, pure_apply, modify_apply]
    refine ⟨rfl, rfl, rfl, fun part hn => ?_⟩
    cases part with
    | general => exact absurd h hn
    | _ => rfl
  · simp only [bind_apply, get_apply, dif_neg hindex, ofExcept_error, fail_apply]
    exact .refl machine

theorem writes_read (width : Nat) (address : UInt64) :
    (read width address : Run σ Nat).Writes parts := by
  unfold read
  exact writes_get.bind fun _ => writes_ofExcept _

theorem writes_readText (address : UInt64) : (readText address : Run σ String).Writes parts := by
  unfold readText
  exact writes_get.bind fun _ => (writes_ofExcept _).bind fun _ => writes_pure _

theorem writes_push (value : Value) (h : .stack ∈ parts) :
    (push value : Run σ Unit).Writes parts := by
  unfold push
  apply writes_get.bind
  intro _
  apply (writes_ofExcept _).bind
  intro _
  exact writes_modify fun machine => .setStack machine _ h

theorem writes_pop (h : .stack ∈ parts) : (pop : Run σ Value).Writes parts := by
  unfold pop
  apply writes_get.bind
  intro _
  apply (writes_ofExcept _).bind
  rintro ⟨value, stack⟩
  apply (writes_modify fun machine => .setStack machine stack h).bind
  exact fun _ => writes_pure value

theorem writes_popAs (α : Type) [OfValue α] (h : .stack ∈ parts) :
    (popAs α : Run σ α).Writes parts := by
  unfold popAs
  apply writes_get.bind
  intro _
  apply (writes_modify fun machine => .setStack machine _ h).bind
  exact fun _ => writes_ofExcept _

theorem writes_jumpIfAny (flags : List Flag) (address : Int64) (h : .ip ∈ parts) :
    (jumpIfAny flags address : Run σ Unit).Writes parts := by
  unfold jumpIfAny
  apply writes_get.bind
  intro _
  exact writes_ite (writes_jump _ h) (writes_pure _)

theorem writes_jumpNotEqual (address : Int64) (h : .ip ∈ parts) :
    (jumpNotEqual address : Run σ Unit).Writes parts := by
  unfold jumpNotEqual
  apply writes_get.bind
  intro _
  exact writes_ite (writes_jump _ h) (writes_pure _)

theorem writes_call (address : UInt64) (hip : .ip ∈ parts) (hdepth : .depth ∈ parts)
    (hstack : .stack ∈ parts) : (call address : Run σ Unit).Writes parts := by
  unfold call
  apply writes_get.bind
  intro _
  apply (writes_push _ hstack).bind
  intro _
  exact writes_modify fun machine => .goTo machine _ _ hip hdepth

theorem writes_ret (hip : .ip ∈ parts) (hdepth : .depth ∈ parts) (hstack : .stack ∈ parts) :
    (ret : Run σ Unit).Writes parts := by
  unfold ret
  apply writes_get.bind
  intro _
  apply writes_ite (writes_fail _)
  apply (writes_popAs UInt64 hstack).bind
  intro _
  exact writes_modify fun machine => .goTo machine _ _ hip hdepth

theorem writes_out (port data : UInt64) (h : .world ∈ parts) :
    (out port data : Run σ Unit).Writes parts := by
  apply writes_modify
  intro machine
  split
  · exact .setWorld machine _ h
  · exact .refl machine

theorem writes_input (port : UInt64) (h : .world ∈ parts) :
    (input port : Run σ UInt64).Writes parts := by
  intro machine
  unfold final input
  rw [modifyGet_apply]
  dsimp only
  split
  · exact .setWorld machine _ h
  · exact .refl machine

theorem writes_breakpoint (hgeneral : .general ∈ parts) (hip : .ip ∈ parts)
    (hcontrol : .control ∈ parts) (hdepth : .depth ∈ parts) (hworld : .world ∈ parts) :
    (breakpoint : Run σ Unit).Writes parts := by
  intro machine
  unfold final breakpoint
  rw [bind_apply]
  simp only [get_apply]
  cases machine.host.breakpoint with
  | none => exact writes_log _ _ hworld machine
  | some hook =>
    refine ⟨rfl, rfl, rfl, fun part hn => ?_⟩
    cases part with
    | general => exact absurd hgeneral hn
    | ip => exact absurd hip hn
    | control => exact absurd hcontrol hn
    | depth => exact absurd hdepth hn
    | world => exact absurd hworld hn
    | stack | handlers | halted => rfl

theorem writes_popArguments (kinds : List Kind) (h : .stack ∈ parts) :
    (popArguments kinds : Run σ (List Value)).Writes parts := by
  induction kinds with
  | nil => exact writes_pure []
  | cons kind kinds ih =>
    unfold popArguments
    apply ih.bind
    intro later
    apply (writes_pop h).bind
    intro value
    exact (writes_ofExcept _).bind fun _ => writes_pure _

theorem writes_invoke (name : String) (args : List Value) (h : .world ∈ parts) :
    (invoke name args : Run σ (Option Value)).Writes parts := by
  intro machine
  unfold final invoke
  simp only [bind_apply, get_apply, set_apply]
  cases (machine.host.natives.invoke name args machine.world).1 with
  | ok value => exact .setWorld machine _ h
  | error cause => exact .setWorld machine _ h

theorem writes_callNative (address : UInt64) (hstack : .stack ∈ parts) (hworld : .world ∈ parts) :
    (callNative address : Run σ Unit).Writes parts := by
  unfold callNative
  apply (writes_readText address).bind
  intro name
  apply writes_get.bind
  intro machine
  cases machine.host.natives.find? name with
  | none => exact writes_fail _
  | some native =>
    apply writes_ite (writes_fail _)
    apply (writes_popArguments native.params hstack).bind
    intro args
    apply (writes_invoke name args hworld).bind
    intro result
    cases result with
    | none => exact writes_pure _
    | some value => exact writes_push value hstack

end Run

open Run in
theorem Operation.writes_run {σ : Type} (instruction : Instruction)
    (operands : Operands (ofInstruction instruction : Operation σ).kinds) :
    ((ofInstruction instruction).run operands).Writes instruction.writes := by
  cases instruction with
  | nop | testPrivilege => exact writes_pure ()
  | raise => exact writes_pure ()
  | halt =>
    refine fun machine => ⟨rfl, rfl, rfl, fun part hn => ?_⟩
    cases part with
    | halted => exact absurd (by decide) hn
    | _ => rfl
  | reset =>
    refine fun machine => ⟨rfl, rfl, rfl, fun part hn => ?_⟩
    cases part with
    | world => rfl
    | _ => exact absurd (by decide) hn
  | breakpoint =>
    exact writes_breakpoint (by decide) (by decide) (by decide) (by decide) (by decide)
  | setHandler =>
    refine fun machine => ⟨rfl, rfl, rfl, fun part hn => ?_⟩
    cases part with
    | handlers => exact absurd (by decide) hn
    | _ => rfl
  | disableInterrupts | enableInterrupts | dropPrivilege => exact writes_setFlag _ _ (by decide)
  | compareRegisters =>
    exact (writes_getRegister _).bind fun _ => (writes_getRegister _).bind fun _ =>
      writes_compare _ _ (by decide)
  | compareWord => exact (writes_getRegister _).bind fun _ => writes_compare _ _ (by decide)
  | jump => exact writes_jump _ (by decide)
  | jumpRegister => exact (writes_getRegister _).bind fun _ => writes_jump _ (by decide)
  | jumpNotEqual => exact writes_jumpNotEqual _ (by decide)
  | jumpEqual | jumpLessEqual | jumpGreaterEqual | jumpLess | jumpGreater =>
    exact writes_jumpIfAny _ _ (by decide)
  | addWord | subtractWord | moveRegister =>
    exact (writes_getRegister _).bind fun _ => writes_setRegister _ _ (by decide)
  | addRegister | subtractRegister =>
    exact (writes_getRegister _).bind fun _ => (writes_getRegister _).bind fun _ =>
      writes_setRegister _ _ (by decide)
  | moveWord => exact writes_setRegister _ _ (by decide)
  | readByte | readHalf =>
    exact (writes_getRegister _).bind fun _ => (writes_read _ _).bind fun _ =>
      writes_setRegister _ _ (by decide)
  | outWord => exact writes_out _ _ (by decide)
  | outRegister => exact (writes_getRegister _).bind fun _ => writes_out _ _ (by decide)
  | input =>
    exact (writes_getRegister _).bind fun _ => (writes_input _ (by decide)).bind fun _ =>
      writes_setRegister _ _ (by decide)
  | pushWord => exact writes_push _ (by decide)
  | pushRegister => exact (writes_getRegister _).bind fun _ => writes_push _ (by decide)
  | pop => exact (writes_pop (by decide)).bind fun _ => writes_pure _
  | popRegister =>
    exact (writes_getRegister _).bind fun _ => (writes_popAs Int64 (by decide)).bind fun _ =>
      writes_setRegister _ _ (by decide)
  | call => exact writes_call _ (by decide) (by decide) (by decide)
  | callRegister =>
    exact (writes_getRegister _).bind fun _ => writes_call _ (by decide) (by decide) (by decide)
  | ret => exact writes_ret (by decide) (by decide) (by decide)
  | printPrivilege => exact writes_get.bind fun _ => writes_log _ _ (by decide)
  | pushText => exact (writes_readText _).bind fun _ => writes_push _ (by decide)
  | callNative => exact writes_callNative _ (by decide) (by decide)

end RegisterMachine
