import RegisterMachine.Proofs.Decoding
import RegisterMachine.Proofs.StackEffect

/-!
What a step that fails leaves as it was. An operation looks before it acts: whatever can fail in it
comes before its first change to the machine, so an operation that fails has changed nothing. The two
that take a number from the stack are the exception, as the value is gone before it is read. A native
call changes much before it may fail, and an interrupt runs a whole handler; both are left out here.
-/
namespace RegisterMachine

def Fault.isMismatch : Fault → Bool
  | .notNumeric _ _ => true
  | _ => false

def Matched {α : Type} (result : Except Fault α) : Prop :=
  ∀ cause, result = .error cause → cause.isMismatch = false

theorem Matched.bind {α β : Type} {result : Except Fault α} {next : α → Except Fault β}
    (h : Matched result) (hnext : ∀ a, Matched (next a)) : Matched (result >>= next) := by
  intro cause hcause
  cases result with
  | ok a => exact hnext a cause hcause
  | error own =>
    cases hcause
    exact h cause rfl

theorem Matched.map {α β : Type} {result : Except Fault α} (h : Matched result) (f : α → β) :
    Matched (result.map f) := by
  intro cause hcause
  cases result with
  | ok a => cases hcause
  | error own =>
    cases hcause
    exact h cause rfl

namespace Memory

variable {σ : Type} (memory : Memory σ)

theorem matched_read (address : UInt64) : Matched (memory.read address) := by
  intro cause hcause
  unfold read Ram.read at hcause
  split at hcause
  · cases hcause
  · split at hcause
    · cases hcause
    · cases hcause
      rfl

theorem matched_addressAt (start : UInt64) (offset : Nat) :
    Matched (memory.addressAt start offset) := by
  intro cause hcause
  unfold addressAt at hcause
  split at hcause
  · cases hcause
  · cases hcause
    rfl

theorem matched_readFrom (start : UInt64) (offset count : Nat) :
    Matched (memory.readFrom start offset count).2 := by
  induction count generalizing offset with
  | zero =>
    intro cause hcause
    cases hcause
  | succ count ih =>
    intro cause hcause
    unfold readFrom at hcause
    split at hcause
    · exact ih (offset + 1) cause hcause
    · rename_i own hown
      cases hcause
      exact (memory.matched_addressAt start offset).bind memory.matched_read cause hown

theorem matched_readBytes (start : UInt64) (count : Nat) : Matched (memory.readBytes start count) :=
  (memory.matched_readFrom start 0 count).map _

theorem matched_readWord (address : UInt64) (width : Nat) : Matched (memory.readWord address width) :=
  (memory.matched_readBytes address width).map _

theorem matched_readText (address : UInt64) : Matched (memory.readText address) := by
  unfold readText
  apply (memory.matched_readWord address 4).bind
  intro length
  apply (memory.matched_addressAt address 4).bind
  intro body cause hcause
  split at hcause
  · cases hcause
    rfl
  · refine (memory.matched_readBytes body length).bind (fun bytes cause hcause => ?_) cause hcause
    split at hcause
    · cases hcause
    · cases hcause
      rfl

end Memory

theorem Registers.matched_get (registers : Registers) (index : Nat) :
    Matched (registers.get index) := by
  intro cause hcause
  unfold get at hcause
  split at hcause
  · cases hcause
  · cases hcause
    rfl

theorem Registers.matched_set (registers : Registers) (index : Nat) (value : Int64) :
    Matched (registers.set index value) := by
  intro cause hcause
  unfold set at hcause
  split at hcause
  · cases hcause
  · cases hcause
    rfl

theorem Stack.matched_push (stack : Stack) (value : Value) : Matched (stack.push value) := by
  intro cause hcause
  unfold push at hcause
  split at hcause
  · split at hcause
    · cases hcause
      rfl
    · cases hcause
  · cases hcause

theorem Stack.matched_pop (stack : Stack) : Matched stack.pop := by
  intro cause hcause
  unfold pop popAt at hcause
  split at hcause
  · cases hcause
  · cases hcause
    rfl

namespace Run

variable {σ α β : Type}

/-- The run fails with the machine untouched, and for no value of the wrong type. -/
def Declines (run : Run σ α) : Prop :=
  ∀ machine stop left, run machine = .error stop left →
    left = machine ∧ ∃ cause, stop = .fault cause ∧ cause.isMismatch = false

structure Looks (run : Run σ α) : Prop where
  same : ∀ machine a left, run machine = .ok a left → left = machine
  declines : run.Declines

def Completes (run : Run σ α) : Prop := ∀ machine, ∃ a left, run machine = .ok a left

theorem Completes.declines {run : Run σ α} (h : run.Completes) : run.Declines := by
  intro machine stop left hstop
  obtain ⟨a, after, hok⟩ := h machine
  rw [hok] at hstop
  cases hstop

theorem Looks.bind {run : Run σ α} {next : α → Run σ β} (h : run.Looks)
    (hnext : ∀ a, (next a).Declines) : (run >>= next).Declines := by
  intro machine stop left hstop
  rw [bind_apply] at hstop
  cases hrun : run machine with
  | ok a after =>
    rw [hrun, h.same _ _ _ hrun] at hstop
    exact hnext a machine stop left hstop
  | error first after =>
    rw [hrun] at hstop
    cases hstop
    exact h.declines _ _ _ hrun

theorem Declines.bind {run : Run σ α} {next : α → Run σ β} (h : run.Declines)
    (hnext : ∀ a, (next a).Completes) : (run >>= next).Declines := by
  intro machine stop left hstop
  rw [bind_apply] at hstop
  cases hrun : run machine with
  | ok a after =>
    rw [hrun] at hstop
    exact absurd hstop (by obtain ⟨b, last, hok⟩ := hnext a after; simp [hok])
  | error first after =>
    rw [hrun] at hstop
    cases hstop
    exact h _ _ _ hrun

theorem completes_pure (a : α) : (pure a : Run σ α).Completes := fun machine => ⟨a, machine, rfl⟩

theorem completes_modify (change : Machine σ → Machine σ) :
    (modify change : Run σ PUnit).Completes := fun machine => ⟨⟨⟩, change machine, rfl⟩

theorem completes_ite {condition : Prop} [Decidable condition] {yes no : Run σ α}
    (hyes : yes.Completes) (hno : no.Completes) : (if condition then yes else no).Completes := by
  split
  · exact hyes
  · exact hno

theorem looks_get : (get : Run σ (Machine σ)).Looks := by
  refine ⟨?_, ?_⟩
  · rintro machine a left ⟨⟩
    rfl
  · exact Completes.declines fun machine => ⟨machine, machine, rfl⟩

theorem looks_ofExcept {result : Except Fault α} (h : Matched result) :
    (ofExcept result : Run σ α).Looks := by
  refine ⟨fun machine a left hok => (ofExcept_eq_ok.mp hok).2, ?_⟩
  intro machine stop left hstop
  cases result with
  | ok a => cases hstop
  | error cause =>
    cases hstop
    exact ⟨rfl, cause, rfl, h cause rfl⟩

theorem looks_getRegister (index : UInt8) : (getRegister index : Run σ Int64).Looks :=
  ⟨fun _ _ _ hok => getRegister_eq_ok hok,
    looks_get.bind fun machine => (looks_ofExcept (machine.registers.matched_get _)).declines⟩

theorem looks_read (width : Nat) (address : UInt64) : (read width address : Run σ Nat).Looks := by
  refine ⟨fun machine n left hok => ?_,
    looks_get.bind fun machine => (looks_ofExcept (machine.memory.matched_readWord _ _)).declines⟩
  unfold read at hok
  rw [bind_apply, get_apply] at hok
  exact (ofExcept_eq_ok.mp hok).2

theorem looks_readText (address : UInt64) : (readText address : Run σ String).Looks := by
  refine ⟨fun _ _ _ hok => (readText_eq_ok hok).1, ?_⟩
  apply looks_get.bind
  intro machine
  exact (looks_ofExcept (machine.memory.matched_readText address)).bind fun _ =>
    (completes_pure _).declines

theorem declines_setRegister (index : UInt8) (value : Int64) :
    (setRegister index value : Run σ Unit).Declines := by
  apply looks_get.bind
  intro machine
  exact (looks_ofExcept (machine.registers.matched_set _ _)).bind fun _ =>
    (completes_modify _).declines

theorem declines_push (value : Value) : (push value : Run σ Unit).Declines := by
  apply looks_get.bind
  intro machine
  exact (looks_ofExcept (machine.stack.matched_push value)).bind fun _ =>
    (completes_modify _).declines

theorem declines_drop : (drop : Run σ Unit).Declines := by
  have hpop : (pop : Run σ Value).Declines := by
    apply looks_get.bind
    intro machine
    apply (looks_ofExcept machine.stack.matched_pop).bind
    rintro ⟨value, stack⟩
    exact (completes_modify _).declines.bind fun _ => completes_pure _
  exact hpop.bind fun _ => completes_pure _

theorem declines_call (address : UInt64) : (call address : Run σ Unit).Declines :=
  looks_get.bind fun _ => (declines_push _).bind fun _ => completes_modify _

theorem completes_breakpoint : (breakpoint : Run σ Unit).Completes := by
  intro machine
  unfold breakpoint
  rw [bind_apply]
  simp only [get_apply]
  cases machine.host.breakpoint with
  | none => exact completes_modify _ machine
  | some hook => exact ⟨_, _, rfl⟩

theorem getRegister_bound {index : UInt8} {value : Int64} {machine left : Machine σ}
    (h : getRegister index machine = .ok value left) :
    index.toNat < machine.registers.general.size := by
  unfold getRegister Registers.get at h
  rw [bind_apply, get_apply] at h
  have hget := (ofExcept_eq_ok.mp h).1
  split at hget
  · rename_i hsome
    exact (Array.getElem?_eq_some_iff.mp hsome).1
  · cases hget

theorem setRegister_completes (machine : Machine σ) {index : UInt8}
    (h : index.toNat < machine.registers.general.size) (value : Int64) :
    ∃ left, setRegister index value machine = .ok () left := by
  unfold setRegister Registers.set
  simp only [bind_apply, get_apply, dif_pos h, ofExcept_ok, pure_apply, modify_apply]
  exact ⟨_, rfl⟩

theorem input_apply (port : UInt64) (machine : Machine σ) :
    ∃ data world, input port machine = .ok data { machine with world } := by
  unfold input
  rw [modifyGet_apply]
  split
  · exact ⟨_, _, rfl⟩
  · exact ⟨_, machine.world, rfl⟩

/-- The register is known to exist when the port is read, so nothing fails after that. -/
theorem declines_inputRegister (target : UInt8) (port : Int64) :
    (inputRegister target port : Run σ Unit).Declines := by
  intro machine stop left hstop
  unfold inputRegister at hstop
  rw [bind_apply] at hstop
  cases hget : getRegister target machine with
  | error first after =>
    rw [hget] at hstop
    cases hstop
    exact (looks_getRegister target).declines _ _ _ hget
  | ok old after =>
    have hbound := getRegister_bound hget
    obtain ⟨data, world, hinput⟩ := input_apply port.toUInt64 machine
    rw [hget, getRegister_eq_ok hget] at hstop
    dsimp only at hstop
    rw [bind_apply, hinput] at hstop
    dsimp only at hstop
    obtain ⟨last, hset⟩ := setRegister_completes { machine with world } hbound data.toInt64
    rw [hset] at hstop
    cases hstop

/-- Like `Declines`, but a value of the wrong type is gone from the top of the stack. -/
def DeclinesValue (run : Run σ α) : Prop :=
  ∀ machine stop left, run machine = .error stop left → ∃ cause, stop = .fault cause ∧
    (cause.isMismatch = false → left = machine) ∧
    (cause.isMismatch = true →
      ∃ value stack, machine.stack.pop = .ok (value, stack) ∧ left = { machine with stack })

theorem Declines.declinesValue {run : Run σ α} (h : run.Declines) : run.DeclinesValue := by
  intro machine stop left hstop
  obtain ⟨hleft, cause, hcause, hmatched⟩ := h machine stop left hstop
  exact ⟨cause, hcause, fun _ => hleft, fun hmismatch => by simp [hmatched] at hmismatch⟩

theorem declinesValue_popAs {α : Type} [OfValue α]
    (hvalue : ∀ (value : Value) (cause : Fault), (ofValue value : Except Fault α) = .error cause →
      cause.isMismatch = true) : (popAs α : Run σ α).DeclinesValue := by
  intro machine stop left hstop
  unfold popAs Stack.popAs at hstop
  rw [bind_apply, get_apply] at hstop
  dsimp only at hstop
  cases hpop : machine.stack.pop with
  | error cause =>
    simp only [hpop, bind_apply, modify_apply, ofExcept_error, fail_apply] at hstop
    cases hstop
    have hmatched := machine.stack.matched_pop cause hpop
    exact ⟨cause, rfl, fun _ => rfl, fun hmismatch => by simp [hmatched] at hmismatch⟩
  | ok popped =>
    obtain ⟨value, stack⟩ := popped
    simp only [hpop, bind_apply, modify_apply] at hstop
    cases hread : (ofValue value : Except Fault α) with
    | ok a => simp [hread] at hstop
    | error cause =>
      simp only [hread, ofExcept_error, fail_apply] at hstop
      cases hstop
      have hmismatch := hvalue value cause hread
      exact ⟨cause, rfl, fun hmatched => by simp [hmismatch] at hmatched,
        fun _ => ⟨value, stack, rfl, rfl⟩⟩

end Run

theorem Value.isMismatch_asInt {value : Value} {cause : Fault} (h : value.asInt = .error cause) :
    cause.isMismatch = true := by
  unfold asInt at h
  split at h
  · cases h
  · cases h
  · split at h
    · cases h
    · cases h
      rfl

theorem Value.isMismatch_asWord {value : Value} {cause : Fault} (h : value.asWord = .error cause) :
    cause.isMismatch = true := by
  have hasInt : ∀ other : Value, other.asInt.map Int64.toUInt64 = .error cause →
      cause.isMismatch = true := by
    intro other hother
    cases hint : other.asInt with
    | ok n => simp [hint, Except.map] at hother
    | error own =>
      simp only [hint, Except.map, Except.error.injEq] at hother
      exact isMismatch_asInt (hother ▸ hint)
  unfold asWord at h
  split at h
  · split at h
    · cases h
    · exact hasInt _ h
  · exact hasInt _ h

namespace Run

variable {σ α β : Type}

theorem declinesValue_popRegister (target : UInt8) :
    (popRegister target : Run σ Unit).DeclinesValue := by
  intro machine stop left hstop
  unfold popRegister at hstop
  rw [bind_apply] at hstop
  cases hget : getRegister target machine with
  | error first after =>
    rw [hget] at hstop
    cases hstop
    exact (looks_getRegister target).declines.declinesValue _ _ _ hget
  | ok old after =>
    have hbound := getRegister_bound hget
    rw [hget, getRegister_eq_ok hget] at hstop
    dsimp only at hstop
    rw [bind_apply] at hstop
    cases hpop : popAs Int64 machine with
    | error first after =>
      rw [hpop] at hstop
      cases hstop
      exact declinesValue_popAs (fun _ _ => Value.isMismatch_asInt) _ _ _ hpop
    | ok number popped =>
      obtain ⟨value, stack, -, -, rfl⟩ := popAs_eq_ok hpop
      rw [hpop] at hstop
      dsimp only at hstop
      obtain ⟨last, hset⟩ := setRegister_completes { machine with stack } hbound number
      rw [hset] at hstop
      cases hstop

theorem declinesValue_ret : (ret : Run σ Unit).DeclinesValue := by
  intro machine stop left hstop
  unfold ret at hstop
  rw [bind_apply, get_apply] at hstop
  dsimp only at hstop
  split at hstop
  · cases hstop
    exact ⟨_, rfl, fun _ => rfl, fun hmismatch => by cases hmismatch⟩
  · rw [bind_apply] at hstop
    cases hpop : popAs UInt64 machine with
    | error first after =>
      rw [hpop] at hstop
      cases hstop
      exact declinesValue_popAs (fun _ _ => Value.isMismatch_asWord) _ _ _ hpop
    | ok address popped =>
      rw [hpop] at hstop
      cases hstop

end Run

namespace Operation

open Run

variable {σ : Type}

theorem declines_run {instruction : Instruction}
    (hplain : instruction ∉ [.popRegister, .ret, .callNative])
    (operands : Operands (ofInstruction instruction : Operation σ).kinds) :
    ((ofInstruction instruction).run operands).Declines := by
  cases instruction with
  | nop | testPrivilege | raise => exact (completes_pure ()).declines
  | halt | reset | setHandler => exact (completes_modify _).declines
  | breakpoint => exact completes_breakpoint.declines
  | disableInterrupts | enableInterrupts | dropPrivilege => exact (completes_modify _).declines
  | compareRegisters =>
    exact (looks_getRegister _).bind fun _ => (looks_getRegister _).bind fun _ =>
      (completes_modify _).declines
  | compareWord => exact (looks_getRegister _).bind fun _ => (completes_modify _).declines
  | jump => exact (completes_modify _).declines
  | jumpRegister => exact (looks_getRegister _).bind fun _ => (completes_modify _).declines
  | jumpNotEqual | jumpEqual | jumpLessEqual | jumpGreaterEqual | jumpLess | jumpGreater =>
    exact looks_get.bind fun _ =>
      (completes_ite (completes_modify _) (completes_pure _)).declines
  | addWord | subtractWord | moveRegister =>
    exact (looks_getRegister _).bind fun _ => declines_setRegister _ _
  | addRegister | subtractRegister =>
    exact (looks_getRegister _).bind fun _ => (looks_getRegister _).bind fun _ =>
      declines_setRegister _ _
  | moveWord => exact declines_setRegister _ _
  | readByte | readHalf =>
    exact (looks_getRegister _).bind fun _ => (looks_read _ _).bind fun _ =>
      declines_setRegister _ _
  | outWord => exact (completes_modify _).declines
  | outRegister => exact (looks_getRegister _).bind fun _ => (completes_modify _).declines
  | input => exact declines_inputRegister _ _
  | pushWord => exact declines_push _
  | pushRegister => exact (looks_getRegister _).bind fun _ => declines_push _
  | pop => exact declines_drop
  | call => exact declines_call _
  | callRegister => exact (looks_getRegister _).bind fun _ => declines_call _
  | printPrivilege => exact looks_get.bind fun _ => (completes_modify _).declines
  | pushText => exact (looks_readText _).bind fun _ => declines_push _
  | popRegister | ret | callNative => exact absurd (by decide) hplain

theorem declinesValue_run {instruction : Instruction} (hnative : instruction ≠ .callNative)
    (operands : Operands (ofInstruction instruction : Operation σ).kinds) :
    ((ofInstruction instruction).run operands).DeclinesValue := by
  cases instruction with
  | popRegister => exact declinesValue_popRegister _
  | ret => exact declinesValue_ret
  | callNative => exact absurd rfl hnative
  | _ => exact (declines_run (by decide) operands).declinesValue

theorem mismatch_run {instruction : Instruction} (hnative : instruction ≠ .callNative)
    {operands : Operands (ofInstruction instruction : Operation σ).kinds} {machine left : Machine σ}
    {cause : Fault}
    (hrun : (ofInstruction instruction).run operands machine = .error (.fault cause) left)
    (hmismatch : cause.isMismatch = true) : instruction = .popRegister ∨ instruction = .ret := by
  by_cases hplain : instruction ∉ [.popRegister, .ret, .callNative]
  · obtain ⟨-, own, hown, hmatched⟩ := declines_run hplain operands _ _ _ hrun
    cases hown
    simp [hmatched] at hmismatch
  · simp only [List.mem_cons, List.not_mem_nil, or_false, Classical.not_not] at hplain
    simpa [hnative] using hplain

end Operation

namespace Run

variable {σ α β : Type} {machine : Machine σ}

theorem final_bind_of_ok {run : Run σ α} {next : α → Run σ β} {after : Machine σ} {a : α}
    (h : run machine = .ok a after) : (run >>= next).final machine = (next a).final after := by
  simp only [final, bind_apply, h]

theorem final_bind_of_error {run : Run σ α} {next : α → Run σ β} {left : Machine σ} {stop : Stop}
    (h : run machine = .error stop left) : (run >>= next).final machine = left := by
  simp only [final, bind_apply, h]

theorem final_bind_pure (run : Run σ α) (f : α → β) (machine : Machine σ) :
    (run >>= fun a => pure (f a)).final machine = run.final machine := by
  cases h : run machine with
  | ok a after => rw [final_bind_of_ok h, final_of_ok h, final_of_ok (pure_apply ..)]
  | error stop left => rw [final_bind_of_error h, final_of_error h]

theorem fetchOperands_range (kinds : List OperandKind) {machine : Machine σ}
    (hmemory : machine.memory.IsRam)
    (hinside : machine.registers.ip.toNat ≤ machine.memory.ram.bytes.size) :
    machine.registers.ip.toNat ≤ ((fetchOperands kinds).final machine).registers.ip.toNat ∧
      ((fetchOperands kinds).final machine).registers.ip.toNat ≤
        machine.registers.ip.toNat + OperandKind.totalSize kinds := by
  induction kinds generalizing machine with
  | nil => exact ⟨Nat.le_refl _, Nat.le_refl _⟩
  | cons kind kinds ih =>
    unfold OperandKind.totalSize
    by_cases hkind : machine.registers.ip.toNat + kind.size ≤ machine.memory.ram.bytes.size
    · obtain ⟨operand, hfetch, -⟩ := fetchOperand_eq_ok hmemory hkind
      let next := machine.moveTo (machine.registers.ip + .ofNat kind.size)
      have hnext : next.registers.ip.toNat = machine.registers.ip.toNat + kind.size :=
        toNat_ip_add hmemory hkind
      have hram : next.memory.IsRam := hmemory
      have hrest := ih hram (hnext ▸ hkind)
      have hfinal : (fetchOperands (kind :: kinds)).final machine = (fetchOperands kinds).final next :=
        (final_bind_of_ok hfetch).trans (final_bind_pure ..)
      rw [hfinal]
      omega
    · obtain ⟨address, hfetch⟩ := fetchOperand_eq_error hmemory (Nat.lt_of_not_le hkind)
      have hfinal : (fetchOperands (kind :: kinds)).final machine = machine :=
        final_bind_of_error hfetch
      rw [hfinal]
      omega

theorem fetchOperands_stop {kinds : List OperandKind} {left : Machine σ} {stop : Stop}
    (hmemory : machine.memory.IsRam)
    (hinside : machine.registers.ip.toNat ≤ machine.memory.ram.bytes.size)
    (h : fetchOperands kinds machine = .error stop left) :
    ∃ address, stop = .fault (.outOfBounds address machine.memory.size) := by
  cases hdecode : Disassembly.operandsAt machine.memory.ram.bytes machine.registers.ip.toNat kinds with
  | ok found =>
    obtain ⟨operands, -, -, hfetch⟩ := fetchOperands_eq_ok hmemory hinside hdecode
    rw [hfetch] at h
    cases h
  | error cause =>
    obtain ⟨-, address, other, -, hfetch⟩ := fetchOperands_eq_error hmemory hdecode
    rw [hfetch] at h
    cases h
    exact ⟨address, rfl⟩

end Run

theorem Machine.ready_eq {σ : Type} (machine : Machine σ) (instruction : Instruction)
    (next : UInt64) : machine.ready instruction next =
      { machine.moveTo next with
        world := (machine.traced machine.registers.ip instruction).world } := by
  unfold ready traced
  split
  · rfl
  · rfl

def Machine.admitted? {σ : Type} (machine : Machine σ) : Option Instruction := do
  let opcode ← machine.memory.ram.bytes[machine.registers.ip.toNat]?
  let instruction ← Instruction.ofOpcode? opcode
  if instruction.privileged && !machine.registers.privileged then none else some instruction

namespace Run

variable {σ : Type} {machine : Machine σ}

theorem executeNext_of_unadmitted (hmemory : machine.memory.IsRam) (hrunning : machine.halted = false)
    (hnone : machine.admitted? = none) :
    ∃ cause, executeNext machine = .error (.fault cause) machine ∧ cause.isMismatch = false := by
  rw [executeNext_apply hrunning, bind_apply]
  unfold Machine.admitted? at hnone
  cases hopcode : machine.memory.ram.bytes[machine.registers.ip.toNat]? with
  | none =>
    have houtside := Array.getElem?_eq_none_iff.mp hopcode
    rw [fetch_apply, hmemory.readWord_eq_error (by decide) (by omega)]
    exact ⟨_, rfl, rfl⟩
  | some opcode =>
    rw [fetch_opcode hmemory hopcode]
    dsimp only
    rw [UInt8.ofNat_toNat]
    cases hinstruction : Instruction.ofOpcode? opcode with
    | none =>
      rw [execute_unknown hinstruction]
      exact ⟨_, rfl, rfl⟩
    | some instruction =>
      simp only [hopcode, hinstruction, Option.bind_eq_bind, Option.bind_some, ite_eq_left_iff,
        Bool.not_eq_true, Bool.and_eq_false_imp, Bool.not_eq_true', reduceCtorEq, imp_false,
        Classical.not_imp, Bool.not_eq_false] at hnone
      have hstarted : (machine.moveTo (machine.registers.ip + .ofNat 1)).registers.privileged = false :=
        hnone.2
      rw [execute_refused hinstruction hnone.1 hstarted]
      exact ⟨_, rfl, rfl⟩

theorem admitted?_eq_some {instruction : Instruction} (h : machine.admitted? = some instruction) :
    machine.memory.ram.bytes[machine.registers.ip.toNat]? = some instruction.opcode ∧
      (instruction.privileged = true → machine.registers.privileged = true) := by
  unfold Machine.admitted? at h
  obtain ⟨opcode, hopcode, h⟩ := Option.bind_eq_some_iff.mp h
  obtain ⟨found, hfound, h⟩ := Option.bind_eq_some_iff.mp h
  split at h
  · cases h
  · rename_i hallowed
    cases h
    rw [Instruction.ofOpcode?_eq_some_iff.mp hfound]
    exact ⟨hopcode, by simpa using hallowed⟩

theorem step_stop_of_admitted (hmemory : machine.memory.IsRam) (hrunning : machine.halted = false)
    {instruction : Instruction} (hadmitted : machine.admitted? = some instruction)
    (hraise : instruction ≠ .raise) {fuel : Nat} {stop : Stop} {left : Machine σ}
    (hstep : step fuel machine = .error stop left) :
    ∃ next : UInt64, machine.registers.ip.toNat + 1 ≤ next.toNat ∧
      next.toNat ≤ machine.registers.ip.toNat + 1 + instruction.operandSize ∧
      ((∃ address, stop = .fault (.outOfBounds address machine.memory.size) ∧
          left = machine.ready instruction next) ∨
        ∃ operands, (Operation.ofInstruction instruction).run operands
          (machine.ready instruction next) = .error stop left) := by
  obtain ⟨hopcode, hallowed⟩ := admitted?_eq_some hadmitted
  have hinside : machine.registers.ip.toNat + 1 ≤ machine.memory.ram.bytes.size :=
    (Array.getElem?_eq_some_iff.mp hopcode).1
  let kinds := (Operation.ofInstruction instruction : Operation σ).kinds
  let started := machine.ready instruction (machine.registers.ip + .ofNat 1)
  have hnext := executeNext_of_opcode hmemory hrunning hopcode
    (Instruction.ofOpcode?_opcode instruction) hallowed
  have hsame : started.memory = machine.memory := (machine.agree_ready ..).memory
  have hram : started.memory.IsRam := hsame ▸ hmemory
  have hstart : started.registers.ip.toNat = machine.registers.ip.toNat + 1 :=
    toNat_ip_add hmemory hinside
  have hfits : started.registers.ip.toNat ≤ started.memory.ram.bytes.size := by
    rw [hstart, hsame]
    exact hinside
  have hrange := fetchOperands_range kinds hram hfits
  obtain ⟨ip, hfinal⟩ := moves_fetchOperands kinds started
  have hready : started.moveTo ip = machine.ready instruction ip := rfl
  rw [hfinal, hstart, show kinds = instruction.operands from Operation.kinds_ofInstruction instruction]
    at hrange
  refine ⟨ip, hrange.1, hrange.2, ?_⟩
  rw [hready] at hfinal
  rw [bind_apply] at hnext
  cases hfetch : fetchOperands kinds started with
  | error first after =>
    rw [hfetch] at hnext
    rw [step_of_error hnext] at hstep
    cases hstep
    obtain ⟨address, hstop⟩ := fetchOperands_stop hram hfits hfetch
    rw [final_of_error hfetch] at hfinal
    exact .inl ⟨address, hsame ▸ hstop, hfinal⟩
  | ok operands after =>
    rw [hfetch] at hnext
    rw [final_of_ok hfetch] at hfinal
    rw [hfinal] at hnext
    rw [step_of_operate hnext, perform, bind_apply] at hstep
    right
    refine ⟨operands, ?_⟩
    cases hrun : (Operation.ofInstruction instruction).run operands
        (machine.ready instruction ip) with
    | error first last =>
      rw [hrun] at hstep
      cases hstep
      rfl
    | ok _ last =>
      rw [hrun, Operation.raises_eq_none hraise] at hstep
      cases hstep

end Run

/-- A step that fails has done nothing by halves. Unless it raises an interrupt or calls a native
function, the machine it leaves differs in the instruction pointer, the stack and the host's state at
most. The stack has lost its top exactly if this was a value of the wrong type, which only two
instructions can find. The pointer stays on an opcode that is not admitted, and is else past the opcode
and no further than past the operands. The host's state shows the line of a machine that traces and
nothing else: no callback was made. -/
theorem failed_step_intact {σ : Type} (fuel : Nat) (machine left : Machine σ) (stop : Stop)
    (hmemory : machine.memory.IsRam)
    (hopcode : ∀ instruction ∈ [Instruction.raise, .callNative],
      machine.memory.ram.bytes[machine.registers.ip.toNat]? ≠ some instruction.opcode)
    (hstep : Run.step fuel machine = .error stop left) :
    ∃ cause, stop = .fault cause ∧
      left = { machine.moveTo left.registers.ip with stack := left.stack, world := left.world } ∧
      (cause.isMismatch = false → left.stack = machine.stack) ∧
      (cause.isMismatch = true →
        (machine.admitted? = some .popRegister ∨ machine.admitted? = some .ret) ∧
        ∃ value, machine.stack = { left.stack with values := left.stack.values.push value }) ∧
      match machine.admitted? with
      | none => left.registers.ip = machine.registers.ip ∧ left.world = machine.world
      | some instruction =>
        machine.registers.ip.toNat + 1 ≤ left.registers.ip.toNat ∧
        left.registers.ip.toNat ≤ machine.registers.ip.toNat + 1 + instruction.operandSize ∧
        left.world = (machine.traced machine.registers.ip instruction).world := by
  have hrunning : machine.halted = false := by
    cases hhalted : machine.halted with
    | false => rfl
    | true =>
      rw [Run.step_eq, Run.stepWith, Run.bind_apply, Run.executeNext_halted hhalted] at hstep
      cases hstep
  cases hadmitted : machine.admitted? with
  | none =>
    obtain ⟨cause, hnext, hmatched⟩ := Run.executeNext_of_unadmitted hmemory hrunning hadmitted
    rw [Run.step_of_error hnext] at hstep
    cases hstep
    refine ⟨cause, rfl, rfl, fun _ => rfl, fun hmismatch => ?_, rfl, rfl⟩
    simp [hmatched] at hmismatch
  | some instruction =>
    have hbyte := (Run.admitted?_eq_some hadmitted).1
    have hraise : instruction ≠ .raise := by
      rintro rfl
      exact hopcode _ (by decide) hbyte
    have hnative : instruction ≠ .callNative := by
      rintro rfl
      exact hopcode _ (by decide) hbyte
    obtain ⟨next, hlow, hhigh, hleft⟩ :=
      Run.step_stop_of_admitted hmemory hrunning hadmitted hraise hstep
    rw [machine.ready_eq instruction next] at hleft
    rcases hleft with ⟨address, rfl, rfl⟩ | ⟨operands, hrun⟩
    · exact ⟨_, rfl, rfl, fun _ => rfl, (fun hmismatch => by cases hmismatch), hlow, hhigh, rfl⟩
    · obtain ⟨cause, rfl, hsame, hpopped⟩ := Operation.declinesValue_run hnative operands _ _ _ hrun
      cases hmismatch : cause.isMismatch with
      | false =>
        obtain rfl := hsame hmismatch
        exact ⟨cause, rfl, rfl, fun _ => rfl, (fun h => by simp [hmismatch] at h), hlow, hhigh, rfl⟩
      | true =>
        obtain ⟨value, stack, hpop, rfl⟩ := hpopped hmismatch
        have htaker := Operation.mismatch_run hnative hrun hmismatch
        refine ⟨cause, rfl, rfl, (fun h => by simp [hmismatch] at h), fun _ => ⟨?_, value, ?_⟩,
          hlow, hhigh, rfl⟩
        · simpa using htaker
        · exact Stack.pop_eq_ok hpop

def Machine.aboutToPop : Machine Unit :=
  { Machine.boot { trace := true } ⟨⟨#[0x21, 3]⟩, none⟩ {} () with
    stack := ⟨#[.int 7, .text "seven"], none⟩ }

theorem failed_step_intact_popping :
    ∃ left, Run.step 0 Machine.aboutToPop = .error (.fault (.notNumeric .int "seven")) left ∧
      left = { Machine.aboutToPop.moveTo left.registers.ip with
        stack := left.stack, world := left.world } ∧
      (∃ value, Machine.aboutToPop.stack =
        { left.stack with values := left.stack.values.push value }) ∧
      1 ≤ left.registers.ip.toNat ∧ left.registers.ip.toNat ≤ 2 := by
  have hstep : Run.step 0 Machine.aboutToPop = .error (.fault (.notNumeric .int "seven"))
      ((Run.step 0).final Machine.aboutToPop) := rfl
  have hopcode : ∀ instruction ∈ [Instruction.raise, .callNative],
      Machine.aboutToPop.memory.ram.bytes[Machine.aboutToPop.registers.ip.toNat]? ≠
        some instruction.opcode := by decide
  obtain ⟨cause, hcause, hleft, -, hpopped, hlow, hhigh, -⟩ :=
    failed_step_intact 0 Machine.aboutToPop _ _ ⟨rfl, by decide⟩ hopcode hstep
  cases hcause
  exact ⟨_, hstep, hleft, (hpopped rfl).2, hlow, hhigh⟩

end RegisterMachine
