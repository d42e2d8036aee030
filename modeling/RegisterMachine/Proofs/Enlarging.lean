import RegisterMachine.Proofs.HostCall
import RegisterMachine.Proofs.Ram

/-!
More memory does not change a run that ends well. If whatever can be read from a memory reads the
same from a larger one, two machines that differ in nothing else go in lockstep: every fetch, read
and text that one finds in the smaller memory, the other finds in the larger one.
-/
namespace RegisterMachine

variable {σ α β : Type}

/-- The larger memory is no shorter, and reads whatever the other one reads. -/
structure Memory.Within (memory larger : Memory σ) : Prop where
  size : memory.size ≤ larger.size
  read : ∀ address byte, memory.read address = .ok byte → larger.read address = .ok byte

theorem Ram.read_eq_ok {ram : Ram} {address : UInt64} {byte : UInt8} :
    ram.read address = .ok byte ↔ ram.bytes[address.toNat]? = some byte := by
  unfold Ram.read
  cases ram.bytes[address.toNat]? <;> simp

namespace Memory.Within

variable {memory larger largest : Memory σ}

theorem trans (h : memory.Within larger) (h' : larger.Within largest) : memory.Within largest :=
  ⟨UInt64.le_trans h.size h'.size, fun address byte hread =>
    h'.read address byte (h.read address byte hread)⟩

theorem of_declining {ram : Ram} {hooks : Hooks σ}
    (h : ∀ address, hooks.read ram address = none) :
    (⟨ram, none⟩ : Memory σ).Within ⟨ram, some hooks⟩ := by
  refine ⟨UInt64.le_refl _, fun address byte hread => ?_⟩
  unfold Memory.read
  rw [Option.bind_some, h address]
  exact hread

theorem of_padding (image : Array UInt8) {size longer : Nat} (hsize : size ≤ longer)
    (hfits : max image.size longer < Word.count 8) :
    (⟨Ram.load image size, none⟩ : Memory σ).Within ⟨Ram.load image longer, none⟩ := by
  have hbytes : ∀ size, (Ram.load image size).bytes.size = max image.size size := by
    intro size
    unfold Ram.load
    rw [Array.size_append, Array.size_replicate]
    omega
  refine ⟨?_, fun address byte hread => ?_⟩
  · unfold Memory.size Ram.size
    rw [UInt64.le_iff_toNat_le, toNat_ofNat_of_lt (by rw [hbytes]; omega),
      toNat_ofNat_of_lt (by rw [hbytes]; exact hfits), hbytes, hbytes]
    omega
  · refine Ram.read_eq_ok.mpr ?_
    have hbyte : (Ram.load image size).bytes[address.toNat]? = some byte := Ram.read_eq_ok.mp hread
    unfold Ram.load at hbyte ⊢
    simp only [Array.getElem?_append, Array.getElem?_replicate] at hbyte ⊢
    grind

theorem addressAt (_ : memory.Within larger) {start address : UInt64} {offset : Nat}
    (hat : memory.addressAt start offset = .ok address) :
    larger.addressAt start offset = .ok address := by
  unfold Memory.addressAt at hat ⊢
  split at hat
  · rename_i hfits
    rw [if_pos hfits]
    exact hat
  · cases hat

theorem readFrom (h : memory.Within larger) {start : UInt64} {offset count : Nat}
    {bytes : List UInt8} (hread : memory.readFrom start offset count = (bytes, .ok ())) :
    larger.readFrom start offset count = (bytes, .ok ()) := by
  induction count generalizing offset bytes with
  | zero => exact hread
  | succ count ih =>
    unfold Memory.readFrom at hread ⊢
    cases haddress : memory.addressAt start offset with
    | error cause =>
      rw [haddress] at hread
      cases hread
    | ok address =>
      rw [haddress] at hread
      rw [h.addressAt haddress]
      have hbind : ∀ read : UInt64 → Except Fault UInt8,
          (Except.ok address >>= read) = read address := fun _ => rfl
      rw [hbind] at hread ⊢
      cases hbyte : memory.read address with
      | error cause =>
        rw [hbyte] at hread
        cases hread
      | ok byte =>
        rw [hbyte] at hread
        rw [h.read address byte hbyte]
        dsimp only at hread ⊢
        obtain ⟨hbytes, hok⟩ := Prod.mk.inj hread
        rw [ih (Prod.ext rfl hok), ← hbytes]

theorem readBytes (h : memory.Within larger) {start : UInt64} {count : Nat} {bytes : List UInt8}
    (hread : memory.readBytes start count = .ok bytes) :
    larger.readBytes start count = .ok bytes := by
  unfold Memory.readBytes at hread ⊢
  cases hfrom : memory.readFrom start 0 count with
  | mk found outcome =>
    rw [hfrom] at hread
    cases outcome with
    | error cause => cases hread
    | ok _ =>
      rw [h.readFrom hfrom]
      exact hread

theorem readWord (h : memory.Within larger) {address : UInt64} {width n : Nat}
    (hread : memory.readWord address width = .ok n) : larger.readWord address width = .ok n := by
  unfold Memory.readWord at hread ⊢
  cases hbytes : memory.readBytes address width with
  | error cause =>
    rw [hbytes] at hread
    cases hread
  | ok bytes =>
    rw [h.readBytes hbytes, ← hbytes]
    exact hread

/-- The end of a text is compared with the size of the memory, which only grows. -/
theorem readText (h : memory.Within larger) {address : UInt64} {result : String × UInt64}
    (hread : memory.readText address = .ok result) : larger.readText address = .ok result := by
  unfold Memory.readText at hread ⊢
  cases hlength : memory.readWord address 4 with
  | error cause =>
    rw [hlength] at hread
    cases hread
  | ok length =>
    rw [hlength] at hread
    rw [h.readWord hlength]
    cases hbody : memory.addressAt address 4 with
    | error cause =>
      rw [hbody] at hread
      cases hread
    | ok body =>
      rw [hbody] at hread
      rw [h.addressAt hbody]
      change (if memory.size.toNat < body.toNat + length then _ else _) = _ at hread
      change (if larger.size.toNat < body.toNat + length then _ else _) = _
      have hsize := UInt64.le_iff_toNat_le.mp h.size
      split at hread
      · cases hread
      · rw [if_neg (by omega)]
        cases hbytes : memory.readBytes body length with
        | error cause =>
          rw [hbytes] at hread
          cases hread
        | ok bytes =>
          rw [hbytes] at hread
          rw [h.readBytes hbytes]
          exact hread

end Memory.Within

def Machine.withMemory (machine : Machine σ) (memory : Memory σ) : Machine σ :=
  { machine with memory }

namespace Machine

theorem enterInterrupt_withMemory (machine : Machine σ) (memory : Memory σ) (number : UInt8) :
    (machine.withMemory memory).enterInterrupt number =
      (machine.enterInterrupt number).withMemory memory := by
  unfold enterInterrupt withMemory
  dsimp only
  cases machine.host.observer <;> rfl

end Machine

namespace Run

variable {memory larger : Memory σ}

/-- Wherever the run ends well over the one memory, it ends in the same way over the other, and it
leaves the memory alone. -/
def CarriesOver (memory larger : Memory σ) (run : Run σ α) : Prop :=
  ∀ ⦃machine left : Machine σ⦄ ⦃a : α⦄, machine.memory = memory → run machine = .ok a left →
    left.memory = memory ∧ run (machine.withMemory larger) = .ok a (left.withMemory larger)

theorem CarriesOver.bind {run : Run σ α} {next : α → Run σ β} (hrun : run.CarriesOver memory larger)
    (hnext : ∀ a, (next a).CarriesOver memory larger) : (run >>= next).CarriesOver memory larger := by
  intro machine left b hmemory h
  obtain ⟨a, after, hfirst, hsecond⟩ := bind_eq_ok.mp h
  obtain ⟨hafter, hrun'⟩ := hrun hmemory hfirst
  obtain ⟨hleft, hnext'⟩ := hnext a hafter hsecond
  exact ⟨hleft, bind_eq_ok.mpr ⟨a, _, hrun', hnext'⟩⟩

theorem carries_pure (a : α) : (pure a : Run σ α).CarriesOver memory larger := by
  intro machine left b hmemory h
  cases h
  exact ⟨hmemory, rfl⟩

theorem carries_fail (cause : Fault) : (fail cause : Run σ α).CarriesOver memory larger := by
  intro machine left a hmemory h
  cases h

theorem carries_ofExcept (result : Except Fault α) :
    (ofExcept result : Run σ α).CarriesOver memory larger := by
  cases result with
  | ok a => exact carries_pure a
  | error cause => exact carries_fail cause

theorem carries_get {next : Machine σ → Run σ α}
    (hsame : ∀ machine : Machine σ, next (machine.withMemory larger) = next machine)
    (hnext : ∀ machine, (next machine).CarriesOver memory larger) :
    (get >>= next).CarriesOver memory larger := by
  intro machine left a hmemory h
  rw [bind_apply, get_apply] at h ⊢
  dsimp only at h ⊢
  rw [hsame]
  exact hnext machine hmemory h

theorem carries_modify {change : Machine σ → Machine σ}
    (hmemory : ∀ machine, (change machine).memory = machine.memory)
    (hchange : ∀ machine : Machine σ,
      change (machine.withMemory larger) = (change machine).withMemory larger) :
    (modify change : Run σ PUnit).CarriesOver memory larger := by
  intro machine left _ hmachine h
  cases h
  refine ⟨(hmemory machine).trans hmachine, ?_⟩
  rw [modify_apply, hchange]

theorem carries_ite {condition : Prop} [Decidable condition] {yes no : Run σ α}
    (hyes : yes.CarriesOver memory larger) (hno : no.CarriesOver memory larger) :
    (if condition then yes else no).CarriesOver memory larger := by
  split
  · exact hyes
  · exact hno

theorem carries_jump (address : UInt64) : (jump address : Run σ Unit).CarriesOver memory larger :=
  carries_modify (fun _ => rfl) fun _ => rfl

theorem carries_log (level : Level) (message : String) :
    (log level message : Run σ Unit).CarriesOver memory larger :=
  carries_modify (fun _ => rfl) fun _ => rfl

theorem carries_setFlag (flag : Flag) (value : Bool) :
    (setFlag flag value : Run σ Unit).CarriesOver memory larger :=
  carries_modify (fun _ => rfl) fun _ => rfl

theorem carries_compare (a b : Int64) : (compare a b : Run σ Unit).CarriesOver memory larger :=
  carries_modify (fun _ => rfl) fun _ => rfl

theorem carries_getRegister (index : UInt8) :
    (getRegister index : Run σ Int64).CarriesOver memory larger :=
  carries_get (fun _ => rfl) fun _ => carries_ofExcept _

theorem carries_setRegister (index : UInt8) (value : Int64) :
    (setRegister index value : Run σ Unit).CarriesOver memory larger :=
  carries_get (fun _ => rfl) fun _ => (carries_ofExcept _).bind fun _ =>
    carries_modify (fun _ => rfl) fun _ => rfl

theorem carries_setStack (stack : Stack) :
    (modify fun machine => { machine with stack } : Run σ PUnit).CarriesOver memory larger :=
  carries_modify (fun _ => rfl) fun _ => rfl

theorem carries_push (value : Value) : (push value : Run σ Unit).CarriesOver memory larger :=
  carries_get (fun _ => rfl) fun _ => (carries_ofExcept _).bind carries_setStack

theorem carries_pop : (pop : Run σ Value).CarriesOver memory larger := by
  refine carries_get (fun _ => rfl) fun _ => (carries_ofExcept _).bind ?_
  rintro ⟨value, stack⟩
  exact (carries_setStack stack).bind fun _ => carries_pure value

theorem carries_popAs (α : Type) [OfValue α] : (popAs α : Run σ α).CarriesOver memory larger := by
  refine carries_get (fun _ => rfl) fun machine => ?_
  obtain ⟨result, stack⟩ := machine.stack.popAs α
  exact (carries_setStack stack).bind fun _ => carries_ofExcept result

theorem carries_fetch (h : memory.Within larger) (width : Nat) :
    (fetch width : Run σ Nat).CarriesOver memory larger := by
  intro machine left n hmemory hfetch
  rw [fetch_apply] at hfetch ⊢
  split at hfetch
  · rename_i m hword
    cases hfetch
    rw [hmemory] at hword
    have hlarger : (machine.withMemory larger).memory.readWord
        (machine.withMemory larger).registers.ip width = .ok n := h.readWord hword
    refine ⟨hmemory, ?_⟩
    rw [hlarger]
    rfl
  · cases hfetch

theorem carries_read (h : memory.Within larger) (width : Nat) (address : UInt64) :
    (read width address : Run σ Nat).CarriesOver memory larger := by
  intro machine left n hmemory hread
  unfold read at hread ⊢
  rw [bind_apply, get_apply] at hread ⊢
  obtain ⟨hword, rfl⟩ := ofExcept_eq_ok.mp hread
  rw [hmemory] at hword
  exact ⟨hmemory, ofExcept_eq_ok.mpr ⟨h.readWord hword, rfl⟩⟩

theorem carries_readText (h : memory.Within larger) (address : UInt64) :
    (readText address : Run σ String).CarriesOver memory larger := by
  intro machine left text hmemory hread
  unfold readText at hread ⊢
  rw [bind_apply, get_apply] at hread ⊢
  dsimp only at hread ⊢
  obtain ⟨result, same, hfound, hpure⟩ := bind_eq_ok.mp hread
  obtain ⟨htext, rfl⟩ := ofExcept_eq_ok.mp hfound
  cases hpure
  rw [hmemory] at htext
  exact ⟨hmemory, bind_eq_ok.mpr ⟨result, _, ofExcept_eq_ok.mpr ⟨h.readText htext, rfl⟩, rfl⟩⟩

theorem carries_jumpIfAny (flags : List Flag) (address : Int64) :
    (jumpIfAny flags address : Run σ Unit).CarriesOver memory larger :=
  carries_get (fun _ => rfl) fun _ => carries_ite (carries_jump _) (carries_pure _)

theorem carries_jumpNotEqual (address : Int64) :
    (jumpNotEqual address : Run σ Unit).CarriesOver memory larger :=
  carries_get (fun _ => rfl) fun _ => carries_ite (carries_jump _) (carries_pure _)

theorem carries_call (address : UInt64) :
    (call address : Run σ Unit).CarriesOver memory larger :=
  carries_get (fun _ => rfl) fun _ => (carries_push _).bind fun _ =>
    carries_modify (fun _ => rfl) fun _ => rfl

theorem carries_ret : (ret : Run σ Unit).CarriesOver memory larger :=
  carries_get (fun _ => rfl) fun _ => carries_ite (carries_fail _)
    ((carries_popAs UInt64).bind fun _ => carries_modify (fun _ => rfl) fun _ => rfl)

theorem carries_out (port data : UInt64) :
    (out port data : Run σ Unit).CarriesOver memory larger := by
  apply carries_modify
  · intro machine
    split <;> rfl
  · intro machine
    unfold Machine.withMemory
    dsimp only
    split <;> rfl

theorem carries_input (port : UInt64) :
    (input port : Run σ UInt64).CarriesOver memory larger := by
  intro machine left data hmemory h
  unfold input at h ⊢
  rw [modifyGet_apply] at h ⊢
  unfold Machine.withMemory
  dsimp only at h ⊢
  cases hport : machine.host.ports.find? port with
  | none =>
    rw [hport] at h
    cases h
    exact ⟨hmemory, rfl⟩
  | some device =>
    rw [hport] at h
    cases h
    exact ⟨hmemory, rfl⟩

theorem carries_reset : (reset : Run σ Unit).CarriesOver memory larger :=
  carries_modify (fun _ => rfl) fun _ => rfl

theorem carries_breakpoint : (breakpoint : Run σ Unit).CarriesOver memory larger := by
  intro machine left _ hmemory h
  unfold breakpoint at h ⊢
  rw [bind_apply, get_apply] at h ⊢
  unfold Machine.withMemory
  dsimp only at h ⊢
  cases hhook : machine.host.breakpoint with
  | none =>
    rw [hhook] at h
    cases h
    exact ⟨hmemory, rfl⟩
  | some hook =>
    rw [hhook] at h
    cases h
    exact ⟨hmemory, rfl⟩

theorem carries_popArguments (kinds : List Kind) :
    (popArguments kinds : Run σ (List Value)).CarriesOver memory larger := by
  induction kinds with
  | nil => exact carries_pure []
  | cons kind kinds ih =>
    exact ih.bind fun _ => carries_pop.bind fun _ => (carries_ofExcept _).bind fun _ =>
      carries_pure _

theorem carries_invoke (name : String) (args : List Value) :
    (invoke name args : Run σ (Option Value)).CarriesOver memory larger := by
  intro machine left result hmemory h
  unfold invoke at h ⊢
  simp only [bind_apply, get_apply, set_apply] at h ⊢
  obtain ⟨hresult, rfl⟩ := ofExcept_eq_ok.mp h
  exact ⟨hmemory, ofExcept_eq_ok.mpr ⟨hresult, rfl⟩⟩

theorem carries_callNative (h : memory.Within larger) (address : UInt64) :
    (callNative address : Run σ Unit).CarriesOver memory larger := by
  refine (carries_readText h address).bind fun name => carries_get (fun _ => rfl) fun machine => ?_
  cases machine.host.natives.find? name with
  | none => exact carries_fail _
  | some native =>
    refine carries_ite (carries_fail _) ?_
    refine (carries_popArguments native.params).bind fun args => ?_
    refine (carries_invoke name args).bind fun result => ?_
    cases result with
    | none => exact carries_pure _
    | some value => exact carries_push value

end Run

open Run in
theorem Operation.carries_run {memory larger : Memory σ} (h : memory.Within larger)
    (instruction : Instruction)
    (operands : Operands (ofInstruction instruction : Operation σ).kinds) :
    ((ofInstruction instruction).run operands).CarriesOver memory larger := by
  cases instruction with
  | nop | testPrivilege => exact carries_pure ()
  | raise => exact carries_pure ()
  | reset => exact carries_reset
  | halt | setHandler => exact carries_modify (fun _ => rfl) fun _ => rfl
  | breakpoint => exact carries_breakpoint
  | disableInterrupts | enableInterrupts | dropPrivilege => exact carries_setFlag _ _
  | compareRegisters =>
    exact (carries_getRegister _).bind fun _ => (carries_getRegister _).bind fun _ =>
      carries_compare _ _
  | compareWord => exact (carries_getRegister _).bind fun _ => carries_compare _ _
  | jump => exact carries_jump _
  | jumpRegister => exact (carries_getRegister _).bind fun _ => carries_jump _
  | jumpNotEqual => exact carries_jumpNotEqual _
  | jumpEqual | jumpLessEqual | jumpGreaterEqual | jumpLess | jumpGreater =>
    exact carries_jumpIfAny _ _
  | addWord | subtractWord | moveRegister =>
    exact (carries_getRegister _).bind fun _ => carries_setRegister _ _
  | addRegister | subtractRegister =>
    exact (carries_getRegister _).bind fun _ => (carries_getRegister _).bind fun _ =>
      carries_setRegister _ _
  | moveWord => exact carries_setRegister _ _
  | readByte | readHalf =>
    exact (carries_getRegister _).bind fun _ => (carries_read h _ _).bind fun _ =>
      carries_setRegister _ _
  | outWord => exact carries_out _ _
  | outRegister => exact (carries_getRegister _).bind fun _ => carries_out _ _
  | input =>
    exact (carries_getRegister _).bind fun _ => (carries_input _).bind fun _ =>
      carries_setRegister _ _
  | pushWord => exact carries_push _
  | pushRegister => exact (carries_getRegister _).bind fun _ => carries_push _
  | pop => exact carries_pop.bind fun _ => carries_pure _
  | popRegister =>
    exact (carries_getRegister _).bind fun _ => (carries_popAs Int64).bind fun _ =>
      carries_setRegister _ _
  | call => exact carries_call _
  | callRegister => exact (carries_getRegister _).bind fun _ => carries_call _
  | ret => exact carries_ret
  | printPrivilege => exact carries_get (fun _ => rfl) fun _ => carries_log _ _
  | pushText => exact (carries_readText h _).bind fun _ => carries_push _
  | callNative => exact carries_callNative h _

namespace Run

variable {memory larger : Memory σ}

theorem carries_fetchOperand (h : memory.Within larger) (kind : OperandKind) :
    (fetchOperand kind : Run σ kind.Carrier).CarriesOver memory larger := by
  cases kind with
  | register => exact (carries_fetch h 1).bind fun _ => carries_pure _
  | byte => exact (carries_fetch h 1).bind fun _ => carries_pure _
  | word => exact (carries_fetch h 8).bind fun _ => carries_pure _

theorem carries_fetchOperands (h : memory.Within larger) (kinds : List OperandKind) :
    (fetchOperands kinds : Run σ (Operands kinds)).CarriesOver memory larger := by
  induction kinds with
  | nil => exact carries_pure ()
  | cons kind kinds ih =>
    exact (carries_fetchOperand h kind).bind fun _ => ih.bind fun _ => carries_pure _

theorem carries_execute (h : memory.Within larger) (offset : UInt64) (opcode : UInt8) :
    (execute offset opcode : Run σ (Instruction × Option UInt8)).CarriesOver memory larger := by
  unfold execute
  cases Instruction.ofOpcode? opcode with
  | none => exact (carries_jump offset).bind fun _ => carries_fail _
  | some instruction =>
    refine carries_get (fun _ => rfl) fun machine => carries_ite ?_ ?_
    · exact (carries_jump offset).bind fun _ => carries_fail _
    · have htrace : (trace offset instruction : Run σ Unit).CarriesOver memory larger :=
        carries_get (fun _ => rfl) fun _ => carries_ite (carries_log _ _) (carries_pure _)
      exact htrace.bind fun _ => (carries_fetchOperands h _).bind fun operands =>
        (Operation.carries_run h instruction operands).bind fun _ => carries_pure _

theorem carries_executeNext (h : memory.Within larger) :
    (executeNext : Run σ (Instruction × Option UInt8)).CarriesOver memory larger :=
  carries_get (fun _ => rfl) fun _ => carries_ite (carries_pure _)
    ((carries_fetch h 1).bind fun _ => carries_execute h _ _)

theorem carries_untilDepth {step : Run σ Instruction} (hstep : step.CarriesOver memory larger)
    (number : UInt8) (depth : UInt64) (bound : Nat) :
    (untilDepth step number depth bound).CarriesOver memory larger := by
  induction bound with
  | zero =>
    refine carries_get (fun _ => rfl) fun _ => carries_ite (carries_pure _) ?_
    intro machine left a hmemory hthrow
    cases hthrow
  | succ bound ih =>
    refine carries_get (fun _ => rfl) fun _ => carries_ite (carries_pure _) ?_
    refine hstep.bind fun _ => carries_get (fun _ => rfl) fun _ => ?_
    exact carries_ite (carries_fail _) ih

theorem carries_dispatchWith {step : Run σ Instruction} (hstep : step.CarriesOver memory larger)
    (bound : Nat) (number : UInt8) (address : UInt64) :
    (dispatchWith step bound number address).CarriesOver memory larger :=
  (carries_log _ _).bind fun _ => carries_get (fun _ => rfl) fun _ =>
    (carries_call address).bind fun _ => carries_untilDepth hstep number _ bound

theorem carries_interruptWith {step : Run σ Instruction} (hstep : step.CarriesOver memory larger)
    (bound : Nat) (number : UInt8) :
    (interruptWith step bound number).CarriesOver memory larger := by
  intro machine left _ hmemory h
  cases henabled : machine.registers.interruptsEnabled with
  | false =>
    rw [interruptWith_disabled step bound number henabled] at h
    cases h
    exact ⟨hmemory, interruptWith_disabled step bound number henabled⟩
  | true =>
    have hentered : (machine.enterInterrupt number).memory = memory :=
      (machine.agree_enterInterrupt number).memory.trans hmemory
    have hlarger : (machine.withMemory larger).registers.interruptsEnabled = true := henabled
    rw [interruptWith_enabled step bound number hlarger, Machine.enterInterrupt_withMemory]
    rcases interruptWith_eq_ok henabled h with ⟨hnone, rfl⟩ | ⟨address, after, hfind, hrun, rfl⟩
    · have hlookup : ((machine.enterInterrupt number).withMemory larger).handlers.find? number =
          none := hnone
      rw [hlookup]
      exact ⟨hentered, rfl⟩
    · obtain ⟨hafter, hrun'⟩ := carries_dispatchWith hstep bound number address hentered hrun
      have hlookup : ((machine.enterInterrupt number).withMemory larger).handlers.find? number =
          some address := hfind
      rw [hlookup]
      dsimp only
      rw [hrun']
      exact ⟨hafter, rfl⟩

theorem carries_stepWith (h : memory.Within larger) {take : UInt8 → Run σ Unit}
    (htake : ∀ number, (take number).CarriesOver memory larger) :
    (stepWith take).CarriesOver memory larger := by
  refine (carries_executeNext h).bind ?_
  rintro ⟨instruction, raised⟩
  cases raised with
  | none => exact carries_pure _
  | some number => exact (htake number).bind fun _ => carries_pure _

/-- By induction on the fuel, since a step may hold the steps of a handler. -/
theorem carries_step (h : memory.Within larger) (fuel : Nat) :
    (step fuel : Run σ Instruction).CarriesOver memory larger := by
  induction fuel with
  | zero =>
    refine carries_stepWith h fun number machine left _ _ hthrow => ?_
    cases hthrow
  | succ fuel ih => exact carries_stepWith h fun number => carries_interruptWith ih fuel number

theorem carries_runFrom (h : memory.Within larger) (fuel count limit : Nat) :
    (runFrom fuel count limit : Run σ Nat).CarriesOver memory larger := by
  induction limit generalizing count with
  | zero => exact carries_pure count
  | succ limit ih =>
    exact carries_get (fun _ => rfl) fun _ => carries_ite (carries_pure count)
      ((carries_step h fuel).bind fun _ => ih (count + 1))

theorem carries_hostCall (h : memory.Within larger) (call : HostCall) :
    (call.run : Run σ Answer).CarriesOver memory larger := by
  cases call with
  | step fuel => exact (carries_step h fuel).bind fun _ => carries_pure _
  | runFor fuel limit => exact (carries_runFrom h fuel 0 limit).bind fun _ => carries_pure _
  | interrupt fuel number =>
    exact (carries_interruptWith (carries_step h fuel) fuel number).bind fun _ => carries_pure _
  | reset => exact carries_reset.bind fun _ => carries_pure _

theorem carries_answers (h : memory.Within larger) (calls : List HostCall) :
    (answers calls : Run σ (List Answer)).CarriesOver memory larger := by
  induction calls with
  | nil => exact carries_pure []
  | cons call calls ih =>
    exact (carries_hostCall h call).bind fun _ => ih.bind fun _ => carries_pure _

end Run

/-- Calls that all end well give the same answers over a larger memory and leave a machine that
differs in the memory alone: registers, stack, handlers and the state of the host, which shows the
callbacks that were made, are the same. -/
theorem larger_memory_same_run (machine left : Machine σ) (larger : Memory σ)
    (hwithin : machine.memory.Within larger) (calls : List HostCall) (answers : List Answer)
    (h : Run.answers calls machine = .ok answers left) :
    Run.answers calls (machine.withMemory larger) = .ok answers (left.withMemory larger) :=
  (Run.carries_answers hwithin calls rfl h).2

/-- A machine that pushes the text at the very end of its memory, raises interrupt 2 and halts. Its
host notes the interrupts. -/
def Machine.snug : Machine (List UInt8) :=
  let image := #[0x28, 13, 0, 0, 0, 0, 0, 0, 0, 0x05, 2, 0x02, 0x24, 2, 0, 0, 0, 0x68, 0x69]
  { Machine.boot {} ⟨Ram.load image 0, none⟩
      { observer := some fun number registers seen => (registers, number :: seen) } [] with
    handlers := ⟨[(2, 12)]⟩ }

/-- The memory of `Machine.snug` with zeros after it, behind hooks that decline every address. -/
def Memory.roomy : Memory (List UInt8) where
  ram := Ram.load Machine.snug.memory.ram.bytes 64
  hooks := some ⟨fun _ _ => none, fun ram _ _ seen => (false, ram, seen)⟩

theorem larger_memory_same_run_snug :
    Machine.snug.memory.Within Memory.roomy ∧
    ∃ left, left.world = [2, 2] ∧
      Run.answers [.step 0, .interrupt 3 2, .runFor 3 9] Machine.snug =
        .ok [.executed .pushText, .done, .counted 2] left ∧
      Run.answers [.step 0, .interrupt 3 2, .runFor 3 9] (Machine.snug.withMemory Memory.roomy) =
        .ok [.executed .pushText, .done, .counted 2] (left.withMemory Memory.roomy) := by
  have hwithin : Machine.snug.memory.Within Memory.roomy :=
    (Memory.Within.of_padding Machine.snug.memory.ram.bytes (Nat.zero_le 64) (by decide)).trans
      (.of_declining fun _ => rfl)
  have hvalue : (Run.answers [.step 0, .interrupt 3 2, .runFor 3 9]).value? Machine.snug =
      some [.executed .pushText, .done, .counted 2] := by
    decide +kernel
  have hworld : ((Run.answers [.step 0, .interrupt 3 2, .runFor 3 9]).final Machine.snug).world =
      [2, 2] := by
    decide +kernel
  have hleft := Run.eq_ok_of_value? hvalue
  exact ⟨hwithin, _, hworld, hleft,
    larger_memory_same_run Machine.snug _ Memory.roomy hwithin _ _ hleft⟩

end RegisterMachine
