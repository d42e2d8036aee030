import RegisterMachine.Proofs.Decoding
import RegisterMachine.Proofs.StackEffect

/-!
How a native call takes its arguments and gives its result. The arguments are the topmost values of
the stack, the last one on top. They are popped and read from the last to the first, so a value that
does not read as its kind stops the call with the values below it left. The function is called only
when all of them are read, and then only the function itself and its result can fail.
-/
namespace RegisterMachine

def Machine.withValues {σ : Type} (machine : Machine σ) (values : List Value) : Machine σ :=
  { machine with stack := { machine.stack with values := values.toArray } }

theorem Machine.withValues_toList {σ : Type} (machine : Machine σ) :
    machine.withValues machine.stack.values.toList = machine := rfl

def Stack.place (limit : Option Nat) (values : List Value) (value : Value) :
    Except Fault (List Value) :=
  match limit with
  | none => .ok (values ++ [value])
  | some bound =>
    if values.length < bound then .ok (values ++ [value]) else .error (.stackOverflow bound)

/-- The values on the stack after a call, from what the function gave: the values below the
arguments, with the result on top if one is declared. -/
def Native.deliver {σ : Type} (native : Native σ) (name : String) (limit : Option Nat)
    (rest : List Value) : Except Fault (Option Value) → Except Fault (List Value)
  | .error cause => .error cause
  | .ok result =>
    match native.returns, result with
    | none, _ => .ok rest
    | some kind, none =>
      .error (.nativeFailed name ("declared " ++ kind.name ++ " return but produced none"))
    | some kind, some value =>
      match value.coerce kind with
      | .error cause => .error cause
      | .ok coerced => Stack.place limit rest coerced

theorem all_ok_or_last_error {ε α : Type} (results : List (Except ε α)) :
    (∃ values : List α, results = values.map .ok) ∨
      ∃ (earlier : List (Except ε α)) (cause : ε) (later : List α),
        results = earlier ++ .error cause :: later.map .ok := by
  induction results with
  | nil => exact .inl ⟨[], rfl⟩
  | cons result results ih =>
    rcases ih with ⟨values, rfl⟩ | ⟨earlier, cause, later, rfl⟩
    · cases result with
      | ok value => exact .inl ⟨value :: values, rfl⟩
      | error cause => exact .inr ⟨[], cause, values, rfl⟩
    · exact .inr ⟨result :: earlier, cause, later, rfl⟩

namespace Run

variable {σ : Type} {machine : Machine σ}

theorem pop_withValues (machine : Machine σ) (rest : List Value) (value : Value) :
    pop (machine.withValues (rest ++ [value])) = .ok value (machine.withValues rest) := by
  have hstack : (machine.withValues (rest ++ [value])).stack.pop =
      .ok (value, (machine.withValues rest).stack) := by
    unfold Machine.withValues
    rw [← List.push_toArray]
    exact Stack.pop_push rest.toArray value machine.stack.limit
  unfold pop
  rw [bind_apply, get_apply]
  dsimp only
  rw [hstack]
  rfl

theorem popArguments_coerced {kinds : List Kind} {rest args coerced : List Value}
    (hlength : args.length = kinds.length)
    (hcoerced : List.zipWith Value.coerce args kinds = coerced.map .ok) :
    popArguments kinds (machine.withValues (rest ++ args)) =
      .ok coerced (machine.withValues rest) := by
  induction kinds generalizing rest args coerced with
  | nil =>
    cases List.eq_nil_of_length_eq_zero hlength
    cases List.map_eq_nil_iff.mp hcoerced.symm
    rw [List.append_nil]
    rfl
  | cons kind kinds ih =>
    obtain ⟨value, args, rfl⟩ := List.exists_cons_of_length_eq_add_one hlength
    obtain ⟨argument, later, rfl, hargument, hlater⟩ := List.map_eq_cons_iff.mp hcoerced.symm
    unfold popArguments
    rw [bind_apply, List.append_cons, ih (by simpa using hlength) hlater.symm]
    dsimp only
    rw [bind_apply, pop_withValues]
    dsimp only
    rw [← hargument]
    rfl

theorem popArguments_failed {kinds : List Kind} {rest args later : List Value}
    {earlier : List (Except Fault Value)} {cause : Fault} (hlength : args.length = kinds.length)
    (hfailed : List.zipWith Value.coerce args kinds = earlier ++ .error cause :: later.map .ok) :
    popArguments kinds (machine.withValues (rest ++ args)) =
      .error (.fault cause) (machine.withValues (rest ++ args.take earlier.length)) := by
  induction kinds generalizing rest args earlier with
  | nil => simp at hfailed
  | cons kind kinds ih =>
    obtain ⟨value, args, rfl⟩ := List.exists_cons_of_length_eq_add_one hlength
    unfold popArguments
    rw [bind_apply, List.append_cons]
    cases earlier with
    | nil =>
      obtain ⟨hvalue, hlater⟩ := List.cons.inj hfailed
      rw [popArguments_coerced (by simpa using hlength) hlater]
      dsimp only
      rw [bind_apply, pop_withValues]
      dsimp only
      rw [hvalue, List.length_nil, List.take_zero, List.append_nil]
      rfl
    | cons result earlier =>
      obtain ⟨-, hlater⟩ := List.cons.inj hfailed
      rw [ih (by simpa using hlength) hlater]
      simp

theorem push_withValues (machine : Machine σ) (rest : List Value) (value : Value) :
    push value (machine.withValues rest) = match Stack.place machine.stack.limit rest value with
      | .ok values => .ok () (machine.withValues values)
      | .error cause => .error (.fault cause) (machine.withValues rest) := by
  have hstack : (machine.withValues rest).stack.push value =
      (Stack.place machine.stack.limit rest value).map fun values =>
        (machine.withValues values).stack := by
    unfold Stack.push Stack.place Machine.withValues Stack.size
    cases hlimit : machine.stack.limit with
    | none => simp [hlimit, Except.map]
    | some bound =>
      by_cases hroom : rest.length < bound
      · simp [hlimit, hroom, Nat.not_le.mpr hroom, Except.map]
      · simp [hroom, Nat.le_of_not_lt hroom, Except.map]
  unfold push
  rw [bind_apply, get_apply]
  dsimp only
  rw [hstack]
  cases Stack.place machine.stack.limit rest value <;> rfl

theorem invoke_of_native {name : String} {native : Native σ}
    (hnative : machine.host.natives.find? name = some native) (args : List Value) :
    invoke name args machine =
      ofExcept ((native.call args machine.world).1 >>= Native.conclude name native.returns)
        { machine with world := (native.call args machine.world).2 } := by
  unfold invoke Natives.invoke
  rw [bind_apply, get_apply]
  dsimp only
  rw [hnative]
  rfl

theorem invoke_deliver {name : String} {native : Native σ}
    (hnative : machine.host.natives.find? name = some native) (args rest : List Value) :
    (invoke name args >>= fun
      | some value => push value
      | none => pure ()) (machine.withValues rest) =
      let (result, world) := native.call args machine.world
      match native.deliver name machine.stack.limit rest result with
      | .ok values => .ok () { machine.withValues values with world }
      | .error cause => .error (.fault cause) { machine.withValues rest with world } := by
  have hinvoke : invoke name args (machine.withValues rest) =
      ofExcept ((native.call args machine.world).1 >>= Native.conclude name native.returns)
        ({ machine with world := (native.call args machine.world).2 }.withValues rest) := by
    have hsame : (machine.withValues rest).host.natives.find? name = some native := hnative
    exact invoke_of_native hsame args
  rw [bind_apply, hinvoke]
  obtain ⟨result, world⟩ := native.call args machine.world
  unfold Native.deliver
  cases result with
  | error cause => rfl
  | ok result =>
    cases native.returns with
    | none => rfl
    | some kind =>
      cases result with
      | none => rfl
      | some value =>
        dsimp only [bind, Except.bind, Native.conclude]
        cases value.coerce kind with
        | error cause => rfl
        | ok coerced =>
          dsimp only [Except.map, ofExcept_ok, pure_apply]
          rw [push_withValues]
          cases Stack.place machine.stack.limit rest coerced <;> rfl

section Call

variable {address size : UInt64} {name : String} {native : Native σ}
  (htext : machine.memory.readText address = .ok (name, size))
  (hnative : machine.host.natives.find? name = some native)
include htext hnative

theorem callNative_of_native :
    callNative address machine =
      if machine.stack.size < native.params.length then
        .error (.fault (.stackUnderflow native.params.length machine.stack.size)) machine
      else
        (popArguments native.params >>= fun args => invoke name args >>= fun
          | some value => push value
          | none => pure ()) machine := by
  have hname : readText address machine = .ok name machine := by
    rw [readText_apply, htext]
  unfold callNative
  rw [bind_apply, hname]
  dsimp only
  rw [bind_apply, get_apply]
  dsimp only
  rw [hnative]
  dsimp only
  split
  · rfl
  · rfl

variable {rest args : List Value} (hvalues : machine.stack.values.toList = rest ++ args)
  (hlength : args.length = native.params.length)
include hvalues hlength

theorem callNative_of_arguments :
    callNative address machine =
      (popArguments native.params >>= fun args => invoke name args >>= fun
        | some value => push value
        | none => pure ()) (machine.withValues (rest ++ args)) := by
  have henough : ¬machine.stack.size < native.params.length := by
    rw [← Stack.length_toList, hvalues, List.length_append]
    omega
  rw [callNative_of_native htext hnative, if_neg henough, ← hvalues, Machine.withValues_toList]

theorem callNative_coerced {coerced : List Value}
    (hcoerced : List.zipWith Value.coerce args native.params = coerced.map .ok) :
    callNative address machine =
      let (result, world) := native.call coerced machine.world
      match native.deliver name machine.stack.limit rest result with
      | .ok values => .ok () { machine.withValues values with world }
      | .error cause => .error (.fault cause) { machine.withValues rest with world } := by
  rw [callNative_of_arguments htext hnative hvalues hlength, bind_apply,
    popArguments_coerced hlength hcoerced]
  exact invoke_deliver hnative coerced rest

theorem callNative_failed {earlier : List (Except Fault Value)} {cause : Fault}
    {later : List Value}
    (hfailed : List.zipWith Value.coerce args native.params =
      earlier ++ .error cause :: later.map .ok) :
    callNative address machine =
      .error (.fault cause) (machine.withValues (rest ++ args.take earlier.length)) := by
  rw [callNative_of_arguments htext hnative hvalues hlength, bind_apply,
    popArguments_failed hlength hfailed]

end Call

theorem step_callNative {operand : Nat} (h : machine.Faces .callNative operand) (fuel : Nat) :
    step fuel machine = (callNative (.ofNat operand) >>= fun _ => pure .callNative)
      (machine.ready .callNative (machine.registers.ip + 9)) := by
  rw [step_of_faces h rfl rfl]
  dsimp only
  rw [UInt64.toUInt64_toInt64]

end Run

/-- A native call fails on too few values with the stack as it was. Otherwise the topmost values are
its arguments. If all of them read as the declared kinds, the function is called once with what was
read, and what it gives decides what lies on the rest of the stack. If not, the last argument that
does not read as its kind makes the call fail: it is gone with those above it, those below it stay,
and the function is not called. -/
theorem native_call_marshals {σ : Type} {machine : Machine σ} {operand : Nat} {name : String}
    {size : UInt64} {native : Native σ} (hfaces : machine.Faces .callNative operand)
    (htext : machine.memory.readText (.ofNat operand) = .ok (name, size))
    (hnative : machine.host.natives.find? name = some native) (fuel : Nat) :
    let ready := machine.ready .callNative (machine.registers.ip + 9)
    ready.stack = machine.stack ∧
    (machine.stack.size < native.params.length →
      Run.step fuel machine = .error
        (.fault (.stackUnderflow native.params.length machine.stack.size)) ready) ∧
    ∀ rest args, machine.stack.values.toList = rest ++ args → args.length = native.params.length →
      (∀ coerced, List.zipWith Value.coerce args native.params = coerced.map .ok →
        let (result, world) := native.call coerced ready.world
        Run.step fuel machine = match native.deliver name machine.stack.limit rest result with
          | .ok values => .ok .callNative { ready.withValues values with world }
          | .error cause => .error (.fault cause) { ready.withValues rest with world }) ∧
      ((∃ cause, .error cause ∈ List.zipWith Value.coerce args native.params) →
        ∃ (earlier : List (Except Fault Value)) (cause : Fault) (later : List Value),
          List.zipWith Value.coerce args native.params =
            earlier ++ .error cause :: later.map .ok ∧
          Run.step fuel machine =
            .error (.fault cause) (ready.withValues (rest ++ args.take earlier.length))) := by
  intro ready
  have hagree := machine.agree_ready .callNative (machine.registers.ip + 9)
  have hstack : ready.stack = machine.stack := hagree.stack (by decide)
  have hhost : ready.host.natives.find? name = some native := by
    rw [hagree.host]
    exact hnative
  have hname : ready.memory.readText (.ofNat operand) = .ok (name, size) := by
    rw [hagree.memory]
    exact htext
  rw [Run.step_callNative hfaces, Run.bind_apply, ← hstack]
  refine ⟨rfl, ?_, ?_⟩
  · intro hfew
    rw [Run.callNative_of_native hname hhost, if_pos hfew]
  intro rest args hvalues hlength
  refine ⟨?_, ?_⟩
  · intro coerced hcoerced
    rw [Run.callNative_coerced hname hhost hvalues hlength hcoerced]
    obtain ⟨result, world⟩ := native.call coerced ready.world
    dsimp only
    cases native.deliver name ready.stack.limit rest result <;> rfl
  · rintro ⟨found, hfound⟩
    rcases all_ok_or_last_error (List.zipWith Value.coerce args native.params) with
      ⟨coerced, hcoerced⟩ | ⟨earlier, cause, later, hfailed⟩
    · simp [hcoerced] at hfound
    · refine ⟨earlier, cause, later, hfailed, ?_⟩
      rw [Run.callNative_failed hname hhost hvalues hlength hfailed]

def Memory.nativeCall : Memory (List (List Value)) :=
  ⟨⟨#[0x29, 9, 0, 0, 0, 0, 0, 0, 0, 1, 0, 0, 0, 0x66]⟩, none⟩

/-- A function of a number and a text that is declared to give a number and gives the text. It keeps
the arguments of its calls. -/
def Native.recording : Native (List (List Value)) where
  params := [.int, .text]
  returns := some .int
  call := fun args calls => (.ok args.getLast?, args :: calls)

def Machine.marshalling (values : List Value) : Machine (List (List Value)) :=
  { Machine.boot {} Memory.nativeCall { natives := ⟨[("f", Native.recording)]⟩ } [] with
    stack := { values := values.toArray, limit := some 2 } }

theorem Memory.readText_nativeCall : Memory.nativeCall.readText 9 = .ok ("f", 5) := by rfl

theorem Machine.faces_marshalling (values : List Value) :
    (Machine.marshalling values).Faces .callNative 9 := by
  have hopcode : Memory.nativeCall.readWord 0 1 = .ok Instruction.callNative.opcode.toNat := by rfl
  have hoperand : Memory.nativeCall.readWord 1 8 = .ok 9 := by rfl
  exact ⟨rfl, hopcode, hoperand⟩

theorem native_call_marshals_marshalling :
    (∃ left, Run.step 0 (Machine.marshalling [.int 3]) =
        .error (.fault (.stackUnderflow 2 1)) left ∧
      left.stack.values = #[.int 3] ∧ left.world = []) ∧
    (∃ left, Run.step 0 (Machine.marshalling [.text "x", .int 7]) =
        .error (.fault (.notNumeric .int "x")) left ∧
      left.stack.values = #[] ∧ left.world = []) ∧
    ∃ left, Run.step 0 (Machine.marshalling [.text "5", .int 7]) = .ok .callNative left ∧
      left.stack.values = #[.int 7] ∧ left.world = [[.int 5, .text "7"]] := by
  have hnative (values : List Value) :
      (Machine.marshalling values).host.natives.find? "f" = some Native.recording := rfl
  have hmarshals (values : List Value) := native_call_marshals (Machine.faces_marshalling values)
    Memory.readText_nativeCall (hnative values) 0
  refine ⟨⟨_, (hmarshals [.int 3]).2.1 (by decide), rfl, rfl⟩, ?_, ?_⟩
  · have hresults : List.zipWith Value.coerce [.text "x", .int 7] Native.recording.params =
        [.error (.notNumeric .int "x"), .ok (.text "7")] := rfl
    obtain ⟨earlier, cause, later, hcoerced, hstep⟩ :=
      ((hmarshals [.text "x", .int 7]).2.2 [] _ rfl rfl).2 ⟨.notNumeric .int "x", .head _⟩
    rw [hresults] at hcoerced
    rcases earlier with _ | ⟨first, _ | ⟨second, more⟩⟩
    · cases (List.cons.inj hcoerced).1
      exact ⟨_, hstep, rfl, rfl⟩
    · simp at hcoerced
    · simp at hcoerced
  · have hstep := ((hmarshals [.text "5", .int 7]).2.2 [] _ rfl rfl).1 [.int 5, .text "7"] rfl
    exact ⟨_, hstep, rfl, rfl⟩

end RegisterMachine
