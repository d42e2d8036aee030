import RegisterMachine.Proofs.Execution

/-!
What instructions do to the stack of values. All but a reset work at its top: some put a value on it,
some take one, a native call takes its arguments and puts its result. Below that nothing changes, so
the stack before and the stack after have a common lower part, which `Stack.Below` speaks of.
-/
namespace RegisterMachine

namespace Stack

structure Below (lower upper : Stack) : Prop where
  limit : upper.limit = lower.limit
  values : lower.values.toList <+: upper.values.toList

variable {lower middle upper stack after rest : Stack} {value : Value}

theorem length_toList (stack : Stack) : stack.values.toList.length = stack.size :=
  Array.length_toList

namespace Below

theorem refl (stack : Stack) : stack.Below stack := ⟨rfl, List.prefix_refl _⟩

theorem trans (h : lower.Below middle) (h' : middle.Below upper) : lower.Below upper :=
  ⟨h'.limit.trans h.limit, h.values.trans h'.values⟩

theorem size_le (h : lower.Below upper) : lower.size ≤ upper.size := by
  simpa only [length_toList] using h.values.length_le

theorem of_size_le (h : lower.Below upper) (h' : middle.Below upper)
    (hsize : lower.size ≤ middle.size) : lower.Below middle := by
  refine ⟨h'.limit.symm.trans h.limit, ?_⟩
  apply List.prefix_of_prefix_length_le h.values h'.values
  simpa only [length_toList] using hsize

theorem eq_of_size_le (h : lower.Below upper) (hsize : upper.size ≤ lower.size) :
    lower = upper := by
  have hvalues : lower.values.toList = upper.values.toList := by
    apply h.values.eq_of_length_le
    simpa only [length_toList] using hsize
  obtain ⟨values, limit⟩ := lower
  obtain ⟨others, _⟩ := upper
  cases h.limit
  cases Array.toList_inj.mp hvalues
  rfl

end Below

theorem push_eq_ok (h : stack.push value = .ok after) :
    after = { stack with values := stack.values.push value } := by
  unfold push at h
  split at h
  · split at h
    · cases h
    · exact (Except.ok.inj h).symm
  · exact (Except.ok.inj h).symm

theorem below_push (h : stack.push value = .ok after) : stack.Below after := by
  rw [push_eq_ok h]
  refine ⟨rfl, ?_⟩
  rw [Array.toList_push]
  exact List.prefix_append _ _

theorem size_push (h : stack.push value = .ok after) : after.size = stack.size + 1 := by
  rw [push_eq_ok h]
  exact Array.size_push value

theorem pop_push (values : Array Value) (value : Value) (limit : Option Nat) :
    pop ⟨values.push value, limit⟩ = .ok (value, ⟨values, limit⟩) := by
  have hsize : 0 < (values.push value).size := by
    rw [Array.size_push]
    omega
  have herase : (values.push value).eraseIdx values.size (by simp) = values := by
    apply Array.toList_inj.mp
    rw [Array.toList_eraseIdx, Array.toList_push, ← Array.length_toList,
      List.eraseIdx_append_of_length_le (Nat.le_refl _)]
    simp
  unfold pop popAt size
  rw [dif_pos hsize]
  simp only [Array.size_push, Nat.add_sub_cancel, Nat.sub_zero, herase, Array.getElem_push_eq]

theorem pop_of_push (h : stack.push value = .ok after) : after.pop = .ok (value, stack) := by
  rw [push_eq_ok h]
  exact pop_push stack.values value stack.limit

theorem pop_eq_ok (h : stack.pop = .ok (value, rest)) :
    stack = { rest with values := rest.values.push value } := by
  obtain ⟨values, limit⟩ := stack
  rcases Nat.eq_zero_or_pos values.size with hempty | hsize
  · cases Array.eq_empty_of_size_eq_zero hempty
    cases h
  · obtain ⟨lower, top, rfl⟩ := Array.exists_push_of_size_pos hsize
    rw [pop_push] at h
    cases h
    rfl

theorem below_pop (h : stack.pop = .ok (value, rest)) : rest.Below stack := by
  rw [pop_eq_ok h]
  exact ⟨rfl, by simp⟩

theorem size_pop (h : stack.pop = .ok (value, rest)) : stack.size = rest.size + 1 := by
  rw [pop_eq_ok h]
  exact Array.size_push value

theorem popAs_eq_ok {α : Type} [OfValue α] {a : α} (h : stack.popAs α = (.ok a, rest)) :
    ∃ value, stack.pop = .ok (value, rest) ∧ ofValue value = .ok a := by
  unfold popAs at h
  split at h
  · rename_i value popped hpop
    obtain ⟨hvalue, rfl⟩ := Prod.mk.inj h
    exact ⟨value, hpop, hvalue⟩
  · cases h

end Stack

def Machine.native? {σ : Type} (machine : Machine σ) (address : UInt64) : Option (Native σ) :=
  match machine.memory.readText address with
  | .ok (name, _) => machine.host.natives.find? name
  | .error _ => none

namespace Run

variable {σ : Type} {machine after : Machine σ}

theorem push_eq_ok {value : Value} (h : push value machine = .ok () after) :
    ∃ stack, machine.stack.push value = .ok stack ∧ after = { machine with stack } := by
  unfold push at h
  rw [bind_apply, get_apply] at h
  dsimp only at h
  obtain ⟨stack, same, hstack, hmodify⟩ := bind_eq_ok.mp h
  obtain ⟨hpush, rfl⟩ := ofExcept_eq_ok.mp hstack
  cases hmodify
  exact ⟨stack, hpush, rfl⟩

theorem pop_eq_ok {value : Value} (h : pop machine = .ok value after) :
    ∃ stack, machine.stack.pop = .ok (value, stack) ∧ after = { machine with stack } := by
  unfold pop at h
  rw [bind_apply, get_apply] at h
  dsimp only at h
  obtain ⟨⟨top, stack⟩, same, hstack, hrest⟩ := bind_eq_ok.mp h
  obtain ⟨hpop, rfl⟩ := ofExcept_eq_ok.mp hstack
  cases hrest
  exact ⟨stack, hpop, rfl⟩

theorem popAs_eq_ok {α : Type} [OfValue α] {a : α} (h : popAs α machine = .ok a after) :
    ∃ value stack, machine.stack.pop = .ok (value, stack) ∧ ofValue value = .ok a ∧
      after = { machine with stack } := by
  unfold popAs at h
  rw [bind_apply, get_apply] at h
  dsimp only at h
  obtain ⟨_, popped, hmodify, hread⟩ := bind_eq_ok.mp h
  cases hmodify
  obtain ⟨hresult, rfl⟩ := ofExcept_eq_ok.mp hread
  obtain ⟨value, hpop, hvalue⟩ := Stack.popAs_eq_ok (Prod.ext hresult rfl)
  exact ⟨value, _, hpop, hvalue, rfl⟩

theorem getRegister_eq_ok {index : UInt8} {value : Int64}
    (h : getRegister index machine = .ok value after) : after = machine := by
  unfold getRegister at h
  rw [bind_apply, get_apply] at h
  exact (ofExcept_eq_ok.mp h).2

theorem call_eq_ok {address : UInt64} (h : call address machine = .ok () after) :
    ∃ stack, machine.stack.push (.ofWord machine.registers.ip) = .ok stack ∧
      after = { machine with
        stack
        registers := { machine.registers with
          depth := machine.registers.depth + 1, ip := address } } := by
  unfold call at h
  rw [bind_apply, get_apply] at h
  dsimp only at h
  obtain ⟨_, pushed, hpush, hmodify⟩ := bind_eq_ok.mp h
  obtain ⟨stack, hstack, rfl⟩ := push_eq_ok hpush
  cases hmodify
  exact ⟨stack, hstack, rfl⟩

theorem ret_eq_ok (h : ret machine = .ok () after) :
    machine.registers.depth ≠ 0 ∧
      ∃ value stack address, machine.stack.pop = .ok (value, stack) ∧
        value.asWord = .ok address ∧
        after = { machine with
          stack
          registers := { machine.registers with
            depth := machine.registers.depth - 1, ip := address } } := by
  unfold ret at h
  rw [bind_apply, get_apply] at h
  dsimp only at h
  by_cases hdepth : machine.registers.depth = 0
  · rw [if_pos hdepth] at h
    cases h
  · rw [if_neg hdepth] at h
    obtain ⟨address, popped, hpop, hmodify⟩ := bind_eq_ok.mp h
    obtain ⟨value, stack, hstack, hvalue, rfl⟩ := popAs_eq_ok hpop
    cases hmodify
    exact ⟨hdepth, value, stack, address, hstack, hvalue, rfl⟩

theorem popArguments_eq_ok {kinds : List Kind} {args : List Value}
    (h : popArguments kinds machine = .ok args after) :
    after.stack.Below machine.stack ∧
      machine.stack.size = kinds.length + after.stack.size := by
  induction kinds generalizing args after with
  | nil =>
    cases h
    exact ⟨.refl _, (Nat.zero_add _).symm⟩
  | cons kind kinds ih =>
    unfold popArguments at h
    obtain ⟨later, popped, hlater, hrest⟩ := bind_eq_ok.mp h
    obtain ⟨value, last, hpop, hcoerce⟩ := bind_eq_ok.mp hrest
    obtain ⟨argument, same, hargument, hpure⟩ := bind_eq_ok.mp hcoerce
    obtain ⟨-, rfl⟩ := ofExcept_eq_ok.mp hargument
    cases hpure
    obtain ⟨stack, hstack, rfl⟩ := pop_eq_ok hpop
    obtain ⟨hbelow, hsize⟩ := ih hlater
    refine ⟨(Stack.below_pop hstack).trans hbelow, ?_⟩
    rw [hsize, Stack.size_pop hstack, List.length_cons]
    dsimp only
    omega

theorem callNative_eq_ok {address : UInt64} (h : callNative address machine = .ok () after) :
    ∃ (native : Native σ) (rest : Stack), machine.native? address = some native ∧
      rest.Below machine.stack ∧ machine.stack.size = native.params.length + rest.size ∧
      rest.Below after.stack := by
  unfold callNative at h
  obtain ⟨name, same, hname, hfound⟩ := bind_eq_ok.mp h
  obtain ⟨rfl, size, htext⟩ := readText_eq_ok hname
  rw [bind_apply, get_apply] at hfound
  dsimp only at hfound
  cases hfind : same.host.natives.find? name with
  | none =>
    rw [hfind] at hfound
    cases hfound
  | some native =>
    have hnative : same.native? address = some native := by
      unfold Machine.native?
      rw [htext]
      exact hfind
    rw [hfind] at hfound
    dsimp only at hfound
    split at hfound
    · cases hfound
    · obtain ⟨args, popped, hpop, hcall⟩ := bind_eq_ok.mp hfound
      obtain ⟨result, called, hinvoke, hresult⟩ := bind_eq_ok.mp hcall
      have hworld : (invoke name args : Run σ (Option Value)).Writes [.world] :=
        writes_invoke name args (by decide)
      have hstack : called.stack = popped.stack := by
        rw [← final_of_ok hinvoke]
        exact (hworld popped).stack (by decide)
      obtain ⟨hbelow, hsize⟩ := popArguments_eq_ok hpop
      refine ⟨native, popped.stack, hnative, hbelow, hsize, ?_⟩
      rw [← hstack]
      cases result with
      | none =>
        cases hresult
        exact .refl _
      | some value =>
        obtain ⟨stack, hpush, rfl⟩ := push_eq_ok hresult
        exact Stack.below_push hpush

end Run

open Run in
theorem Operation.stack_run {σ : Type} {instruction : Instruction}
    {operands : Operands (ofInstruction instruction : Operation σ).kinds} {machine after : Machine σ}
    (h : (ofInstruction instruction).run operands machine = .ok () after)
    (hreset : instruction ≠ .reset) (hnative : instruction ≠ .callNative) :
    machine.stack.Below after.stack ∨
      ∃ value, machine.stack.pop = .ok (value, after.stack) := by
  have hfoot := writes_run instruction operands machine
  rw [final_of_ok h] at hfoot
  by_cases hwrites : .stack ∈ instruction.writes
  · cases instruction with
    | pushWord =>
      obtain ⟨stack, hpush, rfl⟩ := push_eq_ok h
      exact .inl (Stack.below_push hpush)
    | pushRegister =>
      obtain ⟨value, same, hget, hrest⟩ := bind_eq_ok.mp h
      cases getRegister_eq_ok hget
      obtain ⟨stack, hpush, rfl⟩ := push_eq_ok hrest
      exact .inl (Stack.below_push hpush)
    | pushText =>
      obtain ⟨text, same, htext, hrest⟩ := bind_eq_ok.mp h
      obtain ⟨rfl, -⟩ := readText_eq_ok htext
      obtain ⟨stack, hpush, rfl⟩ := push_eq_ok hrest
      exact .inl (Stack.below_push hpush)
    | call =>
      obtain ⟨stack, hpush, rfl⟩ := call_eq_ok h
      exact .inl (Stack.below_push hpush)
    | callRegister =>
      obtain ⟨value, same, hget, hrest⟩ := bind_eq_ok.mp h
      cases getRegister_eq_ok hget
      obtain ⟨stack, hpush, rfl⟩ := call_eq_ok hrest
      exact .inl (Stack.below_push hpush)
    | pop =>
      obtain ⟨value, popped, hpop, hpure⟩ := bind_eq_ok.mp h
      obtain ⟨stack, hstack, rfl⟩ := pop_eq_ok hpop
      cases hpure
      exact .inr ⟨value, hstack⟩
    | popRegister =>
      obtain ⟨old, same, hget, hrest⟩ := bind_eq_ok.mp h
      cases getRegister_eq_ok hget
      obtain ⟨number, popped, hpop, hset⟩ := bind_eq_ok.mp hrest
      obtain ⟨value, stack, hstack, -, rfl⟩ := popAs_eq_ok hpop
      have hgeneral : (setRegister operands.1 number : Run σ Unit).Writes [.general] :=
        writes_setRegister operands.1 number (by decide)
      have hsame := (hgeneral { machine with stack }).stack (by decide)
      rw [final_of_ok hset] at hsame
      rw [hsame]
      exact .inr ⟨value, hstack⟩
    | ret =>
      obtain ⟨-, value, stack, address, hstack, -, rfl⟩ := ret_eq_ok h
      exact .inr ⟨value, hstack⟩
    | reset => exact absurd rfl hreset
    | callNative => exact absurd rfl hnative
    | _ => exact absurd hwrites (by decide)
  · left
    rw [hfoot.stack hwrites]
    exact .refl _

end RegisterMachine
