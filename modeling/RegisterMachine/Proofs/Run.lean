import RegisterMachine.Machine.Step

/-!
Laws of runs: what a composed run comes to, the machine that it leaves behind however it ends, and
the equations of the operations from which the others are composed.
-/
namespace RegisterMachine

def Machine.moveTo {σ : Type} (machine : Machine σ) (ip : UInt64) : Machine σ :=
  { machine with registers := { machine.registers with ip } }

namespace Run

variable {σ α β : Type}

def final (run : Run σ α) (machine : Machine σ) : Machine σ :=
  match run machine with
  | .ok _ left => left
  | .error _ left => left

def succeeds (run : Run σ α) (machine : Machine σ) : Bool :=
  match run machine with
  | .ok _ _ => true
  | .error _ _ => false

def value? (run : Run σ α) (machine : Machine σ) : Option α :=
  match run machine with
  | .ok a _ => some a
  | .error _ _ => none

theorem bind_apply (run : Run σ α) (next : α → Run σ β) (machine : Machine σ) :
    (run >>= next) machine = match run machine with
      | .ok a after => next a after
      | .error stop after => .error stop after := by
  change EStateM.bind run next machine = _
  unfold EStateM.bind
  cases run machine <;> rfl

@[simp] theorem pure_apply (a : α) (machine : Machine σ) :
    (pure a : Run σ α) machine = .ok a machine := rfl

@[simp] theorem get_apply (machine : Machine σ) :
    (get : Run σ (Machine σ)) machine = .ok machine machine := rfl

@[simp] theorem set_apply (next machine : Machine σ) :
    (set next : Run σ PUnit) machine = .ok ⟨⟩ next := rfl

@[simp] theorem modify_apply (change : Machine σ → Machine σ) (machine : Machine σ) :
    (modify change : Run σ PUnit) machine = .ok ⟨⟩ (change machine) := rfl

theorem modifyGet_apply (change : Machine σ → α × Machine σ) (machine : Machine σ) :
    (modifyGet change : Run σ α) machine = .ok (change machine).1 (change machine).2 := rfl

@[simp] theorem fail_apply (cause : Fault) (machine : Machine σ) :
    (fail cause : Run σ α) machine = .error (.fault cause) machine := rfl

@[simp] theorem ofExcept_ok (a : α) : (ofExcept (.ok a) : Run σ α) = pure a := rfl

@[simp] theorem ofExcept_error (cause : Fault) :
    (ofExcept (.error cause) : Run σ α) = fail cause := rfl

theorem final_of_ok {run : Run σ α} {machine left : Machine σ} {a : α}
    (h : run machine = .ok a left) : run.final machine = left := by
  unfold final
  rw [h]

theorem final_of_error {run : Run σ α} {machine left : Machine σ} {stop : Stop}
    (h : run machine = .error stop left) : run.final machine = left := by
  unfold final
  rw [h]

theorem eq_ok_of_succeeds {run : Run σ Unit} {machine : Machine σ}
    (h : run.succeeds machine = true) : run machine = .ok () (run.final machine) := by
  unfold succeeds at h
  split at h
  · rename_i left hrun
    rw [hrun, final_of_ok hrun]
  · cases h

theorem eq_ok_of_value? {run : Run σ α} {machine : Machine σ} {a : α}
    (h : run.value? machine = some a) : run machine = .ok a (run.final machine) := by
  unfold value? at h
  split at h
  · rename_i left hrun
    cases h
    rw [hrun, final_of_ok hrun]
  · cases h

theorem bind_eq_ok {run : Run σ α} {next : α → Run σ β} {machine left : Machine σ} {b : β} :
    (run >>= next) machine = .ok b left ↔
      ∃ a after, run machine = .ok a after ∧ next a after = .ok b left := by
  rw [bind_apply]
  constructor
  · intro h
    split at h
    · rename_i a after hrun
      exact ⟨a, after, hrun, h⟩
    · cases h
  · rintro ⟨a, after, hrun, hnext⟩
    rw [hrun]
    exact hnext

theorem final_bind (run : Run σ α) (next : α → Run σ β) (machine : Machine σ) :
    (run >>= next).final machine = run.final machine ∨
      ∃ a, run machine = .ok a (run.final machine) ∧
        (run >>= next).final machine = (next a).final (run.final machine) := by
  cases h : run machine with
  | ok a after =>
    right
    rw [final_of_ok h]
    refine ⟨a, rfl, ?_⟩
    unfold final
    rw [bind_apply, h]
  | error stop after =>
    left
    rw [final_of_error h]
    apply final_of_error
    rw [bind_apply, h]

theorem ofExcept_eq_ok {result : Except Fault α} {machine left : Machine σ} {a : α} :
    ofExcept result machine = .ok a left ↔ result = .ok a ∧ left = machine := by
  cases result with
  | ok b =>
    simp only [ofExcept_ok, pure_apply, EStateM.Result.ok.injEq, Except.ok.injEq]
    constructor
    · rintro ⟨rfl, rfl⟩
      exact ⟨rfl, rfl⟩
    · rintro ⟨rfl, rfl⟩
      exact ⟨rfl, rfl⟩
  | error cause => simp

theorem fetch_apply (width : Nat) (machine : Machine σ) :
    fetch width machine = match machine.memory.readWord machine.registers.ip width with
      | .ok n => .ok n (machine.moveTo (machine.registers.ip + .ofNat width))
      | .error cause => .error (.fault cause) machine := by
  unfold fetch
  simp only [bind_apply, get_apply]
  cases machine.memory.readWord machine.registers.ip width <;> rfl

theorem readText_apply (address : UInt64) (machine : Machine σ) :
    readText address machine = match machine.memory.readText address with
      | .ok (text, _) => .ok text machine
      | .error cause => .error (.fault cause) machine := by
  unfold readText
  simp only [bind_apply, get_apply]
  cases machine.memory.readText address <;> rfl

theorem readText_eq_ok {address : UInt64} {text : String} {machine left : Machine σ}
    (h : readText address machine = .ok text left) :
    left = machine ∧ ∃ size, machine.memory.readText address = .ok (text, size) := by
  rw [readText_apply] at h
  split at h
  · rename_i found size htext
    cases h
    exact ⟨rfl, size, htext⟩
  · cases h

theorem fetchText_apply (machine : Machine σ) :
    fetchText machine = match machine.memory.readText machine.registers.ip with
      | .ok (text, size) => .ok text (machine.moveTo (machine.registers.ip + size))
      | .error cause => .error (.fault cause) machine := by
  unfold fetchText
  simp only [bind_apply, get_apply]
  cases machine.memory.readText machine.registers.ip <;> rfl

/-- Takes an interrupt that an instruction raises, within what is left of the fuel of its step. -/
def raise : Nat → UInt8 → Run σ Unit
  | 0, _ => throw .outOfFuel
  | fuel + 1, number => interrupt fuel number

theorem step_eq (fuel : Nat) : (step fuel : Run σ Instruction) = stepWith (raise fuel) := by
  cases fuel with
  | zero => rfl
  | succ fuel => rfl

theorem runFrom_halted {machine : Machine σ} (h : machine.halted = true) (fuel count limit : Nat) :
    runFrom fuel count limit machine = .ok count machine := by
  cases limit with
  | zero => rfl
  | succ limit => simp [runFrom, bind_apply, h]

theorem runFrom_again {machine : Machine σ} (h : machine.halted = false) (fuel count limit : Nat) :
    runFrom fuel count (limit + 1) machine =
      (step fuel >>= fun _ => runFrom fuel (count + 1) limit) machine := by
  conv => lhs; unfold runFrom
  simp [bind_apply, h]

end Run

end RegisterMachine
