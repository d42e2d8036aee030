import RegisterMachine.Proofs.Interrupt

/-!
What happens during a run, act after act. An interrupt steps on its own and its steps may raise
interrupts in turn, so what a recorder notes of a run is what it notes of all the steps in it. The notes
follow the definitions of the runs; `looping` lists the machines from which the loop of a handler
executes an instruction, without those of the interrupts that nest in it.
-/
namespace RegisterMachine

namespace Run

variable {σ : Type}

def callHandler (number : UInt8) (address : UInt64) : Run σ Unit := do
  log .debug ("interrupt " ++ Numeral.decimal number.toNat ++ " -> " ++ Numeral.address address.toNat)
  call address

theorem dispatchWith_apply (step : Run σ Instruction) (bound : Nat) (number : UInt8)
    (address : UInt64) (machine : Machine σ) :
    dispatchWith step bound number address machine =
      (callHandler number address >>= fun _ =>
        untilDepth step number machine.registers.depth bound) machine := by
  unfold dispatchWith callHandler
  simp only [bind_apply, get_apply]
  rfl

theorem dispatchWith_eq_ok {step : Run σ Instruction} {bound : Nat} {number : UInt8}
    {address : UInt64} {machine left : Machine σ}
    (h : dispatchWith step bound number address machine = .ok () left) :
    ∃ called, callHandler number address machine = .ok () called ∧
      untilDepth step number machine.registers.depth bound called = .ok () left := by
  rw [dispatchWith_apply] at h
  obtain ⟨_, called, hcall, hloop⟩ := bind_eq_ok.mp h
  exact ⟨called, hcall, hloop⟩

theorem untilDepth_reached {step : Run σ Instruction} {number : UInt8} {depth : UInt64}
    {machine : Machine σ} (h : machine.registers.depth = depth) (bound : Nat) :
    untilDepth step number depth bound machine = .ok () machine := by
  cases bound with
  | zero =>
    unfold untilDepth
    rw [bind_apply, get_apply]
    exact congrFun (if_pos h) machine
  | succ bound =>
    unfold untilDepth
    rw [bind_apply, get_apply]
    exact congrFun (if_pos h) machine

theorem untilDepth_exhausted {step : Run σ Instruction} {number : UInt8} {depth : UInt64}
    {machine : Machine σ} (h : machine.registers.depth ≠ depth) :
    untilDepth step number depth 0 machine = .error .outOfFuel machine := by
  unfold untilDepth
  rw [bind_apply, get_apply]
  exact congrFun (if_neg h) machine

theorem untilDepth_again {step : Run σ Instruction} {number : UInt8} {depth : UInt64}
    {machine : Machine σ} (h : machine.registers.depth ≠ depth) (bound : Nat) :
    untilDepth step number depth (bound + 1) machine = match step machine with
      | .ok _ left =>
        if left.halted then .error (.fault (.haltedInHandler number)) left
        else untilDepth step number depth bound left
      | .error stop left => .error stop left := by
  conv => lhs; unfold untilDepth
  rw [bind_apply, get_apply]
  dsimp only
  rw [if_neg h, bind_apply]
  cases step machine with
  | error stop left => rfl
  | ok _ left =>
    dsimp only
    rw [bind_apply, get_apply]
    dsimp only
    split
    · rfl
    · rfl

end Run

namespace Trace

variable {σ : Type}

def looping (step : Run σ Instruction) (depth : UInt64) : Nat → Machine σ → List (Machine σ)
  | 0, _ => []
  | bound + 1, machine =>
    if machine.registers.depth = depth then []
    else
      machine :: match step machine with
        | .ok _ left => if left.halted then [] else looping step depth bound left
        | .error _ _ => []

def dispatching (step : Run σ Instruction) (bound : Nat) (number : UInt8) (address : UInt64)
    (machine : Machine σ) : List (Machine σ) :=
  match Run.callHandler number address machine with
  | .ok _ called => looping step machine.registers.depth bound called
  | .error _ _ => []

def running (fuel : Nat) : Nat → Machine σ → List (Machine σ)
  | 0, _ => []
  | limit + 1, machine =>
    if machine.halted then []
    else
      machine :: match Run.step fuel machine with
        | .ok _ left => running fuel limit left
        | .error _ _ => []

section Loop

variable {run : Run σ Instruction} {number : UInt8} {depth : UInt64}

theorem looping_reached {machine : Machine σ} (h : machine.registers.depth = depth) (bound : Nat) :
    looping run depth bound machine = [] := by
  cases bound with
  | zero => rfl
  | succ bound => exact if_pos h

theorem looping_again {machine : Machine σ} (h : machine.registers.depth ≠ depth) (bound : Nat) :
    looping run depth (bound + 1) machine = machine :: match run machine with
      | .ok _ left => if left.halted then [] else looping run depth bound left
      | .error _ _ => [] :=
  if_neg h

theorem depth_of_untilDepth {bound : Nat} {machine left : Machine σ}
    (h : Run.untilDepth run number depth bound machine = .ok () left) :
    left.registers.depth = depth := by
  induction bound generalizing machine with
  | zero =>
    by_cases hdepth : machine.registers.depth = depth
    · rw [Run.untilDepth_reached hdepth] at h
      cases h
      exact hdepth
    · rw [Run.untilDepth_exhausted hdepth] at h
      cases h
  | succ bound ih =>
    by_cases hdepth : machine.registers.depth = depth
    · rw [Run.untilDepth_reached hdepth] at h
      cases h
      exact hdepth
    · rw [Run.untilDepth_again hdepth] at h
      split at h
      · split at h
        · cases h
        · exact ih h
      · cases h

theorem looping_induction (kept : Machine σ → Prop) {bound : Nat} {machine : Machine σ}
    (hstart : kept machine)
    (hstep : ∀ looped ∈ looping run depth bound machine, ∀ instruction left, kept looped →
      run looped = .ok instruction left → left.registers.depth ≠ depth → kept left) :
    ∀ looped ∈ looping run depth bound machine, kept looped := by
  induction bound generalizing machine with
  | zero =>
    intro looped hlooped
    cases hlooped
  | succ bound ih =>
    by_cases hdepth : machine.registers.depth = depth
    · rw [looping_reached hdepth]
      intro looped hlooped
      cases hlooped
    · rw [looping_again hdepth] at hstep ⊢
      intro looped hlooped
      rcases List.mem_cons.mp hlooped with rfl | hlooped
      · exact hstart
      · cases hrun : run machine with
        | error stop left =>
          rw [hrun] at hlooped
          cases hlooped
        | ok instruction left =>
          rw [hrun] at hlooped hstep
          dsimp only at hlooped hstep
          split at hlooped
          · cases hlooped
          · rename_i hhalted
            rw [if_neg hhalted] at hstep
            by_cases hleft : left.registers.depth = depth
            · rw [looping_reached hleft] at hlooped
              cases hlooped
            · have hkept := hstep machine (.head _) instruction left hstart hrun hleft
              exact ih hkept (fun later hlater => hstep later (.tail _ hlater)) looped hlooped

theorem looping_last {bound : Nat} {machine left : Machine σ}
    (h : Run.untilDepth run number depth bound machine = .ok () left)
    (hdepth : machine.registers.depth ≠ depth) :
    ∃ last instruction, (looping run depth bound machine).getLast? = some last ∧
      run last = .ok instruction left := by
  induction bound generalizing machine with
  | zero =>
    rw [Run.untilDepth_exhausted hdepth] at h
    cases h
  | succ bound ih =>
    rw [Run.untilDepth_again hdepth] at h
    rw [looping_again hdepth]
    cases hrun : run machine with
    | error stop next =>
      rw [hrun] at h
      cases h
    | ok instruction next =>
      rw [hrun] at h
      dsimp only at h ⊢
      split at h
      · cases h
      · rename_i hhalted
        rw [if_neg hhalted]
        by_cases hnext : next.registers.depth = depth
        · rw [Run.untilDepth_reached hnext] at h
          cases h
          rw [looping_reached hnext]
          exact ⟨machine, instruction, rfl, hrun⟩
        · obtain ⟨last, final, hlast, hfinal⟩ := ih h hnext
          refine ⟨last, final, ?_, hfinal⟩
          rw [List.getLast?_cons, hlast]
          rfl

end Loop

end Trace

inductive Act where
  /-- An instruction, without the interrupt that it raises. -/
  | executed (instruction : Instruction)
  /-- An instruction stops. -/
  | stopped
  /-- An interrupt is taken, and seen by the observer. -/
  | entered (number : UInt8)
  /-- The handler of an interrupt is called. -/
  | called (number : UInt8)
  /-- There is no room for the call. -/
  | refused (number : UInt8)
  | left
  /-- The host resets the machine. -/
  | reset

structure Moment (σ : Type) where
  act : Act
  before : Machine σ
  after : Machine σ

/-- What is noted of each moment of a run, and what becomes of a note inside of a dispatch that began at
a call depth. -/
structure Recorder (σ α : Type) where
  note : Moment σ → List α
  inside : UInt64 → α → α := fun _ note => note

namespace Recorder

variable {σ α β : Type} (recorder : Recorder σ α)

section With

variable (run : Run σ Instruction) (notes : Machine σ → List α) (bound : Nat)

def dispatchWith (number : UInt8) (address : UInt64) (machine : Machine σ) : List α :=
  match Run.callHandler number address machine with
  | .ok _ called =>
    recorder.note ⟨.called number, machine, called⟩ ++
      ((Trace.looping run machine.registers.depth bound called).flatMap notes).map
        (recorder.inside machine.registers.depth)
  | .error _ left => recorder.note ⟨.refused number, machine, left⟩

def interruptWith (number : UInt8) (machine : Machine σ) : List α :=
  if machine.registers.interruptsEnabled then
    let entered := machine.enterInterrupt number
    let leave ended :=
      recorder.note ⟨.left, ended, ended.leaveInterrupt machine.registers.privileged⟩
    recorder.note ⟨.entered number, machine, entered⟩ ++ match entered.handlers.find? number with
      | some address =>
        recorder.dispatchWith run notes bound number address entered ++
          leave ((Run.dispatchWith run bound number address).final entered)
      | none => leave entered
  else []

end With

def stepWith (take : UInt8 → Machine σ → List α) (machine : Machine σ) : List α :=
  match Run.executeNext machine with
  | .ok (instruction, raised) after =>
    recorder.note ⟨.executed instruction, machine, after⟩ ++ match raised with
      | some number => take number after
      | none => []
  | .error _ left => recorder.note ⟨.stopped, machine, left⟩

def step : Nat → Machine σ → List α
  | 0 => recorder.stepWith fun _ _ => []
  | fuel + 1 => recorder.stepWith (recorder.interruptWith (Run.step fuel) (step fuel) fuel)

def interrupt (fuel : Nat) (number : UInt8) : Machine σ → List α :=
  recorder.interruptWith (Run.step fuel) (recorder.step fuel) fuel number

def dispatch (fuel bound : Nat) (number : UInt8) (address : UInt64) : Machine σ → List α :=
  recorder.dispatchWith (Run.step fuel) (recorder.step fuel) bound number address

def raise : Nat → UInt8 → Machine σ → List α
  | 0, _, _ => []
  | fuel + 1, number, machine => recorder.interrupt fuel number machine

def runFor (fuel limit : Nat) (machine : Machine σ) : List α :=
  (Trace.running fuel limit machine).flatMap (recorder.step fuel)

theorem step_eq (fuel : Nat) : recorder.step fuel = recorder.stepWith (recorder.raise fuel) := by
  cases fuel with
  | zero => rfl
  | succ fuel => rfl

section With

variable {recorder} {run : Run σ Instruction} {notes : Machine σ → List α} {bound : Nat}
  {number : UInt8} {address : UInt64} {machine called looped : Machine σ}

theorem called_subset (hcalled : Run.callHandler number address machine = .ok () called) :
    recorder.note ⟨.called number, machine, called⟩ ⊆
      recorder.dispatchWith run notes bound number address machine := by
  unfold dispatchWith
  rw [hcalled]
  exact List.subset_append_left _ _

theorem looping_subset (hcalled : Run.callHandler number address machine = .ok () called)
    (hlooped : looped ∈ Trace.looping run machine.registers.depth bound called) :
    (notes looped).map (recorder.inside machine.registers.depth) ⊆
      recorder.dispatchWith run notes bound number address machine := by
  unfold dispatchWith
  rw [hcalled]
  refine List.subset_append_of_subset_right _ (List.map_subset _ fun note hnote => ?_)
  exact List.mem_flatMap.mpr ⟨looped, hlooped, hnote⟩

theorem entered_subset (henabled : machine.registers.interruptsEnabled = true) :
    recorder.note ⟨.entered number, machine, machine.enterInterrupt number⟩ ⊆
      recorder.interruptWith run notes bound number machine := by
  unfold interruptWith
  rw [if_pos henabled]
  exact List.subset_append_left _ _

theorem dispatchWith_subset (henabled : machine.registers.interruptsEnabled = true)
    (hfind : (machine.enterInterrupt number).handlers.find? number = some address) :
    recorder.dispatchWith run notes bound number address (machine.enterInterrupt number) ⊆
      recorder.interruptWith run notes bound number machine := by
  unfold interruptWith
  rw [if_pos henabled]
  dsimp only
  rw [hfind]
  exact List.subset_append_of_subset_right _ (List.subset_append_left _ _)

end With

theorem step_eq_ok {fuel : Nat} {machine left : Machine σ} {instruction : Instruction}
    (h : Run.step fuel machine = .ok instruction left) :
    ∃ raised after, Run.executeNext machine = .ok (instruction, raised) after ∧
      recorder.note ⟨.executed instruction, machine, after⟩ ⊆ recorder.step fuel machine ∧
      ((raised = none ∧ left = after) ∨
        ∃ number, raised = some number ∧ Run.raise fuel number after = .ok () left ∧
          recorder.raise fuel number after ⊆ recorder.step fuel machine) := by
  rw [Run.step_eq] at h
  rw [step_eq]
  unfold Run.stepWith at h
  obtain ⟨⟨executed, raised⟩, after, hnext, hrest⟩ := Run.bind_eq_ok.mp h
  unfold stepWith
  rw [hnext]
  cases raised with
  | none =>
    cases hrest
    exact ⟨none, left, rfl, List.subset_append_left _ _, .inl ⟨rfl, rfl⟩⟩
  | some number =>
    obtain ⟨_, taken, htake, hpure⟩ := Run.bind_eq_ok.mp hrest
    cases hpure
    exact ⟨some number, after, rfl, List.subset_append_left _ _,
      .inr ⟨number, rfl, htake, List.subset_append_right _ _⟩⟩

/-- A recorder notes no more than what can be seen in the notes of another one. -/
structure Views (view : α → List β) (rich : Recorder σ α) (poor : Recorder σ β) : Prop where
  note : ∀ moment, (rich.note moment).flatMap view = poor.note moment
  inside : ∀ depth note, view (rich.inside depth note) = (view note).map (poor.inside depth)

namespace Views

variable {view : α → List β} {rich : Recorder σ α} {poor : Recorder σ β} {run : Run σ Instruction}
  {notes : Machine σ → List α} {seen : Machine σ → List β}

theorem dispatchWith (h : Views view rich poor)
    (hnotes : ∀ machine, (notes machine).flatMap view = seen machine) (bound : Nat)
    (number : UInt8) (address : UInt64) (machine : Machine σ) :
    (rich.dispatchWith run notes bound number address machine).flatMap view =
      poor.dispatchWith run seen bound number address machine := by
  unfold Recorder.dispatchWith
  cases Run.callHandler number address machine with
  | error stop left => exact h.note _
  | ok _ called =>
    dsimp only
    rw [List.flatMap_append, h.note, List.flatMap_map]
    simp only [h.inside]
    rw [← List.map_flatMap, List.flatMap_assoc]
    simp only [hnotes]

theorem interruptWith (h : Views view rich poor)
    (hnotes : ∀ machine, (notes machine).flatMap view = seen machine) (bound : Nat)
    (number : UInt8) (machine : Machine σ) :
    (rich.interruptWith run notes bound number machine).flatMap view =
      poor.interruptWith run seen bound number machine := by
  unfold Recorder.interruptWith
  split
  · dsimp only
    rw [List.flatMap_append, h.note]
    congr 1
    cases (machine.enterInterrupt number).handlers.find? number with
    | none => exact h.note _
    | some address =>
      dsimp only
      rw [List.flatMap_append, h.note, h.dispatchWith hnotes]
  · rfl

theorem stepWith (h : Views view rich poor) {take : UInt8 → Machine σ → List α}
    {taken : UInt8 → Machine σ → List β}
    (htake : ∀ number machine, (take number machine).flatMap view = taken number machine)
    (machine : Machine σ) : (rich.stepWith take machine).flatMap view = poor.stepWith taken machine := by
  unfold Recorder.stepWith
  cases Run.executeNext machine with
  | error stop left => exact h.note _
  | ok executed after =>
    obtain ⟨instruction, raised⟩ := executed
    dsimp only
    rw [List.flatMap_append, h.note]
    cases raised with
    | none => rfl
    | some number => exact congrArg _ (htake number after)

/-- By induction on the fuel, since the notes of a step hold those of the steps of its handler. -/
theorem step (h : Views view rich poor) (fuel : Nat) (machine : Machine σ) :
    (rich.step fuel machine).flatMap view = poor.step fuel machine := by
  induction fuel generalizing machine with
  | zero => exact h.stepWith (fun _ _ => rfl) machine
  | succ fuel ih => exact h.stepWith (fun number => h.interruptWith ih fuel number) machine

theorem interrupt (h : Views view rich poor) (fuel : Nat) (number : UInt8) (machine : Machine σ) :
    (rich.interrupt fuel number machine).flatMap view = poor.interrupt fuel number machine :=
  h.interruptWith (h.step fuel) fuel number machine

theorem runFor (h : Views view rich poor) (fuel limit : Nat) (machine : Machine σ) :
    (rich.runFor fuel limit machine).flatMap view = poor.runFor fuel limit machine := by
  unfold Recorder.runFor
  rw [List.flatMap_assoc]
  simp only [h.step]

end Views

end Recorder

inductive Cause where
  | instruction (instruction : Instruction)
  /-- An interrupt is taken, and seen by the observer. -/
  | interrupt (number : UInt8)
  /-- The handler of an interrupt is called. -/
  | handler (number : UInt8)
  deriving DecidableEq

def Act.cause? : Act → Option Cause
  | .executed instruction => some (.instruction instruction)
  | .entered number => some (.interrupt number)
  | .called number => some (.handler number)
  | _ => none

/-- An instruction, without the interrupt that it raises, or one of the two beginnings of an
interrupt, with the machine on either side of it. -/
structure Event (σ : Type) where
  cause : Cause
  before : Machine σ
  after : Machine σ

namespace Trace

variable {σ : Type}

def recorder : Recorder σ (Event σ) where
  note moment := moment.act.cause?.toList.map (⟨·, moment.before, moment.after⟩)

def step (fuel : Nat) : Machine σ → List (Event σ) := recorder.step fuel

def interrupt (fuel : Nat) (number : UInt8) : Machine σ → List (Event σ) :=
  recorder.interrupt fuel number

def dispatch (fuel bound : Nat) (number : UInt8) (address : UInt64) : Machine σ → List (Event σ) :=
  recorder.dispatch fuel bound number address

def runFor (fuel limit : Nat) : Machine σ → List (Event σ) := recorder.runFor fuel limit

theorem step_eq_ok {fuel : Nat} {machine left : Machine σ} {instruction : Instruction}
    (h : Run.step fuel machine = .ok instruction left) :
    ∃ raised after, Run.executeNext machine = .ok (instruction, raised) after ∧
      ⟨.instruction instruction, machine, after⟩ ∈ step fuel machine ∧
      ((raised = none ∧ left = after) ∨
        ∃ number, raised = some number ∧ Run.raise fuel number after = .ok () left ∧
          recorder.raise fuel number after ⊆ step fuel machine) := by
  obtain ⟨raised, after, hnext, hnoted, htaken⟩ := recorder.step_eq_ok h
  exact ⟨raised, after, hnext, hnoted (.head _), htaken⟩

theorem step_subset_dispatch {fuel bound : Nat} {number : UInt8} {address : UInt64}
    {machine called looped : Machine σ}
    (hcalled : Run.callHandler number address machine = .ok () called)
    (hlooped : looped ∈ looping (Run.step fuel) machine.registers.depth bound called) :
    step fuel looped ⊆ dispatch fuel bound number address machine :=
  fun event hevent =>
    Recorder.looping_subset hcalled hlooped (List.mem_map.mpr ⟨event, hevent, rfl⟩)

end Trace

end RegisterMachine
