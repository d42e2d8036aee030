import RegisterMachine.Proofs.Interrupt

/-!
What a host does with a machine: it calls it again and again, also after calls that stop. A property
that every call keeps holds after every sequence of calls.
-/
namespace RegisterMachine

inductive HostCall where
  | step (fuel : Nat)
  | runFor (fuel limit : Nat)
  | interrupt (fuel : Nat) (number : UInt8)
  | reset

namespace Run

variable {σ α β : Type} {kept : Machine σ → Prop}

def Keeps (kept : Machine σ → Prop) (run : Run σ α) : Prop :=
  ∀ machine, kept machine → kept (run.final machine)

theorem Keeps.bind {run : Run σ α} {next : α → Run σ β} (hrun : run.Keeps kept)
    (hnext : ∀ a, (next a).Keeps kept) : (run >>= next).Keeps kept := by
  intro machine h
  rcases final_bind run next machine with hfinal | ⟨a, _, hfinal⟩
  · rw [hfinal]
    exact hrun machine h
  · rw [hfinal]
    exact hnext a _ (hrun machine h)

theorem keeps_pure (a : α) : (pure a : Run σ α).Keeps kept := fun _ h => h

theorem keeps_get : (get : Run σ (Machine σ)).Keeps kept := fun _ h => h

theorem keeps_fail (cause : Fault) : (fail cause : Run σ α).Keeps kept := fun _ h => h

theorem keeps_ite {condition : Prop} [Decidable condition] {yes no : Run σ α}
    (hyes : yes.Keeps kept) (hno : no.Keeps kept) :
    (if condition then yes else no).Keeps kept := by
  split
  · exact hyes
  · exact hno

theorem keeps_stepWith {take : UInt8 → Run σ Unit}
    (hnext : (executeNext : Run σ (Instruction × Option UInt8)).Keeps kept)
    (htake : ∀ number, (take number).Keeps kept) : (stepWith take).Keeps kept := by
  unfold stepWith
  apply hnext.bind
  rintro ⟨instruction, raised⟩
  cases raised with
  | none => exact keeps_pure _
  | some number => exact (htake number).bind fun _ => keeps_pure _

theorem keeps_raise (hinterrupt : ∀ fuel number, (interrupt fuel number : Run σ Unit).Keeps kept)
    (fuel : Nat) (number : UInt8) : (raise fuel number : Run σ Unit).Keeps kept := by
  cases fuel with
  | zero => exact fun _ h => h
  | succ fuel => exact hinterrupt fuel number

theorem keeps_step (hnext : (executeNext : Run σ (Instruction × Option UInt8)).Keeps kept)
    (hinterrupt : ∀ fuel number, (interrupt fuel number : Run σ Unit).Keeps kept) (fuel : Nat) :
    (step fuel : Run σ Instruction).Keeps kept := by
  rw [step_eq]
  exact keeps_stepWith hnext (keeps_raise hinterrupt fuel)

theorem keeps_runFrom {fuel : Nat} (hstep : (step fuel : Run σ Instruction).Keeps kept)
    (count limit : Nat) : (runFrom fuel count limit : Run σ Nat).Keeps kept := by
  induction limit generalizing count with
  | zero => exact keeps_pure count
  | succ limit ih =>
    unfold runFrom
    refine Keeps.bind keeps_get fun _ => ?_
    exact keeps_ite (keeps_pure count) (hstep.bind fun _ => ih (count + 1))

end Run

variable {σ : Type}

inductive Answer where
  | executed (instruction : Instruction)
  | counted (steps : Nat)
  | done
  deriving DecidableEq

def HostCall.run : HostCall → Run σ Answer
  | .step fuel => do return .executed (← Run.step fuel)
  | .runFor fuel limit => do return .counted (← Run.runFor fuel limit)
  | .interrupt fuel number => do
    Run.interrupt fuel number
    return .done
  | .reset => do
    Run.reset
    return .done

/-- Calls of the host, one after the other, as long as they end well. -/
def Run.answers : List HostCall → Run σ (List Answer)
  | [] => pure []
  | call :: calls => do
    let answer ← call.run
    let later ← answers calls
    return answer :: later

def HostCall.final (machine : Machine σ) : HostCall → Machine σ
  | .step fuel => (Run.step fuel).final machine
  | .runFor fuel limit => (Run.runFor fuel limit).final machine
  | .interrupt fuel number => (Run.interrupt fuel number).final machine
  | .reset => machine.reset

def Machine.after (machine : Machine σ) (calls : List HostCall) : Machine σ :=
  calls.foldl HostCall.final machine

theorem Machine.after_keeps {kept : Machine σ → Prop}
    (hnext : (Run.executeNext : Run σ (Instruction × Option UInt8)).Keeps kept)
    (hinterrupt : ∀ fuel number, (Run.interrupt fuel number : Run σ Unit).Keeps kept)
    (hreset : ∀ machine : Machine σ, kept machine → kept machine.reset)
    (calls : List HostCall) {machine : Machine σ} (h : kept machine) :
    kept (machine.after calls) := by
  have hstep := Run.keeps_step hnext hinterrupt
  unfold Machine.after
  induction calls generalizing machine with
  | nil => exact h
  | cons call calls ih =>
    apply ih
    cases call with
    | step fuel => exact hstep fuel machine h
    | runFor fuel limit => exact Run.keeps_runFrom (hstep fuel) 0 limit machine h
    | interrupt fuel number => exact hinterrupt fuel number machine h
    | reset => exact hreset machine h

end RegisterMachine
