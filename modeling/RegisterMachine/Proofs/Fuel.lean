import RegisterMachine.Proofs.Run

/-!
Fuel bounds a run and does nothing else: a run that does not stop for want of fuel is the same with
more of it. `Run.Approximates` says so of two runs, and every way of composing runs keeps it.
-/
namespace RegisterMachine

namespace Run

variable {σ α β : Type}

/-- The run stops for want of fuel, or it does what the other does. -/
def Approximates (run other : Run σ α) : Prop :=
  ∀ machine, (∃ left, run machine = .error .outOfFuel left) ∨ run machine = other machine

namespace Approximates

theorem refl (run : Run σ α) : run.Approximates run := fun _ => .inr rfl

theorem eq {run other : Run σ α} (h : run.Approximates other) {machine : Machine σ}
    (hends : ∀ left, run machine ≠ .error .outOfFuel left) : other machine = run machine := by
  rcases h machine with ⟨left, hcut⟩ | hsame
  · exact absurd hcut (hends left)
  · exact hsame.symm

theorem bind {run other : Run σ α} {next following : α → Run σ β} (h : run.Approximates other)
    (hnext : ∀ a, (next a).Approximates (following a)) :
    (run >>= next).Approximates (other >>= following) := by
  intro machine
  rw [bind_apply, bind_apply]
  rcases h machine with ⟨cut, hcut⟩ | hsame
  · rw [hcut]
    exact .inl ⟨cut, rfl⟩
  · rw [← hsame]
    cases run machine with
    | ok a after => exact hnext a after
    | error stop left => exact .inr rfl

theorem ite {condition : Prop} [Decidable condition] {yes no otherYes otherNo : Run σ α}
    (hyes : yes.Approximates otherYes) (hno : no.Approximates otherNo) :
    (if condition then yes else no).Approximates (if condition then otherYes else otherNo) := by
  split
  · exact hyes
  · exact hno

end Approximates

theorem outOfFuel_approximates (run : Run σ α) :
    (throw .outOfFuel : Run σ α).Approximates run := fun machine => .inl ⟨machine, rfl⟩

variable {step longer : Run σ Instruction} {bound more fuel : Nat}

/-- By induction on the bound: where the loop ends for want of fuel, the other may go on. -/
theorem approximates_untilDepth (hstep : step.Approximates longer) (hbound : bound ≤ more)
    (number : UInt8) (depth : UInt64) :
    (untilDepth step number depth bound).Approximates (untilDepth longer number depth more) := by
  induction bound generalizing more with
  | zero =>
    cases more with
    | zero => exact .refl _
    | succ more =>
      unfold untilDepth
      refine Approximates.bind (.refl _) fun _ => ?_
      exact .ite (.refl _) (outOfFuel_approximates _)
  | succ bound ih =>
    obtain ⟨more, rfl⟩ := Nat.exists_eq_add_one_of_ne_zero (Nat.ne_zero_of_lt hbound)
    unfold untilDepth
    refine Approximates.bind (.refl _) fun _ => ?_
    apply Approximates.ite (.refl _)
    refine hstep.bind fun _ => ?_
    refine Approximates.bind (.refl _) fun _ => ?_
    exact .ite (.refl _) (ih (Nat.le_of_succ_le_succ hbound))

theorem approximates_dispatchWith (hstep : step.Approximates longer) (hbound : bound ≤ more)
    (number : UInt8) (address : UInt64) :
    (dispatchWith step bound number address).Approximates
      (dispatchWith longer more number address) := by
  unfold dispatchWith
  refine Approximates.bind (.refl _) fun _ => ?_
  refine Approximates.bind (.refl _) fun _ => ?_
  refine Approximates.bind (.refl _) fun _ => ?_
  exact approximates_untilDepth hstep hbound number _

theorem approximates_interruptWith (hstep : step.Approximates longer) (hbound : bound ≤ more)
    (number : UInt8) :
    (interruptWith step bound number).Approximates (interruptWith longer more number) := by
  intro machine
  unfold interruptWith
  split
  · dsimp only
    cases (machine.enterInterrupt number).handlers.find? number with
    | none => exact .inr rfl
    | some address =>
      dsimp only
      rcases approximates_dispatchWith hstep hbound number address
        (machine.enterInterrupt number) with ⟨cut, hcut⟩ | hsame
      · rw [hcut]
        exact .inl ⟨_, rfl⟩
      · rw [hsame]
        exact .inr rfl
  · exact .inr rfl

theorem approximates_stepWith {take other : UInt8 → Run σ Unit}
    (htake : ∀ number, (take number).Approximates (other number)) :
    (stepWith take).Approximates (stepWith other) := by
  unfold stepWith
  refine Approximates.bind (.refl _) fun executed => ?_
  obtain ⟨instruction, raised⟩ := executed
  cases raised with
  | none => exact .refl _
  | some number => exact (htake number).bind fun _ => .refl _

/-- By induction on the fuel, which also bounds the steps of a handler. -/
theorem approximates_step (hfuel : fuel ≤ more) :
    (Run.step fuel : Run σ Instruction).Approximates (Run.step more) := by
  induction fuel generalizing more with
  | zero =>
    rw [step_eq more]
    exact approximates_stepWith fun _ => outOfFuel_approximates _
  | succ fuel ih =>
    obtain ⟨more, rfl⟩ := Nat.exists_eq_add_one_of_ne_zero (Nat.ne_zero_of_lt hfuel)
    have hless := Nat.le_of_succ_le_succ hfuel
    exact approximates_stepWith fun number => approximates_interruptWith (ih hless) hless number

theorem approximates_runFrom (hfuel : fuel ≤ more) (count limit : Nat) :
    (runFrom fuel count limit : Run σ Nat).Approximates (runFrom more count limit) := by
  induction limit generalizing count with
  | zero => exact .refl _
  | succ limit ih =>
    unfold runFrom
    refine Approximates.bind (.refl _) fun _ => ?_
    apply Approximates.ite (.refl _)
    exact (approximates_step hfuel).bind fun _ => ih (count + 1)

theorem runFor_of_ends {machine : Machine σ} {limit : Nat} (hfuel : fuel ≤ more)
    (hends : ∀ left, runFor fuel limit machine ≠ .error .outOfFuel left) :
    runFor more limit machine = runFor fuel limit machine :=
  (approximates_runFrom hfuel 0 limit).eq hends

end Run

end RegisterMachine
