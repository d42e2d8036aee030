import RegisterMachine.Proofs.Handler
import RegisterMachine.Proofs.History

/-!
What is left of a step after a reset in it. A reset takes the call depth to zero, which is what a
dispatch that began at depth zero waits for: it ends there, and with the last of them the step. A
dispatch that began deeper does not see its depth, and goes on with the machine that has started
anew. Where a handler was around the reset, the interrupt still gives back the privilege that it
saved.
-/
namespace RegisterMachine

variable {σ : Type}

theorem Machine.reset_eq_boot (machine : Machine σ) :
    machine.reset = boot machine.config machine.memory machine.host machine.world := rfl

namespace Trace

/-- An event with the call depths at which the dispatches around it began, the innermost first. -/
structure Placed (σ : Type) where
  entries : List UInt64
  event : Event σ

namespace Placed

def under (depth : UInt64) (placed : Placed σ) : Placed σ :=
  { placed with entries := placed.entries ++ [depth] }

/-- Every dispatch around the event began outside of all calls. -/
def Shallow (placed : Placed σ) : Prop := ∀ depth ∈ placed.entries, depth = 0

instance (placed : Placed σ) : Decidable placed.Shallow :=
  inferInstanceAs (Decidable (∀ depth ∈ placed.entries, depth = 0))

def recorder : Recorder σ (Placed σ) where
  note moment := (Trace.recorder.note moment).map fun event => ⟨[], event⟩
  inside := under

def step (fuel : Nat) : Machine σ → List (Placed σ) := recorder.step fuel

theorem views : Recorder.Views (fun placed : Placed σ => [placed.event]) recorder Trace.recorder where
  note moment := by
    rw [← List.map_eq_flatMap]
    exact (List.map_map).trans (List.map_id _)
  inside depth placed := rfl

theorem map_event_step (fuel : Nat) (machine : Machine σ) :
    (step fuel machine).map event = Trace.step fuel machine := by
  rw [List.map_eq_flatMap]
  exact views.step fuel machine

@[simp] theorem shallow_under {depth : UInt64} {placed : Placed σ} :
    (placed.under depth).Shallow ↔ placed.Shallow ∧ depth = 0 := by
  simp [Shallow, under, or_imp, forall_and]

theorem cons_suffix_append {placed : Placed σ} {later first second : List (Placed σ)}
    (h : placed :: later <:+ first ++ second) :
    (∃ rest, placed :: rest <:+ first ∧ later = rest ++ second) ∨ placed :: later <:+ second := by
  obtain ⟨earlier, happend⟩ := h
  rcases List.append_eq_append_iff.mp happend with ⟨between, hfirst, hcons⟩ | ⟨between, -, hsecond⟩
  · rcases List.append_eq_cons_iff.mp hcons.symm with ⟨-, hsecond⟩ | ⟨rest, rfl, hlater⟩
    · exact .inr ⟨[], hsecond.symm⟩
    · exact .inl ⟨rest, ⟨earlier, hfirst.symm⟩, hlater⟩
  · exact .inr ⟨between, hsecond.symm⟩

theorem exists_executes {fuel : Nat} {machine left : Machine σ} {instruction : Instruction}
    (h : Run.step fuel machine = .ok instruction left) :
    ∃ placed ∈ step fuel machine, placed.event.cause.executes = true := by
  obtain ⟨_, after, -, hnoted, -⟩ := recorder.step_eq_ok h
  exact ⟨_, hnoted (.head _), rfl⟩

end Placed

end Trace

open Trace

/-- What a reset at this place means for the rest of a run, which ends with `left`: the machine has
started anew, and the run ends there or executes more, as the depths around the reset decide. The
privilege is left open, since the interrupts around the reset set it once more. -/
structure Reboots (left : Machine σ) (placed : Placed σ) (later : List (Placed σ)) : Prop where
  anew : placed.event.after.reset = placed.event.after
  ends : placed.Shallow → later = [] ∧ ∀ privileged,
    left.leaveInterrupt privileged = placed.event.after.leaveInterrupt privileged
  continues : ¬placed.Shallow → ∃ next ∈ later, next.event.cause.executes = true

namespace Reboots

variable {left : Machine σ} {placed : Placed σ} {later : List (Placed σ)}

theorem depth (h : Reboots left placed later) (hshallow : placed.Shallow) :
    left.registers.depth = 0 := by
  have hleft := (h.ends hshallow).2 true
  have hanew : placed.event.after.registers.depth = 0 := by
    rw [← h.anew]
    rfl
  exact (congrArg (·.registers.depth) hleft).trans hanew

/-- After a reset in one of its steps, it is the depth of the loop that decides whether another step
follows. -/
theorem under {fuel bound : Nat} {number : UInt8} {depth : UInt64} {next : Machine σ}
    {rest : List (Placed σ)} (hfirst : Reboots next placed rest)
    (h : Run.untilDepth (Run.step fuel) number depth bound next = .ok () left) :
    Reboots left (placed.under depth)
      ((rest ++ (looping (Run.step fuel) depth bound next).flatMap (Placed.step fuel)).map
        (.under depth)) := by
  refine ⟨hfirst.anew, fun hunder => ?_, fun hdeep => ?_⟩
  · obtain ⟨hshallow, rfl⟩ := Placed.shallow_under.mp hunder
    have hnext := hfirst.depth hshallow
    rw [Run.untilDepth_reached hnext] at h
    cases h
    rw [looping_reached hnext]
    obtain ⟨rfl, hleft⟩ := hfirst.ends hshallow
    exact ⟨rfl, hleft⟩
  · suffices hmore : ∃ later ∈ rest ++
        (looping (Run.step fuel) depth bound next).flatMap (Placed.step fuel),
        later.event.cause.executes = true by
      obtain ⟨later, hlater, hexecutes⟩ := hmore
      exact ⟨later.under depth, List.mem_map_of_mem hlater, hexecutes⟩
    -- The step with the reset goes on itself, or it is over and the loop has not seen its depth.
    by_cases hshallow : placed.Shallow
    · have hnext : next.registers.depth ≠ depth := fun heq =>
        hdeep (Placed.shallow_under.mpr ⟨hshallow, heq ▸ hfirst.depth hshallow⟩)
      obtain ⟨last, executed, hlast, hran⟩ := looping_last h hnext
      obtain ⟨later, hlater, hexecutes⟩ := Placed.exists_executes hran
      have hmem := List.mem_flatMap.mpr ⟨last, List.mem_of_getLast? hlast, hlater⟩
      exact ⟨later, List.mem_append_right _ hmem, hexecutes⟩
    · obtain ⟨later, hlater, hexecutes⟩ := hfirst.continues hshallow
      exact ⟨later, List.mem_append_left _ hlater, hexecutes⟩

end Reboots

namespace Run

variable {machine left after : Machine σ} {placed : Placed σ} {later : List (Placed σ)}

theorem executeNext_reset {raised : Option UInt8}
    (h : executeNext machine = .ok (.reset, raised) after) :
    raised = none ∧ after.reset = after := by
  rcases executeNext_eq_ok h with ⟨hnop, -⟩ | ⟨operands, next, -, hrun, hraised⟩
  · cases hnop
  · cases hrun
    exact ⟨hraised, rfl⟩

def StepReboots (σ : Type) (fuel : Nat) : Prop :=
  ∀ ⦃machine left : Machine σ⦄ ⦃instruction : Instruction⦄ ⦃placed : Placed σ⦄
    ⦃later : List (Placed σ)⦄, step fuel machine = .ok instruction left →
    placed :: later <:+ Placed.step fuel machine → placed.event.cause = .instruction .reset →
    Reboots left placed later

/-- By induction on the bound: the reset is in the first step of the loop, or in what follows. -/
theorem looping_reboots {fuel bound : Nat} {number : UInt8} {depth : UInt64}
    (hsteps : StepReboots σ fuel)
    (h : untilDepth (step fuel) number depth bound machine = .ok () left)
    (hplaced : placed :: later <:+
      (looping (step fuel) depth bound machine).flatMap (Placed.step fuel))
    (hreset : placed.event.cause = .instruction .reset) :
    Reboots left (placed.under depth) (later.map (.under depth)) := by
  induction bound generalizing machine with
  | zero => exact absurd hplaced (by simp [looping])
  | succ bound ih =>
    by_cases hdepth : machine.registers.depth = depth
    · rw [looping_reached hdepth] at hplaced
      exact absurd hplaced (by simp)
    · rw [untilDepth_again hdepth] at h
      rw [looping_again hdepth] at hplaced
      cases hstep : step fuel machine with
      | error stop next =>
        rw [hstep] at h
        cases h
      | ok instruction next =>
        rw [hstep] at h hplaced
        dsimp only at h hplaced
        split at h
        · cases h
        · rename_i hhalted
          rw [if_neg hhalted, List.flatMap_cons] at hplaced
          rcases Placed.cons_suffix_append hplaced with ⟨rest, hfirst, rfl⟩ | hrest
          · exact (hsteps hstep hfirst hreset).under h
          · exact ih h hrest

theorem dispatch_reboots {fuel bound : Nat} {number : UInt8} {address : UInt64}
    (hsteps : StepReboots σ fuel)
    (h : dispatchWith (step fuel) bound number address machine = .ok () left)
    (hplaced : placed :: later <:+
      Placed.recorder.dispatchWith (step fuel) (Placed.step fuel) bound number address machine)
    (hreset : placed.event.cause = .instruction .reset) :
    placed.entries ≠ [] ∧ Reboots left placed later := by
  obtain ⟨called, hcalled, hloop⟩ := dispatchWith_eq_ok h
  unfold Recorder.dispatchWith at hplaced
  rw [hcalled] at hplaced
  rcases List.suffix_cons_iff.mp hplaced with hhandler | hlooped
  · cases hhandler
    cases hreset
  · obtain ⟨inner, hinner, hmap⟩ := List.suffix_map_iff.mp hlooped
    obtain ⟨within, rest, rfl, rfl, rfl⟩ := List.map_eq_cons_iff.mp hmap.symm
    exact ⟨List.append_ne_nil_of_right_ne_nil _ (List.cons_ne_nil _ _),
      looping_reboots hsteps hloop hinner hreset⟩

def TakeReboots (take : UInt8 → Run σ Unit) (events : UInt8 → Machine σ → List (Placed σ)) : Prop :=
  ∀ ⦃number : UInt8⦄ ⦃machine left : Machine σ⦄ ⦃placed : Placed σ⦄ ⦃later : List (Placed σ)⦄,
    take number machine = .ok () left → placed :: later <:+ events number machine →
    placed.event.cause = .instruction .reset →
    placed.entries ≠ [] ∧ Reboots left placed later ∧
      (placed.Shallow → left = placed.event.after.leaveInterrupt machine.registers.privileged)

theorem interrupt_reboots {fuel : Nat} (hsteps : StepReboots σ fuel) (bound : Nat) :
    TakeReboots (interruptWith (step fuel) bound : UInt8 → Run σ Unit)
      (Placed.recorder.interruptWith (step fuel) (Placed.step fuel) bound) := by
  intro number machine left placed later h hplaced hreset
  unfold Recorder.interruptWith at hplaced
  split at hplaced
  · rename_i henabled
    rcases List.suffix_cons_iff.mp hplaced with hinterrupt | hhandled
    · cases hinterrupt
      cases hreset
    · rcases interruptWith_eq_ok henabled h with ⟨hnone, -⟩ | ⟨address, ended, hfind, hdispatch, rfl⟩
      · rw [hnone] at hhandled
        change placed :: later <:+ [] at hhandled
        exact absurd hhandled (by simp)
      · rw [hfind] at hhandled
        change placed :: later <:+ Placed.recorder.dispatchWith _ _ _ _ _ _ ++ [] at hhandled
        rw [List.append_nil] at hhandled
        obtain ⟨hentries, hreboots⟩ := dispatch_reboots hsteps hdispatch hhandled hreset
        refine ⟨hentries, ⟨hreboots.anew, fun hshallow => ?_, hreboots.continues⟩, fun hshallow => ?_⟩
        · obtain ⟨hlater, hended⟩ := hreboots.ends hshallow
          refine ⟨hlater, fun privileged => ?_⟩
          rw [Machine.leaveInterrupt_leaveInterrupt, hended]
        · exact (hreboots.ends hshallow).2 machine.registers.privileged
  · exact absurd hplaced (by simp)

theorem stepWith_reboots {take : UInt8 → Run σ Unit}
    {events : UInt8 → Machine σ → List (Placed σ)} (htake : TakeReboots take events)
    {instruction : Instruction} (h : stepWith take machine = .ok instruction left)
    (hplaced : placed :: later <:+ Placed.recorder.stepWith events machine)
    (hreset : placed.event.cause = .instruction .reset) :
    Reboots left placed later ∧
      (placed.Shallow → left = if placed.entries = [] then placed.event.after
        else placed.event.after.leaveInterrupt machine.registers.privileged) := by
  obtain ⟨⟨executed, raised⟩, after, hnext, hrest⟩ := bind_eq_ok.mp h
  unfold Recorder.stepWith at hplaced
  rw [hnext] at hplaced
  rcases List.suffix_cons_iff.mp hplaced with hself | hraised
  · cases hself
    cases hreset
    obtain ⟨rfl, hanew⟩ := executeNext_reset hnext
    cases hrest
    have hshallow : Placed.Shallow ⟨[], .instruction .reset, machine, left⟩ :=
      fun depth hdepth => absurd hdepth List.not_mem_nil
    exact ⟨⟨hanew, fun _ => ⟨rfl, fun _ => rfl⟩, fun hdeep => absurd hshallow hdeep⟩, fun _ => rfl⟩
  · cases raised with
    | none => exact absurd hraised (by simp)
    | some number =>
      obtain ⟨_, taken, htaken, hpure⟩ := bind_eq_ok.mp hrest
      cases hpure
      obtain ⟨next, rfl⟩ := executeNext_raised hnext
      obtain ⟨hentries, hreboots, hleft⟩ := htake htaken hraised hreset
      have hcontrol := (machine.agree_ready instruction next).control (by decide)
      refine ⟨hreboots, fun hshallow => ?_⟩
      rw [if_neg hentries, hleft hshallow]
      unfold Registers.privileged
      rw [Registers.flag_congr hcontrol]

theorem raise_reboots (fuel : Nat) :
    TakeReboots (raise fuel : UInt8 → Run σ Unit) (Placed.recorder.raise fuel) := by
  induction fuel with
  | zero =>
    intro number machine left placed later h
    cases h
  | succ fuel ih =>
    apply interrupt_reboots
    intro machine left instruction placed later h hplaced hreset
    rw [step_eq] at h
    rw [Placed.step, Recorder.step_eq] at hplaced
    exact (stepWith_reboots ih h hplaced hreset).1

end Run

/-- Right after a reset, wherever a step executes it, the machine is as if it had just been switched
on. The reset is the last instruction of the step exactly if all dispatches around it began at call
depth zero. Then it is also the machine that the step leaves, but for the privilege: a reset in a
handler is followed by the end of the interrupt, which gives back the privilege from before. -/
theorem reset_reboots (fuel : Nat) (machine left : Machine σ) (instruction : Instruction)
    (h : Run.step fuel machine = .ok instruction left) (earlier later : List (Placed σ))
    (placed : Placed σ) (hplaced : Placed.step fuel machine = earlier ++ placed :: later)
    (hreset : placed.event.cause = .instruction .reset) :
    placed.event.after =
      Machine.boot machine.config machine.memory machine.host placed.event.after.world ∧
    ((∀ next ∈ later, next.event.cause.executes = false) ↔ placed.Shallow) ∧
    (placed.Shallow → left =
      { Machine.boot machine.config machine.memory machine.host left.world with
        registers := (Machine.bootRegisters machine.config).setFlag .privileged
          (if placed.entries = [] then machine.config.startPrivileged
            else machine.registers.privileged) }) := by
  have hmem : placed.event ∈ Trace.step fuel machine := by
    rw [← Placed.map_event_step, hplaced]
    simp
  have hagree := ((Machine.Preserved.agree machine).step_events fuel machine (.refl machine)
    placed.event hmem).2
  rw [Run.step_eq] at h
  rw [Placed.step, Recorder.step_eq] at hplaced
  obtain ⟨hreboots, hleft⟩ := Run.stepWith_reboots (Run.raise_reboots fuel) h
    ⟨earlier, hplaced.symm⟩ hreset
  have hanew : placed.event.after =
      Machine.boot machine.config machine.memory machine.host placed.event.after.world := by
    rw [← hagree.config, ← hagree.memory, ← hagree.host, ← Machine.reset_eq_boot]
    exact hreboots.anew.symm
  refine ⟨hanew, ⟨fun hnone => ?_, fun hshallow => ?_⟩, fun hshallow => ?_⟩
  · apply Decidable.of_not_not
    intro hdeep
    obtain ⟨next, hnext, hexecutes⟩ := hreboots.continues hdeep
    rw [hnone next hnext] at hexecutes
    cases hexecutes
  · rw [(hreboots.ends hshallow).1]
    exact fun next hnext => absurd hnext List.not_mem_nil
  · have hend := hleft hshallow
    split at hend
    · rename_i houtside
      subst hend
      have hboot := Registers.setFlag_setFlag ((Registers.ofCount machine.config.registers).setFlag
        .interruptsEnabled true) .privileged machine.config.startPrivileged
        machine.config.startPrivileged
      rw [if_pos houtside, Machine.bootRegisters, hboot]
      exact hanew
    · rename_i hinside
      subst hend
      rw [if_neg hinside]
      conv => lhs; rw [hanew]
      rfl

/-- A machine that was privileged when it was switched on and is not any more. It raises interrupt 1,
whose handler at address 2 is a reset. -/
def Machine.demoted : Machine Unit :=
  let booted := Machine.boot { startPrivileged := true } ⟨⟨#[0x05, 1, 0x03]⟩, none⟩ {} ()
  { booted with
    registers := booted.registers.setFlag .privileged false
    handlers := ⟨[(1, 2)]⟩ }

theorem reset_reboots_demoted :
    (Placed.step 8 Machine.demoted).map (fun placed => (placed.entries, placed.event.cause)) =
      [([], .instruction .raise), ([], .interrupt 1), ([], .handler 1)] ++
        [([0], .instruction .reset)] ∧
    ∃ left, Run.step 8 Machine.demoted = .ok .raise left ∧
      left = { Machine.boot Machine.demoted.config Machine.demoted.memory {} () with
        registers := (Machine.bootRegisters Machine.demoted.config).setFlag .privileged false } := by
  have hplaces : (Placed.step 8 Machine.demoted).map (fun placed =>
        (placed.entries, placed.event.cause)) =
      [([], .instruction .raise), ([], .interrupt 1), ([], .handler 1)] ++
        [([0], .instruction .reset)] := by
    decide +kernel
  have hleft : Run.step 8 Machine.demoted = .ok .raise ((Run.step 8).final Machine.demoted) :=
    Run.eq_ok_of_value? (by decide +kernel)
  obtain ⟨earlier, rest, hplaced, -, hrest⟩ := List.map_eq_append_iff.mp hplaces
  obtain ⟨placed, later, rfl, hplace, -⟩ := List.map_eq_cons_iff.mp hrest
  have hentries : placed.entries = [0] := congrArg Prod.fst hplace
  have hshallow : placed.Shallow := by simp [Placed.Shallow, hentries]
  obtain ⟨-, -, hend⟩ := reset_reboots 8 Machine.demoted _ _ hleft earlier later placed hplaced
    (congrArg Prod.snd hplace)
  have hend := hend hshallow
  rw [hentries] at hend
  exact ⟨hplaces, _, hleft, hend⟩

/-- A machine in the routine at address 9, which address 0 calls. It raises interrupt 1, whose handler
at address 11 is a reset. -/
def Machine.called : Machine Unit :=
  let code := #[0x22, 9, 0, 0, 0, 0, 0, 0, 0, 0x05, 1, 0x03]
  let booted := Machine.boot {} ⟨⟨code⟩, none⟩ {} ()
  { booted with
    registers := { booted.registers with ip := 9, depth := 1 }
    stack := { values := #[.int 9] }
    handlers := ⟨[(1, 11)]⟩ }

/-- A reset in a handler may be followed by more instructions, and what the step leaves need not be
the machine as it was switched on: its privilege may be another, and if the handler was called in a
routine so may be all the rest. -/
theorem reset_in_handler_not_boot :
    (∃ left, Run.step 8 Machine.demoted = .ok .raise left ∧
      (Trace.step 8 Machine.demoted).map (·.cause) =
        [.instruction .raise, .interrupt 1, .handler 1, .instruction .reset] ∧
      left.registers.privileged ≠ left.config.startPrivileged) ∧
    ∃ left, Run.step 8 Machine.called = .ok .raise left ∧
      (Trace.step 8 Machine.called).map (·.cause) =
        [.instruction .raise, .interrupt 1, .handler 1, .instruction .reset, .instruction .call] ∧
      left.registers.ip ≠ 0 ∧ left.registers.depth ≠ 0 ∧ left.stack.size ≠ 0 := by
  have hdemoted : Run.step 8 Machine.demoted = .ok .raise ((Run.step 8).final Machine.demoted) :=
    Run.eq_ok_of_value? (by decide +kernel)
  have hcalled : Run.step 8 Machine.called = .ok .raise ((Run.step 8).final Machine.called) :=
    Run.eq_ok_of_value? (by decide +kernel)
  exact ⟨⟨_, hdemoted, by decide +kernel, by decide +kernel⟩,
    ⟨_, hcalled, by decide +kernel, by decide +kernel⟩⟩

end RegisterMachine
