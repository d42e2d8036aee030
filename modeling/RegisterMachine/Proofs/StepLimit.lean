import RegisterMachine.Proofs.Fuel
import RegisterMachine.Proofs.Reboot

/-!
What the limit of a run limits. Two runs one after the other are one run with the sum of their
limits. The limit counts the steps of the run itself, and each of them executes one instruction
outside of all handlers; what handlers execute in it is not counted.
-/
namespace RegisterMachine

variable {σ : Type}

namespace Run

/-- By induction on the first limit. A machine that halts in the first run does nothing in the
second. -/
theorem runFrom_add_limit (fuel count first second : Nat) :
    (runFrom fuel count (first + second) : Run σ Nat) =
      runFrom fuel count first >>= fun reached => runFrom fuel reached second := by
  induction first generalizing count with
  | zero =>
    rw [Nat.zero_add]
    rfl
  | succ first ih =>
    funext machine
    cases hhalted : machine.halted with
    | true => simp only [bind_apply, runFrom_halted hhalted]
    | false =>
      rw [Nat.add_right_comm, runFrom_again hhalted, ih, bind_apply, bind_apply,
        runFrom_again hhalted, bind_apply]
      cases step fuel machine with
      | ok _ left => exact bind_apply ..
      | error stop left => rfl

theorem runFrom_add_count (fuel base count limit : Nat) :
    (runFrom fuel (base + count) limit : Run σ Nat) =
      (base + ·) <$> runFrom fuel count limit := by
  induction limit generalizing count with
  | zero => rfl
  | succ limit ih =>
    funext machine
    rw [map_eq_pure_bind, bind_apply]
    cases hhalted : machine.halted with
    | true =>
      simp only [runFrom_halted hhalted]
      rfl
    | false =>
      rw [runFrom_again hhalted, runFrom_again hhalted, bind_apply, bind_apply, Nat.add_assoc, ih]
      cases step fuel machine with
      | ok _ left =>
        rw [map_eq_pure_bind]
        exact bind_apply ..
      | error stop left => rfl

theorem runFor_add (fuel first second : Nat) :
    (runFor fuel (first + second) : Run σ Nat) = do
      let done ← runFor fuel first
      let more ← runFor fuel second
      return done + more := by
  unfold runFor
  rw [runFrom_add_limit]
  congr 1
  funext done
  rw [← map_eq_pure_bind]
  exact runFrom_add_count fuel done 0 second

theorem runFrom_eq_ok {fuel count limit reached : Nat} {machine left : Machine σ}
    (h : runFrom fuel count limit machine = .ok reached left) :
    reached ≤ count + limit ∧ (reached < count + limit → left.halted = true) := by
  induction limit generalizing count machine with
  | zero =>
    cases h
    exact ⟨Nat.le_refl _, fun hless => absurd hless (Nat.lt_irrefl _)⟩
  | succ limit ih =>
    cases hhalted : machine.halted with
    | true =>
      rw [runFrom_halted hhalted] at h
      cases h
      exact ⟨Nat.le_add_right _ _, fun _ => hhalted⟩
    | false =>
      rw [runFrom_again hhalted] at h
      obtain ⟨_, next, -, hrest⟩ := bind_eq_ok.mp h
      have hreached := ih hrest
      rwa [Nat.add_assoc, Nat.add_comm 1 limit] at hreached

end Run

open Run in
/-- A run in two batches is the run with the sum of their limits: the same steps, the same outcome
and the same machine, with the state of the host that all callbacks were made on, in their order.
Each call may have a fuel of its own, as long as it does not stop for want of fuel. -/
theorem batches_run_as_one (fuel first second : Nat) (machine : Machine σ) :
    (∀ done middle, runFor fuel first machine = .ok done middle →
      done ≤ first ∧ (done < first → middle.halted = true) ∧
      ∀ later enough, fuel ≤ enough → later ≤ enough →
        (∀ more left, runFor later second middle = .ok more left →
          runFor enough (first + second) machine = .ok (done + more) left) ∧
        ∀ cause left, runFor later second middle = .error (.fault cause) left →
          runFor enough (first + second) machine = .error (.fault cause) left) ∧
    ∀ cause left, runFor fuel first machine = .error (.fault cause) left →
      ∀ enough, fuel ≤ enough →
        runFor enough (first + second) machine = .error (.fault cause) left := by
  refine ⟨?_, ?_⟩
  · intro done middle hfirst
    have hcount := runFrom_eq_ok hfirst
    rw [Nat.zero_add] at hcount
    refine ⟨hcount.1, hcount.2, ?_⟩
    intro later enough hfuel hlater
    have hbegin : runFor enough first machine = .ok done middle := by
      rw [runFor_of_ends hfuel (by simp [hfirst]), hfirst]
    have hjoin : runFor enough (first + second) machine =
        (runFor enough second >>= fun more => pure (done + more)) middle := by
      rw [runFor_add, bind_apply, hbegin]
    refine ⟨?_, ?_⟩
    · intro more left hsecond
      rw [hjoin, bind_apply, runFor_of_ends hlater (by simp [hsecond]), hsecond]
      rfl
    · intro cause left hsecond
      rw [hjoin, bind_apply, runFor_of_ends hlater (by simp [hsecond]), hsecond]
  · intro cause left hfirst enough hfuel
    rw [runFor_add, bind_apply, runFor_of_ends hfuel (by simp [hfirst]), hfirst]

/-- A machine that does nothing, raises interrupt 1 and halts. The handler at address 4 does nothing
and returns. -/
def Machine.handling : Machine Unit :=
  { Machine.boot {} ⟨⟨#[0x01, 0x05, 1, 0x02, 0x01, 0x24]⟩, none⟩ {} () with
    handlers := ⟨[(1, 4)]⟩ }

theorem batches_run_as_one_handling :
    ∃ middle left, Run.runFor 0 1 Machine.handling = .ok 1 middle ∧
      Run.runFor 5 9 middle = .ok 2 left ∧ Run.runFor 5 10 Machine.handling = .ok 3 left := by
  have hfirst := Run.eq_ok_of_value? (show (Run.runFor 0 1).value? Machine.handling = some 1 by
    decide +kernel)
  have hsecond := Run.eq_ok_of_value? (show
    (Run.runFor 5 9).value? ((Run.runFor 0 1).final Machine.handling) = some 2 by decide +kernel)
  obtain ⟨-, -, hjoin⟩ := (batches_run_as_one 0 1 9 Machine.handling).1 _ _ hfirst
  exact ⟨_, _, hfirst, hsecond, (hjoin 5 5 (by decide) (by decide)).1 _ _ hsecond⟩

namespace Trace

theorem length_running_le (fuel limit : Nat) (machine : Machine σ) :
    (running fuel limit machine).length ≤ limit := by
  induction limit generalizing machine with
  | zero => exact Nat.le_refl 0
  | succ limit ih =>
    unfold running
    split
    · exact Nat.zero_le _
    · rw [List.length_cons]
      apply Nat.succ_le_succ
      split
      · exact ih _
      · exact Nat.zero_le _

namespace Placed

def runFor (fuel limit : Nat) : Machine σ → List (Placed σ) := recorder.runFor fuel limit

theorem map_event_runFor (fuel limit : Nat) (machine : Machine σ) :
    (runFor fuel limit machine).map event = Trace.runFor fuel limit machine := by
  rw [List.map_eq_flatMap]
  exact views.runFor fuel limit machine

def outer (placed : Placed σ) : Bool := placed.event.cause.executes && placed.entries.isEmpty

def handled (placed : Placed σ) : Bool := placed.event.cause.executes && !placed.entries.isEmpty

theorem outer_of_mem_note {moment : Moment σ} {placed : Placed σ}
    (h : placed ∈ recorder.note moment) (hact : moment.act.cause?.any Cause.executes = false) :
    placed.outer = false := by
  obtain ⟨event, hevent, rfl⟩ := List.mem_map.mp h
  obtain ⟨cause, hcause, rfl⟩ := List.mem_map.mp hevent
  have hexecutes : cause.executes = false := by
    rwa [Option.mem_toList.mp hcause] at hact
  simp [outer, hexecutes]

variable {run : Run σ Instruction} {notes : Machine σ → List (Placed σ)} {bound : Nat}
  {number : UInt8} {address : UInt64} {machine : Machine σ} {placed : Placed σ}

theorem outer_of_mem_dispatchWith
    (h : placed ∈ recorder.dispatchWith run notes bound number address machine) :
    placed.outer = false := by
  unfold Recorder.dispatchWith at h
  split at h
  · rcases List.mem_append.mp h with hcalled | hlooped
    · exact outer_of_mem_note hcalled rfl
    · obtain ⟨inner, -, rfl⟩ := List.mem_map.mp hlooped
      simp [outer, recorder, under]
  · exact outer_of_mem_note h rfl

theorem outer_of_mem_interruptWith (h : placed ∈ recorder.interruptWith run notes bound number machine) :
    placed.outer = false := by
  unfold Recorder.interruptWith at h
  split at h
  · rcases List.mem_append.mp h with hentered | hhandled
    · exact outer_of_mem_note hentered rfl
    · split at hhandled
      · rcases List.mem_append.mp hhandled with hdispatched | hleft
        · exact outer_of_mem_dispatchWith hdispatched
        · exact outer_of_mem_note hleft rfl
      · exact outer_of_mem_note hhandled rfl
  · cases h

theorem countP_outer_raise (fuel : Nat) (number : UInt8) (machine : Machine σ) :
    (recorder.raise fuel number machine).countP outer = 0 := by
  cases fuel with
  | zero => rfl
  | succ fuel =>
    rw [List.countP_eq_zero]
    intro placed hplaced
    simp [outer_of_mem_interruptWith hplaced]

/-- A step executes one instruction outside of handlers, if that does not fail. -/
theorem countP_outer_step (fuel : Nat) (machine : Machine σ) :
    (recorder.step fuel machine).countP outer =
      if Run.executeNext.succeeds machine then 1 else 0 := by
  rw [Recorder.step_eq]
  unfold Recorder.stepWith Run.succeeds
  cases Run.executeNext machine with
  | error stop left => rfl
  | ok executed after =>
    obtain ⟨instruction, raised⟩ := executed
    cases raised with
    | none => rfl
    | some number =>
      dsimp only
      rw [List.countP_append, countP_outer_raise]
      rfl

theorem countP_outer_runFor_le (fuel limit : Nat) (machine : Machine σ) :
    (runFor fuel limit machine).countP outer ≤ (running fuel limit machine).length := by
  unfold runFor Recorder.runFor
  induction running fuel limit machine with
  | nil => exact Nat.le_refl 0
  | cons started later ih =>
    have hone : (recorder.step fuel started).countP outer ≤ 1 := by
      rw [countP_outer_step]
      split <;> omega
    rw [List.flatMap_cons, List.countP_append, List.length_cons]
    omega

theorem countP_outer_runFor {fuel count limit reached : Nat} {machine left : Machine σ}
    (h : Run.runFrom fuel count limit machine = .ok reached left) :
    reached = count + (runFor fuel limit machine).countP outer := by
  induction limit generalizing count machine with
  | zero =>
    cases h
    rfl
  | succ limit ih =>
    unfold runFor Recorder.runFor running
    cases hhalted : machine.halted with
    | true =>
      rw [Run.runFrom_halted hhalted] at h
      cases h
      rfl
    | false =>
      rw [Run.runFrom_again hhalted] at h
      obtain ⟨instruction, next, hstep, hrest⟩ := Run.bind_eq_ok.mp h
      obtain ⟨raised, after, hnext, -⟩ := Trace.step_eq_ok hstep
      have hone : (recorder.step fuel machine).countP outer = 1 := by
        rw [countP_outer_step]
        simp [Run.succeeds, hnext]
      have hlater := ih hrest
      unfold runFor Recorder.runFor at hlater
      simp only [Bool.false_eq_true, if_false, hstep, List.flatMap_cons, List.countP_append, hone]
      omega

theorem countP_executes (events : List (Placed σ)) :
    (events.map event).countP (·.cause.executes) =
      events.countP outer + events.countP handled := by
  rw [List.countP_map, List.countP_eq_countP_filter_add _ _ (·.entries.isEmpty),
    List.countP_filter, List.countP_filter]
  rfl

end Placed

end Trace

open Trace in
/-- The limit of a run bounds the instructions that it executes outside of handlers, also those that
fail, and its result counts them. So limit and result are about all instructions of the run exactly
if it executes none in a handler. -/
theorem limit_counts_outer_instructions (fuel limit : Nat) (machine : Machine σ) :
    (Placed.runFor fuel limit machine).countP Placed.outer ≤ (running fuel limit machine).length ∧
    (running fuel limit machine).length ≤ limit ∧
    ((∀ placed ∈ Placed.runFor fuel limit machine, placed.handled = false) →
      (Trace.runFor fuel limit machine).countP (·.cause.executes) ≤ limit) ∧
    ∀ steps left, Run.runFor fuel limit machine = .ok steps left →
      steps = (Placed.runFor fuel limit machine).countP Placed.outer ∧
      (steps = (Trace.runFor fuel limit machine).countP (·.cause.executes) ↔
        ∀ placed ∈ Placed.runFor fuel limit machine, placed.handled = false) := by
  have hsteps := Placed.countP_outer_runFor_le fuel limit machine
  have hlimit := length_running_le fuel limit machine
  have htotal := Placed.countP_executes (Placed.runFor fuel limit machine)
  have hnone : (∀ placed ∈ Placed.runFor fuel limit machine, placed.handled = false) ↔
      (Placed.runFor fuel limit machine).countP Placed.handled = 0 := by
    simp [List.countP_eq_zero]
  rw [Placed.map_event_runFor] at htotal
  rw [hnone, htotal]
  refine ⟨hsteps, hlimit, ?_, ?_⟩
  · intro hhandled
    omega
  · intro steps left h
    have hcount := Placed.countP_outer_runFor h
    omega

theorem limit_counts_outer_instructions_handling :
    ∃ left, Run.runFor 5 2 Machine.handling = .ok 2 left ∧
      (Trace.Placed.runFor 5 2 Machine.handling).countP Trace.Placed.outer = 2 ∧
      (Trace.runFor 5 2 Machine.handling).countP (·.cause.executes) ≠ 2 := by
  have hrun := Run.eq_ok_of_value? (show (Run.runFor 5 2).value? Machine.handling = some 2 by
    decide +kernel)
  have hhandled : ¬∀ placed ∈ Trace.Placed.runFor 5 2 Machine.handling,
      placed.handled = false := by
    decide +kernel
  obtain ⟨houter, hall⟩ := (limit_counts_outer_instructions 5 2 Machine.handling).2.2.2 _ _ hrun
  exact ⟨_, hrun, houter.symm, fun htotal => hhandled (hall.mp htotal.symm)⟩

/-- A machine that raises interrupt 1, whose handler at address 2 jumps to itself. -/
def Machine.spinning : Machine Unit :=
  { Machine.boot {} ⟨⟨#[0x05, 1, 0x0b, 2, 0, 0, 0, 0, 0, 0, 0]⟩, none⟩ {} () with
    handlers := ⟨[(1, 2)]⟩ }

def Machine.spun : Machine Unit :=
  { Machine.spinning with
    registers := { Machine.spinning.registers.setFlag .privileged true with ip := 2, depth := 1 }
    stack := { values := #[.int 2] } }

theorem Machine.untilDepth_spun (fuel bound : Nat) :
    Run.untilDepth (Run.step fuel) 1 0 bound Machine.spun = .error .outOfFuel Machine.spun := by
  have hstep : Run.step fuel Machine.spun = .ok .jump Machine.spun := by
    rw [Run.step_eq]
    rfl
  have hdepth : Machine.spun.registers.depth ≠ 0 := by decide
  induction bound with
  | zero => exact Run.untilDepth_exhausted hdepth
  | succ bound ih =>
    rw [Run.untilDepth_again hdepth, hstep]
    exact ih

theorem Machine.step_spinning (fuel : Nat) :
    ∃ left, Run.step fuel Machine.spinning = .error .outOfFuel left := by
  have hnext : Run.executeNext Machine.spinning =
      .ok (.raise, some 1) (Machine.spinning.moveTo 2) := rfl
  cases fuel with
  | zero => exact ⟨Machine.spinning.moveTo 2, rfl⟩
  | succ fuel =>
    have hcalled : Run.callHandler 1 2 ((Machine.spinning.moveTo 2).enterInterrupt 1) =
        .ok () Machine.spun := rfl
    have hdispatch : Run.dispatchWith (Run.step fuel) fuel 1 2
        ((Machine.spinning.moveTo 2).enterInterrupt 1) = .error .outOfFuel Machine.spun := by
      rw [Run.dispatchWith_apply, Run.bind_apply, hcalled]
      exact Machine.untilDepth_spun fuel fuel
    have hinterrupt : Run.interruptWith (Run.step fuel) fuel 1 (Machine.spinning.moveTo 2) =
        .error .outOfFuel (Machine.spun.leaveInterrupt false) := by
      have hfind : ((Machine.spinning.moveTo 2).enterInterrupt 1).handlers.find? 1 = some 2 := rfl
      rw [Run.interruptWith_enabled (Run.step fuel) fuel 1 rfl, hfind]
      dsimp only
      rw [hdispatch]
      rfl
    refine ⟨Machine.spun.leaveInterrupt false, ?_⟩
    rw [Run.step_eq, Run.stepWith, Run.bind_apply, hnext]
    dsimp only
    rw [Run.bind_apply, show Run.raise (fuel + 1) 1 (Machine.spinning.moveTo 2) = _ from hinterrupt]

/-- A run of two steps executes four instructions, and a run of one step may never end: limit and
result are not about the instructions of handlers. -/
theorem limit_exceeded_in_handler :
    (∃ left, Run.runFor 5 2 Machine.handling = .ok 2 left ∧
      (Trace.runFor 5 2 Machine.handling).countP (·.cause.executes) = 4) ∧
    ∀ fuel, ∃ left, Run.runFor fuel 1 Machine.spinning = .error .outOfFuel left := by
  refine ⟨?_, ?_⟩
  · have hrun := Run.eq_ok_of_value? (show (Run.runFor 5 2).value? Machine.handling = some 2 by
      decide +kernel)
    exact ⟨_, hrun, by decide +kernel⟩
  · intro fuel
    obtain ⟨left, hleft⟩ := Machine.step_spinning fuel
    refine ⟨left, ?_⟩
    unfold Run.runFor
    rw [Run.runFrom_again rfl, Run.bind_apply, hleft]

end RegisterMachine
