import RegisterMachine.Proofs.HostCall
import RegisterMachine.Proofs.Trace

/-!
A run as a chain of single acts. The chronicle of a run has every act in order, also instructions
that stop and the ways out of interrupts, so that each act begins with the machine that the one
before it left. A record that is kept beside the machine, act by act, can then be followed through
every run of every host: `Linked.follows` needs to know of single acts only.
-/
namespace RegisterMachine

variable {σ : Type}

/-- What each act makes of the machine. -/
inductive Moment.Lawful : Moment σ → Prop
  | executed {before after : Machine σ} {instruction : Instruction} {raised : Option UInt8}
      (h : Run.executeNext before = .ok (instruction, raised) after) :
      Lawful ⟨.executed instruction, before, after⟩
  | stopped {before after : Machine σ} {stop : Stop}
      (h : Run.executeNext before = .error stop after) : Lawful ⟨.stopped, before, after⟩
  | entered (before : Machine σ) (number : UInt8) :
      Lawful ⟨.entered number, before, before.enterInterrupt number⟩
  | called {before after : Machine σ} {number : UInt8} {address : UInt64}
      (h : Run.callHandler number address before = .ok () after) :
      Lawful ⟨.called number, before, after⟩
  | refused {before after : Machine σ} {number : UInt8} {address : UInt64} {stop : Stop}
      (h : Run.callHandler number address before = .error stop after) :
      Lawful ⟨.refused number, before, after⟩
  | left (before : Machine σ) (privileged : Bool) :
      Lawful ⟨.left, before, before.leaveInterrupt privileged⟩
  | reset (before : Machine σ) : Lawful ⟨.reset, before, before.reset⟩

/-- The moments lead from one machine to another, each from where the one before it ended. -/
inductive Linked : Machine σ → List (Moment σ) → Machine σ → Prop
  | nil (machine : Machine σ) : Linked machine [] machine
  | cons {moment : Moment σ} {later : List (Moment σ)} {final : Machine σ}
      (hmoment : moment.Lawful) (hlater : Linked moment.after later final) :
      Linked moment.before (moment :: later) final

namespace Linked

variable {start middle final : Machine σ} {moments later : List (Moment σ)}

theorem single {moment : Moment σ} (h : moment.Lawful) :
    Linked moment.before [moment] moment.after :=
  .cons h (.nil moment.after)

theorem append (h : Linked start moments middle) (hlater : Linked middle later final) :
    Linked start (moments ++ later) final := by
  induction h with
  | nil machine => exact hlater
  | cons hmoment _ ih => exact .cons hmoment (ih hlater)

/-- A property of the machine and of a record that is kept of its acts holds before and after every
act, if each single act takes it along. -/
theorem follows {ρ : Type} {record : ρ → Moment σ → ρ} (holds : ρ → Machine σ → Prop)
    (hact : ∀ known moment, moment.Lawful → holds known moment.before →
      holds (record known moment) moment.after)
    (h : Linked start moments final) {known : ρ} (hstart : holds known start) :
    holds (moments.foldl record known) final ∧
    ∀ earlier moment later, moments = earlier ++ moment :: later →
      holds (earlier.foldl record known) moment.before ∧
      holds ((earlier ++ [moment]).foldl record known) moment.after := by
  induction h generalizing known with
  | nil machine =>
    refine ⟨hstart, ?_⟩
    intro earlier moment later hmoments
    simp at hmoments
  | cons hmoment _ ih =>
    have hnext := hact known _ hmoment hstart
    obtain ⟨hfinal, hall⟩ := ih hnext
    refine ⟨hfinal, ?_⟩
    intro earlier found later hmoments
    cases earlier with
    | nil =>
      cases hmoments
      exact ⟨hstart, hnext⟩
    | cons first earlier =>
      cases hmoments
      exact hall earlier found later rfl

end Linked

namespace Recorder

variable {α β : Type}

def call (recorder : Recorder σ α) (machine : Machine σ) : HostCall → List α
  | .step fuel => recorder.step fuel machine
  | .runFor fuel limit => recorder.runFor fuel limit machine
  | .interrupt fuel number => recorder.interrupt fuel number machine
  | .reset => recorder.note ⟨.reset, machine, machine.reset⟩

def history (recorder : Recorder σ α) (machine : Machine σ) : List HostCall → List α
  | [] => []
  | call :: calls => recorder.call machine call ++ recorder.history (call.final machine) calls

theorem Views.history {view : α → List β} {rich : Recorder σ α} {poor : Recorder σ β}
    (h : Views view rich poor) (calls : List HostCall) (machine : Machine σ) :
    (rich.history machine calls).flatMap view = poor.history machine calls := by
  induction calls generalizing machine with
  | nil => rfl
  | cons call calls ih =>
    unfold Recorder.history
    rw [List.flatMap_append, ih]
    congr 1
    cases call with
    | step fuel => exact h.step fuel machine
    | runFor fuel limit => exact h.runFor fuel limit machine
    | interrupt fuel number => exact h.interrupt fuel number machine
    | reset => exact h.note _

end Recorder

def Chronicle.recorder : Recorder σ (Moment σ) where
  note moment := [moment]

/-- The chronicle shows what any recorder notes that does not tell dispatches apart. -/
theorem Chronicle.views {α : Type} {recorder : Recorder σ α}
    (h : ∀ depth note, recorder.inside depth note = note) :
    Recorder.Views recorder.note Chronicle.recorder recorder where
  note moment := List.append_nil _
  inside depth moment := by
    rw [show recorder.inside depth = id from funext (h depth), List.map_id]
    rfl

def Machine.chronicle (machine : Machine σ) (calls : List HostCall) : List (Moment σ) :=
  Chronicle.recorder.history machine calls

namespace Linked

variable {run : Run σ Instruction} {moments : Machine σ → List (Moment σ)}

theorem looping (hrun : ∀ machine, Linked machine (moments machine) (run.final machine))
    (number : UInt8) (depth : UInt64) (bound : Nat) (machine : Machine σ) :
    Linked machine ((Trace.looping run depth bound machine).flatMap moments)
      ((Run.untilDepth run number depth bound).final machine) := by
  induction bound generalizing machine with
  | zero =>
    have hfinal : (Run.untilDepth run number depth 0).final machine = machine := by
      by_cases hdepth : machine.registers.depth = depth
      · exact Run.final_of_ok (Run.untilDepth_reached hdepth 0)
      · exact Run.final_of_error (Run.untilDepth_exhausted hdepth)
    rw [hfinal]
    exact .nil machine
  | succ bound ih =>
    by_cases hdepth : machine.registers.depth = depth
    · rw [Trace.looping_reached hdepth, Run.final_of_ok (Run.untilDepth_reached hdepth _)]
      exact .nil machine
    · have hfirst := hrun machine
      rw [Trace.looping_again hdepth, List.flatMap_cons]
      apply hfirst.append
      unfold Run.final
      rw [Run.untilDepth_again hdepth]
      cases run machine with
      | error stop left => exact .nil left
      | ok instruction left =>
        dsimp only
        split
        · exact .nil left
        · exact ih left

theorem dispatchWith (hrun : ∀ machine, Linked machine (moments machine) (run.final machine))
    (bound : Nat) (number : UInt8) (address : UInt64) (machine : Machine σ) :
    Linked machine (Chronicle.recorder.dispatchWith run moments bound number address machine)
      ((Run.dispatchWith run bound number address).final machine) := by
  unfold Recorder.dispatchWith Run.final
  rw [Run.dispatchWith_apply, Run.bind_apply]
  cases hcall : Run.callHandler number address machine with
  | error stop left => exact .single (.refused hcall)
  | ok _ called =>
    apply Linked.cons (.called hcall)
    change Linked called (((Trace.looping _ _ _ _).flatMap moments).map fun moment => moment) _
    rw [List.map_id']
    exact looping hrun number machine.registers.depth bound called

theorem interruptWith (hrun : ∀ machine, Linked machine (moments machine) (run.final machine))
    (bound : Nat) (number : UInt8) (machine : Machine σ) :
    Linked machine (Chronicle.recorder.interruptWith run moments bound number machine)
      ((Run.interruptWith run bound number).final machine) := by
  unfold Recorder.interruptWith
  cases henabled : machine.registers.interruptsEnabled with
  | false =>
    rw [Run.final_of_ok (Run.interruptWith_disabled run bound number henabled)]
    exact .nil machine
  | true =>
    rw [Run.final_interruptWith run bound number henabled, if_pos rfl]
    apply Linked.cons (.entered machine number)
    cases (machine.enterInterrupt number).handlers.find? number with
    | none => exact .single (.left _ _)
    | some address => exact (dispatchWith hrun bound number address _).append (.single (.left _ _))

theorem stepWith {take : UInt8 → Run σ Unit} {taken : UInt8 → Machine σ → List (Moment σ)}
    (htake : ∀ number machine, Linked machine (taken number machine) ((take number).final machine))
    (machine : Machine σ) :
    Linked machine (Chronicle.recorder.stepWith taken machine)
      ((Run.stepWith take).final machine) := by
  unfold Recorder.stepWith Run.final Run.stepWith
  rw [Run.bind_apply]
  cases hnext : Run.executeNext machine with
  | error stop left => exact .single (.stopped hnext)
  | ok result after =>
    obtain ⟨instruction, raised⟩ := result
    apply Linked.cons (.executed hnext)
    cases raised with
    | none => exact .nil after
    | some number =>
      have htaken := htake number after
      unfold Run.final at htaken
      dsimp only
      rw [Run.bind_apply]
      cases hrun : take number after with
      | ok _ left =>
        rw [hrun] at htaken
        exact htaken
      | error stop left =>
        rw [hrun] at htaken
        exact htaken

/-- By induction on the fuel, since the moments of a step hold those of the steps of its handler. -/
theorem step (fuel : Nat) (machine : Machine σ) :
    Linked machine (Chronicle.recorder.step fuel machine) ((Run.step fuel).final machine) := by
  induction fuel generalizing machine with
  | zero => exact stepWith (fun _ machine => .nil machine) machine
  | succ fuel ih => exact stepWith (interruptWith ih fuel) machine

theorem running (fuel count limit : Nat) (machine : Machine σ) :
    Linked machine (Chronicle.recorder.runFor fuel limit machine)
      ((Run.runFrom fuel count limit).final machine) := by
  induction limit generalizing count machine with
  | zero => exact .nil machine
  | succ limit ih =>
    unfold Recorder.runFor Trace.running
    cases hhalted : machine.halted with
    | true =>
      rw [Run.final_of_ok (Run.runFrom_halted hhalted fuel count _)]
      exact .nil machine
    | false =>
      have hfirst := step fuel machine
      simp only [Bool.false_eq_true, if_false, List.flatMap_cons]
      apply hfirst.append
      unfold Run.final
      rw [Run.runFrom_again hhalted, Run.bind_apply]
      cases Run.step fuel machine with
      | error stop left => exact .nil left
      | ok instruction left => exact ih (count + 1) left

theorem call (machine : Machine σ) (call : HostCall) :
    Linked machine (Chronicle.recorder.call machine call) (call.final machine) := by
  cases call with
  | step fuel => exact step fuel machine
  | runFor fuel limit => exact running fuel 0 limit machine
  | interrupt fuel number => exact interruptWith (step fuel) fuel number machine
  | reset => exact .single (.reset machine)

theorem chronicle (machine : Machine σ) (calls : List HostCall) :
    Linked machine (machine.chronicle calls) (machine.after calls) := by
  induction calls generalizing machine with
  | nil => exact .nil machine
  | cons first calls ih => exact (call machine first).append (ih (first.final machine))

end Linked

end RegisterMachine
