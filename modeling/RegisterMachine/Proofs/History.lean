import RegisterMachine.Proofs.Chronicle

/-!
The events of a machine that its host calls again and again, also after calls that stop. What one act
of the machine or of its host keeps, `Machine.Preserved`, holds before and after every event of every
such history, however deep its interrupts nest.
-/
namespace RegisterMachine

variable {σ : Type}

def Machine.history (machine : Machine σ) (calls : List HostCall) : List (Event σ) :=
  Trace.recorder.history machine calls

def Event.Within (kept : Machine σ → Prop) (event : Event σ) : Prop :=
  kept event.before ∧ kept event.after

/-- Each single act keeps the property: an instruction, also one that stops, the call of a handler,
the ways into and out of an interrupt, and a reset by the host. -/
structure Machine.Preserved (kept : Machine σ → Prop) : Prop where
  executeNext : (Run.executeNext : Run σ (Instruction × Option UInt8)).Keeps kept
  callHandler : ∀ number address, (Run.callHandler number address : Run σ Unit).Keeps kept
  enterInterrupt : ∀ machine number, kept machine → kept (machine.enterInterrupt number)
  leaveInterrupt : ∀ machine privileged, kept machine → kept (machine.leaveInterrupt privileged)
  reset : ∀ machine, kept machine → kept machine.reset

theorem Run.writes_callHandler (number : UInt8) (address : UInt64) :
    (Run.callHandler number address : Run σ Unit).Writes [.ip, .depth, .stack, .world] :=
  (Run.writes_log _ _ (by decide)).bind fun _ =>
    Run.writes_call address (by decide) (by decide) (by decide)

namespace Machine.Preserved

variable {kept : Machine σ → Prop}

theorem lawful (h : Preserved kept) {moment : Moment σ} (hmoment : moment.Lawful)
    (hbefore : kept moment.before) : kept moment.after := by
  cases hmoment with
  | executed hnext =>
    rw [← Run.final_of_ok hnext]
    exact h.executeNext _ hbefore
  | stopped hnext =>
    rw [← Run.final_of_error hnext]
    exact h.executeNext _ hbefore
  | called hcall =>
    rw [← Run.final_of_ok hcall]
    exact h.callHandler _ _ _ hbefore
  | refused hcall =>
    rw [← Run.final_of_error hcall]
    exact h.callHandler _ _ _ hbefore
  | entered before number => exact h.enterInterrupt before number hbefore
  | left before privileged => exact h.leaveInterrupt before privileged hbefore
  | reset before => exact h.reset before hbefore

theorem linked (h : Preserved kept) {start final : Machine σ} {moments : List (Moment σ)}
    (hlinked : Linked start moments final) (hstart : kept start) :
    kept final ∧ ∀ event ∈ moments.flatMap Trace.recorder.note, event.Within kept := by
  obtain ⟨hfinal, hall⟩ := @Linked.follows σ start final moments Unit (fun _ _ => ())
    (fun _ => kept) (fun _ _ hmoment => h.lawful hmoment) hlinked () hstart
  refine ⟨hfinal, fun event hevent => ?_⟩
  obtain ⟨moment, hmoment, hnote⟩ := List.mem_flatMap.mp hevent
  obtain ⟨earlier, later, hmoments⟩ := List.append_of_mem hmoment
  obtain ⟨cause, -, rfl⟩ := List.mem_map.mp hnote
  exact hall earlier moment later hmoments

theorem step_events (h : Preserved kept) (fuel : Nat) (machine : Machine σ) (hmachine : kept machine) :
    ∀ event ∈ Trace.step fuel machine, event.Within kept := by
  rw [Trace.step, ← (Chronicle.views fun _ _ => rfl).step fuel machine]
  exact (h.linked (.step fuel machine) hmachine).2

theorem agree (origin : Machine σ) :
    Preserved fun machine => origin.AgreeExcept Part.all machine where
  executeNext machine h := h.trans (Run.writes_executeNext machine)
  callHandler number address machine h :=
    h.trans ((Run.writes_callHandler number address machine).mono (by decide))
  enterInterrupt machine number h :=
    h.trans ((machine.agree_enterInterrupt number).mono (by decide))
  leaveInterrupt machine privileged h :=
    h.trans ((machine.agree_leaveInterrupt privileged).mono (by decide))
  reset machine h := h.trans ⟨rfl, rfl, rfl, fun part hn => absurd (by cases part <;> decide) hn⟩

/-- A preserved property of the machine at the start holds at the end of every history and on both
sides of each of its events. -/
theorem history (h : Preserved kept) (calls : List HostCall) {machine : Machine σ}
    (hmachine : kept machine) :
    kept (machine.after calls) ∧ ∀ event ∈ machine.history calls, event.Within kept := by
  rw [Machine.history, ← (Chronicle.views fun _ _ => rfl).history calls machine]
  exact h.linked (.chronicle machine calls) hmachine

end Machine.Preserved

end RegisterMachine
