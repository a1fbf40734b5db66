import PerfVerif.Lib.System

/-!
# Refinement of systems

The steps of a system may show events. A concrete system refines an abstract one under an
abstraction of its states when every step of a reachable state either shows no event and leaves the
abstraction alone, or shows an event that the abstract system can take between the two
abstractions. Then every run of the concrete system shows a run of the abstract one.
-/

namespace Transition

namespace System

variable {σ α τ β : Type}

/-- A run whose steps meet the condition, with the events that they show, oldest first. -/
inductive Traces (sys : System σ α) (ok : σ → α → Prop) (event : σ → α → Option β) :
    σ → List β → σ → Prop
  | refl (state : σ) : Traces sys ok event state [] state
  | tail {state middle after : σ} {events : List β} {action : α}
      (prior : Traces sys ok event state events middle) (admitted : ok middle action)
      (taken : sys.step middle action = some after) :
      Traces sys ok event state (events ++ (event middle action).toList) after

variable {sys : System σ α} {ok : σ → α → Prop} {event : σ → α → Option β}

/-- A run with events is a run. -/
theorem Traces.leads {state after : σ} {events : List β}
    (traced : sys.Traces ok event state events after) : sys.Leads ok state after := by
  induction traced with
  | refl => exact .refl
  | tail _ admitted taken ih => exact ih.tail ⟨_, admitted, taken⟩

/-- Replay a list of actions and collect the events that they show. -/
def tracedRun (sys : System σ α) (event : σ → α → Option β) :
    σ → List α → Option (List β × σ)
  | state, [] => some ([], state)
  | state, action :: rest =>
    (sys.step state action).bind fun middle =>
      (tracedRun sys event middle rest).map fun (events, after) =>
        ((event state action).toList ++ events, after)

/-- A step in front of a run with events. -/
theorem Traces.head {state middle after : σ} {events : List β} {action : α}
    (admitted : ok state action) (taken : sys.step state action = some middle)
    (traced : sys.Traces ok event middle events after) :
    sys.Traces ok event state ((event state action).toList ++ events) after := by
  induction traced with
  | refl =>
    rw [List.append_nil]
    exact (Traces.refl state).tail admitted taken
  | tail _ later stepped ih =>
    rw [← List.append_assoc]
    exact ih.tail later stepped

/-- A replay of actions that meet the condition in every state is a run with its events. -/
theorem traces_of_tracedRun {state after : σ} {events : List β} (actions : List α)
    (admitted : ∀ s, ∀ action ∈ actions, ok s action)
    (replayed : sys.tracedRun event state actions = some (events, after)) :
    sys.Traces ok event state events after := by
  induction actions generalizing state events with
  | nil =>
    cases replayed
    exact .refl _
  | cons action rest ih =>
    obtain ⟨middle, taken, later⟩ := Option.bind_eq_some_iff.mp replayed
    obtain ⟨⟨shown, last⟩, remaining, same⟩ := Option.map_eq_some_iff.mp later
    cases same
    exact (ih (fun s a member => admitted s a (List.mem_cons_of_mem _ member)) remaining).head
      (admitted _ _ List.mem_cons_self) taken

/-- Replaying two lists as one is replaying them one after the other. -/
theorem run_append (sys : System σ α) (state : σ) (first second : List α) :
    sys.run state (first ++ second) = (sys.run state first).bind fun middle =>
      sys.run middle second := by
  induction first generalizing state with
  | nil => rfl
  | cons action rest ih =>
    rw [List.cons_append, run, run, Option.bind_assoc]
    exact Option.bind_congr fun middle _ => ih middle

/-- Every step of the concrete system shows at most one step of the abstract one, between the
abstractions of its two states. -/
structure Refines (concrete : System σ α) (ok : σ → α → Prop) (event : σ → α → Option β)
    (abstract : System τ β) (abstraction : σ → τ) : Prop where
  start : ∀ state, concrete.init state → abstract.init (abstraction state)
  step : ∀ state action after, concrete.Reachable ok state → ok state action →
    concrete.step state action = some after →
    abstract.run (abstraction state) (event state action).toList = some (abstraction after)

/-- A run from a reachable state shows a run of the abstract system between the abstractions of its
ends. -/
theorem Refines.traces {abstract : System τ β} {abstraction : σ → τ}
    (refines : sys.Refines ok event abstract abstraction) {state after : σ} {events : List β}
    (reached : sys.Reachable ok state) (traced : sys.Traces ok event state events after) :
    abstract.run (abstraction state) events = some (abstraction after) := by
  induction traced with
  | refl => rfl
  | tail prior admitted taken ih =>
    rw [run_append, ih, Option.bind_some]
    exact refines.step _ _ _ (reached.leads prior.leads) admitted taken

end System

end Transition
