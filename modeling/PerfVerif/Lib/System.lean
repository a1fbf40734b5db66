import Mathlib.Logic.Relation

/-!
# Guarded transition systems

A system has starting states and an executable partial step for each action. A run is
judged together with a condition on its steps, which sees the state before the step and
the action; an unconditional run is one whose condition always holds. Reachability is
the reflexive transitive closure of the conditioned step, so composition of runs and
induction over them come from the closure.
-/

namespace Transition

/-- Starting states and the effect of each action; `none` is a disabled action. -/
structure System (σ α : Type) where
  /-- The states a run may start in. -/
  init : σ → Prop
  /-- The state after an action, when it is enabled. -/
  step : σ → α → Option σ

namespace System

variable {σ α : Type} (sys : System σ α)

/-- One enabled action that meets the condition on the state before it. -/
def Next (ok : σ → α → Prop) (before after : σ) : Prop :=
  ∃ action, ok before action ∧ sys.step before action = some after

/-- A finite run, every step of which meets the condition. -/
abbrev Leads (ok : σ → α → Prop) : σ → σ → Prop := Relation.ReflTransGen (sys.Next ok)

/-- The states of the runs from a starting state whose steps all meet the condition. -/
def Reachable (ok : σ → α → Prop) (state : σ) : Prop :=
  ∃ first, sys.init first ∧ sys.Leads ok first state

/-- The condition that every step meets. -/
def always : σ → α → Prop := fun _ _ => True

variable {sys} {ok weaker : σ → α → Prop}

/-- A starting state is reachable. -/
theorem Reachable.start {state : σ} (initial : sys.init state) : sys.Reachable ok state :=
  ⟨state, initial, .refl⟩

/-- One more admitted action stays within the reachable states. -/
theorem Reachable.next {state after : σ} {action : α} (reached : sys.Reachable ok state)
    (admitted : ok state action) (taken : sys.step state action = some after) :
    sys.Reachable ok after := by
  obtain ⟨first, initial, path⟩ := reached
  exact ⟨first, initial, path.tail ⟨action, admitted, taken⟩⟩

/-- A run from a reachable state stays within the reachable states. -/
theorem Reachable.leads {state after : σ} (reached : sys.Reachable ok state)
    (path : sys.Leads ok state after) : sys.Reachable ok after := by
  obtain ⟨first, initial, prior⟩ := reached
  exact ⟨first, initial, prior.trans path⟩

/-- One admitted action is a run. -/
theorem leads_single {state after : σ} (action : α) (admitted : ok state action)
    (taken : sys.step state action = some after) : sys.Leads ok state after :=
  .single ⟨action, admitted, taken⟩

/-- A run that meets a condition meets every weaker one. -/
theorem leads_mono {state after : σ} (implied : ∀ s a, ok s a → weaker s a)
    (path : sys.Leads ok state after) : sys.Leads weaker state after := by
  have widened := Relation.ReflTransGen.mono (r := sys.Next ok) (p := sys.Next weaker)
    (fun _ _ ⟨action, admitted, taken⟩ => ⟨action, implied _ _ admitted, taken⟩)
  exact widened _ _ path

/-- What is reached under a condition is reached under every weaker one. -/
theorem Reachable.mono {state : σ} (implied : ∀ s a, ok s a → weaker s a)
    (reached : sys.Reachable ok state) : sys.Reachable weaker state := by
  obtain ⟨first, initial, path⟩ := reached
  exact ⟨first, initial, leads_mono implied path⟩

/-- A predicate that holds at the start and is kept by every admitted step between
reachable states holds in every reachable state. -/
theorem Reachable.invariant {property : σ → Prop} (starts : ∀ s, sys.init s → property s)
    (keeps : ∀ s a s', sys.Reachable ok s → property s → ok s a → sys.step s a = some s' →
      property s')
    {state : σ} (reached : sys.Reachable ok state) : property state := by
  obtain ⟨first, initial, path⟩ := reached
  induction path with
  | refl => exact starts first initial
  | tail prior last ih =>
    obtain ⟨action, admitted, taken⟩ := last
    exact keeps _ _ _ ⟨first, initial, prior⟩ ih admitted taken

/-- A predicate that every admitted step keeps holds along a run. -/
theorem leads_invariant (property : σ → Prop)
    (keeps : ∀ s a s', property s → ok s a → sys.step s a = some s' → property s')
    {state after : σ} (path : sys.Leads ok state after) (holds : property state) :
    property after := by
  induction path with
  | refl => exact holds
  | tail _ last ih =>
    obtain ⟨action, admitted, taken⟩ := last
    exact keeps _ _ _ ih admitted taken

/-- Where every reachable state short of a goal has a step on which a measure falls, every run can
go on to the goal. -/
theorem leads_to_goal (measure : σ → Nat) {goal : σ → Prop}
    (falls : ∀ state, sys.Reachable ok state → ¬ goal state → ∃ action after, ok state action ∧
      sys.step state action = some after ∧ measure after < measure state)
    {state : σ} (reached : sys.Reachable ok state) :
    ∃ after, sys.Leads ok state after ∧ goal after := by
  generalize bound : measure state = limit
  induction limit using Nat.strongRecOn generalizing state with
  | ind limit ih =>
    by_cases there : goal state
    · exact ⟨state, .refl, there⟩
    · obtain ⟨action, after, admitted, taken, less⟩ := falls state reached there
      obtain ⟨last, rest, final⟩ :=
        ih (measure after) (bound ▸ less) (reached.next admitted taken) rfl
      exact ⟨last, .head ⟨action, admitted, taken⟩ rest, final⟩

/-- Every run counts to a total: none passes it, and each can go on until it is reached. -/
def CountsTo (sys : System σ α) (ok : σ → α → Prop) (count : σ → Nat) (total : Nat) : Prop :=
  ∀ state, sys.Reachable ok state →
    count state ≤ total ∧ ∃ after, sys.Leads ok state after ∧ count after = total

/-- No run from here changes the count. -/
def Settled (sys : System σ α) (ok : σ → α → Prop) (count : σ → Nat) (state : σ) : Prop :=
  ∀ after, sys.Leads ok state after → count after = count state

/-- Where the count is settled, it is the total. -/
theorem CountsTo.settled {count : σ → Nat} {total : Nat} (counts : sys.CountsTo ok count total)
    {state : σ} (reached : sys.Reachable ok state) (settled : sys.Settled ok count state) :
    count state = total := by
  have ⟨_, after, path, final⟩ := counts state reached
  exact (settled after path).symm.trans final

/-- Replay a list of actions; `none` when one of them is disabled. -/
def run (sys : System σ α) : σ → List α → Option σ
  | state, [] => some state
  | state, action :: rest => (sys.step state action).bind fun after => run sys after rest

/-- The end of a replay of actions that meet the condition in every state is led to by its
start. -/
theorem leads_of_run {state after : σ} (actions : List α)
    (admitted : ∀ s, ∀ action ∈ actions, ok s action)
    (replayed : sys.run state actions = some after) : sys.Leads ok state after := by
  induction actions generalizing state with
  | nil =>
    obtain rfl := Option.some.inj replayed
    exact .refl
  | cons action rest ih =>
    cases taken : sys.step state action with
    | none => simp [run, taken] at replayed
    | some middle =>
      simp only [run, taken, Option.bind_some] at replayed
      have path := ih (fun s a member => admitted s a (List.mem_cons_of_mem _ member)) replayed
      exact .head ⟨action, admitted _ _ List.mem_cons_self, taken⟩ path

/-- The end of a replay from a starting state is reachable. -/
theorem Reachable.of_run {first after : σ} (initial : sys.init first) (actions : List α)
    (admitted : ∀ s, ∀ action ∈ actions, ok s action)
    (replayed : sys.run first actions = some after) : sys.Reachable ok after :=
  ⟨first, initial, leads_of_run actions admitted replayed⟩

/-- Replay a list of actions as long as each meets the condition; `none` when one of them is
disabled or does not. -/
def guardedRun (sys : System σ α) (ok : σ → α → Prop) [∀ s a, Decidable (ok s a)] :
    σ → List α → Option σ
  | state, [] => some state
  | state, action :: rest =>
    if ok state action then
      (sys.step state action).bind fun after => guardedRun sys ok after rest
    else none

/-- The end of a guarded replay from a starting state is reachable. -/
theorem Reachable.of_guardedRun [∀ s a, Decidable (ok s a)] {first after : σ}
    (initial : sys.init first) (actions : List α)
    (replayed : sys.guardedRun ok first actions = some after) : sys.Reachable ok after := by
  refine ⟨first, initial, ?_⟩
  clear initial
  induction actions generalizing first with
  | nil =>
    obtain rfl := Option.some.inj replayed
    exact .refl
  | cons action rest ih =>
    rw [guardedRun] at replayed
    split at replayed
    · rename_i admitted
      have ⟨middle, taken, remaining⟩ := Option.bind_eq_some_iff.mp replayed
      exact .head ⟨action, admitted, taken⟩ (ih remaining)
    · contradiction

end System

end Transition
