import PerfVerif.Lib.System

/-!
# First-in-first-out queues

A queue is the list of its items, oldest first. Its events carry the item that enters or leaves.
What has left, followed by what is still there, is what has entered, in that order.
-/

namespace Transition

/-- An item enters at the back, or leaves from the front. -/
inductive QueueEvent (ι : Type) where
  | enqueue (item : ι)
  | dequeue (item : ι)
  deriving DecidableEq, Repr

/-- The item that enters. -/
def QueueEvent.enqueued {ι : Type} : QueueEvent ι → Option ι
  | .enqueue item => some item
  | .dequeue _ => none

/-- The item that leaves. -/
def QueueEvent.dequeued {ι : Type} : QueueEvent ι → Option ι
  | .enqueue _ => none
  | .dequeue item => some item

/-- A queue, empty at first; only its front item can leave. -/
def queueSystem (ι : Type) [DecidableEq ι] : System (List ι) (QueueEvent ι) where
  init items := items = []
  step items
    | .enqueue item => some (items ++ [item])
    | .dequeue item => if items.head? = some item then some items.tail else none

variable {ι : Type} [DecidableEq ι]

/-- A step keeps the order: what leaves was in front, what enters comes behind. -/
theorem queueSystem_step {items after : List ι} {event : QueueEvent ι}
    (taken : (queueSystem ι).step items event = some after) :
    items ++ event.enqueued.toList = event.dequeued.toList ++ after := by
  cases event with
  | enqueue item =>
    cases taken
    rfl
  | dequeue item =>
    simp only [queueSystem] at taken
    split at taken
    · rename_i front
      cases taken
      obtain ⟨rest, rfl⟩ := List.head?_eq_some_iff.mp front
      exact List.append_nil _
    · contradiction

/-- What was there and what has entered is what has left and what is there. -/
theorem queueSystem_run {items after : List ι} {events : List (QueueEvent ι)}
    (replayed : (queueSystem ι).run items events = some after) :
    items ++ events.filterMap QueueEvent.enqueued =
      events.filterMap QueueEvent.dequeued ++ after := by
  induction events generalizing items with
  | nil =>
    cases replayed
    exact List.append_nil _
  | cons event rest ih =>
    obtain ⟨middle, taken, later⟩ := Option.bind_eq_some_iff.mp replayed
    have first := queueSystem_step taken
    have others := ih later
    cases event with
    | enqueue item =>
      change items ++ [item] = middle at first
      rw [← first, List.append_assoc] at others
      exact others
    | dequeue item =>
      change items ++ [] = item :: middle at first
      rw [List.append_nil] at first
      rw [first]
      exact congrArg (List.cons item) others

end Transition
