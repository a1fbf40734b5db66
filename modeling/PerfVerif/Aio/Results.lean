import PerfVerif.Aio.Completion
import Mathlib.Data.List.InsertIdx
import Mathlib.Data.List.Perm.Basic

/-!
# `aio_write_test` with the results of its writes

Here `aio_write` may refuse a write, which the main thread only reports, and a write may fail or
write fewer bytes than asked. `sig_thread` looks at the result of each write whose signal it takes:
it stores what `aio_return` gives in an `int`, ends the program with `exit(9)` where that is
negative, and counts the write otherwise, short or not. The file was opened with `O_APPEND`, so a
write adds its bytes at the end of the file when it is done.
-/

namespace PerfVerif.Aio

open Transition

/-- The buffers that the writes take their bytes from, each of the block size. -/
structure Blocks where
  blocksize : Nat
  bufferCount : Nat
  bytes : Nat → List UInt8
  bufferCount_pos : 0 < bufferCount
  length_bytes : ∀ number < bufferCount, (bytes number).length = blocksize

/-- A write that is done: the number of its buffer, and how many bytes it wrote unless it failed. -/
structure Done where
  buffer : Nat
  wrote : Option Nat
  deriving DecidableEq, Repr

/-- How many bytes the write has written. -/
def Done.count (done : Done) : Nat := done.wrote.getD 0

/-- What `aio_return` gives. -/
def Done.status (done : Done) : Int :=
  match done.wrote with
  | some count => count
  | none => -1

/-- `my_status >= 0`, where `my_status` is an `int`. -/
def Done.Accepted (done : Done) : Prop := 0 ≤ toInt done.status

instance (done : Done) : Decidable done.Accepted := inferInstanceAs (Decidable (0 ≤ _))

/-- The bytes of the file that a write has added. -/
def Done.bytes (blocks : Blocks) (done : Done) : List UInt8 :=
  (blocks.bytes done.buffer).take done.count

/-- A call of `aio_write_test` with the file and the writes. -/
structure Session where
  threads : State
  /-- The buffers of the writes in flight, oldest first. -/
  flying : List Nat
  /-- The writes whose completion signals are queued, oldest first. -/
  queued : List Done
  file : List UInt8
  /-- Writes that `aio_write` refused, and the buffers of the others. -/
  refused : Nat
  drawn : List Nat
  /-- The writes that are done, oldest first. -/
  done : List Done
  /-- `exit(9)`. -/
  exited : Bool

/-- What can happen next. -/
inductive SessionAct where
  /-- A step of the main thread; where it submits a write, the value of `rand()` and whether
  `aio_write` refuses it. -/
  | main (rand : Nat) (refuse : Bool)
  | sig
  /-- The write in flight at this place is done. -/
  | complete (index : Nat) (wrote : Option Nat)
  | wake
  | eintr
  deriving DecidableEq, Repr

/-- The next step of the main thread calls `aio_write`. -/
def Main.submits (cfg : Config) : Main → Bool
  | .inner _ j => j < cfg.maxAios
  | _ => false

/-- The main thread submits a write from a random buffer. -/
def Session.mainStep (blocks : Blocks) (cfg : Config) (s : Session) (rand : Nat) (refuse : Bool) :
    Option Session :=
  (Aio.mainStep cfg s.threads).map fun after =>
    if s.threads.main.submits cfg then
      if refuse then
        { s with threads := { after with inFlight := s.threads.inFlight }, refused := s.refused + 1 }
      else
        { s with
          threads := after
          flying := s.flying ++ [rand % blocks.bufferCount]
          drawn := s.drawn ++ [rand % blocks.bufferCount] }
    else { s with threads := after }

/-- `sig_thread` takes a signal only with the result of its write. -/
def Session.sigStep (cfg : Config) (s : Session) : Option Session :=
  if s.threads.sig = .sigwaitinfo then
    match s.queued with
    | [] => none
    | done :: rest =>
      if done.Accepted then
        (Aio.sigStep cfg s.threads).map fun after => { s with threads := after, queued := rest }
      else some { s with queued := rest, exited := true }
  else (Aio.sigStep cfg s.threads).map fun after => { s with threads := after }

/-- A write in flight is done, having written no more than it was asked to. -/
def Session.complete (blocks : Blocks) (s : Session) (index : Nat) (wrote : Option Nat) :
    Option Session :=
  match s.flying[index]? with
  | none => none
  | some buffer =>
    if wrote.getD 0 ≤ blocks.blocksize then
      some { s with
        threads := { s.threads with
          inFlight := s.threads.inFlight - 1, pending := s.threads.pending + 1 }
        flying := s.flying.eraseIdx index
        queued := s.queued ++ [⟨buffer, wrote⟩]
        file := s.file ++ Done.bytes blocks ⟨buffer, wrote⟩
        done := s.done ++ [⟨buffer, wrote⟩] }
    else none

/-- One action; none behind `exit`. -/
def sessionStep (blocks : Blocks) (cfg : Config) (s : Session) (act : SessionAct) :
    Option Session :=
  if s.exited then none
  else
    match act with
    | .main rand refuse => s.mainStep blocks cfg rand refuse
    | .sig => s.sigStep cfg
    | .complete index wrote => s.complete blocks index wrote
    | .wake => some { s with threads := { s.threads with main := s.threads.main.wake } }
    | .eintr => if s.threads.sig = .sigwaitinfo then some s else none

/-- The start of the call, with the file as it was. -/
def Session.start (old : List UInt8) : Session := ⟨.start, [], [], old, 0, [], [], false⟩

/-- A call of `aio_write_test` on a file. -/
def sessionSystem (blocks : Blocks) (cfg : Config) (old : List UInt8) :
    System Session SessionAct where
  init s := s = .start old
  step := sessionStep blocks cfg

/-- The writes that `sig_thread` has taken on: counted, or about to be. -/
def Session.taken (s : Session) : Nat := s.threads.sig.handling + s.threads.totalIosCompleted

/-- Every write is refused, in flight, or done; the file has the bytes of those that are done; and
`sig_thread` has taken a beginning of them, all with a status that is not negative but the last one
where that ended the program. -/
structure Accounted (blocks : Blocks) (cfg : Config) (old : List UInt8) (s : Session) : Prop where
  inFlight : s.threads.inFlight = s.flying.length
  pending : s.exited = false → s.threads.pending = s.queued.length
  attempts : s.threads.submitted = s.refused + s.drawn.length
  writes : (s.flying ++ s.done.map Done.buffer).Perm s.drawn
  file : s.file = old ++ s.done.flatMap (Done.bytes blocks)
  order : s.done.drop (if s.exited then s.taken + 1 else s.taken) = s.queued
  most : s.taken ≤ s.done.length
  accepted : ∀ done ∈ s.done.take s.taken, done.Accepted
  failed : s.exited = true → ∃ done, s.done[s.taken]? = some done ∧ ¬ done.Accepted
  joined : s.threads.main = .returned → s.threads.sig = .exited

section Steps

variable {blocks : Blocks} {cfg : Config} {old : List UInt8} {s s' : Session}

/-- The element at an index and the others are the list in some order. -/
theorem cons_eraseIdx_perm {α : Type} {list : List α} {index : Nat} {first : α}
    (found : list[index]? = some first) : (first :: list.eraseIdx index).Perm list := by
  obtain ⟨inside, rfl⟩ := List.getElem?_eq_some_iff.mp found
  have least : index ≤ (list.eraseIdx index).length := by
    rw [List.length_eraseIdx_of_lt inside]
    omega
  have moved := (List.perm_insertIdx list[index] (list.eraseIdx index) least).symm
  rwa [List.insertIdx_eraseIdx_getElem inside] at moved

/-- A step of the main thread submits a write, which is refused or taken on, or does something
else. -/
theorem Session.mainStep_cases {rand : Nat} {refuse : Bool}
    (stepped : s.mainStep blocks cfg rand refuse = some s') :
    ∃ after, Aio.mainStep cfg s.threads = some after ∧
      ((after.inFlight = s.threads.inFlight + 1 ∧ after.submitted = s.threads.submitted + 1 ∧
          ((refuse = true ∧ s' = { s with
              threads := { after with inFlight := s.threads.inFlight }
              refused := s.refused + 1 }) ∨
            (refuse = false ∧ s' = { s with
              threads := after
              flying := s.flying ++ [rand % blocks.bufferCount]
              drawn := s.drawn ++ [rand % blocks.bufferCount] }))) ∨
        (after.inFlight = s.threads.inFlight ∧ after.submitted = s.threads.submitted ∧
          s' = { s with threads := after })) := by
  obtain ⟨after, main, same⟩ := Option.map_eq_some_iff.mp stepped
  refine ⟨after, main, ?_⟩
  cases mainStep_move main with
  | @submit i j control room =>
    have submits : s.threads.main.submits cfg = true := by
      rw [control]
      exact decide_eq_true room
    rw [if_pos submits] at same
    refine Or.inl ⟨rfl, rfl, ?_⟩
    cases refuse with
    | true => exact Or.inl ⟨rfl, same.symm⟩
    | false => exact Or.inr ⟨rfl, same.symm⟩
  | @full i j control full =>
    have other : s.threads.main.submits cfg = false := by
      rw [control]
      exact decide_eq_false full
    rw [other] at same
    exact Or.inr ⟨rfl, rfl, same.symm⟩
  | lock control =>
    have other : s.threads.main.submits cfg = false := by
      rcases control with control | control
      all_goals
        rw [control]
        rfl
    rw [other] at same
    exact Or.inr ⟨rfl, rfl, same.symm⟩
  | more control | done control | wait control | leave control | unlock control | join control =>
    have other : s.threads.main.submits cfg = false := by
      rw [control]
      rfl
    rw [other] at same
    exact Or.inr ⟨rfl, rfl, same.symm⟩

/-- A step of `sig_thread` takes the signal of a write, ends the program, or leaves the signals. -/
theorem Session.sigStep_cases (stepped : s.sigStep cfg = some s') :
    (∃ done rest after, s.threads.sig = .sigwaitinfo ∧ s.queued = done :: rest ∧
      ((done.Accepted ∧ Aio.sigStep cfg s.threads = some after ∧
          s' = { s with threads := after, queued := rest }) ∨
        (¬ done.Accepted ∧ s' = { s with queued := rest, exited := true }))) ∨
    (∃ after, s.threads.sig ≠ .sigwaitinfo ∧ Aio.sigStep cfg s.threads = some after ∧
      s' = { s with threads := after }) := by
  unfold Session.sigStep at stepped
  by_cases waiting : s.threads.sig = .sigwaitinfo
  · rw [if_pos waiting] at stepped
    split at stepped
    · contradiction
    · rename_i done rest queued
      by_cases accepted : done.Accepted
      · rw [if_pos accepted] at stepped
        obtain ⟨after, taken, same⟩ := Option.map_eq_some_iff.mp stepped
        exact Or.inl ⟨done, rest, after, waiting, queued, Or.inl ⟨accepted, taken, same.symm⟩⟩
      · rw [if_neg accepted] at stepped
        exact Or.inl ⟨done, rest, s.threads, waiting, queued,
          Or.inr ⟨accepted, (Option.some.inj stepped).symm⟩⟩
  · rw [if_neg waiting] at stepped
    obtain ⟨after, taken, same⟩ := Option.map_eq_some_iff.mp stepped
    exact Or.inr ⟨after, waiting, taken, same.symm⟩

/-- A step of the main thread keeps the account. -/
theorem Accounted.mainStep {rand : Nat} {refuse : Bool} (accounted : Accounted blocks cfg old s)
    (stepped : s.mainStep blocks cfg rand refuse = some s') : Accounted blocks cfg old s' := by
  have ⟨inFlight, pending, attempts, writes, file, order, most, accepted, failed, _⟩ := accounted
  obtain ⟨after, main, submits⟩ := Session.mainStep_cases stepped
  have ⟨sig, total, queued, _, exited⟩ := mainStep_elsewhere main
  have same : after.sig.handling + after.totalIosCompleted = s.taken := by
    rw [sig, total]
    rfl
  have joined : after.main = .returned → after.sig = .exited := by
    rw [sig]
    exact exited
  rcases submits with ⟨flying, submitted, ⟨_, rfl⟩ | ⟨_, rfl⟩⟩ | ⟨flying, submitted, rfl⟩
  · refine ⟨inFlight, ?_, ?_, writes, file, ?_, ?_, ?_, ?_, joined⟩
    · exact fun running => queued.trans (pending running)
    · change after.submitted = s.refused + 1 + s.drawn.length
      omega
    all_goals
      change after.sig.handling + after.totalIosCompleted = _ at same
      simp only [Session.taken, same]
      assumption
  · refine ⟨?_, ?_, ?_, ?_, file, ?_, ?_, ?_, ?_, joined⟩
    · rw [List.length_append, ← inFlight]
      exact flying
    · exact fun running => queued.trans (pending running)
    · rw [List.length_append, ← Nat.add_assoc, ← attempts]
      exact submitted
    · have moved : (s.flying ++ [rand % blocks.bufferCount] ++ s.done.map Done.buffer).Perm
          (s.flying ++ s.done.map Done.buffer ++ [rand % blocks.bufferCount]) := by
        rw [List.append_assoc, List.append_assoc]
        exact List.Perm.append_left _ List.perm_append_comm
      exact moved.trans (writes.append_right _)
    all_goals
      simp only [Session.taken, same]
      assumption
  · refine ⟨flying.trans inFlight, ?_, submitted.trans attempts, writes, file, ?_, ?_, ?_, ?_,
      joined⟩
    · exact fun running => queued.trans (pending running)
    all_goals
      simp only [Session.taken, same]
      assumption

/-- `sig_thread` takes a signal only in `sigwaitinfo`. -/
theorem sigStep_pending {threads after : State} (taken : Aio.sigStep cfg threads = some after) :
    after.pending =
      if threads.sig = .sigwaitinfo then threads.pending - 1 else threads.pending := by
  cases sigStep_move taken with
  | take control => rw [if_pos control]
  | perBatch control | lock control | total control | unlock control | full control
  | short control | interim control | enough control | missing control | finalLock control
  | finalSignal control | finalUnlock control =>
    rw [if_neg (by simp [control])]

/-- The first queued signal is of the first write that `sig_thread` has not taken. -/
theorem Accounted.next {done : Done} {rest : List Done} (accounted : Accounted blocks cfg old s)
    (running : s.exited = false) (queued : s.queued = done :: rest) :
    s.done[s.taken]? = some done ∧ s.done.drop (s.taken + 1) = rest := by
  have order := accounted.order
  rw [running, queued, if_neg Bool.false_ne_true] at order
  constructor
  · rw [← List.head?_drop, order]
    rfl
  · rw [← List.drop_drop, order]
    rfl

/-- A step of `sig_thread` keeps the account. -/
theorem Accounted.sigStep (accounted : Accounted blocks cfg old s) (running : s.exited = false)
    (stepped : s.sigStep cfg = some s') : Accounted blocks cfg old s' := by
  have ⟨inFlight, pending, attempts, writes, file, order, most, accepted, _, joined⟩ := accounted
  -- a step of the thread alone does not bring the main thread to its return
  have back : ∀ after, Aio.sigStep cfg s.threads = some after → after.main = .returned →
      after.sig = .exited := by
    intro after taken returned
    have ⟨main, _, _, _, _, live⟩ := sigStep_elsewhere taken
    have before : s.threads.main = .returned := by
      rcases main with same | woken
      · exact same ▸ returned
      · exact wake_returned (woken ▸ returned)
    exact absurd (joined before) live
  rcases Session.sigStep_cases stepped with
    ⟨done, rest, after, waiting, queued, ⟨counts, taken, rfl⟩ | ⟨fails, rfl⟩⟩ |
    ⟨after, waiting, taken, rfl⟩
  · have ⟨next, later⟩ := accounted.next running queued
    have ⟨inside, _⟩ := List.getElem?_eq_some_iff.mp next
    have ⟨_, submitted, _, flying, balance, _⟩ := sigStep_elsewhere taken
    have fewer := sigStep_pending taken
    rw [if_pos waiting] at fewer
    have length := pending running
    rw [queued, List.length_cons] at length
    have more : after.sig.handling + after.totalIosCompleted = s.taken + 1 := by
      unfold Session.taken
      omega
    refine ⟨flying.trans inFlight, ?_, submitted.trans attempts, writes, file, ?_, ?_, ?_, ?_,
      back after taken⟩
    · intro _
      change after.pending = rest.length
      omega
    · simp only [Session.taken, more, running, Bool.false_eq_true, if_false]
      exact later
    · simp only [Session.taken, more]
      exact inside
    · change ∀ other ∈ s.done.take (after.sig.handling + after.totalIosCompleted), other.Accepted
      rw [more, List.take_add_one, next]
      intro other member
      rcases List.mem_append.mp member with before | last
      · exact accepted other before
      · rw [Option.toList_some, List.mem_singleton] at last
        exact last ▸ counts
    · exact fun exited => absurd (running.symm.trans exited) Bool.false_ne_true
  · have ⟨next, later⟩ := accounted.next running queued
    refine ⟨inFlight, ?_, attempts, writes, file, ?_, most, accepted, ?_, joined⟩
    · exact fun live => absurd live.symm Bool.false_ne_true
    · exact later
    · exact fun _ => ⟨done, next, fails⟩
  · have ⟨_, submitted, _, flying, balance, _⟩ := sigStep_elsewhere taken
    have fewer := sigStep_pending taken
    rw [if_neg waiting] at fewer
    have same : after.sig.handling + after.totalIosCompleted = s.taken := by
      unfold Session.taken
      omega
    refine ⟨flying.trans inFlight, ?_, submitted.trans attempts, writes, file, ?_, ?_, ?_, ?_,
      back after taken⟩
    · exact fun live => fewer.trans (pending live)
    · simp only [Session.taken, same]
      exact order
    · simp only [Session.taken, same]
      exact most
    · simp only [Session.taken, same]
      exact accepted
    · exact fun exited => absurd (running.symm.trans exited) Bool.false_ne_true

/-- The completion of a write keeps the account. -/
theorem Accounted.complete {index : Nat} {wrote : Option Nat}
    (accounted : Accounted blocks cfg old s) (running : s.exited = false)
    (stepped : s.complete blocks index wrote = some s') : Accounted blocks cfg old s' := by
  have ⟨inFlight, pending, attempts, writes, file, order, most, accepted, _, joined⟩ := accounted
  unfold Session.complete at stepped
  split at stepped
  · contradiction
  · rename_i buffer found
    split at stepped
    · obtain rfl := Option.some.inj stepped
      obtain ⟨inside, _⟩ := List.getElem?_eq_some_iff.mp found
      refine ⟨?_, ?_, attempts, ?_, ?_, ?_, ?_, ?_, ?_, joined⟩
      · change s.threads.inFlight - 1 = (s.flying.eraseIdx index).length
        rw [List.length_eraseIdx_of_lt inside, inFlight]
      · intro live
        change s.threads.pending + 1 = (s.queued ++ [_]).length
        rw [List.length_append, pending live]
        rfl
      · change (s.flying.eraseIdx index ++ (s.done ++ [_]).map Done.buffer).Perm s.drawn
        have back := (cons_eraseIdx_perm found).append_right (s.done.map Done.buffer)
        rw [List.map_append, ← List.append_assoc]
        exact ((List.perm_append_singleton _ _).trans back).trans writes
      · change s.file ++ _ = old ++ (s.done ++ [_]).flatMap _
        rw [List.flatMap_append, file, List.append_assoc, List.flatMap_singleton]
      · change (s.done ++ [_]).drop (if s.exited then s.taken + 1 else s.taken) = s.queued ++ [_]
        rw [running, if_neg Bool.false_ne_true] at order ⊢
        rw [List.drop_append_of_le_length most]
        exact congrArg (· ++ _) order
      · change s.taken ≤ (s.done ++ [_]).length
        rw [List.length_append]
        exact Nat.le_add_right_of_le most
      · change ∀ other ∈ (s.done ++ [Done.mk buffer wrote]).take s.taken, other.Accepted
        rw [List.take_append_of_le_length most]
        exact accepted
      · exact fun exited => absurd (running.symm.trans exited) Bool.false_ne_true
    · contradiction

/-- Every step keeps the account. -/
theorem Accounted.step {act : SessionAct} (accounted : Accounted blocks cfg old s)
    (stepped : sessionStep blocks cfg s act = some s') : Accounted blocks cfg old s' := by
  unfold sessionStep at stepped
  by_cases ended : s.exited = true
  · rw [if_pos ended] at stepped
    contradiction
  · have running : s.exited = false := Bool.eq_false_iff.mpr ended
    rw [if_neg ended] at stepped
    cases act with
    | main rand refuse => exact accounted.mainStep stepped
    | sig => exact accounted.sigStep running stepped
    | complete index wrote => exact accounted.complete running stepped
    | wake =>
      obtain rfl := Option.some.inj stepped
      have ⟨inFlight, pending, attempts, writes, file, order, most, accepted, failed, joined⟩ :=
        accounted
      exact ⟨inFlight, pending, attempts, writes, file, order, most, accepted, failed,
        fun returned => joined (wake_returned returned)⟩
    | eintr =>
      have ⟨_, same⟩ := Option.ite_none_right_eq_some.mp stepped
      cases same
      exact accounted

/-- A step as the two threads see it: a step of one of them, where a write that is refused is not in
flight, a completion, a wake-up, or nothing. -/
theorem sessionStep_threads {act : SessionAct} (stepped : sessionStep blocks cfg s act = some s') :
    (∃ after, Aio.mainStep cfg s.threads = some after ∧
      (s'.threads = after ∨ s'.threads = { after with inFlight := s.threads.inFlight })) ∨
    Aio.sigStep cfg s.threads = some s'.threads ∨
    s'.threads = { s.threads with
      inFlight := s.threads.inFlight - 1, pending := s.threads.pending + 1 } ∨
    s'.threads = { s.threads with main := s.threads.main.wake } ∨ s'.threads = s.threads := by
  unfold sessionStep at stepped
  by_cases ended : s.exited = true
  · rw [if_pos ended] at stepped
    contradiction
  · rw [if_neg ended] at stepped
    cases act with
    | main rand refuse =>
      obtain ⟨after, main, ⟨_, _, ⟨_, rfl⟩ | ⟨_, rfl⟩⟩ | ⟨_, _, rfl⟩⟩ := Session.mainStep_cases stepped
      · exact Or.inl ⟨after, main, Or.inr rfl⟩
      · exact Or.inl ⟨after, main, Or.inl rfl⟩
      · exact Or.inl ⟨after, main, Or.inl rfl⟩
    | sig =>
      rcases Session.sigStep_cases stepped with
        ⟨_, _, after, _, _, ⟨_, taken, rfl⟩ | ⟨_, rfl⟩⟩ | ⟨after, _, taken, rfl⟩
      · exact Or.inr (Or.inl taken)
      · exact Or.inr (Or.inr (Or.inr (Or.inr rfl)))
      · exact Or.inr (Or.inl taken)
    | complete index wrote =>
      change s.complete blocks index wrote = some s' at stepped
      unfold Session.complete at stepped
      split at stepped
      · contradiction
      · have ⟨_, same⟩ := Option.ite_none_right_eq_some.mp stepped
        cases same
        exact Or.inr (Or.inr (Or.inl rfl))
    | wake =>
      obtain rfl := Option.some.inj stepped
      exact Or.inr (Or.inr (Or.inr (Or.inl rfl)))
    | eintr =>
      have ⟨_, same⟩ := Option.ite_none_right_eq_some.mp stepped
      cases same
      exact Or.inr (Or.inr (Or.inr (Or.inr rfl)))

end Steps

section Runs

variable {blocks : Blocks} {cfg : Config} {old : List UInt8} {s : Session}

/-- The account is kept in every run. -/
theorem reachable_accounted
    (reached : (sessionSystem blocks cfg old).Reachable System.always s) :
    Accounted blocks cfg old s := by
  apply reached.invariant
  · rintro first rfl
    exact ⟨rfl, fun _ => rfl, rfl, .refl _, (List.append_nil _).symm, rfl, Nat.le_refl _,
      fun _ member => absurd member List.not_mem_nil, fun exited => absurd exited Bool.false_ne_true,
      fun returned => nomatch returned⟩
  · exact fun _ _ _ _ accounted _ stepped => accounted.step stepped

/-- What the steps of the main thread and wake-ups keep holds in every run. -/
theorem session_reachable_main (facts : Nat → Nat → Main → Prop) (starts : facts 0 0 (.outer 0))
    (steps : ∀ s s' : State, facts s.batches s.submitted s.main → Aio.mainStep cfg s = some s' →
      facts s'.batches s'.submitted s'.main)
    (wakes : ∀ batches submitted main, facts batches submitted main →
      facts batches submitted main.wake)
    (reached : (sessionSystem blocks cfg old).Reachable System.always s) :
    facts s.threads.batches s.threads.submitted s.threads.main := by
  apply reached.invariant
  · rintro first rfl
    exact starts
  · intro before act after _ holds _ stepped
    rcases sessionStep_threads stepped with
      ⟨middle, main, same | same⟩ | sig | same | same | same
    · rw [same]
      exact steps _ _ holds main
    · have later := steps _ _ holds main
      rw [same]
      exact later
    · have ⟨main, submitted, batches, _⟩ := sigStep_elsewhere sig
      rw [submitted, batches]
      rcases main with kept | woken
      · rw [kept]
        exact holds
      · rw [woken]
        exact wakes _ _ _ holds
    · rw [same]
      exact holds
    · rw [same]
      exact wakes _ _ _ holds
    · rw [same]
      exact holds

/-- The count matches the progress of `sig_thread`, whatever the results are. -/
theorem session_reachable_sigFacts (nonempty : 0 < cfg.iterations)
    (reached : (sessionSystem blocks cfg old).Reachable System.always s) :
    SigFacts cfg s.threads.totalIosCompleted s.threads.sig := by
  apply reached.invariant
  · rintro first rfl
    exact nonempty
  · intro before act after _ facts _ stepped
    rcases sessionStep_threads stepped with
      ⟨middle, main, same | same⟩ | sig | same | same | same
    · have ⟨kept, total, _⟩ := mainStep_elsewhere main
      rw [same, kept, total]
      exact facts
    · have ⟨kept, total, _⟩ := mainStep_elsewhere main
      rw [same]
      change SigFacts cfg middle.totalIosCompleted middle.sig
      rw [kept, total]
      exact facts
    · exact sigStep_sigFacts facts sig
    · rw [same]
      exact facts
    · rw [same]
      exact facts
    · rw [same]
      exact facts

/-- Behind its loop the main thread has submitted the whole batches, which are narrow. -/
theorem session_joined (nonempty : 0 < cfg.iterations)
    (reached : (sessionSystem blocks cfg old).Reachable System.always s)
    (joined : s.threads.main = .join ∨ s.threads.main = .returned) :
    cfg.maxAios < 2 ^ 31 ∧ loopLimit cfg ≤ s.threads.batches * cfg.maxAios ∧
      s.threads.submitted = wholeBatches cfg := by
  have narrow : cfg.maxAios < 2 ^ 31 := by
    by_contra wide
    have submitting := session_reachable_main (fun _ _ main => Submitting main) rfl
      (fun _ _ facts main => mainStep_submitting (Nat.not_lt.mp wide) nonempty facts main)
      (fun _ _ main facts => by cases main <;> exact facts) reached
    rcases joined with control | control
    all_goals
      rw [control] at submitting
      exact submitting
  have loop := session_reachable_main (LoopFacts cfg)
    ⟨by simp; rfl, by have := cfg.maxAios_pos; omega, by simp⟩
    (fun _ _ facts main => mainStep_loopFacts narrow facts main)
    (fun _ _ _ facts => facts.wake) reached
  have ⟨least, bound, submitted⟩ : loopLimit cfg ≤ s.threads.batches * cfg.maxAios ∧
      s.threads.batches * cfg.maxAios < loopLimit cfg + cfg.maxAios ∧
      s.threads.submitted = s.threads.batches * cfg.maxAios := by
    rcases joined with control | control
    all_goals
      rw [control] at loop
      exact loop
  exact ⟨narrow, least, submitted.trans (eq_wholeBatches least bound)⟩

/-- At the return `sig_thread` has taken as many writes as iterations, and no more than the others
were refused. -/
theorem session_returned (nonempty : 0 < cfg.iterations)
    (reached : (sessionSystem blocks cfg old).Reachable System.always s)
    (returned : s.threads.main = .returned) :
    s.taken = cfg.iterations ∧ s.refused + s.drawn.length = wholeBatches cfg ∧
      s.refused + cfg.iterations ≤ wholeBatches cfg := by
  have accounted := reachable_accounted reached
  have ⟨_, _, submitted⟩ := session_joined nonempty reached (Or.inr returned)
  have total := session_reachable_sigFacts nonempty reached
  have exited := accounted.joined returned
  rw [exited] at total
  have taken : s.taken = cfg.iterations := by
    rw [Session.taken, exited]
    exact (Nat.zero_add _).trans total
  have most := accounted.most
  have attempts := accounted.attempts
  have perm := accounted.writes.length_eq
  rw [List.length_append, List.length_map] at perm
  exact ⟨taken, by omega, by omega⟩

end Runs

/-- When `aio_write_test` returns, whatever its writes came to: as many writes as iterations were
done and accepted, and of the whole batches the others were refused, are in flight or are done too.
The file has behind its old bytes those of the writes that are done, in the order in which they
were. -/
theorem returned_writes (blocks : Blocks) (cfg : Config) (old : List UInt8) (s : Session)
    (nonempty : 0 < cfg.iterations)
    (reached : (sessionSystem blocks cfg old).Reachable System.always s)
    (returned : s.threads.main = .returned) :
    cfg.iterations ≤ s.done.length ∧
      (∀ done ∈ s.done.take cfg.iterations, done.Accepted) ∧
      s.refused + s.drawn.length = wholeBatches cfg ∧
      (s.flying ++ s.done.map Done.buffer).Perm s.drawn ∧
      s.file = old ++ s.done.flatMap (Done.bytes blocks) := by
  have accounted := reachable_accounted reached
  have ⟨taken, drawn, _⟩ := session_returned nonempty reached returned
  rw [← taken]
  exact ⟨accounted.most, accounted.accepted, drawn, accounted.writes, accounted.file⟩

/-- One iteration fits a `long`. -/
theorem one_iteration_lt : 1 < 2 ^ 63 := by decide

/-- One iteration in batches of two. -/
def shortConfig : Config := ⟨1, 2, one_iteration_lt, oddConfig.maxAios_pos, oddConfig.maxAios_lt⟩

/-- A single buffer of one byte. -/
def oneBlock : Blocks := ⟨1, 1, fun _ => [7], Nat.one_pos, fun _ _ => rfl⟩

/-- The first write of the batch is refused, the second is done and counted, and the main thread
passes the barrier. -/
def refusedRun : List SessionAct :=
  [SessionAct.main 0 false, .main 0 true, .main 5 false, .main 0 false, .complete 0 (some 1)] ++
    List.replicate 10 SessionAct.sig ++ List.replicate 5 (SessionAct.main 0 false)

/-- `aio_write_test` returns, and the file has one byte more. -/
theorem returned_writes_refused :
    ∃ s, (sessionSystem oneBlock shortConfig [1, 2]).Reachable System.always s ∧
      s.refused + s.drawn.length = 2 ∧ s.done = [⟨0, some 1⟩] ∧ s.file = [1, 2, 7] := by
  have replay : ((sessionSystem oneBlock shortConfig [1, 2]).run (.start [1, 2]) refusedRun).map
      (fun s => (s.threads.main, s.done)) = some (.returned, [⟨0, some 1⟩]) := by decide +kernel
  have ⟨s, replayed, shown⟩ := Option.map_eq_some_iff.mp replay
  have ⟨control, finished⟩ := Prod.mk.inj shown
  have reached : (sessionSystem oneBlock shortConfig [1, 2]).Reachable System.always s :=
    .of_run rfl refusedRun (fun _ _ _ => trivial) replayed
  have ⟨_, _, drawn, _, file⟩ :=
    returned_writes oneBlock shortConfig [1, 2] s (by decide) reached control
  rw [finished] at file
  exact ⟨s, reached, drawn, finished, file⟩

end PerfVerif.Aio
