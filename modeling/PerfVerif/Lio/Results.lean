import PerfVerif.Lio.Submission
import PerfVerif.Lio.Release
import PerfVerif.Aio.Results

/-!
# `lio_listio_test` with its file and `MYSIG_STOP`

The file was opened with `O_APPEND`, so an entry adds its bytes at the end of the file when it
completes. `sig_thread` looks at no result. It ends on `MYSIG_STOP`, which has to come from outside
the program; `sigwaitinfo` takes it only when no `MYSIG_AIO_COMPLETE`, a signal of a lower number,
is pending. The main thread blocks both signals.
-/

namespace PerfVerif.Lio

open Transition
open Aio (Blocks Done wholeBatches)

/-- An entry that is done, with its write. -/
structure Landed where
  entry : Entry
  write : Done
  deriving DecidableEq, Repr

/-- A call of `lio_listio_test` with the file and the writes. -/
structure Session where
  threads : State
  /-- The buffer of each block allocated. -/
  drawn : List Nat
  /-- The entries that `lio_listio` queued, list by list. -/
  queued : List Entry
  /-- The entries that are done, oldest first. -/
  done : List Landed
  file : List UInt8
  /-- `MYSIG_STOP`s sent and not taken. -/
  stops : Nat

/-- What can happen next. -/
inductive SessionAct where
  /-- A step of the main thread; where it allocates a block, with the value of `rand()`. -/
  | main (rand : Nat)
  /-- `lio_listio` returns. -/
  | listio (result : Listio)
  | sig
  /-- An entry in flight completes, having written this many bytes unless it failed. -/
  | complete (entry : Entry) (wrote : Option Nat)
  | eintr
  /-- `MYSIG_STOP` is sent to the process. -/
  | stop

/-- The next step of the main thread allocates a block. -/
def Main.allocates (cfg : Config) : Main → Bool
  | .inner _ j => j < cfg.aioListioMax
  | _ => false

/-- The entries that a call of `lio_listio` queues. -/
def State.entries (cfg : Config) (s : State) : Listio → List Entry
  | .success => (s.listed cfg).map (Entry.mk s.lists)
  | .failure queued => ((s.listed cfg).filter queued).map (Entry.mk s.lists)

/-- The main thread gives a random buffer to each block. -/
def Session.mainStep (blocks : Blocks) (cfg : Config) (s : Session) (rand : Nat) : Option Session :=
  (Lio.mainStep cfg s.threads).map fun after =>
    { s with
      threads := after
      drawn := s.drawn ++ if s.threads.main.allocates cfg then [rand % blocks.bufferCount] else [] }

/-- `sigwaitinfo` takes a `MYSIG_STOP` behind the completions. -/
def Session.sigStep (s : Session) : Option Session :=
  if s.threads.sig = .sigwaitinfo ∧ s.threads.pending = [] then
    if s.stops = 0 then none
    else some { s with threads := { s.threads with sig := .exited }, stops := s.stops - 1 }
  else (Lio.sigStep s.threads).map fun after => { s with threads := after }

/-- An entry completes, having written no more than it was asked to. -/
def Session.complete (blocks : Blocks) (s : Session) (entry : Entry) (wrote : Option Nat) :
    Option Session :=
  if entry ∈ s.threads.inFlight ∧ wrote.getD 0 ≤ blocks.blocksize then
    some { s with
      threads := s.threads.complete entry
      done := s.done ++ [⟨entry, s.drawn.getD entry.block 0, wrote⟩]
      file := s.file ++ Done.bytes blocks ⟨s.drawn.getD entry.block 0, wrote⟩ }
  else none

/-- One action. -/
def sessionStep (blocks : Blocks) (cfg : Config) (s : Session) : SessionAct → Option Session
  | .main rand => s.mainStep blocks cfg rand
  | .listio result =>
    (step cfg s.threads (.listio result)).map fun after =>
      { s with threads := after, queued := s.queued ++ s.threads.entries cfg result }
  | .sig => s.sigStep
  | .complete entry wrote => s.complete blocks entry wrote
  | .eintr => if s.threads.sig = .sigwaitinfo then some s else none
  | .stop => some { s with stops := s.stops + 1 }

/-- The start of the call, with the file as it was. -/
def Session.start (old : List UInt8) : Session := ⟨.start, [], [], [], old, 0⟩

/-- A call of `lio_listio_test` on a file. -/
def sessionSystem (blocks : Blocks) (cfg : Config) (old : List UInt8) :
    System Session SessionAct where
  init s := s = .start old
  step := sessionStep blocks cfg

/-- The main thread is in `sleep`. -/
def Main.asleep : Main → Bool
  | .sleep _ _ => true
  | _ => false

/-- The sleep behind a list ends only when no entry is in flight. -/
def Outlasts (s : Session) : SessionAct → Prop
  | .main _ => s.threads.main.asleep = true → s.threads.inFlight = []
  | _ => True

instance (s : Session) (act : SessionAct) : Decidable (Outlasts s act) :=
  match act with
  | .main _ => inferInstanceAs (Decidable (_ → _))
  | .listio _ | .sig | .complete _ _ | .eintr | .stop => inferInstanceAs (Decidable True)

/-- The entries of the first blocks, in lists of the full length. -/
def schedule (cfg : Config) (count : Nat) : List Entry :=
  (List.range count).map fun block => ⟨block / cfg.aioListioMax, block⟩

/-- A state with `sig_thread` as it is in another. -/
def State.beside (s t : State) : State :=
  { s with sig := t.sig, pending := t.pending, received := t.received, count := t.count }

/-- A state of a run without `MYSIG_STOP` that the session cannot be told from, but by what
`sig_thread` has done since it ended and by the return of the main thread. -/
structure Session.Shadow (s : Session) (t : State) : Prop where
  same : { s.threads.beside t with main := t.main } = t
  main : s.threads.main = t.main ∨ s.threads.main = .returned ∧ t.main = .join
  sig : s.threads.sig ≠ .exited → t = s.threads

/-- No call of `lio_listio` has failed, as far as the main thread has seen it. -/
def State.Quiet (s : State) : Prop :=
  s.errors = [] ∧ ∀ i ret, s.main = .sleep i ret → ret = 0

/-- Every block has a buffer; every entry that was queued, in lists of the full length unless a call
has failed, is in flight or done; and the file has the bytes of those that are done. -/
structure Accounted (blocks : Blocks) (cfg : Config) (old : List UInt8) (s : Session) : Prop where
  drawn : s.drawn.length = s.threads.allocated
  writes : (s.threads.inFlight ++ s.done.map Landed.entry).Perm s.queued
  buffers : ∀ landed ∈ s.done, s.drawn[landed.entry.block]? = some landed.write.buffer
  queued : s.queued.Sublist (schedule cfg (s.threads.lists * cfg.aioListioMax))
  quiet : s.threads.Quiet → s.queued = schedule cfg (s.threads.lists * cfg.aioListioMax)
  file : s.file = old ++ s.done.flatMap fun landed => landed.write.bytes blocks

/-- The entries in flight are those of the last list, and there are none but during its sleep. -/
structure InOrder (s : Session) : Prop where
  asleep : s.threads.inFlight = [] ∨ ∃ i ret, s.threads.main = .sleep i ret
  current : ∀ entry ∈ s.threads.inFlight, entry.list + 1 = s.threads.lists
  order : s.done.Pairwise fun earlier later => earlier.entry.list ≤ later.entry.list

section Shadows

variable {blocks : Blocks} {cfg : Config} {old : List UInt8} {s s' : Session} {t t' : State}

/-- A step of the main thread does not look at `sig_thread` before it joins. -/
theorem mainStep_beside (s t : State) (elsewhere : s.main ≠ .join) :
    mainStep cfg (s.beside t) = (mainStep cfg s).map fun after => after.beside t := by
  unfold State.beside
  cases control : s.main with
  | join => exact absurd control elsewhere
  | outer i | inner i j | free i k | sleep i ret =>
    simp only [mainStep, control, State.allocate, State.free]
    split
    · rfl
    · rfl
  | submit i | returned => simp only [mainStep, control, Option.map_none]

/-- A call of `lio_listio` does not look at `sig_thread`. -/
theorem listio_beside (s t : State) (result : Listio) :
    step cfg (s.beside t) (.listio result) =
      (step cfg s (.listio result)).map fun after => after.beside t := by
  unfold State.beside
  cases control : s.main with
  | submit i => cases result <;> simp only [step, control] <;> rfl
  | join | outer i | inner i j | free i k | sleep i ret | returned =>
    simp only [step, control, Option.map_none]

/-- A completion that sends a signal sends it to any `sig_thread`. -/
theorem complete_beside (s t : State) (entry : Entry)
    (same : { s.beside t with main := t.main } = t) :
    { (s.complete entry).beside (t.complete entry) with main := (t.complete entry).main } =
      t.complete entry := by
  rw [← same]
  unfold State.complete State.beside
  by_cases sends : entry.list ∈ s.unsignalled ∧
      ∀ other ∈ s.inFlight.erase entry, other.list ≠ entry.list
  · simp only [if_pos sends]
  · simp only [if_neg sends]

/-- `lio_listio` is called before the sleep. -/
theorem listio_cases {after : State} {result : Listio}
    (taken : step cfg t (.listio result) = some after) :
    ∃ i, t.main = .submit i ∧ after = { t.listio cfg result with main := .sleep i result.ret } := by
  cases control : t.main with
  | submit i =>
    simp only [step, control, Option.some.injEq] at taken
    exact ⟨i, rfl, taken.symm⟩
  | join | outer i | inner i j | free i k | sleep i ret | returned =>
    simp only [step, control] at taken
    contradiction

/-- A shadow at the same place of the main thread is the state with its `sig_thread`. -/
theorem Session.Shadow.beside (shadow : s.Shadow t) (main : s.threads.main = t.main) :
    s.threads.beside t = t := by
  have same := shadow.same
  rw [← main] at same
  exact same

/-- Where the main thread is not at its end, it is at the same place as its shadow. -/
theorem Session.Shadow.main_eq (shadow : s.Shadow t) (running : s.threads.main ≠ .returned) :
    s.threads.main = t.main := by
  rcases shadow.main with same | ⟨returned, _⟩
  · exact same
  · exact absurd returned running

/-- A step that does not look at `sig_thread` and leaves it alone has a shadow. -/
theorem Session.Shadow.taken (shadow : s.Shadow t) {act : Act} {after : State}
    (main : s.threads.main = t.main) (taken : step cfg s.threads act = some after)
    (frame : step cfg (s.threads.beside t) act =
      (step cfg s.threads act).map fun after => after.beside t)
    (sig : after.sig = s.threads.sig) :
    step cfg t act = some (after.beside t) ∧
      ∀ s' : Session, s'.threads = after → s'.Shadow (after.beside t) := by
  rw [shadow.beside main, taken] at frame
  refine ⟨frame, ?_⟩
  rintro s' rfl
  refine ⟨rfl, Or.inl rfl, ?_⟩
  intro running
  rw [sig] at running
  have same := shadow.sig running
  rw [same, taken] at frame
  rw [same]
  exact (Option.some.inj frame).symm

/-- A step of the session is one of its shadow, or the shadow stays: where `sig_thread` takes a
`MYSIG_STOP`, the main thread joins, or one is sent. -/
theorem Session.Shadow.step (shadow : s.Shadow t) {act : SessionAct}
    (stepped : sessionStep blocks cfg s act = some s') :
    ∃ t', (t' = t ∨ ∃ act', Lio.step cfg t act' = some t') ∧ s'.Shadow t' := by
  have same := shadow.same
  have place := shadow.main
  have running := shadow.sig
  cases act with
  | main rand =>
    obtain ⟨after, taken, rfl⟩ := Option.map_eq_some_iff.mp stepped
    have sig := (mainStep_elsewhere taken).1
    by_cases joins : s.threads.main = .join
    · have waits : s.threads.sig = .exited := by
        by_contra waiting
        simp [Lio.mainStep, joins, waiting] at taken
      simp only [Lio.mainStep, joins, if_pos waits, Option.some.injEq] at taken
      subst taken
      have joining : t.main = .join := by
        rw [← shadow.main_eq (by simp [joins])]
        exact joins
      exact ⟨t, Or.inl rfl, same, Or.inr ⟨rfl, joining⟩, fun live => absurd waits live⟩
    · have live : s.threads.main ≠ .returned := by
        intro returned
        simp [Lio.mainStep, returned] at taken
      obtain ⟨follows, shows⟩ := @Session.Shadow.taken cfg s t shadow .main after
        (shadow.main_eq live) taken (mainStep_beside _ _ joins) sig
      exact ⟨_, Or.inr ⟨.main, follows⟩, shows _ rfl⟩
  | listio result =>
    obtain ⟨after, taken, rfl⟩ := Option.map_eq_some_iff.mp stepped
    obtain ⟨i, control, called⟩ := listio_cases taken
    have live : s.threads.main ≠ .returned := by simp [control]
    have sig : after.sig = s.threads.sig := by
      rw [called]
      cases result <;> rfl
    obtain ⟨follows, shows⟩ := @Session.Shadow.taken cfg s t shadow (.listio result) after
      (shadow.main_eq live) taken (listio_beside _ _ result) sig
    exact ⟨_, Or.inr ⟨.listio result, follows⟩, shows _ rfl⟩
  | sig =>
    change s.sigStep = some s' at stepped
    unfold Session.sigStep at stepped
    split at stepped
    · split at stepped
      · contradiction
      · cases stepped
        exact ⟨t, Or.inl rfl, same, place, fun live => absurd rfl live⟩
    · obtain ⟨after, taken, rfl⟩ := Option.map_eq_some_iff.mp stepped
      have alive : s.threads.sig ≠ .exited := by
        intro exited
        simp [Lio.sigStep, exited] at taken
      have here := running alive
      subst here
      exact ⟨after, Or.inr ⟨.sig, taken⟩, rfl, Or.inl rfl, fun _ => rfl⟩
  | complete entry wrote =>
    obtain ⟨⟨flying, _⟩, stored⟩ := Option.ite_none_right_eq_some.mp stepped
    obtain rfl := Option.some.inj stored
    have flies : entry ∈ t.inFlight := by
      rw [← same]
      exact flying
    refine ⟨t.complete entry, Or.inr ⟨.complete entry, if_pos flies⟩,
      complete_beside _ _ entry same, ?_, ?_⟩
    · have here := congrArg Progress.main (complete_elsewhere s.threads entry).1
      have there := congrArg Progress.main (complete_elsewhere t entry).1
      change (s.threads.complete entry).main = s.threads.main at here
      change (t.complete entry).main = t.main at there
      change (s.threads.complete entry).main = _ ∨ (s.threads.complete entry).main = _ ∧ _
      rw [here, there]
      exact place
    · intro live
      rw [(complete_elsewhere s.threads entry).2.1] at live
      exact congrArg (State.complete · entry) (running live)
  | eintr =>
    obtain ⟨_, kept⟩ := Option.ite_none_right_eq_some.mp stepped
    exact ⟨t, Or.inl rfl, Option.some.inj kept ▸ shadow⟩
  | stop =>
    obtain rfl := Option.some.inj stepped
    exact ⟨t, Or.inl rfl, same, place, running⟩

/-- Every session has a run of the threads for a shadow. -/
theorem reachable_shadow {ok : Session → SessionAct → Prop}
    (reached : (sessionSystem blocks cfg old).Reachable ok s) :
    ∃ t, (system cfg).Reachable System.always t ∧ s.Shadow t := by
  apply reached.invariant
  · rintro first rfl
    exact ⟨.start, .start rfl, rfl, Or.inl rfl, fun _ => rfl⟩
  · rintro before act after _ ⟨t, run, shadow⟩ _ stepped
    obtain ⟨t', rfl | ⟨act', taken⟩, later⟩ := shadow.step stepped
    · exact ⟨t', run, later⟩
    · exact ⟨t', run.next trivial taken, later⟩

/-- The loops that the main thread gets out of are those that end. -/
theorem ends_of_returned {ok : Session → SessionAct → Prop}
    (reached : (sessionSystem blocks cfg old).Reachable ok s)
    (returned : s.threads.main = .returned) : cfg.Ends := by
  by_contra endless
  obtain ⟨t, run, shadow⟩ := reachable_shadow reached
  rcases (reachable_allocating endless run).control with outer | ⟨i, j, inner, _⟩
  · change t.main = _ at outer
    rcases shadow.main with same | ⟨_, joined⟩
    · rw [returned, outer] at same
      contradiction
    · rw [outer] at joined
      contradiction
  · change t.main = _ at inner
    rcases shadow.main with same | ⟨_, joined⟩
    · rw [returned, inner] at same
      contradiction
    · rw [inner] at joined
      contradiction

end Shadows

section Files

variable {blocks : Blocks} {cfg : Config} {old : List UInt8} {s s' : Session} {t : State}

/-- The schedule of one more full list has the entries of that list behind the others. -/
theorem schedule_add (cfg : Config) (lists : Nat) :
    schedule cfg (lists * cfg.aioListioMax + cfg.aioListioMax) =
      schedule cfg (lists * cfg.aioListioMax) ++
        ((List.range cfg.aioListioMax).map (lists * cfg.aioListioMax + ·)).map (Entry.mk lists) := by
  unfold schedule
  rw [List.range_add, List.map_append, List.map_map, List.map_map]
  congr 1
  apply List.map_congr_left
  intro place member
  have inside := List.mem_range.mp member
  simp only [Function.comp_apply, Entry.mk.injEq, and_true]
  rw [Nat.mul_comm, Nat.mul_add_div cfg.aioListioMax_pos, Nat.div_eq_of_lt inside, Nat.add_zero]

/-- The entries of the schedule are in the lists before its end. -/
theorem mem_schedule {lists : Nat} {entry : Entry}
    (member : entry ∈ schedule cfg (lists * cfg.aioListioMax)) :
    entry.list < lists ∧ entry.block < lists * cfg.aioListioMax := by
  obtain ⟨block, inside, rfl⟩ := List.mem_map.mp member
  have below := List.mem_range.mp inside
  exact ⟨Nat.div_lt_of_lt_mul (Nat.mul_comm lists _ ▸ below), below⟩

/-- The lists that were submitted have their blocks. -/
theorem lists_allocated (reached : (system cfg).Reachable System.always t) :
    t.lists * cfg.aioListioMax ≤ t.allocated := by
  by_cases ends : cfg.Ends
  · have loop := reachable_loopFacts ends reached
    -- within a batch whose list is submitted
    have within {batch done : Nat} {i : Int} (lists : t.lists = batch + 1)
        (facts : Within cfg t.progress batch i cfg.aioListioMax done) :
        t.lists * cfg.aioListioMax ≤ t.allocated := by
      have allocated : t.allocated = _ := facts.allocated
      rw [lists, Nat.succ_mul]
      exact Nat.le_of_eq allocated.symm
    cases control : t.main with
    | outer i => exact Nat.le_of_eq (loop.outer control).2.allocated.symm
    | inner i j =>
      have ⟨filled, _, _, facts⟩ := loop.inner control
      have allocated : t.allocated = _ := facts.allocated
      omega
    | submit i =>
      have allocated : t.allocated = _ := (loop.submit control).allocated
      omega
    | sleep i ret =>
      have ⟨batch, lists, facts⟩ := loop.sleep control
      exact within lists facts
    | free i k =>
      have ⟨batch, _, lists, _, _, facts⟩ := loop.free control
      exact within lists facts
    | join => exact Nat.le_of_eq (loop.join control).2.allocated.symm
    | returned => exact absurd control (reachable_unreturned ends reached)
  · have lists : t.lists = 0 := (reachable_allocating ends reached).lists
    rw [lists, Nat.zero_mul]
    exact Nat.zero_le _

/-- `lio_listio` is called with the blocks of one more list, in order. -/
theorem submit_listed (reached : (system cfg).Reachable System.always t) {i : Int}
    (control : t.main = .submit i) :
    t.listed cfg = (List.range cfg.aioListioMax).map (t.lists * cfg.aioListioMax + ·) := by
  by_cases ends : cfg.Ends
  · exact ((reachable_loopFacts ends reached).submit control).listed ends
  · rcases (reachable_allocating ends reached).control with outer | ⟨_, _, inner, _⟩
    · change t.main = _ at outer
      rw [control] at outer
      contradiction
    · change t.main = _ at inner
      rw [control] at inner
      contradiction

/-- A step of the main thread allocates one block at the control point that allocates, and none
elsewhere. -/
theorem mainStep_allocated {after : State} (taken : mainStep cfg t = some after) :
    after.allocated = t.allocated + if t.main.allocates cfg then 1 else 0 := by
  cases mainStep_move taken with
  | @allocate i j control room =>
    rw [control, if_pos (show Main.allocates cfg (.inner i j) = true from decide_eq_true room)]
    rfl
  | @full i j control full =>
    rw [control, if_neg (show ¬ Main.allocates cfg (.inner i j) = true from
      Bool.eq_false_iff.mp (decide_eq_false full))]
    rfl
  | more control | done control | wake control | free control | freed control | join control =>
    rw [control]
    rfl

/-- The main thread reports a call that has failed. -/
theorem quiet_of_mainStep {after : State} (taken : mainStep cfg t = some after)
    (quiet : after.Quiet) : t.Quiet := by
  have silent := quiet.1
  cases control : t.main with
  | sleep i ret =>
    simp only [mainStep, control] at taken
    split at taken
    · rename_i good
      obtain rfl := Option.some.inj taken
      refine ⟨silent, ?_⟩
      intro j ret' same
      rw [control] at same
      obtain ⟨_, rfl⟩ := Main.sleep.inj same
      exact good
    · obtain rfl := Option.some.inj taken
      exact absurd silent (List.append_ne_nil_of_right_ne_nil _ (List.cons_ne_nil _ _))
  | outer i | inner i j | free i k | join | submit i | returned =>
    refine ⟨?_, by simp [control]⟩
    rw [← silent]
    cases mainStep_move taken with
    | wake asleep => simp [control] at asleep
    | more | done | allocate | full | free | freed | join => rfl

/-- A block that has a buffer keeps it. -/
theorem buffer_kept {drawn : List Nat} (more : List Nat) {block buffer : Nat}
    (has : drawn[block]? = some buffer) : (drawn ++ more)[block]? = some buffer := by
  have ⟨inside, _⟩ := List.getElem?_eq_some_iff.mp has
  rw [List.getElem?_append_left inside]
  exact has

/-- A call of `lio_listio` queues entries, all of them unless it fails. -/
theorem State.listio_inFlight (s : State) (result : Listio) :
    (s.listio cfg result).inFlight = s.inFlight ++ s.entries cfg result := by
  cases result <;> rfl

/-- The entries that a call of `lio_listio` queues are part of the list. -/
theorem State.entries_sublist (s : State) (result : Listio) :
    (s.entries cfg result).Sublist ((s.listed cfg).map (Entry.mk s.lists)) := by
  cases result with
  | success => exact .refl _
  | failure queued => exact List.filter_sublist.map _

/-- A call counts as one more list. -/
theorem State.listio_lists (s : State) (result : Listio) :
    (s.listio cfg result).lists = s.lists + 1 := by
  cases result <;> rfl

/-- Every step keeps the account. -/
theorem Accounted.step {act : SessionAct} (accounted : Accounted blocks cfg old s)
    (run : (system cfg).Reachable System.always t) (shadow : s.Shadow t)
    (stepped : sessionStep blocks cfg s act = some s') : Accounted blocks cfg old s' := by
  have ⟨drawn, writes, buffers, queued, quiet, file⟩ := accounted
  cases act with
  | main rand =>
    obtain ⟨after, taken, rfl⟩ := Option.map_eq_some_iff.mp stepped
    have ⟨_, inFlight, _, _, _, _, lists, _, _⟩ := mainStep_elsewhere taken
    refine ⟨?_, ?_, ?_, ?_, ?_, file⟩
    · change (s.drawn ++ _).length = after.allocated
      rw [List.length_append, drawn, mainStep_allocated taken]
      split <;> rfl
    · exact inFlight ▸ writes
    · exact fun landed member => buffer_kept _ (buffers landed member)
    · exact lists ▸ queued
    · intro silent
      rw [lists]
      exact quiet (quiet_of_mainStep taken silent)
  | listio result =>
    obtain ⟨after, taken, rfl⟩ := Option.map_eq_some_iff.mp stepped
    obtain ⟨i, control, rfl⟩ := listio_cases taken
    have listed : s.threads.listed cfg =
        (List.range cfg.aioListioMax).map (s.threads.lists * cfg.aioListioMax + ·) := by
      have main : s.threads.main = t.main := shadow.main_eq (by simp [control])
      have same := submit_listed run (main.symm.trans control)
      rw [← shadow.same] at same
      exact same
    have next := schedule_add cfg s.threads.lists
    rw [← listed] at next
    refine ⟨?_, ?_, buffers, ?_, ?_, file⟩
    · rw [drawn]
      cases result <;> rfl
    · change ((s.threads.listio cfg result).inFlight ++ _).Perm _
      rw [State.listio_inFlight, List.append_assoc]
      have moved : (s.threads.inFlight ++ (s.threads.entries cfg result ++
          s.done.map Landed.entry)).Perm
          (s.threads.inFlight ++ s.done.map Landed.entry ++ s.threads.entries cfg result) := by
        rw [List.append_assoc]
        exact List.Perm.append_left _ List.perm_append_comm
      exact moved.trans (writes.append_right _)
    · change (s.queued ++ _).Sublist (schedule cfg ((s.threads.listio cfg result).lists * _))
      rw [State.listio_lists, Nat.succ_mul, next]
      exact queued.append (s.threads.entries_sublist result)
    · intro silent
      have success : result.ret = 0 := silent.2 i result.ret rfl
      have before : s.threads.Quiet := by
        refine ⟨?_, by simp [control]⟩
        rw [← silent.1]
        cases result <;> rfl
      cases result with
      | success =>
        change s.queued ++ _ = schedule cfg ((s.threads.lists + 1) * _)
        rw [Nat.succ_mul, next, quiet before]
        rfl
      | failure chosen => exact absurd success (show ¬ (-1 : Int) = 0 by decide)
  | sig =>
    change s.sigStep = some s' at stepped
    unfold Session.sigStep at stepped
    split at stepped
    · split at stepped
      · contradiction
      · obtain rfl := Option.some.inj stepped
        exact ⟨drawn, writes, buffers, queued, quiet, file⟩
    · obtain ⟨after, taken, rfl⟩ := Option.map_eq_some_iff.mp stepped
      have ⟨progress, inFlight, _, _⟩ := sigStep_elsewhere taken
      have allocated : after.allocated = s.threads.allocated := congrArg Progress.allocated progress
      have lists : after.lists = s.threads.lists := congrArg Progress.lists progress
      have main : after.main = s.threads.main := congrArg Progress.main progress
      have errors : after.errors = s.threads.errors := by
        cases sigStep_move taken with
        | take | stop | count => rfl
      refine ⟨drawn.trans allocated.symm, inFlight ▸ writes, buffers, lists ▸ queued, ?_, file⟩
      rintro ⟨silent, asleep⟩
      rw [lists]
      exact quiet ⟨errors ▸ silent, main ▸ asleep⟩
  | complete entry wrote =>
    obtain ⟨⟨flying, _⟩, stored⟩ := Option.ite_none_right_eq_some.mp stepped
    obtain rfl := Option.some.inj stored
    have ⟨progress, _, _, _, inFlight⟩ := complete_elsewhere s.threads entry
    have allocated : (s.threads.complete entry).allocated = s.threads.allocated :=
      congrArg Progress.allocated progress
    have lists : (s.threads.complete entry).lists = s.threads.lists :=
      congrArg Progress.lists progress
    have main : (s.threads.complete entry).main = s.threads.main :=
      congrArg Progress.main progress
    have errors : (s.threads.complete entry).errors = s.threads.errors := by
      unfold State.complete
      split <;> rfl
    -- the block of the entry is allocated, so it has a buffer
    have inside : entry.block < s.drawn.length := by
      have among := queued.subset (writes.subset (List.mem_append_left _ flying))
      have ⟨_, below⟩ := mem_schedule among
      have covered := lists_allocated run
      rw [← shadow.same] at covered
      change s.threads.lists * _ ≤ s.threads.allocated at covered
      omega
    have buffer : s.drawn[entry.block]? = some (s.drawn.getD entry.block 0) := by
      rw [List.getD_eq_getElem?_getD, List.getElem?_eq_getElem inside]
      rfl
    refine ⟨drawn.trans allocated.symm, ?_, ?_, ?_, ?_, ?_⟩
    · change ((s.threads.complete entry).inFlight ++ (s.done ++ [_]).map Landed.entry).Perm s.queued
      rw [inFlight, List.map_append, ← List.append_assoc]
      have back := (List.perm_cons_erase flying).symm.append_right (s.done.map Landed.entry)
      exact ((List.perm_append_singleton _ _).trans back).trans writes
    · intro landed member
      rcases List.mem_append.mp member with earlier | last
      · exact buffers landed earlier
      · rw [List.mem_singleton.mp last]
        exact buffer
    · change s.queued.Sublist (schedule cfg ((s.threads.complete entry).lists * _))
      rw [lists]
      exact queued
    · rintro ⟨silent, asleep⟩
      change s.queued = schedule cfg ((s.threads.complete entry).lists * _)
      rw [lists]
      exact quiet ⟨errors ▸ silent, main ▸ asleep⟩
    · change s.file ++ _ = old ++ (s.done ++ [_]).flatMap _
      rw [List.flatMap_append, file, List.append_assoc, List.flatMap_singleton]
  | eintr =>
    obtain ⟨_, kept⟩ := Option.ite_none_right_eq_some.mp stepped
    exact Option.some.inj kept ▸ accounted
  | stop =>
    obtain rfl := Option.some.inj stepped
    exact ⟨drawn, writes, buffers, queued, quiet, file⟩

/-- The account is kept in every run. -/
theorem reachable_accounted {ok : Session → SessionAct → Prop}
    (reached : (sessionSystem blocks cfg old).Reachable ok s) : Accounted blocks cfg old s := by
  apply reached.invariant
  · rintro first rfl
    have empty : schedule cfg (0 * cfg.aioListioMax) = [] := by
      rw [Nat.zero_mul]
      rfl
    exact ⟨rfl, .refl _, fun _ member => absurd member List.not_mem_nil, List.nil_sublist _,
      fun _ => empty.symm, (List.append_nil _).symm⟩
  · intro before act after prior accounted _ stepped
    obtain ⟨t, run, shadow⟩ := reachable_shadow prior
    exact accounted.step run shadow stepped

/-- A step of the main thread out of a sleep that outlasts the writes, or elsewhere, leaves nothing
in flight. -/
theorem InOrder.landed {rand : Nat} (ordered : InOrder s) (outlasts : Outlasts s (.main rand)) :
    s.threads.inFlight = [] := by
  rcases ordered.asleep with landed | ⟨i, ret, control⟩
  · exact landed
  · exact outlasts (congrArg Main.asleep control)

/-- While the sleeps outlast the writes, the lists are done one after the other. -/
theorem InOrder.step {act : SessionAct} (ordered : InOrder s) (accounted : Accounted blocks cfg old s)
    (outlasts : Outlasts s act) (stepped : sessionStep blocks cfg s act = some s') : InOrder s' := by
  have ⟨asleep, current, order⟩ := ordered
  cases act with
  | main rand =>
    have landed := ordered.landed outlasts
    obtain ⟨after, taken, rfl⟩ := Option.map_eq_some_iff.mp stepped
    have ⟨_, inFlight, _⟩ := mainStep_elsewhere taken
    have empty : after.inFlight = [] := inFlight.trans landed
    refine ⟨Or.inl empty, ?_, order⟩
    intro entry flying
    exact absurd (empty ▸ flying) List.not_mem_nil
  | listio result =>
    obtain ⟨after, taken, rfl⟩ := Option.map_eq_some_iff.mp stepped
    obtain ⟨i, control, rfl⟩ := listio_cases taken
    have landed : s.threads.inFlight = [] := by
      rcases asleep with landed | ⟨_, _, control'⟩
      · exact landed
      · rw [control] at control'
        contradiction
    refine ⟨Or.inr ⟨i, result.ret, rfl⟩, ?_, order⟩
    intro entry flying
    change entry ∈ (s.threads.listio cfg result).inFlight at flying
    rw [State.listio_inFlight, landed, List.nil_append] at flying
    obtain ⟨block, _, rfl⟩ :=
      List.mem_map.mp ((s.threads.entries_sublist result).subset flying)
    exact (State.listio_lists s.threads result).symm
  | sig =>
    change s.sigStep = some s' at stepped
    unfold Session.sigStep at stepped
    split at stepped
    · split at stepped
      · contradiction
      · obtain rfl := Option.some.inj stepped
        exact ⟨asleep, current, order⟩
    · obtain ⟨after, taken, rfl⟩ := Option.map_eq_some_iff.mp stepped
      have ⟨progress, inFlight, _, _⟩ := sigStep_elsewhere taken
      have lists : after.lists = s.threads.lists := congrArg Progress.lists progress
      have main : after.main = s.threads.main := congrArg Progress.main progress
      refine ⟨?_, ?_, order⟩
      · rw [inFlight, main]
        exact asleep
      · rw [inFlight, lists]
        exact current
  | complete entry wrote =>
    obtain ⟨⟨flying, _⟩, stored⟩ := Option.ite_none_right_eq_some.mp stepped
    obtain rfl := Option.some.inj stored
    have ⟨progress, _, _, _, inFlight⟩ := complete_elsewhere s.threads entry
    have lists : (s.threads.complete entry).lists = s.threads.lists :=
      congrArg Progress.lists progress
    have main : (s.threads.complete entry).main = s.threads.main :=
      congrArg Progress.main progress
    refine ⟨?_, ?_, ?_⟩
    · rcases asleep with landed | sleeping
      · exact absurd (landed ▸ flying) List.not_mem_nil
      · rw [← main] at sleeping
        exact Or.inr sleeping
    · intro other left
      change other ∈ (s.threads.complete entry).inFlight at left
      rw [inFlight] at left
      change other.list + 1 = (s.threads.complete entry).lists
      rw [lists]
      exact current other (List.mem_of_mem_erase left)
    · rw [List.pairwise_append]
      refine ⟨order, List.pairwise_singleton _ _, ?_⟩
      intro earlier before last member
      rw [List.mem_singleton.mp member]
      have among := accounted.queued.subset (accounted.writes.subset
        (List.mem_append_right _ (List.mem_map_of_mem before)))
      have ⟨below, _⟩ := mem_schedule among
      have this := current entry flying
      change earlier.entry.list ≤ entry.list
      omega
  | eintr =>
    obtain ⟨_, kept⟩ := Option.ite_none_right_eq_some.mp stepped
    exact Option.some.inj kept ▸ ordered
  | stop =>
    obtain rfl := Option.some.inj stepped
    exact ⟨asleep, current, order⟩

/-- In a run whose sleeps outlast the writes, the lists are done one after the other. -/
theorem reachable_inOrder (reached : (sessionSystem blocks cfg old).Reachable Outlasts s) :
    InOrder s := by
  apply reached.invariant
  · rintro first rfl
    exact ⟨Or.inl rfl, fun _ member => absurd member List.not_mem_nil, .nil⟩
  · intro before act after prior ordered outlasts stepped
    exact ordered.step (reachable_accounted prior) outlasts stepped

/-- At the return the main thread has been through the whole batches. -/
theorem session_returned {ok : Session → SessionAct → Prop}
    (reached : (sessionSystem blocks cfg old).Reachable ok s)
    (returned : s.threads.main = .returned) :
    s.threads.lists * cfg.aioListioMax = wholeBatches cfg.batches ∧
      s.threads.freed = List.range (wholeBatches cfg.batches) := by
  have ends := ends_of_returned reached returned
  obtain ⟨t, run, shadow⟩ := reachable_shadow reached
  have joined : t.main = .join := by
    rcases shadow.main with same | ⟨_, joined⟩
    · exact absurd (same.symm.trans returned) (reachable_unreturned ends run)
    · exact joined
  have ⟨least, between⟩ := (reachable_loopFacts ends run).join joined
  have whole := @Aio.eq_wholeBatches cfg.batches t.lists least between.bound
  have freed : t.freed = List.range (t.lists * cfg.aioListioMax) := between.freed
  have lists : s.threads.lists = t.lists := by
    rw [← shadow.same]
    rfl
  have same : s.threads.freed = t.freed := by
    rw [← shadow.same]
    rfl
  rw [lists, same, ← whole]
  exact ⟨rfl, freed⟩

end Files

/-- When `lio_listio_test` returns from a run whose sleeps outlast the writes, it has freed the
blocks of the whole batches, each once. What it has queued is done, one list after the other, which
is all of the whole batches if it has not reported a call of `lio_listio`; and the file has behind
its old bytes those of the writes, in the order in which they were done. -/
theorem returned_file (blocks : Blocks) (cfg : Config) (old : List UInt8) (s : Session)
    (reached : (sessionSystem blocks cfg old).Reachable Outlasts s)
    (returned : s.threads.main = .returned) :
    s.threads.freed = List.range (wholeBatches cfg.batches) ∧
      s.queued.Sublist (schedule cfg (wholeBatches cfg.batches)) ∧
      (s.threads.errors = [] → s.queued = schedule cfg (wholeBatches cfg.batches)) ∧
      (s.done.map Landed.entry).Perm s.queued ∧
      (s.done.Pairwise fun earlier later => earlier.entry.list ≤ later.entry.list) ∧
      (∀ landed ∈ s.done, s.drawn[landed.entry.block]? = some landed.write.buffer) ∧
      s.file = old ++ s.done.flatMap fun landed => landed.write.bytes blocks := by
  have ⟨lists, freed⟩ := session_returned reached returned
  have ⟨_, writes, buffers, queued, quiet, file⟩ := reachable_accounted reached
  have ⟨asleep, _, order⟩ := reachable_inOrder reached
  have landed : s.threads.inFlight = [] := by
    rcases asleep with landed | ⟨_, _, control⟩
    · exact landed
    · rw [returned] at control
      contradiction
  rw [lists] at queued quiet
  rw [landed, List.nil_append] at writes
  refine ⟨freed, queued, ?_, writes, order, buffers, file⟩
  intro silent
  exact quiet ⟨silent, fun _ _ control => absurd (returned.symm.trans control) nofun⟩


/-- A list of two blocks. -/
def pairConfig : Config := ⟨1, 2, Aio.one_iteration_lt, Nat.two_pos, Aio.oddConfig.maxAios_lt⟩

/-- Two buffers of one byte. -/
def twoBlocks : Blocks :=
  ⟨1, 2, fun number => [UInt8.ofNat number], Nat.two_pos, fun _ _ => rfl⟩

/-- The second entry completes before the first one, `MYSIG_STOP` is sent, and `sig_thread` takes it
behind the signal of the list. -/
def stoppedRun : List SessionAct :=
  [.main 0, .main 0, .main 1, .main 0, .listio .success, .complete ⟨0, 1⟩ (some 1), .stop,
    .complete ⟨0, 0⟩ (some 1), .main 0, .main 0, .main 0, .main 0, .main 0, .sig, .sig, .sig, .main 0]

/-- The file has the bytes in the order of the completions. -/
theorem returned_file_stopped :
    ∃ s, (sessionSystem twoBlocks pairConfig [7]).Reachable Outlasts s ∧
      s.queued = [⟨0, 0⟩, ⟨0, 1⟩] ∧ s.threads.freed = [0, 1] ∧ s.file = [7, 1, 0] := by
  have replay : ((sessionSystem twoBlocks pairConfig [7]).guardedRun Outlasts (.start [7])
      stoppedRun).map (fun s => (s.threads.main, s.threads.errors, s.done)) =
      some (.returned, [], [⟨⟨0, 1⟩, 1, some 1⟩, ⟨⟨0, 0⟩, 0, some 1⟩]) := by decide +kernel
  have ⟨s, replayed, shown⟩ := Option.map_eq_some_iff.mp replay
  have ⟨control, rest⟩ := Prod.mk.inj shown
  have ⟨silent, finished⟩ := Prod.mk.inj rest
  have reached : (sessionSystem twoBlocks pairConfig [7]).Reachable Outlasts s :=
    .of_guardedRun rfl stoppedRun replayed
  have ⟨freed, _, quiet, _, _, _, file⟩ :=
    returned_file twoBlocks pairConfig [7] s reached control
  rw [finished] at file
  exact ⟨s, reached, quiet silent, freed, file⟩

end PerfVerif.Lio
