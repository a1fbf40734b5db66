import PerfVerif.Lio.Invariant

/-!
# Schedules of `lio_listio_test`

From every state of every run in loops that end, the main thread can be brought to
`pthread_join` with nothing in flight and no signal pending. The runs that show it are careful:
every list is taken on, and every sleep lasts until the entries have completed and their signals
are received. Where the main thread goes on from there, the array and the blocks follow from the
invariants of the loops.
-/

namespace PerfVerif.Lio

open Transition
open Aio (toInt toUnsignedLong loopLimit)

/-- The sleep behind a list ends only when no entry is in flight and no signal is pending. -/
def SleepsThrough (s : State) (act : Act) : Prop :=
  match act, s.main with
  | .main, .sleep _ _ => s.inFlight = [] ∧ s.pending = []
  | _, _ => True

/-- Every call of `lio_listio` succeeds. -/
def Succeeds (_ : State) : Act → Prop
  | .listio (.failure _) => False
  | _ => True

/-- Sleeps outlast the writes and every call of `lio_listio` succeeds. -/
def Careful (s : State) (act : Act) : Prop := SleepsThrough s act ∧ Succeeds s act

/-- The runs whose steps are careful. -/
abbrev Leads (cfg : Config) : State → State → Prop := (system cfg).Leads Careful

/-- Nothing is under way and `sig_thread` waits. -/
structure Calm (s : State) : Prop where
  landed : s.inFlight = []
  signalled : s.unsignalled = []
  taken : s.pending = []
  waiting : s.sig = .sigwaitinfo

section Completions

variable {cfg : Config}

/-- A completion is careful at any time. -/
theorem leads_complete {s : State} {entry : Entry} (flying : entry ∈ s.inFlight) :
    Leads cfg s (s.complete entry) := by
  apply System.leads_single (.complete entry) ⟨trivial, trivial⟩
  simp only [system, step, if_pos flying]

/-- A step of `sig_thread` is careful at any time. -/
theorem leads_sig {s s' : State} (taken : sigStep s = some s') : Leads cfg s s' :=
  System.leads_single .sig ⟨trivial, trivial⟩ taken

/-- Every entry in flight can complete. -/
theorem complete_all (count : Nat) {s : State} (flying : s.inFlight.length = count)
    (facts : SignalFacts s) :
    ∃ s', Leads cfg s s' ∧ s'.progress = s.progress ∧ s'.inFlight = [] ∧ SignalFacts s' := by
  induction count generalizing s with
  | zero => exact ⟨s, .refl, rfl, List.length_eq_zero_iff.mp flying, facts⟩
  | succ count ih =>
    have ⟨entry, member⟩ := List.exists_mem_of_length_pos (show 0 < s.inFlight.length by omega)
    have ⟨progress, _, _, _, inFlight⟩ := complete_elsewhere s entry
    have fewer : (s.complete entry).inFlight.length = count := by
      rw [inFlight, List.length_erase_of_mem member, flying, Nat.add_sub_cancel]
    have ⟨s', rest, same, landed, kept⟩ := ih fewer (complete_signalFacts facts entry)
    exact ⟨s', .trans (leads_complete member) rest, same.trans progress, landed, kept⟩

/-- `sig_thread` can go back to `sigwaitinfo`. -/
theorem finish_handling {s : State} (running : s.sig ≠ .exited) :
    ∃ count, Leads cfg s { s with sig := .sigwaitinfo, count := count } := by
  cases control : s.sig with
  | sigwaitinfo =>
    have same : s = { s with sig := .sigwaitinfo } := by rw [← control]
    exact ⟨s.count, same ▸ .refl⟩
  | handling =>
    refine ⟨s.count + 1, leads_sig ?_⟩
    simp only [sigStep, control]
  | exited => exact absurd control running

/-- Every pending signal can be taken. -/
theorem receive_all {s : State} (running : s.sig ≠ .exited) (unstopped : .stop ∉ s.pending) :
    ∃ s', Leads cfg s s' ∧ s'.progress = s.progress ∧ s'.inFlight = s.inFlight ∧
      s'.unsignalled = s.unsignalled ∧ s'.pending = [] ∧ s'.sig = .sigwaitinfo := by
  generalize queue : s.pending = signals at unstopped
  induction signals generalizing s with
  | nil =>
    obtain ⟨count, back⟩ := @finish_handling cfg s running
    exact ⟨_, back, rfl, rfl, rfl, queue, rfl⟩
  | cons signal rest ih =>
    obtain ⟨count, back⟩ := @finish_handling cfg s running
    cases signal with
    | aioComplete list =>
      have took : Leads cfg { s with sig := .sigwaitinfo, count := count }
          { s with
            sig := .handling, count := count, pending := rest,
            received := s.received ++ [list] } := by
        apply leads_sig
        simp only [sigStep, queue]
      obtain ⟨s', path, progress, inFlight, unsignalled, pending, sig⟩ := @ih
        { s with
          sig := .handling, count := count, pending := rest,
          received := s.received ++ [list] }
        (by simp) rfl (fun member => unstopped (List.mem_cons_of_mem _ member))
      exact ⟨s', (back.trans took).trans path, progress, inFlight, unsignalled, pending, sig⟩
    | stop => exact absurd List.mem_cons_self unstopped

/-- Everything under way can come to rest while the main thread stays where it is. -/
theorem drain {s : State} (facts : SignalFacts s) :
    ∃ s', Leads cfg s s' ∧ s'.progress = s.progress ∧ Calm s' := by
  have ⟨landed, completes, same, empty, kept⟩ := @complete_all cfg _ s rfl facts
  have signalled := kept.signalled empty
  have ⟨s', receives, progress, inFlight, unsignalled, pending, sig⟩ :=
    @receive_all cfg landed kept.running kept.unstopped
  exact ⟨s', completes.trans receives, progress.trans same, inFlight.trans empty,
    unsignalled.trans signalled, pending, sig⟩

end Completions

section Main

variable {cfg : Config}

/-- A step of the main thread out of a sleep takes no more than a calm state. -/
theorem leads_main {s s' : State} (awake : (∀ i ret, s.main ≠ .sleep i ret) ∨ Calm s)
    (taken : mainStep cfg s = some s') : Leads cfg s s' := by
  refine System.leads_single .main ⟨?_, trivial⟩ taken
  unfold SleepsThrough
  split
  · rename_i i ret _ control
    rcases awake with elsewhere | calm
    · exact absurd control (elsewhere i ret)
    · exact ⟨calm.landed, calm.taken⟩
  · trivial

/-- The allocating loop fills the rest of the array. -/
theorem fill (narrow : cfg.aioListioMax < 2 ^ 31) (count : Nat) {s : State} {i : Int}
    {filled : Nat} (control : s.main = .inner i filled)
    (bound : filled + count = cfg.aioListioMax) :
    ∃ s', Leads cfg s s' ∧ s'.main = .submit i ∧ s'.lists = s.lists := by
  induction count generalizing s filled with
  | zero =>
    refine ⟨{ s with main := .submit i }, leads_main (Or.inl (by simp [control])) ?_, rfl, rfl⟩
    simp only [mainStep, control, if_neg (show ¬ (filled : Int) < cfg.aioListioMax by omega)]
  | succ count ih =>
    have next : toInt (filled + 1) = (filled + 1 : Nat) := Aio.toInt_succ (by omega)
    have allocates : Leads cfg s { s.allocate filled with main := .inner i (filled + 1 : Nat) } := by
      apply leads_main (Or.inl (by simp [control]))
      simp only [mainStep, control, if_pos (show (filled : Int) < cfg.aioListioMax by omega), next]
    obtain ⟨s', path, submit, lists⟩ :=
      @ih { s.allocate filled with main := .inner i (filled + 1 : Nat) } (filled + 1) rfl
        (by omega)
    exact ⟨s', allocates.trans path, submit, lists⟩

/-- The freeing loop goes through the rest of the array. -/
theorem release (narrow : cfg.aioListioMax < 2 ^ 31) (count : Nat) {s : State} {i : Int}
    {done : Nat} (control : s.main = .free i done)
    (bound : done + count = cfg.aioListioMax) :
    ∃ s', Leads cfg s s' ∧ s'.main = .outer (toInt (i + cfg.aioListioMax)) ∧
      s'.lists = s.lists := by
  induction count generalizing s done with
  | zero =>
    refine ⟨{ s with main := .outer (toInt (i + cfg.aioListioMax)) },
      leads_main (Or.inl (by simp [control])) ?_, rfl, rfl⟩
    simp only [mainStep, control, if_neg (show ¬ (done : Int) < cfg.aioListioMax by omega)]
  | succ count ih =>
    have next : toInt (done + 1) = (done + 1 : Nat) := Aio.toInt_succ (by omega)
    have frees : Leads cfg s { s.free done with main := .free i (done + 1 : Nat) } := by
      apply leads_main (Or.inl (by simp [control]))
      simp only [mainStep, control, if_pos (show (done : Int) < cfg.aioListioMax by omega), next]
    obtain ⟨s', path, outer, lists⟩ :=
      @ih { s.free done with main := .free i (done + 1 : Nat) } (done + 1) rfl (by omega)
    exact ⟨s', frees.trans path, outer, lists⟩

/-- The main thread can sleep through the completions and free the array. -/
theorem wake_up (narrow : cfg.aioListioMax < 2 ^ 31) {s : State} {i ret : Int}
    (facts : SignalFacts s) (control : s.main = .sleep i ret) :
    ∃ s' j, Leads cfg s s' ∧ s'.main = .outer j ∧ s'.lists = s.lists := by
  obtain ⟨rested, drained, progress, calm⟩ := @drain cfg s facts
  have sleeping : rested.main = .sleep i ret := (congrArg Progress.main progress).trans control
  have lists : rested.lists = s.lists := congrArg Progress.lists progress
  obtain ⟨errors, wakes⟩ : ∃ errors,
      Leads cfg rested { rested with main := .free i 0, errors := errors } := by
    by_cases good : ret = 0
    · refine ⟨rested.errors, leads_main (Or.inr calm) ?_⟩
      simp only [mainStep, sleeping, if_pos good]
    · refine ⟨rested.errors ++ ["lio_listio FAILED"], leads_main (Or.inr calm) ?_⟩
      simp only [mainStep, sleeping, if_neg good]
  obtain ⟨s', freed, outer, kept⟩ := @release cfg narrow cfg.aioListioMax
    { rested with main := .free i 0, errors := errors } i 0 rfl (Nat.zero_add _)
  exact ⟨s', _, (drained.trans wakes).trans freed, outer, kept.trans lists⟩

/-- The main thread can submit a list, sleep through it and free the array. -/
theorem submit_list (ends : cfg.Ends) {s : State} {i : Int}
    (reached : (system cfg).Reachable System.always s) (control : s.main = .submit i) :
    ∃ s' j, Leads cfg s s' ∧ s'.main = .outer j ∧ s'.lists = s.lists + 1 := by
  have narrow := ((reachable_loopFacts ends reached).submit control).narrow ends
  have taken : (system cfg).step s (.listio .success) =
      some { s.listio cfg .success with main := .sleep i 0 } := by
    simp only [system, step, control, Listio.ret]
  have facts := reachable_signalFacts ends (reached.next trivial taken)
  obtain ⟨s', j, path, outer, lists⟩ := @wake_up cfg narrow _ i 0 facts rfl
  have submits : Leads cfg s { s.listio cfg .success with main := .sleep i 0 } :=
    System.leads_single (.listio .success) ⟨trivial, trivial⟩ taken
  exact ⟨s', j, submits.trans path, outer, lists⟩

/-- What a careful run from a reachable state leads to is reachable. -/
theorem reachable_leads {s s' : State} (reached : (system cfg).Reachable System.always s)
    (path : Leads cfg s s') : (system cfg).Reachable System.always s' :=
  reached.leads (System.leads_mono (fun _ _ _ => trivial) path)

/-- From within a batch, the main thread can come to the outer test behind it. -/
theorem end_batch (ends : cfg.Ends) {s : State}
    (reached : (system cfg).Reachable System.always s) :
    (∃ s' j, Leads cfg s s' ∧ s'.main = .outer j) ∨ s.main = .join := by
  have loop := reachable_loopFacts ends reached
  cases control : s.main with
  | outer i => exact Or.inl ⟨s, i, .refl, control⟩
  | inner i j =>
    obtain ⟨filled, rfl, most, within⟩ := loop.inner control
    have ⟨full, fills, submit, _⟩ := fill (within.narrow ends) (cfg.aioListioMax - filled) control
      (by omega)
    have ⟨s', j, path, outer, _⟩ := submit_list ends (reachable_leads reached fills) submit
    exact Or.inl ⟨s', j, fills.trans path, outer⟩
  | submit i =>
    have ⟨s', j, path, outer, _⟩ := submit_list ends reached control
    exact Or.inl ⟨s', j, path, outer⟩
  | sleep i ret =>
    have ⟨_, _, within⟩ := loop.sleep control
    have ⟨s', j, path, outer, _⟩ := wake_up (within.narrow ends)
      (reachable_signalFacts ends reached) control
    exact Or.inl ⟨s', j, path, outer⟩
  | free i k =>
    obtain ⟨_, done, _, rfl, most, within⟩ := loop.free control
    have ⟨s', path, outer, _⟩ := release (within.narrow ends) (cfg.aioListioMax - done) control
      (by omega)
    exact Or.inl ⟨s', _, path, outer⟩
  | join => exact Or.inr rfl
  | returned => exact absurd control (reachable_unreturned ends reached)

/-- From the outer test the main thread can go through the batches that are left. -/
theorem remaining_batches (ends : cfg.Ends) (rounds : Nat) {s : State} {i : Int}
    (reached : (system cfg).Reachable System.always s) (control : s.main = .outer i)
    (enough : loopLimit cfg.batches ≤ (s.lists + rounds) * cfg.aioListioMax) :
    ∃ s', Leads cfg s s' ∧ s'.main = .join := by
  induction rounds generalizing s i with
  | zero =>
    have tested := (reachable_loopFacts ends reached).outer_test ends control
    refine ⟨{ s with main := .join }, leads_main (Or.inl (by simp [control])) ?_, rfl⟩
    simp only [mainStep, control, if_neg (mt tested.mp (Nat.not_lt.mpr enough))]
  | succ rounds ih =>
    by_cases more : toUnsignedLong i < cfg.iterations
    · have enters : Leads cfg s { s with main := .inner i 0 } := by
        apply leads_main (Or.inl (by simp [control]))
        simp only [mainStep, control, if_pos more]
      have inside := reachable_leads reached enters
      obtain ⟨filled, counted, most, within⟩ := (reachable_loopFacts ends inside).inner rfl
      obtain ⟨full, fills, submit, same⟩ := @fill cfg (within.narrow ends) cfg.aioListioMax
        { s with main := .inner i 0 } i 0 rfl (Nat.zero_add _)
      obtain ⟨behind, j, path, outer, lists⟩ :=
        submit_list ends (reachable_leads inside fills) submit
      have round := (enters.trans fills).trans path
      obtain ⟨s', rest, join⟩ := ih (reachable_leads reached round) outer (by
        rw [lists, same, Nat.add_right_comm]
        exact enough)
      exact ⟨s', round.trans rest, join⟩
    · refine ⟨{ s with main := .join }, leads_main (Or.inl (by simp [control])) ?_, rfl⟩
      simp only [mainStep, control, if_neg more]

/-- From every state of every run the main thread can come to `pthread_join` with nothing under
way. -/
theorem reach_join (ends : cfg.Ends) {s : State}
    (reached : (system cfg).Reachable System.always s) :
    ∃ s', Leads cfg s s' ∧ s'.main = .join ∧ Calm s' := by
  have ⟨joined, path, control⟩ : ∃ s', Leads cfg s s' ∧ s'.main = .join := by
    rcases end_batch ends reached with ⟨behind, i, path, outer⟩ | control
    · have positive := cfg.aioListioMax_pos
      have enough : loopLimit cfg.batches ≤
          (behind.lists + loopLimit cfg.batches) * cfg.aioListioMax :=
        calc
          loopLimit cfg.batches ≤ behind.lists + loopLimit cfg.batches := Nat.le_add_left _ _
          _ ≤ (behind.lists + loopLimit cfg.batches) * cfg.aioListioMax :=
            Nat.le_mul_of_pos_right _ positive
      have ⟨s', rest, join⟩ := remaining_batches ends _ (reachable_leads reached path) outer
        enough
      exact ⟨s', path.trans rest, join⟩
    · exact ⟨s, .refl, control⟩
  have facts := reachable_signalFacts ends (reachable_leads reached path)
  have ⟨s', drained, progress, calm⟩ := @drain cfg joined facts
  exact ⟨s', path.trans drained, (congrArg Progress.main progress).trans control, calm⟩

end Main

end PerfVerif.Lio
