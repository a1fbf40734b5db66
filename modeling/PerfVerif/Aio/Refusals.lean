import PerfVerif.Aio.Results

/-!
# How many writes `aio_write` may refuse

The main thread goes on behind a write that `aio_write` refuses, but `sig_thread` counts only those
that are done. So every refusal takes one of the writes by which the whole batches overshoot the
iterations, and when none of them is left nobody counts up to the iterations any more.
-/

namespace PerfVerif.Aio

open Transition

/-- The session has these threads, with as many writes in flight and signals as they count, and none
of the signals is of a failed write. -/
structure Session.Shows (s : Session) (threads : State) : Prop where
  same : s.threads = threads
  flying : s.flying.length = threads.inFlight
  queued : s.queued.length = threads.pending
  accepted : ∀ done ∈ s.queued, done.Accepted
  running : s.exited = false

section Lift

variable {blocks : Blocks} {cfg : Config} {old : List UInt8} {s s' : Session}
  {threads after : State}

/-- The runs of a session, with no condition on the steps. -/
abbrev SessionLeads (blocks : Blocks) (cfg : Config) (old : List UInt8) :
    Session → Session → Prop :=
  (sessionSystem blocks cfg old).Leads System.always

/-- A step of the threads in which nothing is refused and no write fails is one of the session. -/
theorem Session.Shows.step (shows : s.Shows threads) {act : Act}
    (taken : step cfg threads act = some after) :
    ∃ s', SessionLeads blocks cfg old s s' ∧ s'.Shows after ∧ s'.refused = s.refused := by
  obtain ⟨same, flying, queued, accepted, running⟩ := shows
  subst same
  have live : ¬ s.exited = true := Bool.eq_false_iff.mp running
  -- it is enough to say which action of the session it is
  suffices stepped : ∃ act s', sessionStep blocks cfg s act = some s' ∧ s'.Shows after ∧
      s'.refused = s.refused by
    obtain ⟨act, s', stepped, rest⟩ := stepped
    exact ⟨s', System.leads_single act trivial stepped, rest⟩
  cases act with
  | main =>
    change Aio.mainStep cfg s.threads = some after at taken
    obtain ⟨_, _, pending, _⟩ := mainStep_elsewhere taken
    have stepped : ∃ s', s.mainStep blocks cfg 0 false = some s' := by
      rw [Session.mainStep, taken]
      exact ⟨_, rfl⟩
    obtain ⟨s', stepped⟩ := stepped
    refine ⟨.main 0 false, s', (if_neg live).trans stepped, ?_⟩
    obtain ⟨found, main, cases⟩ := Session.mainStep_cases stepped
    obtain rfl := Option.some.inj (main.symm.trans taken)
    rcases cases with ⟨more, _, ⟨refused, _⟩ | ⟨_, rfl⟩⟩ | ⟨more, _, rfl⟩
    · contradiction
    · refine ⟨⟨rfl, ?_, queued.trans pending.symm, accepted, running⟩, rfl⟩
      rw [List.length_append, flying, more]
      rfl
    · exact ⟨⟨rfl, flying.trans more.symm, queued.trans pending.symm, accepted, running⟩, rfl⟩
  | sig =>
    change Aio.sigStep cfg s.threads = some after at taken
    obtain ⟨_, _, _, inFlight, _, _⟩ := sigStep_elsewhere taken
    have fewer := sigStep_pending taken
    by_cases waiting : s.threads.sig = .sigwaitinfo
    · rw [if_pos waiting] at fewer
      cases signals : s.queued with
      | nil =>
        rw [signals] at queued
        simp [Aio.sigStep, waiting, ← queued] at taken
      | cons done rest =>
        rw [signals] at queued accepted
        obtain ⟨first, others⟩ := List.forall_mem_cons.mp accepted
        refine ⟨.sig, { s with threads := after, queued := rest }, ?_,
          ⟨rfl, flying.trans inFlight.symm, ?_, others, running⟩, rfl⟩
        · rw [sessionStep, if_neg live]
          simp only [Session.sigStep, if_pos waiting, signals, if_pos first, taken, Option.map_some]
        · rw [fewer, ← queued]
          rfl
    · rw [if_neg waiting] at fewer
      refine ⟨.sig, { s with threads := after }, ?_,
        ⟨rfl, flying.trans inFlight.symm, queued.trans fewer.symm, accepted, running⟩, rfl⟩
      rw [sessionStep, if_neg live]
      simp only [Session.sigStep, if_neg waiting, taken, Option.map_some]
  | complete =>
    obtain ⟨landed, same⟩ := Option.ite_none_left_eq_some.mp taken
    cases same
    cases writes : s.flying with
    | nil =>
      rw [writes] at flying
      exact absurd flying.symm landed
    | cons buffer rest =>
      rw [writes] at flying
      -- it may have written nothing
      have stepped : s.complete blocks 0 (some 0) = some { s with
          threads := { s.threads with
            inFlight := s.threads.inFlight - 1, pending := s.threads.pending + 1 }
          flying := rest
          queued := s.queued ++ [⟨buffer, some 0⟩]
          file := s.file ++ Done.bytes blocks ⟨buffer, some 0⟩
          done := s.done ++ [⟨buffer, some 0⟩] } := by
        unfold Session.complete
        rw [writes]
        exact if_pos (Nat.zero_le _)
      refine ⟨.complete 0 (some 0), _, (if_neg live).trans stepped, ⟨rfl, ?_, ?_, ?_, running⟩, rfl⟩
      · change rest.length = s.threads.inFlight - 1
        rw [← flying]
        rfl
      · change (s.queued ++ [_]).length = s.threads.pending + 1
        rw [List.length_append, queued]
        rfl
      · intro done member
        rcases List.mem_append.mp member with before | last
        · exact accepted done before
        · rw [List.mem_singleton.mp last]
          change 0 ≤ toInt 0
          decide
  | wake =>
    cases taken
    exact ⟨.wake, _, if_neg live, ⟨rfl, flying, queued, accepted, running⟩, rfl⟩
  | eintr =>
    obtain ⟨waiting, same⟩ := Option.ite_none_right_eq_some.mp taken
    cases same
    exact ⟨.eintr, s, (if_neg live).trans (if_pos waiting),
      ⟨rfl, flying, queued, accepted, running⟩, rfl⟩

/-- A run of the threads in which nothing is refused and no write fails is one of the session. -/
theorem Session.Shows.leads (shows : s.Shows threads) (path : Leads cfg threads after) :
    ∃ s', SessionLeads blocks cfg old s s' ∧ s'.Shows after ∧ s'.refused = s.refused := by
  induction path with
  | refl => exact ⟨s, .refl, shows, rfl⟩
  | tail _ last ih =>
    obtain ⟨middle, prior, shown, refused⟩ := ih
    obtain ⟨_, _, taken⟩ := last
    obtain ⟨s', next, later, same⟩ := shown.step taken
    exact ⟨s', prior.trans next, later, same.trans refused⟩

/-- The writes of a batch that are left may all be refused. -/
theorem Session.Shows.refuse (narrow : cfg.maxAios < 2 ^ 31) (shows : s.Shows threads) {i : Int}
    {j : Nat} (control : threads.main = .inner i j) (count : Nat)
    (bound : j + count ≤ cfg.maxAios) :
    ∃ s', SessionLeads blocks cfg old s s' ∧
      s'.Shows { threads with
        main := .inner i (j + count : Nat), submitted := threads.submitted + count } ∧
      s'.refused = s.refused + count := by
  induction count with
  | zero =>
    refine ⟨s, .refl, ?_, rfl⟩
    rw [Nat.add_zero, Nat.add_zero, ← control]
    exact shows
  | succ count ih =>
    obtain ⟨middle, prior, shown, refused⟩ := ih (by omega)
    have ⟨same, flying, queued, accepted, running⟩ := shown
    have room : ((j + count : Nat) : Int) < cfg.maxAios := by omega
    have next : toInt ((j + count : Nat) + 1) = (j + (count + 1) : Nat) := toInt_succ (by omega)
    refine ⟨{ middle with
        threads := { threads with
          main := .inner i (j + (count + 1) : Nat), submitted := threads.submitted + (count + 1) }
        refused := middle.refused + 1 }, prior.trans ?_, ⟨rfl, flying, queued, accepted, running⟩, ?_⟩
    · apply System.leads_single (.main 0 true) trivial
      change sessionStep blocks cfg middle (.main 0 true) = _
      rw [sessionStep, if_neg (Bool.eq_false_iff.mp running)]
      simp only [Session.mainStep, same, Aio.mainStep, Main.submits, if_pos room, decide_eq_true room,
        Option.map_some, next, if_true, Nat.add_assoc]
    · change middle.refused + 1 = s.refused + (count + 1)
      rw [refused, Nat.add_assoc]

end Lift

section Returns

variable {blocks : Blocks} {cfg : Config} {old : List UInt8}

/-- The first batch with the last writes of it refused, and the main thread before the barrier. -/
def State.thinBatch (cfg : Config) (refused : Nat) : State :=
  { State.start with
    main := .lock 0, inFlight := cfg.maxAios - refused, submitted := cfg.maxAios }

/-- The main thread gets through the first batch whatever is refused of it. -/
theorem thin_batch (narrow : cfg.maxAios < 2 ^ 31) (nonempty : 0 < cfg.iterations) {refused : Nat}
    (few : refused < cfg.maxAios) :
    ∃ s, SessionLeads blocks cfg old (.start old) s ∧ s.Shows (.thinBatch cfg refused) ∧
      s.refused = refused := by
  have start : (Session.start old).Shows .start :=
    ⟨rfl, rfl, rfl, fun _ member => absurd member List.not_mem_nil, rfl⟩
  have taken := (start_batch nonempty).trans (@submits cfg narrow
    { State.start with main := .inner 0 0 } 0 0 rfl (cfg.maxAios - refused) (by omega))
  obtain ⟨first, path, shows, none⟩ := start.leads taken
  obtain ⟨second, more, thinner, all⟩ := @Session.Shows.refuse blocks cfg old _ _ narrow shows 0
    (0 + (cfg.maxAios - refused)) rfl refused (by omega)
  have whole : 0 + (cfg.maxAios - refused) + refused = cfg.maxAios := by omega
  rw [whole] at thinner
  have full : Leads cfg
      { State.start with
        main := .inner 0 cfg.maxAios, inFlight := 0 + (cfg.maxAios - refused),
        submitted := 0 + (cfg.maxAios - refused) + refused }
      (.thinBatch cfg refused) := by
    apply leads_step .main
    simp only [step, mainStep, Int.lt_irrefl, ↓reduceIte, State.thinBatch, Nat.zero_add,
      Nat.sub_add_cancel (Nat.le_of_lt few)]
  obtain ⟨last, rest, shown, same⟩ := thinner.leads full
  refine ⟨last, (path.trans more).trans rest, shown, ?_⟩
  rw [same, all, none]
  exact Nat.zero_add _

/-- The whole batches overshoot the iterations by less than a batch. -/
theorem overshoot_lt {refused : Nat}
    (fits : refused + cfg.iterations ≤ wholeBatches cfg) : refused < cfg.maxAios := by
  have positive := cfg.maxAios_pos
  have limit : loopLimit cfg ≤ cfg.iterations := Nat.min_le_left _ _
  have whole : wholeBatches cfg ≤ loopLimit cfg + cfg.maxAios - 1 := Nat.div_mul_le_self _ _
  omega

/-- The main thread returns where `sig_thread` has left its loop behind the last batch. -/
theorem Session.Shows.return {s : Session} {threads : State} (shows : s.Shows threads)
    (reached : (sessionSystem blocks cfg old).Reachable System.always s)
    (control : threads.main = .join) (exited : threads.sig = .exited) :
    ∃ s', (sessionSystem blocks cfg old).Reachable System.always s' ∧
      s'.threads.main = .returned ∧ s'.refused = s.refused := by
  have last : Leads cfg threads { threads with main := .returned } := by
    apply leads_step .main
    simp only [Aio.step, Aio.mainStep, control, exited, ↓reduceIte]
  obtain ⟨s', path, shown, same⟩ := shows.leads last
  exact ⟨s', reached.leads path, congrArg State.main shown.same, same⟩

/-- With batches of several writes, as many refusals as the batches overshoot the iterations leave a
way to the return. -/
theorem return_with_refused (nonempty : 0 < cfg.iterations) (several : 1 < cfg.maxAios)
    (narrow : cfg.maxAios < 2 ^ 31) {refused : Nat}
    (fits : refused + cfg.iterations ≤ wholeBatches cfg) :
    ∃ s, (sessionSystem blocks cfg old).Reachable System.always s ∧
      s.threads.main = .returned ∧ s.refused = refused := by
  have few := overshoot_lt fits
  have odd : 1 % cfg.maxAios ≠ 0 := by
    rw [Nat.mod_eq_of_lt several]
    decide
  obtain ⟨batch, path, thin, all⟩ := @thin_batch blocks cfg old narrow nonempty refused few
  have reached : (sessionSystem blocks cfg old).Reachable System.always batch := ⟨_, rfl, path⟩
  by_cases one : cfg.iterations = 1
  · -- the first count ends the signal thread
    obtain ⟨perBatch, left, counted⟩ := @count_to_end cfg (.thinBatch cfg refused) rfl rfl rfl rfl
      nonempty (show cfg.iterations ≤ 0 + (cfg.maxAios - refused) by omega)
    obtain ⟨_, _, _, joined⟩ := @reach_join cfg nonempty narrow
      { State.thinBatch cfg refused with
        sig := .exited, iosCompletedPerBatch := perBatch, totalIosCompleted := cfg.iterations,
        inFlight := left } rfl rfl (by rw [one]; exact odd)
    obtain ⟨s, rest, shown, same⟩ := thin.leads (counted.trans joined)
    obtain ⟨s', reached', returned, kept⟩ := shown.return (reached.leads rest) rfl rfl
    exact ⟨s', reached', returned, kept.trans (same.trans all)⟩
  · -- one write is counted, and the main thread passes every barrier
    obtain ⟨perBatch, counted⟩ := @count_many cfg 1 (.thinBatch cfg refused)
      (cfg.maxAios - refused - 1) rfl rfl rfl rfl
      (show cfg.maxAios - refused = cfg.maxAios - refused - 1 + 1 by omega)
      (show 0 + 1 < cfg.iterations by omega)
    obtain ⟨inFlight, total, passed, joined⟩ := @reach_join cfg nonempty narrow
      { State.thinBatch cfg refused with
        iosCompletedPerBatch := perBatch, totalIosCompleted := 0 + 1,
        inFlight := cfg.maxAios - refused - 1 } rfl rfl odd
    obtain ⟨s, rest, shown, same⟩ := thin.leads (counted.trans joined)
    have reached' := reached.leads rest
    -- so enough writes are in flight to count up to the iterations
    have accounted := reachable_accounted reached'
    obtain ⟨_, _, submitted⟩ := session_joined nonempty reached'
      (Or.inl (congrArg State.main shown.same))
    have writes := accounted.writes.length_eq
    have order := congrArg List.length accounted.order
    have attempts := accounted.attempts
    have taken : s.taken = 1 := by
      rw [Session.taken, shown.same]
      rfl
    have quiet : s.queued.length = 0 := shown.queued
    have flying : s.flying.length = inFlight := shown.flying
    rw [List.length_append, List.length_map] at writes
    rw [shown.running, if_neg Bool.false_ne_true, List.length_drop, taken, quiet] at order
    obtain ⟨_, _, finished⟩ := @count_to_end cfg
      { State.thinBatch cfg refused with
        main := .join, iosCompletedPerBatch := perBatch, totalIosCompleted := 0 + 1,
        inFlight := inFlight, submitted := total, batches := passed } rfl rfl rfl rfl
      (show 0 + 1 < cfg.iterations by omega) (show cfg.iterations ≤ 0 + 1 + inFlight by omega)
    obtain ⟨last, final, ended, kept⟩ := shown.leads finished
    obtain ⟨s', reached'', returned, still⟩ := ended.return (reached'.leads final) rfl rfl
    exact ⟨s', reached'', returned, still.trans (kept.trans (same.trans all))⟩

/-- With batches of one write the main thread never leaves its first barrier. -/
theorem mainStep_unit {threads after : State} (unit : cfg.maxAios = 1)
    (facts : threads.batches = 0 ∧ ∀ i, threads.main ≠ .unlock i)
    (taken : mainStep cfg threads = some after) :
    after.batches = 0 ∧ ∀ i, after.main ≠ .unlock i := by
  have ⟨odd, counted⟩ := mainStep_unlock taken
  rw [unit, Nat.mod_one] at odd
  refine ⟨?_, fun i control => odd i control rfl⟩
  rcases counted with same | ⟨i, control⟩
  · exact same.trans facts.1
  · exact absurd control (facts.2 i)

/-- A session that returns has batches of several writes. -/
theorem session_returned_several (nonempty : 0 < cfg.iterations) {s : Session}
    (reached : (sessionSystem blocks cfg old).Reachable System.always s)
    (returned : s.threads.main = .returned) : 1 < cfg.maxAios := by
  by_contra single
  have unit : cfg.maxAios = 1 := by
    have positive := cfg.maxAios_pos
    omega
  have none : s.threads.batches = 0 ∧ ∀ i, s.threads.main ≠ .unlock i := by
    apply session_reachable_main
      (fun batches _ main => batches = 0 ∧ ∀ i, main ≠ .unlock i) _ _ _ reached
    · exact ⟨rfl, fun _ => nofun⟩
    · exact fun _ _ facts taken => mainStep_unit unit facts taken
    · intro _ _ main facts
      refine ⟨facts.1, ?_⟩
      cases main with
      | waiting i => exact fun _ => nofun
      | _ => exact facts.2
  have ⟨_, least, _⟩ := session_joined nonempty reached (Or.inr returned)
  rw [none.1, Nat.zero_mul, loopLimit] at least
  omega

end Returns

/-- `aio_write_test` can return after this many writes were refused exactly when the batches are of
several writes, as many as an `int` counts, and overshoot the iterations by no fewer. In particular
it never returns after a refused write where the batch size divides the iterations. -/
theorem returns_with_refused_iff (blocks : Blocks) (cfg : Config) (old : List UInt8)
    (nonempty : 0 < cfg.iterations) (refused : Nat) :
    (∃ s, (sessionSystem blocks cfg old).Reachable System.always s ∧
        s.threads.main = .returned ∧ s.refused = refused) ↔
      1 < cfg.maxAios ∧ cfg.maxAios < 2 ^ 31 ∧ refused + cfg.iterations ≤ wholeBatches cfg := by
  constructor
  · rintro ⟨s, reached, returned, rfl⟩
    have ⟨narrow, _, _⟩ := session_joined nonempty reached (Or.inr returned)
    have ⟨_, _, fits⟩ := session_returned nonempty reached returned
    exact ⟨session_returned_several nonempty reached returned, narrow, fits⟩
  · rintro ⟨several, narrow, fits⟩
    exact return_with_refused nonempty several narrow fits

/-- With one iteration in batches of two, one write may be refused, and not two. -/
theorem returns_with_refused_iff_short :
    (∃ s, (sessionSystem oneBlock shortConfig []).Reachable System.always s ∧
        s.threads.main = .returned ∧ s.refused = 1) ∧
      ¬ ∃ s, (sessionSystem oneBlock shortConfig []).Reachable System.always s ∧
        s.threads.main = .returned ∧ s.refused = 2 := by
  constructor
  · exact (returns_with_refused_iff oneBlock shortConfig [] (by decide) 1).mpr (by decide)
  · exact mt (returns_with_refused_iff oneBlock shortConfig [] (by decide) 2).mp (by decide)

end PerfVerif.Aio
