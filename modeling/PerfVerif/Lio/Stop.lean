import PerfVerif.Lio.Results

/-!
# How `lio_listio_test` returns

Without `MYSIG_STOP` the main thread waits in `pthread_join` for good. Once it is sent, whatever the
threads are doing and whatever the calls and the writes come to, the call can come to its return; and
before, it cannot. A run of the two threads alone is followed by one of the session.
-/

namespace PerfVerif.Lio

open Transition
open Aio (Blocks)

/-- `MYSIG_STOP` is not sent. -/
def Unsent (_ : Session) : SessionAct → Prop
  | .stop => False
  | _ => True

/-- `MYSIG_STOP` has been sent: it is pending, or has ended `sig_thread`. -/
def Session.Stopped (s : Session) : Prop := 0 < s.stops ∨ s.threads.sig = .exited

section Following

variable {blocks : Blocks} {cfg : Config} {old : List UInt8} {s s' : Session} {t t' : State}

/-- A session with its shadow at the same place and as much of a `MYSIG_STOP` as before. -/
structure Session.Follows (s : Session) (stopped : Prop) (t : State) : Prop where
  main : s.threads.main = t.main
  same : s.threads.beside t = t
  sig : s.threads.sig ≠ .exited → t = s.threads
  stopped : stopped → s.Stopped

/-- A step of the main thread or a call of `lio_listio` is followed. -/
theorem Session.Follows.taken {stopped : Prop} (follows : s.Follows stopped t) {act : Act}
    (frame : step cfg (s.threads.beside t) act =
      (step cfg s.threads act).map fun after => after.beside t)
    (sig : ∀ after, step cfg s.threads act = some after → after.sig = s.threads.sig)
    (taken : step cfg t act = some t') :
    ∃ after, step cfg s.threads act = some after ∧ ∀ s' : Session, s'.threads = after →
      s'.stops = s.stops → s'.Follows stopped t' := by
  have ⟨main, same, running, stays⟩ := follows
  rw [same, taken] at frame
  obtain ⟨after, stepped, rfl⟩ := Option.map_eq_some_iff.mp frame.symm
  refine ⟨after, stepped, ?_⟩
  rintro s' rfl stops
  have kept := sig _ stepped
  refine ⟨rfl, rfl, ?_, ?_⟩
  · intro live
    rw [kept] at live
    have here := running live
    rw [here, stepped] at taken
    rw [here]
    exact (Option.some.inj taken).symm
  · intro sent
    rcases stays sent with pending | exited
    · exact Or.inl (stops ▸ pending)
    · exact Or.inr (kept.trans exited)

/-- A step of the threads short of the return is followed, without another `MYSIG_STOP`. -/
theorem Session.Follows.step {stopped : Prop} (follows : s.Follows stopped t) {act : Act}
    (taken : Lio.step cfg t act = some t') (elsewhere : t'.main ≠ .returned) :
    ∃ s', (sessionSystem blocks cfg old).Leads Unsent s s' ∧ s'.Follows stopped t' := by
  have main := follows.main
  have same := follows.same
  have running := follows.sig
  have stays := follows.stopped
  cases act with
  | main =>
    have waits : s.threads.main ≠ .join := by
      intro joins
      change Lio.mainStep cfg t = some t' at taken
      rw [Lio.mainStep, ← main, joins] at taken
      obtain ⟨_, returned⟩ := Option.ite_none_right_eq_some.mp taken
      exact elsewhere (Option.some.inj returned ▸ rfl)
    obtain ⟨after, stepped, later⟩ := @Session.Follows.taken cfg s t t' stopped follows .main
      (mainStep_beside _ _ waits) (fun _ stepped => (mainStep_elsewhere stepped).1) taken
    refine ⟨_, System.leads_single (.main 0) trivial (congrArg (Option.map _) stepped), ?_⟩
    exact later _ rfl rfl
  | listio result =>
    have sig : ∀ after, Lio.step cfg s.threads (.listio result) = some after →
        after.sig = s.threads.sig := by
      intro after stepped
      obtain ⟨i, _, rfl⟩ := listio_cases stepped
      cases result <;> rfl
    obtain ⟨after, stepped, later⟩ := follows.taken (listio_beside _ _ result) sig taken
    refine ⟨_, System.leads_single (.listio result) trivial (congrArg (Option.map _) stepped), ?_⟩
    exact later _ rfl rfl
  | sig =>
    by_cases exited : s.threads.sig = .exited
    · -- the thread of the shadow goes on alone
      refine ⟨s, .refl, ?_, ?_, fun live => absurd exited live, stays⟩
      · have progress := (sigStep_elsewhere taken).1
        exact main.trans (congrArg Progress.main progress).symm
      · change Lio.sigStep t = some t' at taken
        rw [← same] at taken
        cases sigStep_move taken with
        | take | stop | count => rfl
    · obtain rfl := running exited
      change Lio.sigStep s.threads = some t' at taken
      have busy : ¬ (s.threads.sig = .sigwaitinfo ∧ s.threads.pending = []) := by
        rintro ⟨waiting, queue⟩
        simp [Lio.sigStep, waiting, queue] at taken
      have stepped : s.sigStep = some { s with threads := t' } := by
        rw [Session.sigStep, if_neg busy, taken]
        rfl
      refine ⟨_, System.leads_single .sig trivial stepped, rfl, rfl, fun _ => rfl, ?_⟩
      intro sent
      rcases stays sent with pending | impossible
      · exact Or.inl pending
      · exact absurd impossible exited
  | complete entry =>
    obtain ⟨flying, stored⟩ := Option.ite_none_right_eq_some.mp taken
    obtain rfl := Option.some.inj stored
    have flies : entry ∈ s.threads.inFlight := by
      rw [← same] at flying
      exact flying
    obtain ⟨progress, sig, _⟩ := complete_elsewhere s.threads entry
    have place : (s.threads.complete entry).main = s.threads.main :=
      congrArg Progress.main progress
    have there : (t.complete entry).main = t.main :=
      congrArg Progress.main (complete_elsewhere t entry).1
    refine ⟨_, System.leads_single (.complete entry none) trivial (if_pos ⟨flies, Nat.zero_le _⟩),
      ?_, ?_, ?_, ?_⟩
    · exact (place.trans main).trans there.symm
    · have both : { s.threads.beside t with main := t.main } = t := by
        rw [same]
      have kept := complete_beside s.threads t entry both
      rw [there, ← main, ← place] at kept
      exact kept
    · intro live
      rw [sig] at live
      exact congrArg (State.complete · entry) (running live)
    · intro sent
      rcases stays sent with pending | exited
      · exact Or.inl pending
      · exact Or.inr (sig.trans exited)
  | eintr =>
    obtain ⟨_, kept⟩ := Option.ite_none_right_eq_some.mp taken
    exact ⟨s, .refl, Option.some.inj kept ▸ follows⟩

/-- A run of the threads short of the return is followed, without another `MYSIG_STOP`. -/
theorem Session.Follows.leads {stopped : Prop} (follows : s.Follows stopped t) (ends : cfg.Ends)
    (run : (system cfg).Reachable System.always t) (path : (system cfg).Leads System.always t t') :
    ∃ s', (sessionSystem blocks cfg old).Leads Unsent s s' ∧ s'.Follows stopped t' := by
  induction path with
  | refl => exact ⟨s, .refl, follows⟩
  | tail prior last ih =>
    obtain ⟨middle, first, so⟩ := ih
    obtain ⟨act, _, taken⟩ := last
    have later := (run.leads prior).next trivial taken
    obtain ⟨s', second, follows'⟩ := @Session.Follows.step blocks cfg old _ _ _ stopped so _ taken
      (reachable_unreturned ends later)
    exact ⟨s', first.trans second, follows'⟩

/-- Once `MYSIG_STOP` has been sent, the call can return. -/
theorem return_stopped (ends : cfg.Ends)
    (reached : (sessionSystem blocks cfg old).Reachable System.always s) (stopped : s.Stopped) :
    ∃ s', (sessionSystem blocks cfg old).Leads Unsent s s' ∧ s'.threads.main = .returned := by
  by_cases returned : s.threads.main = .returned
  · exact ⟨s, .refl, returned⟩
  · obtain ⟨t, run, shadow⟩ := reachable_shadow reached
    have main := shadow.main_eq returned
    have follows : s.Follows True t := ⟨main, shadow.beside main, shadow.sig, fun _ => stopped⟩
    obtain ⟨t', careful, joining, calm⟩ := reach_join ends run
    have path := System.leads_mono (fun _ _ _ => trivial) careful
    obtain ⟨s', first, place, _, running, stays⟩ :=
      @Session.Follows.leads blocks cfg old s t t' True follows ends run path
    have joins : s'.threads.main = .join := place.trans joining
    -- from the end of `sig_thread` it is one step to the return
    have returns {s'' : Session} (control : s''.threads.main = .join)
        (exited : s''.threads.sig = .exited) :
        ∃ last, (sessionSystem blocks cfg old).Leads Unsent s'' last ∧
          last.threads.main = .returned := by
      have taken : mainStep cfg s''.threads = some { s''.threads with main := .returned } := by
        simp only [mainStep, control, if_pos exited]
      exact ⟨_, System.leads_single (.main 0) trivial (congrArg (Option.map _) taken), rfl⟩
    by_cases exited : s'.threads.sig = .exited
    · obtain ⟨last, second, final⟩ := returns joins exited
      exact ⟨last, first.trans second, final⟩
    · have pending : 0 < s'.stops := (stays trivial).resolve_right exited
      obtain rfl := running exited
      have stops : (sessionSystem blocks cfg old).Leads Unsent s'
          { s' with threads := { s'.threads with sig := .exited }, stops := s'.stops - 1 } := by
        apply System.leads_single .sig trivial
        change s'.sigStep = _
        rw [Session.sigStep, if_pos ⟨calm.waiting, calm.taken⟩, if_neg (Nat.ne_of_gt pending)]
      obtain ⟨last, second, final⟩ := @returns
        { s' with threads := { s'.threads with sig := .exited }, stops := s'.stops - 1 } joins rfl
      exact ⟨last, (first.trans stops).trans second, final⟩

/-- Nothing but `MYSIG_STOP` ends `sig_thread`. -/
theorem step_unstopped (ends : cfg.Ends)
    (reached : (sessionSystem blocks cfg old).Reachable System.always s) (going : ¬ s.Stopped)
    {act : SessionAct} (unsent : Unsent s act) (stepped : sessionStep blocks cfg s act = some s') :
    ¬ s'.Stopped := by
  have ⟨idle, live⟩ := not_or.mp going
  cases act with
  | main rand =>
    obtain ⟨after, taken, rfl⟩ := Option.map_eq_some_iff.mp stepped
    have ⟨sig, _⟩ := mainStep_elsewhere taken
    exact not_or.mpr ⟨idle, fun exited => live (sig.symm.trans exited)⟩
  | listio result =>
    obtain ⟨after, taken, rfl⟩ := Option.map_eq_some_iff.mp stepped
    obtain ⟨i, _, rfl⟩ := listio_cases taken
    refine not_or.mpr ⟨idle, fun exited => live ?_⟩
    cases result <;> exact exited
  | sig =>
    change s.sigStep = some s' at stepped
    unfold Session.sigStep at stepped
    split at stepped
    · have ⟨pending, _⟩ := Option.ite_none_left_eq_some.mp stepped
      exact absurd (Nat.pos_of_ne_zero pending) idle
    · obtain ⟨after, taken, rfl⟩ := Option.map_eq_some_iff.mp stepped
      obtain ⟨t, run, shadow⟩ := reachable_shadow reached
      obtain rfl := shadow.sig live
      have unstopped := (reachable_signalFacts ends run).unstopped
      refine not_or.mpr ⟨idle, ?_⟩
      cases sigStep_move taken with
      | take | count => exact nofun
      | stop _ queue => exact absurd (queue ▸ List.mem_cons_self) unstopped
  | complete entry wrote =>
    obtain ⟨_, stored⟩ := Option.ite_none_right_eq_some.mp stepped
    obtain rfl := Option.some.inj stored
    have ⟨_, sig, _⟩ := complete_elsewhere s.threads entry
    exact not_or.mpr ⟨idle, fun exited => live (sig.symm.trans exited)⟩
  | eintr =>
    obtain ⟨_, kept⟩ := Option.ite_none_right_eq_some.mp stepped
    exact Option.some.inj kept ▸ going
  | stop => exact unsent.elim

/-- In a run that sends no `MYSIG_STOP`, `sig_thread` goes on. -/
theorem leads_unstopped (ends : cfg.Ends)
    (reached : (sessionSystem blocks cfg old).Reachable System.always s) (going : ¬ s.Stopped)
    (path : (sessionSystem blocks cfg old).Leads Unsent s s') : ¬ s'.Stopped := by
  induction path with
  | refl => exact going
  | tail prior last ih =>
    obtain ⟨act, unsent, stepped⟩ := last
    have middle := reached.leads (System.leads_mono (fun _ _ _ => trivial) prior)
    exact step_unstopped ends middle ih unsent stepped

/-- The main thread returns behind `sig_thread`. -/
theorem returned_exited (reached : (sessionSystem blocks cfg old).Reachable System.always s)
    (returned : s.threads.main = .returned) : s.threads.sig = .exited := by
  by_contra live
  have ends := ends_of_returned reached returned
  obtain ⟨t, run, shadow⟩ := reachable_shadow reached
  obtain rfl := shadow.sig live
  exact reachable_unreturned ends run returned

end Following

/-- From any state of any run, whatever the calls and the writes have come to, `lio_listio_test` can
return without a further `MYSIG_STOP` exactly when one has been sent and its loops end: there is
nothing to write, or an `int` counts a list. -/
theorem returns_iff_stopped (blocks : Blocks) (cfg : Config) (old : List UInt8) (s : Session)
    (reached : (sessionSystem blocks cfg old).Reachable System.always s) :
    (∃ s', (sessionSystem blocks cfg old).Leads Unsent s s' ∧ s'.threads.main = .returned) ↔
      (cfg.iterations = 0 ∨ cfg.aioListioMax < 2 ^ 31) ∧ s.Stopped := by
  constructor
  · rintro ⟨s', path, returned⟩
    have later := reached.leads (System.leads_mono (fun _ _ _ => trivial) path)
    have ends := ends_of_returned later returned
    refine ⟨ends, ?_⟩
    by_contra going
    exact leads_unstopped ends reached going path (Or.inr (returned_exited later returned))
  · rintro ⟨ends, stopped⟩
    exact return_stopped ends reached stopped

/-- A list of two blocks that is submitted: the call cannot return, but it can once `MYSIG_STOP` is
sent. -/
theorem returns_iff_stopped_submitted :
    ∃ s, (sessionSystem twoBlocks pairConfig []).Reachable System.always s ∧
      (¬ ∃ s', (sessionSystem twoBlocks pairConfig []).Leads Unsent s s' ∧
        s'.threads.main = .returned) ∧
      ∃ s', (sessionSystem twoBlocks pairConfig []).Leads Unsent { s with stops := 1 } s' ∧
        s'.threads.main = .returned := by
  have replay : ((sessionSystem twoBlocks pairConfig []).run (.start [])
      [.main 0, .main 0, .main 1, .main 0, .listio .success]).map
      (fun s => (s.stops, s.threads.sig)) = some (0, .sigwaitinfo) := by decide +kernel
  have ⟨s, replayed, shown⟩ := Option.map_eq_some_iff.mp replay
  have ⟨idle, waiting⟩ := Prod.mk.inj shown
  have reached : (sessionSystem twoBlocks pairConfig []).Reachable System.always s :=
    .of_run rfl _ (fun _ _ _ => trivial) replayed
  have stop : (sessionSystem twoBlocks pairConfig []).step s .stop =
      some { s with stops := 1 } := by
    change some { s with stops := s.stops + 1 } = _
    rw [idle]
  refine ⟨s, reached, ?_, ?_⟩
  · rw [returns_iff_stopped twoBlocks pairConfig [] s reached, Session.Stopped, idle, waiting]
    decide
  · exact (returns_iff_stopped twoBlocks pairConfig [] { s with stops := 1 }
      (reached.next trivial stop)).mpr ⟨by decide, Or.inl Nat.one_pos⟩

end PerfVerif.Lio
