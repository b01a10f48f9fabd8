import AetherRl.EpisodeRunnerSound
import AetherRl.RepoAttempts
/-!
# LeaseEndpoint — lease calls and the episodes they start

The lease endpoint of `coordinator/api.py`, one step for each stretch of a call between two suspension points, with the
repository it asks and the runner it starts episodes at.  A stored disposition answers every replay of its request,
whatever has become of the lease; the runner knows a lease by its task, and the task goes when the episode has ended.
-/
namespace Aether

/-- A lease call between two steps of it. -/
inductive LeaseCall
  /-- its request waits for work -/
  | pending (request : LeaseRequest)
  /-- the provider has offered a lease, which is to be associated -/
  | offered (request : LeaseRequest) (lease : AssignmentLease)
  /-- a lease answers the request, and its episode is to be started -/
  | answered (lease : AssignmentLease)

/-- The lease whose episode a call is to start. -/
def LeaseCall.answer? : LeaseCall → Option AssignmentLease
  | .answered lease => some lease
  | _ => none

structure Coordinator where
  world : World
  runner : CentralEpisodeRunner
  calls : List LeaseCall

namespace Coordinator

def new (slots bodyLimitBytes : Nat) : Coordinator := ⟨World.fresh, .new slots bodyLimitBytes, []⟩

/-- `service.call`: one call at the repository at a time. -/
def ask {α : Type} (m : Method α) (w : World) : Except Error α × World := m { w with crashAfter := none, torn := 0 }

inductive Event
  /-- a lease call begins: `validate_lease_request` -/
  | validate (request : LeaseRequest)
  /-- `try_lease` of the provider, for a call that waits -/
  | provide (i : Nat) (duration : Time) (draws : Repo.Draws) (artifacts : Repo.Artifacts)
  /-- `associate_offered_lease` -/
  | associate (i : Nat)
  /-- `start_episode`, and the call answers -/
  | start (i : Nat)
  /-- a call ends without a lease, or its client is gone -/
  | drop (i : Nat)
  /-- the repository is asked what the task of an episode waits for -/
  | report (k : Nat) (temporary : String)
  /-- every other call at the repository, with the renewals and expiries it makes -/
  | store (call : Call)
  /-- a step of the runner, with the renewals and stops it is told of -/
  | runner (e : CentralEpisodeRunner.Event)

def validate (env : Env) (c : Coordinator) (request : LeaseRequest) : Coordinator :=
  let r := ask (Repo.validateLeaseRequest env request) c.world
  let c := { c with world := r.2 }
  match r.1 with
  | .ok ⟨.leased, some lease⟩ => { c with calls := c.calls ++ [.answered lease] }
  | .ok ⟨.pending, _⟩ => { c with calls := c.calls ++ [.pending request] }
  | _ => c

def provide (env : Env) (c : Coordinator) (i : Nat) (request : LeaseRequest) (duration : Time) (draws : Repo.Draws)
    (artifacts : Repo.Artifacts) : Coordinator :=
  let r := ask (Repo.leaseOrCreateNextCompatible env request duration draws artifacts) c.world
  let c := { c with world := r.2 }
  match r.1 with
  | .ok (some lease) => { c with calls := c.calls.set i (.offered request lease) }
  | .ok none => c
  | .error _ => { c with calls := c.calls.eraseIdx i }

def associate (env : Env) (c : Coordinator) (i : Nat) (request : LeaseRequest) (lease : AssignmentLease) : Coordinator :=
  let r := ask (Repo.associateOfferedLease env request lease) c.world
  let c := { c with world := r.2 }
  match r.1 with
  | .ok ⟨_, some lease⟩ => { c with calls := c.calls.set i (.answered lease) }
  | _ => { c with calls := c.calls.eraseIdx i }

/-- What a runner does besides starting an episode. -/
def proceeds : CentralEpisodeRunner.Event → Bool
  | .start _ => false
  | _ => true

def next (env : Env) (c : Coordinator) : Event → Option Coordinator
  | .validate request => some (c.validate env request)
  | .provide i duration draws artifacts => match c.calls[i]? with
    | some (.pending request) => some (c.provide env i request duration draws artifacts)
    | _ => none
  | .associate i => match c.calls[i]? with
    | some (.offered request lease) => some (c.associate env i request lease)
    | _ => none
  | .start i => ((c.calls[i]?).bind LeaseCall.answer?).map fun lease =>
    { c with runner := (c.runner.start lease).toOption.getD c.runner, calls := c.calls.eraseIdx i }
  | .drop i => some { c with calls := c.calls.eraseIdx i }
  | .report k temporary => match (c.runner.episodes[k]?).map Episodes.Episode.stage with
    | some (.accepting envelope) => some { c with world := (ask (Repo.acceptResult env envelope temporary) c.world).2 }
    | some (.failing failure) => some { c with world := (ask (Repo.acceptFailure env failure) c.world).2 }
    | _ => none
  | .store call => some { c with world := (ask (perform env call) c.world).2 }
  | .runner e => if proceeds e then (c.runner.next env.codec e).map fun r => { c with runner := r } else none

/-! ## One execution of a lease -/

/-- `_execute` has run once at most for every lease. -/
def ExecutesOnce (r : CentralEpisodeRunner) : Prop :=
  ∀ (i j : Nat) (d e : Episodes.Episode), r.episodes[i]? = some d → r.episodes[j]? = some e → d.entered = true →
    e.entered = true → d.lease.leaseId = e.lease.leaseId → i = j

/-- No episode is started for a lease whose episode has run and is gone. -/
def Unexecuted (c : Coordinator) : Event → Prop
  | .start i => ∀ lease ∈ (c.calls[i]?).bind LeaseCall.answer?, ∀ e ∈ c.runner.episodes,
      e.lease.leaseId = lease.leaseId → e.entered = true → e.stage.isPopped = false
  | _ => True

instance (c : Coordinator) : ∀ e, Decidable (Unexecuted c e)
  | .start i => inferInstanceAs (Decidable (∀ lease ∈ (c.calls[i]?).bind LeaseCall.answer?, ∀ e ∈ c.runner.episodes,
      e.lease.leaseId = lease.leaseId → e.entered = true → e.stage.isPopped = false))
  | .validate _ | .provide _ _ _ _ | .associate _ | .drop _ | .report _ _ | .store _ | .runner _ => isTrue trivial

/-! ## Episodes of one lease -/

section
variable {codec : Codec} {slots : Nat} {r r' : CentralEpisodeRunner}

/-- The same number of episodes, with the leases they have, and those whose callback has run as they were. -/
structure Carries (r r' : CentralEpisodeRunner) : Prop where
  length : r'.episodes.length = r.episodes.length
  episodes : ∀ (k : Nat) e, r.episodes[k]? = some e → ∃ e', r'.episodes[k]? = some e' ∧ e'.lease = e.lease ∧
    (e.stage.isPopped = true → e'.stage.isPopped = true ∧ e'.entered = e.entered)

theorem carries_of_episodes (h : r'.episodes = r.episodes) : Carries r r' :=
  ⟨congrArg List.length h, fun _ e he => ⟨e, h ▸ he, rfl, fun hp => ⟨hp, rfl⟩⟩⟩

theorem carries_of_turn {k : Nat} {e e' : Episodes.Episode} (h : CentralEpisodeRunner.Turn codec r k e e' r') :
    Carries r r' := by
  refine ⟨by rw [h.episodes, List.length_set], fun j d hd => ?_⟩
  rw [h.episodes]
  by_cases hj : k = j
  · subst hj
    cases h.episode.symm.trans hd
    refine ⟨e', List.getElem?_set_self (List.getElem?_eq_some_iff.1 hd).1, h.lease, fun hp => ?_⟩
    rw [h.listed] at hp
    cases hp
  · exact ⟨d, by rw [List.getElem?_set_ne hj, hd], rfl, fun hp => ⟨hp, rfl⟩⟩

theorem carries_of_cancels (h : CentralEpisodeRunner.Cancels r r') : Carries r r' := by
  refine ⟨h.length, fun k e he => ?_⟩
  obtain ⟨b, hb, -⟩ := h.episodes k e he
  exact ⟨_, hb, rfl, fun hp => ⟨hp, rfl⟩⟩

/-- **Only a start makes an episode.** -/
theorem carries_of_next {ev : CentralEpisodeRunner.Event} (h : CentralEpisodeRunner.Sound codec slots r)
    (hp : proceeds ev = true) (hn : r.next codec ev = some r') : Carries r r' := by
  have htask : ∀ ev : CentralEpisodeRunner.Event,
      (ev.task?.bind fun k => (r.episodes[k]?).bind fun e => r.taskStep codec k e ev) = some r' → Carries r r' := by
    intro ev hn
    obtain ⟨_, _, _, ht⟩ := CentralEpisodeRunner.turn_of_task h hn
    exact carries_of_turn ht
  cases ev with
  | start lease => cases hp
  | renew l t =>
    cases hn
    unfold CentralEpisodeRunner.renew
    split
    · exact carries_of_episodes rfl
    · exact carries_of_episodes rfl
  | cancel l =>
    cases hn
    exact carries_of_cancels (CentralEpisodeRunner.cancel_sound h l).2.1
  | watch now =>
    cases hn
    exact carries_of_cancels (CentralEpisodeRunner.foldl_cancel _ h).2.1
  | broker e =>
    simp only [CentralEpisodeRunner.next] at hn
    split at hn
    · obtain ⟨b, -, rfl⟩ := Option.map_eq_some_iff.1 hn
      exact carries_of_episodes rfl
    · cases hn
  | begin k letIn => exact htask (.begin k letIn) hn
  | letIn k => exact htask (.letIn k) hn
  | environment k ending failedAt => exact htask (.environment k ending failedAt) hn
  | accepted k raised failedAt => exact htask (.accepted k raised failedAt) hn
  | failed k => exact htask (.failed k) hn
  | interrupt k => exact htask (.interrupt k) hn
  | callback k => exact htask (.callback k) hn

/-- An episode of a lease that has a later one is gone, and no line of `_execute` has run for it. -/
def Superseded (r : CentralEpisodeRunner) : Prop :=
  ∀ (i j : Nat) (d e : Episodes.Episode), i < j → r.episodes[i]? = some d → r.episodes[j]? = some e →
    d.lease.leaseId = e.lease.leaseId → d.stage.isPopped = true ∧ d.entered = false

theorem Superseded.executesOnce (h : Superseded r) : ExecutesOnce r := by
  have hlt : ∀ (i j : Nat) (d e : Episodes.Episode), i < j → r.episodes[i]? = some d → r.episodes[j]? = some e →
      d.entered = true → d.lease.leaseId = e.lease.leaseId → False := by
    intro i j d e hij hd he hdn hl
    rw [(h i j d e hij hd he hl).2] at hdn
    cases hdn
  intro i j d e hd he hdn hen hl
  rcases Nat.lt_trichotomy i j with hij | hij | hij
  · exact (hlt i j d e hij hd he hdn hl).elim
  · exact hij
  · exact (hlt j i e d hij he hd hen hl.symm).elim

theorem Carries.before (hc : Carries r r') {k : Nat} {e' : Episodes.Episode} (he' : r'.episodes[k]? = some e') :
    ∃ e, r.episodes[k]? = some e ∧ e'.lease = e.lease ∧
      (e.stage.isPopped = true → e'.stage.isPopped = true ∧ e'.entered = e.entered) := by
  have hlt : k < r.episodes.length := hc.length ▸ (List.getElem?_eq_some_iff.1 he').1
  obtain ⟨x, hx, hcarried⟩ := hc.episodes k _ (List.getElem?_eq_getElem hlt)
  cases hx.symm.trans he'
  exact ⟨_, List.getElem?_eq_getElem hlt, hcarried⟩

theorem Carries.superseded (hc : Carries r r') (h : Superseded r) : Superseded r' := by
  intro i j d' e' hij hd' he' hl
  obtain ⟨d, hd, hdl, hkept⟩ := hc.before hd'
  obtain ⟨e, he, hel, -⟩ := hc.before he'
  rw [hdl, hel] at hl
  obtain ⟨hpop, hent⟩ := h i j d e hij hd he hl
  obtain ⟨hpop', hent'⟩ := hkept hpop
  exact ⟨hpop', hent'.trans hent⟩

/-- **A start that supersedes no execution** leaves none superseded. -/
theorem start_superseded (hs : CentralEpisodeRunner.Sound codec slots r) (h : Superseded r) (lease : AssignmentLease)
    (hgone : ∀ e ∈ r.episodes, e.lease.leaseId = lease.leaseId → e.entered = true → e.stage.isPopped = false) :
    Superseded ((r.start lease).toOption.getD r) := by
  rcases hs.start lease with ⟨-, hsame⟩ | ⟨hnone, _, -, hnew⟩
  · rw [hsame]
    exact h
  · rw [hnew]
    intro i j d e hij hd he hl
    change (r.episodes ++ [_])[i]? = some d at hd
    change (r.episodes ++ [_])[j]? = some e at he
    have hj : j < r.episodes.length + 1 := by
      have := (List.getElem?_eq_some_iff.1 he).1
      rwa [List.length_append] at this
    have hi : i < r.episodes.length := by omega
    rw [List.getElem?_append_left hi] at hd
    rcases Nat.lt_or_eq_of_le (Nat.lt_succ_iff.1 hj) with hlt | rfl
    · rw [List.getElem?_append_left hlt] at he
      exact h i j d e hij hd he hl
    · rw [List.getElem?_concat_length, Option.some.injEq] at he
      subst he
      have hpop : d.stage.isPopped = true := by
        by_contra hp
        have hlisted := hs.listed i d hd (Bool.eq_false_iff.2 hp)
        rw [show d.lease.leaseId = lease.leaseId from hl, hnone] at hlisted
        cases hlisted
      refine ⟨hpop, Bool.eq_false_iff.2 fun hent => ?_⟩
      rw [hgone d (List.mem_of_getElem? hd) hl hent] at hpop
      cases hpop

/-- The first step of a task that the gate does not let in. -/
theorem begin_created {k : Nat} {e : Episodes.Episode} (hk : r.episodes[k]? = some e) (hs : e.stage = .created)
    (hc : e.cancelled = false) :
    r.next codec (.begin k false) = some (r.set k { e with stage := .waiting, entered := true }) := by
  obtain ⟨lease, exchange, stage, cancelled, reports, entered⟩ := e
  subst hs
  subst hc
  simp only [CentralEpisodeRunner.next, CentralEpisodeRunner.Event.task?, Option.bind_some, hk,
    CentralEpisodeRunner.taskStep, Bool.false_eq_true, if_false]

/-- **A lease whose episode has run and is gone is started again**, and the new episode's first step executes it. -/
theorem start_again (hs : CentralEpisodeRunner.Sound codec slots r) (h : Superseded r) {lease : AssignmentLease}
    {e : Episodes.Episode} (he : e ∈ r.episodes) (hl : e.lease.leaseId = lease.leaseId) (hent : e.entered = true)
    (hpop : e.stage.isPopped = true) :
    ∃ r'', ((r.start lease).toOption.getD r).next codec (.begin r.episodes.length false) = some r'' ∧
      ¬ ExecutesOnce r'' := by
  obtain ⟨i, hi⟩ := List.mem_iff_getElem?.1 he
  have hilt : i < r.episodes.length := (List.getElem?_eq_some_iff.1 hi).1
  rcases hs.start lease with ⟨hsome, -⟩ | ⟨-, _, -, hnew⟩
  · -- the task found would be another episode of the lease, before or behind this one
    exfalso
    obtain ⟨k, hk⟩ := Option.isSome_iff_exists.1 hsome
    obtain ⟨d, hd, hdl, hdp⟩ := hs.tasks _ _ hk
    rcases Nat.lt_trichotomy i k with hik | rfl | hik
    · rw [(h i k e d hik hi hd (hl.trans hdl.symm)).2] at hent
      cases hent
    · cases hi.symm.trans hd
      rw [hdp] at hpop
      cases hpop
    · rw [(h k i d e hik hd hi (hdl.trans hl.symm)).1] at hdp
      cases hdp
  · rw [hnew, Except.toOption, Option.getD_some]
    have hlast : ∀ new : Episodes.Episode, (r.episodes ++ [new])[r.episodes.length]? = some new := fun _ =>
      List.getElem?_concat_length
    refine ⟨_, begin_created (hlast _) rfl rfl, fun honce => ?_⟩
    have hlt : ∀ new : Episodes.Episode, r.episodes.length < (r.episodes ++ [new]).length := fun new => by
      rw [List.length_append]
      exact Nat.lt_succ_self _
    refine hilt.ne (honce i r.episodes.length e _ ?_ (List.getElem?_set_self (hlt _)) hent rfl hl)
    exact (List.getElem?_set_ne hilt.ne').trans ((List.getElem?_append_left hilt).trans hi)

end

/-! ## Runs -/

section
variable {env : Env} {slots : Nat} {c c' : Coordinator}

/-- **What a step of the coordinator is to its runner**: a start, a step of its own, or nothing. -/
theorem runner_of_next {e : Event} (h : c.next env e = some c') :
    (∃ i lease, e = .start i ∧ lease ∈ (c.calls[i]?).bind LeaseCall.answer? ∧
      c'.runner = (c.runner.start lease).toOption.getD c.runner) ∨
    c'.runner = c.runner ∨ ∃ ev, proceeds ev = true ∧ c.runner.next env.codec ev = some c'.runner := by
  cases e with
  | validate request =>
    cases h
    refine .inr (.inl ?_)
    unfold validate
    dsimp only
    split <;> rfl
  | provide i duration draws artifacts =>
    simp only [next] at h
    split at h <;> cases h
    refine .inr (.inl ?_)
    unfold provide
    dsimp only
    split <;> rfl
  | associate i =>
    simp only [next] at h
    split at h <;> cases h
    refine .inr (.inl ?_)
    unfold associate
    dsimp only
    split <;> rfl
  | start i =>
    obtain ⟨lease, hl, rfl⟩ := Option.map_eq_some_iff.1 h
    exact .inl ⟨i, lease, rfl, hl, rfl⟩
  | drop i =>
    cases h
    exact .inr (.inl rfl)
  | report k temporary =>
    simp only [next] at h
    split at h <;> cases h
    · exact .inr (.inl rfl)
    · exact .inr (.inl rfl)
  | store call =>
    cases h
    exact .inr (.inl rfl)
  | runner ev =>
    simp only [next] at h
    split at h
    · rename_i hp
      obtain ⟨r, hr, rfl⟩ := Option.map_eq_some_iff.1 h
      exact .inr (.inr ⟨ev, hp, hr⟩)
    · cases h

/-- What holds where no execution was superseded. -/
def Kept (env : Env) (slots : Nat) (c : Coordinator) : Prop :=
  CentralEpisodeRunner.Sound env.codec slots c.runner ∧ Superseded c.runner

theorem new_kept (env : Env) (slots limit : Nat) : Kept env slots (new slots limit) := by
  refine ⟨CentralEpisodeRunner.new_sound _ _ _, fun i j d e _ hd => ?_⟩
  cases hd

/-- **A step that starts nothing executed before** supersedes no execution. -/
theorem next_kept {e : Event} (h : Kept env slots c) (hp : Unexecuted c e) (hn : c.next env e = some c') :
    Kept env slots c' := by
  obtain ⟨hs, hsup⟩ := h
  rcases runner_of_next hn with ⟨i, lease, rfl, hl, hr⟩ | hr | ⟨ev, hev, hr⟩
  · have hstart : c.runner.next env.codec (.start lease) = some ((c.runner.start lease).toOption.getD c.runner) := rfl
    rw [Kept, hr]
    exact ⟨CentralEpisodeRunner.next_sound hs hstart, start_superseded hs hsup lease (hp lease hl)⟩
  · rw [Kept, hr]
    exact ⟨hs, hsup⟩
  · exact ⟨CentralEpisodeRunner.next_sound hs hr, (carries_of_next hs hev hr).superseded hsup⟩

end

/-- **A lease is executed once exactly in the runs that start none again whose episode has run and is gone**: in every
state that such a run passes through `_execute` has run once at most for each lease; and a run that makes such a start
needs no more than the new task's first step to have run it twice. -/
theorem executes_once_iff (env : Env) (slots limit : Nat) {events : List Event} {c : Coordinator}
    (hrun : Machine.run (next env) (new slots limit) events = some c) :
    (Machine.Meets (next env) Unexecuted (new slots limit) events → ∀ before, before <+: events → ∀ u,
      Machine.run (next env) (new slots limit) before = some u → ExecutesOnce u.runner) ∧
    (¬ Machine.Meets (next env) Unexecuted (new slots limit) events → ∃ before i k u,
      before ++ [.start i] <+: events ∧ Machine.run (next env) (new slots limit)
        (before ++ [.start i, .runner (.begin k false)]) = some u ∧ ¬ ExecutesOnce u.runner) := by
  have hkept : ∀ fs u, Machine.Meets (next env) Unexecuted (new slots limit) fs →
      Machine.run (next env) (new slots limit) fs = some u → Kept env slots u := fun fs u hm hu =>
    Machine.run_keeps (fun _ _ _ h hp hn => next_kept h hp hn) fs _ (new_kept env slots limit) hm u hu
  constructor
  · rintro hm before ⟨rest, rfl⟩ u hu
    exact (hkept before u (Machine.meets_of_append hm) hu).2.executesOnce
  · intro hm
    obtain ⟨before, e, rest, u, rfl, hbefore, hu, hnot⟩ := Machine.first_unmet events _ c hrun hm
    obtain ⟨hs, hsup⟩ := hkept before u hbefore hu
    cases e with
    | start i =>
      simp only [Unexecuted, not_forall] at hnot
      obtain ⟨lease, hlease, e, he, hl, hent, hpop⟩ := hnot
      obtain ⟨r, hr, htwice⟩ := start_again hs hsup he hl hent (Bool.eq_true_of_not_eq_false hpop)
      let started : Coordinator :=
        { u with runner := (u.runner.start lease).toOption.getD u.runner, calls := u.calls.eraseIdx i }
      have hstart : u.next env (.start i) = some started := by
        rw [next, Option.mem_def.1 hlease]
        rfl
      have hbegin : started.next env (.runner (.begin u.runner.episodes.length false)) =
          some { started with runner := r } := by
        have hproceeds : proceeds (.begin u.runner.episodes.length false) = true := rfl
        rw [next, if_pos hproceeds, hr]
        rfl
      refine ⟨before, i, u.runner.episodes.length, { started with runner := r },
        ⟨rest, by rw [List.append_assoc]; rfl⟩, ?_, htwice⟩
      rw [Machine.run_append, hu, Option.bind_some, Machine.run, hstart, Option.bind_some, Machine.run, hbegin]
      rfl
    | validate | provide | associate | drop | report | store | runner => exact absurd trivial hnot

namespace Sample

open Aether.Sample

/-- A request is answered with a lease, and its episode is begun. -/
def begun : List Event :=
  [.store (.initializeRun policy), .store (.configureScheduler 1 0), .store (.registerWorker worker),
    .store (.registerSchedulerSource source), .validate request, .provide 0 60 draws (fun _ => true), .associate 0,
    .start 0, .runner (.begin 0 true)]

/-- The episode ends, and its result is accepted. -/
def finished : List Event :=
  begun ++ [.runner (.environment 0 (.returned 20 "episode") 20), .report 0 "temporary", .runner (.accepted 0 none 20),
    .runner (.callback 0)]

/-- The worker sends its request again, and what comes of it is begun. -/
def replay : List Event := [.validate request, .start 0]

end Sample

/-- A request sent again while its episode runs starts nothing. -/
theorem executes_once_begun : ∃ c, Machine.run (next Aether.Sample.env) (new 1 1024) (Sample.begun ++ Sample.replay) =
    some c ∧ c.runner.episodes.map (fun e => (e.lease.leaseId, e.entered)) = [("lease-b", true)] ∧
      ExecutesOnce c.runner := by
  have hmeets : Machine.Meets (next Aether.Sample.env) Unexecuted (new 1 1024) (Sample.begun ++ Sample.replay) := by
    decide +kernel
  have hruns : (Machine.run (next Aether.Sample.env) (new 1 1024) (Sample.begun ++ Sample.replay)).map
      (fun c => c.runner.episodes.map fun e => (e.lease.leaseId, e.entered)) = some [("lease-b", true)] := by
    decide +kernel
  generalize Sample.begun ++ Sample.replay = events at hmeets hruns ⊢
  obtain ⟨c, hrun, hepisodes⟩ := Option.map_eq_some_iff.1 hruns
  exact ⟨c, hrun, hepisodes, (executes_once_iff _ 1 1024 hrun).1 hmeets events List.prefix_rfl c hrun⟩

/-- Sent again when the result is accepted, it starts an episode of the lease that has succeeded. -/
theorem executed_twice : ∃ c, Machine.run (next Aether.Sample.env) (new 1 1024)
    (Sample.finished ++ Sample.replay ++ [.runner (.begin 1 true)]) = some c ∧
      c.world.db.leases.map (fun l => (l.leaseId, l.state)) = [("lease-b", .succeeded)] ∧ ¬ ExecutesOnce c.runner := by
  have hruns : (Machine.run (next Aether.Sample.env) (new 1 1024)
      (Sample.finished ++ Sample.replay ++ [.runner (.begin 1 true)])).map
        (fun c => (c.world.db.leases.map fun l => (l.leaseId, l.state),
          c.runner.episodes.map fun e => (e.lease.leaseId, e.entered))) =
      some ([("lease-b", .succeeded)], [("lease-b", true), ("lease-b", true)]) := by
    decide +kernel
  obtain ⟨c, hrun, hc⟩ := Option.map_eq_some_iff.1 hruns
  obtain ⟨hleases, hepisodes⟩ := Prod.mk.inj hc
  refine ⟨c, hrun, hleases, fun honce => ?_⟩
  obtain ⟨d, ds, hds, hd, hrest⟩ := List.map_eq_cons_iff.1 hepisodes
  obtain ⟨e, es, hes, he, -⟩ := List.map_eq_cons_iff.1 hrest
  obtain ⟨hdl, hdn⟩ := Prod.mk.inj hd
  obtain ⟨hel, hen⟩ := Prod.mk.inj he
  have hzero : c.runner.episodes[0]? = some d := by rw [hds]; rfl
  have hone : c.runner.episodes[1]? = some e := by rw [hds, hes]; rfl
  exact absurd (honce 0 1 d e hzero hone hdn hen (hdl.trans hel.symm)) Nat.zero_ne_one

end Coordinator
end Aether
