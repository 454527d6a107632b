import CompliantContact.Proofs.Simulation.Shared
import CompliantContact.Proofs.Simulation.Sized

/-!
Values of one's own.

In a context that a simulator vouches for, and so in one that only it has used, all values that it finds
up to date are those that it would work out with nothing known: they are worked out from one another,
and actuation that is not read from the stages is always the same vector. So the condition under which a
simulator answers as in a new context of its own is met there (`Simulator.Vouches.findsOwn`). It is met
as well after a session of the simulator alone, with sources of actuation that do not look at which stage
an algebraic loop was noticed (`Simulator.findsOwn_perform`).
-/

namespace CompliantContact

open Outcome

variable {α : Type}

/-! ### Actuation without a source -/

/-- The actuation is no source: there is none, or it is fixed. -/
def Actuation.Sourceless {α : Type} (a : Actuation α) : Prop := ∀ source, a ≠ .source source

theorem Actuation.Sourceless.blind {a : Actuation α} (h : a.Sourceless) : a.Blind := fun source hsource =>
  absurd hsource (h source)

variable [Scalar α]

namespace Direct

variable {s : Simulator α} {c : Setting α}

/-- Without a source of actuation it does not matter who asks. -/
theorem free_eq_of_sourceless (hactuation : c.actuation.Sourceless) (held : Held α) (a b : Asker) :
    free s c held a = free s c held b := by
  rw [free, free, workFree, workFree]
  unfold actuation
  cases hc : c.actuation with
  | none => rfl
  | fixed tau => rfl
  | source source => exact absurd hc (hactuation source)

/-- In a setting of matching sizes it is one vector. -/
theorem exists_actuation (hsized : c.Sized) (hactuation : c.actuation.Sourceless) :
    ∃ tau, (∀ answer, actuation c answer = .ok tau) ∧ ∀ known tau', c.Supplies known tau' → tau' = tau := by
  unfold actuation Setting.Supplies
  cases hc : c.actuation with
  | none => exact ⟨_, fun _ => rfl, fun _ _ htau => htau⟩
  | fixed tau =>
    have hsize : c.state.numVelocities = tau.size := (hsized.fixed tau hc).symm
    exact ⟨tau, fun _ => bind_eq_ok_iff.mpr ⟨(), requireSize_eq_ok_iff.mpr hsize, rfl⟩, fun _ _ htau => htau⟩
  | source source => exact absurd hc (hactuation source)

end Direct

/-! ### Known values -/

namespace Held.WorkedBy

variable {s : Simulator α} {c : Setting α} {known : Held α} (h : known.WorkedBy s c)
    (hvalid : s.validate c = .ok ())
include h hvalid

theorem direct_kinematics {k : PositionKinematics α}
    (hk : known .positionKinematics = some (.positionKinematics k)) :
    Direct.kinematics s c (fun _ => none) = .ok k := by
  cases h _ _ hk with
  | positionKinematics hkinematics => exact Direct.stage_eq_ok_iff.mpr ⟨hvalid, hkinematics⟩

theorem direct_pairs {ps : List (ContactPair α)} (hpairs : known .contactPairs = some (.contactPairs ps)) :
    Direct.pairs s c (fun _ => none) = .ok ps := by
  cases h _ _ hpairs with
  | contactPairs hk hworked =>
    exact Direct.stage_eq_ok_iff.mpr ⟨hvalid, bind_eq_ok_iff.mpr ⟨_, h.direct_kinematics hvalid hk, hworked⟩⟩

theorem direct_contacts {ks : List (ContactKinematics α)}
    (hcontacts : known .contactKinematics = some (.contactKinematics ks)) :
    Direct.contacts s c (fun _ => none) = .ok ks := by
  cases h _ _ hcontacts with
  | contactKinematics hk hpairs hworked =>
    exact Direct.stage_eq_ok_iff.mpr ⟨hvalid, bind_eq_ok_iff.mpr ⟨_, h.direct_kinematics hvalid hk,
      bind_eq_ok_iff.mpr ⟨_, h.direct_pairs hvalid hpairs, hworked⟩⟩⟩

variable (hsized : c.Sized) (hactuation : c.actuation.Sourceless)
include hsized hactuation

theorem direct_free {a : FreeAccelerations α}
    (ha : known .freeAccelerations = some (.freeAccelerations a)) (asker : Asker) :
    Direct.free s c (fun _ => none) asker = .ok a := by
  cases h _ _ ha with
  | @freeAccelerations k tau _ hk htau hworked =>
    refine Direct.stage_eq_ok_iff.mpr ⟨hvalid, bind_eq_ok_iff.mpr ⟨_, h.direct_kinematics hvalid hk,
      bind_eq_ok_iff.mpr ⟨tau, ?_, hworked⟩⟩⟩
    obtain ⟨tau', hgiven, honly⟩ := Direct.exists_actuation hsized hactuation
    rw [hgiven, honly _ _ htau]

theorem direct_problem {p : AssembledProblem α} (hp : known .problem = some (.problem p)) (asker : Asker) :
    Direct.problem s c (fun _ => none) asker = .ok p := by
  cases h _ _ hp with
  | problem hk hdynamics ha hpairs hcontacts hworked =>
    have hlinear : Direct.linearDynamics s c (fun _ => none) = .ok _ :=
      bind_eq_ok_iff.mpr ⟨_, h.direct_kinematics hvalid hk, hdynamics⟩
    refine Direct.stage_eq_ok_iff.mpr ⟨hvalid, ?_⟩
    rw [Direct.workProblem, hlinear, h.direct_free hvalid hsized hactuation ha, h.direct_pairs hvalid hpairs,
      h.direct_contacts hvalid hcontacts]
    exact hworked

/-- Without a source of actuation these are the values that the simulator works out when nothing is known. -/
theorem own : Held.Own s c known := by
  intro stage x hx
  cases h _ _ hx with
  | positionKinematics _ => exact bind_eq_ok_iff.mpr ⟨_, h.direct_kinematics hvalid hx, rfl⟩
  | contactPairs _ _ => exact bind_eq_ok_iff.mpr ⟨_, h.direct_pairs hvalid hx, rfl⟩
  | contactKinematics _ _ _ => exact bind_eq_ok_iff.mpr ⟨_, h.direct_contacts hvalid hx, rfl⟩
  | freeAccelerations _ _ _ =>
    exact bind_eq_ok_iff.mpr ⟨_, h.direct_free hvalid hsized hactuation hx .client, rfl⟩
  | problem _ _ _ _ _ _ =>
    exact bind_eq_ok_iff.mpr ⟨_, h.direct_problem hvalid hsized hactuation hx .client, rfl⟩
  | results hp hworked =>
    refine bind_eq_ok_iff.mpr ⟨_,
      Direct.stage_eq_ok_iff.mpr ⟨hvalid, bind_eq_ok_iff.mpr ⟨_, ?_, hworked⟩⟩, rfl⟩
    exact h.direct_problem hvalid hsized hactuation hp .results

end Held.WorkedBy

namespace Simulator

variable {s : Simulator α} {c : Context α}

/-- In a context that the simulator vouches for, it finds its own values. -/
theorem Vouches.findsOwn (h : s.Vouches c) (hc : c.Reachable) (hvalid : s.validate c.toSetting = .ok ())
    (hactuation : c.actuation.Sourceless) : s.FindsOwn c := by
  intro stage x hx
  rw [ask_ownContext hvalid hactuation.blind, Direct.ask,
    Held.WorkedBy.own h hvalid hc.sized hactuation stage x hx]
  rfl

theorem Owns.findsOwn (h : s.Owns c) (hvalid : s.validate c.toSetting = .ok ())
    (hactuation : c.actuation.Sourceless) :
    s.FindsOwn c := (h.vouches hvalid).findsOwn h.reachable hvalid hactuation

theorem reachable_perform (h : c.Reachable) (ops : List (Operation α)) : (s.perform c ops).Reachable := by
  induction ops generalizing c with
  | nil => exact h
  | cons op ops ih => exact ih (.performed s op h)

/-- After a session on a new context, with sources that do not look at which stage an algebraic loop was
    noticed, the simulator finds its own values. -/
theorem findsOwn_perform (s : Simulator α) (ops : List (Operation α)) (hops : ∀ op ∈ ops, op.Blind)
    (hvalid : s.validate (s.perform s.defaultContext ops).toSetting = .ok ()) :
    s.FindsOwn (s.perform s.defaultContext ops) := by
  obtain ⟨_, blind, hagrees⟩ := (Agrees.defaultContext s).performAll nofun ops hops
  obtain rfl := hagrees.toSetting
  have hc : (s.perform s.defaultContext ops).Reachable := reachable_perform (.created s) ops
  intro stage x hx
  -- One reply, with the value held and with nothing held.
  have hheld := ((hc.resting.agrees s).perform blind (.ask (.stage stage))).1
  have hdirect := (hagrees.perform blind (.ask (.stage stage))).1
  have hserved : Direct.ask s (s.perform s.defaultContext ops).toSetting
      ((s.perform s.defaultContext ops).current (s.perform s.defaultContext ops).cache) (.stage stage) =
        .ok (.value x) := by
    rw [Direct.ask, any_of_held hvalid hx (hc.kinded.current hx)]
    rfl
  rw [ask_ownContext hvalid blind]
  exact hdirect.symm.trans (hheld.trans hserved)

theorem FindsOwn.own (h : s.FindsOwn c) (hvalid : s.validate c.toSetting = .ok ())
    (blind : c.actuation.Blind) :
    Held.Own s c.toSetting (c.current c.cache) := by
  intro stage x hx
  have hanswer := h stage x hx
  rw [ask_ownContext hvalid blind, Direct.ask] at hanswer
  obtain ⟨y, hy, hanswer⟩ := bind_eq_ok_iff.mp hanswer
  cases hanswer
  exact hy

section
variable (h : s.FindsOwn c) (hc : c.Reachable) (hvalid : s.validate c.toSetting = .ok ())
    (blind : c.actuation.Blind)
include h hc hvalid blind

/-- Where a simulator finds its own values, it has the results that it would work out with nothing known. -/
theorem FindsOwn.run_results :
    (c.run (s.evalResults c.toSetting)).1 = Direct.results s c.toSetting fun _ => none := by
  rw [← Direct.results_eq_of_own (h.own hvalid blind) blind]
  exact (gives_results blind _ (hc.resting.agrees s).faithful).1

theorem FindsOwn.run_reports :
    (c.run (s.evalContactReports c.toSetting)).1 = Direct.reports s c.toSetting fun _ => none := by
  rw [← Direct.reports_eq_of_own (h.own hvalid blind) blind]
  exact (gives_reports blind _ (hc.resting.agrees s).faithful).1

end

end Simulator

end CompliantContact
