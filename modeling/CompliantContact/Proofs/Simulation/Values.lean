import CompliantContact.Proofs.Simulation.Owned

/-!
The values of a step under direct evaluation.

With no stage held, direct evaluation has results if and only if there are values of all stages that
follow from one another, the free accelerations from the actuation that is then supplied. These are the
values that it finds of every stage, whichever stages wait for it.
-/

namespace CompliantContact

open Outcome

variable {α : Type} [Scalar α] {s : Simulator α} {c : Setting α} {y : StepValues α} {tau : Vec α}

/-- Values of the stages of a step under the actuation of a setting. -/
structure StepValues.Worked (y : StepValues α) (s : Simulator α) (c : Setting α) (tau : Vec α) : Prop
    extends y.Follows s c.state where
  valid : s.validate c = .ok ()
  supplied : ∀ asker, Direct.actuation c (Direct.answer s c (fun _ => none) asker) = .ok tau
  accelerated : s.freeAccelerations c.state y.kinematics tau = .ok y.free

namespace Direct

omit [Scalar α] in
theorem stage_eq_ok_iff {β : Type} {stage : Stage} {ofValue? : StageValue α → Option β}
    {work : Outcome α β} {x : β} :
    Direct.stage s c (fun _ => none) stage ofValue? work = .ok x ↔ s.validate c = .ok () ∧ work = .ok x := by
  rw [Direct.stage, bind_eq_ok_iff]
  exact ⟨fun ⟨_, hvalid, hwork⟩ => ⟨hvalid, hwork⟩, fun ⟨hvalid, hwork⟩ => ⟨(), hvalid, hwork⟩⟩

end Direct

/-! ### Stages without actuation -/

namespace StepValues.Follows

variable (h : y.Follows s c.state) (hvalid : s.validate c = .ok ())
include h hvalid

theorem direct_kinematics : Direct.kinematics s c (fun _ => none) = .ok y.kinematics :=
  Direct.stage_eq_ok_iff.mpr ⟨hvalid, h.kinematics⟩

theorem direct_pairs : Direct.pairs s c (fun _ => none) = .ok y.pairs :=
  Direct.stage_eq_ok_iff.mpr ⟨hvalid, bind_eq_ok_iff.mpr ⟨_, h.direct_kinematics hvalid, h.pairs⟩⟩

theorem direct_contacts : Direct.contacts s c (fun _ => none) = .ok y.contacts :=
  Direct.stage_eq_ok_iff.mpr ⟨hvalid, bind_eq_ok_iff.mpr ⟨_, h.direct_kinematics hvalid,
    bind_eq_ok_iff.mpr ⟨_, h.direct_pairs hvalid, h.contacts⟩⟩⟩

theorem direct_linearDynamics : Direct.linearDynamics s c (fun _ => none) = .ok y.dynamics :=
  bind_eq_ok_iff.mpr ⟨_, h.direct_kinematics hvalid, h.dynamics⟩

end StepValues.Follows

/-! ### Stages with actuation -/

namespace StepValues.Worked

variable (h : y.Worked s c tau)
include h

theorem direct_free (asker : Asker) : Direct.free s c (fun _ => none) asker = .ok y.free :=
  Direct.stage_eq_ok_iff.mpr ⟨h.valid, bind_eq_ok_iff.mpr ⟨_, h.direct_kinematics h.valid,
    bind_eq_ok_iff.mpr ⟨tau, h.supplied asker, h.accelerated⟩⟩⟩

theorem direct_problem (asker : Asker) : Direct.problem s c (fun _ => none) asker = .ok y.problem := by
  refine Direct.stage_eq_ok_iff.mpr ⟨h.valid, ?_⟩
  rw [Direct.workProblem, h.direct_linearDynamics h.valid, h.direct_free, h.direct_pairs h.valid,
    h.direct_contacts h.valid]
  exact h.problem

theorem direct_results : Direct.results s c (fun _ => none) = .ok y.results :=
  Direct.stage_eq_ok_iff.mpr ⟨h.valid, bind_eq_ok_iff.mpr ⟨_, h.direct_problem .results, h.results⟩⟩

theorem direct_reports : Direct.reports s c (fun _ => none) =
    Simulator.contactReports y.pairs y.problem y.results := by
  rw [Direct.reports, h.direct_pairs h.valid, h.direct_problem, h.direct_results]
  rfl

end StepValues.Worked

namespace Direct

/-- Behind a direct problem stand direct values of all stages before it. -/
theorem exists_assembles {asker : Asker} {p : AssembledProblem α}
    (h : problem s c (fun _ => none) asker = .ok p) :
    ∃ k ps ks ms a, kinematics s c (fun _ => none) = .ok k ∧ pairs s c (fun _ => none) = .ok ps ∧
      contacts s c (fun _ => none) = .ok ks ∧ free s c (fun _ => none) asker.throughProblem = .ok a ∧
      s.Assembles c.state k ps ks ms a p := by
  obtain ⟨-, h⟩ := stage_eq_ok_iff.mp h
  simp only [workProblem, bind_eq_ok_iff] at h
  obtain ⟨ms, hdynamics, a, hfree, base, hbase, ps, hpairs, ks, hcontacts, h⟩ := h
  obtain ⟨k, hk, hdynamics⟩ := bind_eq_ok_iff.mp hdynamics
  have hsame : ∀ {k' : PositionKinematics α}, kinematics s c (fun _ => none) = .ok k' → k' = k := fun hk' =>
    Except.ok.inj (hk'.symm.trans hk)
  obtain ⟨-, hfree'⟩ := stage_eq_ok_iff.mp hfree
  obtain ⟨_, hk', hfree'⟩ := bind_eq_ok_iff.mp hfree'
  obtain rfl := hsame hk'
  obtain ⟨tau, -, hfree'⟩ := bind_eq_ok_iff.mp hfree'
  obtain ⟨-, hpairs'⟩ := stage_eq_ok_iff.mp hpairs
  obtain ⟨_, hk', hpairs'⟩ := bind_eq_ok_iff.mp hpairs'
  obtain rfl := hsame hk'
  obtain ⟨-, hcontacts'⟩ := stage_eq_ok_iff.mp hcontacts
  obtain ⟨_, hk', hcontacts'⟩ := bind_eq_ok_iff.mp hcontacts'
  obtain rfl := hsame hk'
  obtain ⟨_, hpairs'', hcontacts'⟩ := bind_eq_ok_iff.mp hcontacts'
  obtain rfl := Except.ok.inj (hpairs.symm.trans hpairs'')
  refine ⟨_, ps, ks, ms, a, hk, hpairs, hcontacts, hfree,
    ⟨(stage_eq_ok_iff.mp hk).2, hpairs', hcontacts', hdynamics, ⟨tau, hfree'⟩, ?_⟩⟩
  simp only [Simulator.assemble, bind_eq_ok_iff]
  exact ⟨base, hbase, h⟩

/-- Direct results are the last of the values of all stages. -/
theorem exists_worked (blind : c.actuation.Blind) {r : ContactResults α}
    (h : results s c (fun _ => none) = .ok r) :
    ∃ y tau, StepValues.Worked y s c tau ∧ y.results = r := by
  obtain ⟨hvalid, h⟩ := stage_eq_ok_iff.mp h
  obtain ⟨p, hp, hr⟩ := bind_eq_ok_iff.mp h
  obtain ⟨k, ps, ks, ms, a, hk, -, -, hfree, hassembles⟩ := exists_assembles hp
  have hdynamics : linearDynamics s c (fun _ => none) = .ok ms :=
    bind_eq_ok_iff.mpr ⟨k, hk, hassembles.dynamics⟩
  obtain ⟨-, hfree⟩ := stage_eq_ok_iff.mp hfree
  obtain ⟨_, hk', hfree⟩ := bind_eq_ok_iff.mp hfree
  obtain rfl := Except.ok.inj (hk'.symm.trans hk)
  obtain ⟨tau, htau, hfree⟩ := bind_eq_ok_iff.mp hfree
  -- Who asks decides nothing but the name of a loop.
  have hsupplied : ∀ asker, actuation c (answer s c (fun _ => none) asker) = .ok tau := fun asker =>
    (sameValue_actuation blind (sameAnswer_answer hdynamics _ asker) tau).mp htau
  exact ⟨⟨_, ps, ks, ms, a, p, r⟩, tau,
    ⟨⟨(Simulator.validate_eq_ok hvalid).2.2, hassembles.kinematics, hassembles.pairs,
    hassembles.contacts, hassembles.dynamics, hassembles.free, hassembles.problem, hr⟩, hvalid,
      hsupplied, hfree⟩, rfl⟩

end Direct

end CompliantContact
