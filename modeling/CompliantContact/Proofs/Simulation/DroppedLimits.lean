import CompliantContact.Proofs.Simulation.FreeMotion
import CompliantContact.Proofs.Simulation.LimitForces
import CompliantContact.Proofs.Simulation.Limits

/-!
Limits outside the window.

A problem leaves out the limits that lie further away than the window around the position of a joint. As
long as the velocities of these joints stay below half the speed that the window allows for, the limits
would not push, and the gradient is that of the problem with all limits
(`Simulator.Vouches.gradient_with_all_limits`). A limit that is violated is never outside the window.
-/

namespace CompliantContact

open Finset Outcome

/-! ### Gradients and forces -/

namespace System

variable {s t : System ℝ} {v : Vec ℝ}

/-- The velocities at which the momentum balance holds exactly. -/
def Solves (s : System ℝ) (v : Vec ℝ) : Prop := ∀ j, (s.evaluate v).gradient j = 0

theorem impulseForces_get {j : ℕ} (hj : j < s.freeVelocities.size) :
    s.impulseForces (s.evaluate v).responses j = (s.couplings.map (Of.force v j)).sum := by
  rw [impulseForces, Vec.get_ofFn_of_lt hj, listSum_flatMap s v fun c r => c.rowForces r j]
  exact congrArg List.sum (List.map_congr_left fun c _ => Scalar.sum_map_range _ _)

/-- The gradient depends on the couplings through their forces alone. -/
theorem gradient_eq_of_forces (hdynamics : t.dynamics = s.dynamics)
    (hfree : t.freeVelocities = s.freeVelocities) (hforces : ∀ j < s.freeVelocities.size,
      (t.couplings.map (Of.force v j)).sum = (s.couplings.map (Of.force v j)).sum) :
    (t.evaluate v).gradient = (s.evaluate v).gradient := by
  have hsame : t.impulseForces (t.evaluate v).responses = s.impulseForces (s.evaluate v).responses := by
    refine Vec.ext ?_ fun j hj => ?_
    · rw [impulseForces, impulseForces, Vec.size_ofFn, Vec.size_ofFn, hfree]
    · have hj : j < s.freeVelocities.size := by rwa [impulseForces, Vec.size_ofFn, hfree] at hj
      rw [impulseForces_get (hfree ▸ hj), impulseForces_get hj, hforces j hj]
  show t.dynamics.mulVec (v - t.freeVelocities) - t.impulseForces (t.evaluate v).responses =
    s.dynamics.mulVec (v - s.freeVelocities) - s.impulseForces (s.evaluate v).responses
  rw [hdynamics, hfree, hsame]

end System

theorem sum_filterMap_id {β : Type} (xs : List (Option β)) (f : β → ℝ) :
    ((xs.filterMap id).map f).sum = (xs.map fun o => (o.toList.map f).sum).sum := by
  induction xs with
  | nil => rfl
  | cons o xs ih =>
    rw [List.map_cons, List.sum_cons, ← ih]
    cases o with
    | none => exact (zero_add _).symm
    | some x => simp

theorem Constraint.sum_limitSides (q0 : ℝ) (q : LimitParameters ℝ) (f : ℝ × ℝ → ℝ) :
    ((limitSides q0 q).map f).sum = (q.lower.elim 0 fun l => f (q0 - l, 1)) + q.upper.elim 0 fun u =>
      f (u - q0, -1) := by
  rw [limitSides_real]
  cases q.lower <;> cases q.upper <;> simp

namespace Simulator

variable {s : Simulator ℝ} {x : State ℝ} {joint : Joint ℝ} {vFree v : Vec ℝ} {lower upper : Option ℝ}
    {l u q0 v0 vf r : ℝ}

/-! ### Limits that are left out -/

/-- The lower limit of a joint is `l`, and the window leaves it out. -/
def LeavesOutLower (s : Simulator ℝ) (x : State ℝ) (vFree : Vec ℝ) (joint : Joint ℝ) (l : ℝ) : Prop :=
  joint.lowerLimits.getD 0 none = some l ∧ ∀ p, s.windowedLimits joint (x.positions joint.velocityStart)
    (x.velocities joint.velocityStart) (vFree joint.velocityStart) = some p → p.lower = none

/-- The upper limit of a joint is `u`, and the window leaves it out. -/
def LeavesOutUpper (s : Simulator ℝ) (x : State ℝ) (vFree : Vec ℝ) (joint : Joint ℝ) (u : ℝ) : Prop :=
  joint.upperLimits.getD 0 none = some u ∧ ∀ p, s.windowedLimits joint (x.positions joint.velocityStart)
    (x.velocities joint.velocityStart) (vFree joint.velocityStart) = some p → p.upper = none

theorem limitsBetween_of_lower (s : Simulator ℝ) (l : ℝ) (upper : Option ℝ) :
    ∃ p, s.limitsBetween (some l) upper = some p := by
  refine ⟨_, if_neg ?_⟩
  rw [isInfinite_eq]
  exact Bool.false_ne_true

theorem limitsBetween_of_upper (s : Simulator ℝ) (lower : Option ℝ) (u : ℝ) :
    ∃ p, s.limitsBetween lower (some u) = some p := by
  refine ⟨_, if_neg ?_⟩
  rw [isInfinite_eq, isInfinite_eq, Option.isNone_some, Bool.and_false]
  exact Bool.false_ne_true

theorem leavesOutLower_iff : s.LeavesOutLower x vFree joint l ↔ joint.lowerLimits.getD 0 none = some l ∧
    l < s.windowLower (x.positions joint.velocityStart) (x.velocities joint.velocityStart)
      (vFree joint.velocityStart) := by
  refine and_congr_right fun hl => ?_
  rw [windowedLimits_eq, hl, Option.filter_some]
  constructor
  · intro hnone
    by_contra hinside
    rw [if_pos (decide_eq_true hinside)] at hnone
    obtain ⟨p, hp⟩ := limitsBetween_of_lower s l _
    rw [hp] at hnone
    have hlower := congrArg LimitParameters.lower (limitsBetween_eq_some hp)
    rw [hnone p rfl] at hlower
    cases hlower
  · intro houtside p hp
    rw [if_neg (by simpa using houtside)] at hp
    exact congrArg LimitParameters.lower (limitsBetween_eq_some hp)

theorem leavesOutUpper_iff : s.LeavesOutUpper x vFree joint u ↔ joint.upperLimits.getD 0 none = some u ∧
    s.windowUpper (x.positions joint.velocityStart) (x.velocities joint.velocityStart)
      (vFree joint.velocityStart) < u := by
  refine and_congr_right fun hu => ?_
  rw [windowedLimits_eq, hu, Option.filter_some]
  constructor
  · intro hnone
    by_contra hinside
    rw [if_pos (decide_eq_true hinside)] at hnone
    obtain ⟨p, hp⟩ := limitsBetween_of_upper s _ u
    rw [hp] at hnone
    have hupper := congrArg LimitParameters.upper (limitsBetween_eq_some hp)
    rw [hnone p rfl] at hupper
    cases hupper
  · intro houtside p hp
    rw [if_neg (by simpa using houtside)] at hp
    exact congrArg LimitParameters.upper (limitsBetween_eq_some hp)

theorem travel_nonneg (hsettings : s.config.InRange) (v0 vf : ℝ) :
    0 ≤ s.config.jointLimits.windowFactor * (s.timeStep * max |v0| |vf|) :=
  mul_nonneg hsettings.windowFactor
    (mul_nonneg hsettings.timeStep.le ((abs_nonneg v0).trans (le_max_left ..)))

/-- A limit that is violated is not left out. -/
theorem LeavesOutLower.le (h : s.LeavesOutLower x vFree joint l) (hsettings : s.config.InRange) :
    l ≤ x.positions joint.velocityStart := by
  have hwindow := (leavesOutLower_iff.mp h).2
  have htravel := travel_nonneg hsettings (x.velocities joint.velocityStart) (vFree joint.velocityStart)
  rw [windowLower] at hwindow
  linarith

theorem LeavesOutUpper.le (h : s.LeavesOutUpper x vFree joint u) (hsettings : s.config.InRange) :
    x.positions joint.velocityStart ≤ u := by
  have hwindow := (leavesOutUpper_iff.mp h).2
  have htravel := travel_nonneg hsettings (x.velocities joint.velocityStart) (vFree joint.velocityStart)
  rw [windowUpper] at hwindow
  linarith

/-! ### What they would push -/

/-- At a speed within half the window no limit outside of it pushes. -/
theorem sidePush_of_outside {dt f gap m sign vd : ℝ} (hdt : 0 < dt) (hr : 0 < r)
    (hsign : sign = 1 ∨ sign = -1)
    (hgap : f * (dt * m) < gap) (hv : |vd| ≤ f / 2 * m) : Constraint.sidePush dt dt r vd (gap, sign) = 0 := by
  refine Constraint.sidePush_eq_zero hr ?_
  have hspeed : -|vd| ≤ sign * vd := by
    rcases hsign with rfl | rfl
    · rw [one_mul]
      exact neg_abs_le vd
    · rw [neg_one_mul]
      exact neg_le_neg (le_abs_self vd)
  refine le_trans ?_ hspeed
  rw [div_le_iff₀ (by positivity)]
  have hspan : |vd| * (dt + dt) ≤ f / 2 * m * (dt + dt) := mul_le_mul_of_nonneg_right hv (by positivity)
  linarith

section
variable {p : Problem ℝ} {factors : Array (Mat ℝ)} {t : TreeIndex} {o : Option (Constraint ℝ)} {i : ℕ}

/-- The regularization of each limit of a joint. -/
noncomputable def limitRegularization (s : Simulator ℝ) (factors : Array (Mat ℝ)) (t : TreeIndex)
    (d : ℕ) : ℝ :=
  Constraint.compliantRegularization s.timeStep
    |Coupling.unitInertia factors t (s.model.layout.size t) (d - s.model.layout.start t)|
      (some s.config.jointLimits.stiffness)
    s.timeStep s.config.jointLimits.beta

/-- What a limit of a joint pushes. -/
noncomputable def limitPush (s : Simulator ℝ) (factors : Array (Mat ℝ)) (t : TreeIndex) (d : ℕ)
    (v : Vec ℝ) : ℝ × ℝ → ℝ :=
  Constraint.sidePush s.timeStep s.timeStep (s.limitRegularization factors t d) (v d)

theorem limitPush_of_outside {gap sign : ℝ} {d : ℕ} (hsettings : s.config.InRange)
    (hsign : sign = 1 ∨ sign = -1)
    (hgap : s.config.jointLimits.windowFactor * (s.timeStep * max |v0| |vf|) < gap)
    (hv : |v d| ≤ s.config.jointLimits.windowFactor / 2 * max |v0| |vf|) :
    s.limitPush factors t d v (gap, sign) = 0 :=
  sidePush_of_outside hsettings.timeStep
    (Constraint.compliantRegularization_pos hsettings.timeStep hsettings.limitStiffness
      hsettings.timeStep.le) hsign hgap hv

/-- The limits of a joint push along its velocity, each by itself. -/
theorem Made.sum_force_limitsBetween (hmade : s.Made) (hj : joint ∈ s.model.joints)
    (hfinite : joint.hasFiniteLimits = true)
    (hstart : ∀ t, p.treeStart t = s.model.layout.start t) (hnum : p.numVelocities = s.model.numVelocities)
    (hdt : p.timeStep = s.timeStep) (ht : s.model.layout.Within t joint.velocityStart)
    (h : s.limitConstraintOf x joint (s.limitsBetween lower upper) = .ok o) (hi : i < p.numVelocities) :
    (o.toList.map fun c => System.Of.force v i (Coupling.ofConstraint p factors c)).sum =
      if i = joint.velocityStart then
        (lower.elim 0 fun l => s.limitPush factors t joint.velocityStart v
          (x.positions joint.velocityStart - l, 1)) +
          upper.elim 0 fun u =>
            s.limitPush factors t joint.velocityStart v (u - x.positions joint.velocityStart, -1)
      else 0 := by
  rcases hmade.limitConstraintOf_eq_ok hj h with ⟨hnone, -⟩ | ⟨-, hone, t', hwithin, hlimits⟩
  · rw [hfinite] at hnone
    cases hnone
  obtain rfl := hwithin.unique ht
  have hlt : joint.velocityStart < p.numVelocities := hnum ▸ (hmade.exists_place hj hone).1
  rcases hlimits with ⟨hlimits, rfl⟩ | ⟨q, c, hq, rfl, hc⟩
  · -- Without a constraint there are no limits.
    have hlower : lower = none := by
      cases lower with
      | none => rfl
      | some l =>
        obtain ⟨q, hq⟩ := limitsBetween_of_lower s l upper
        rw [hlimits] at hq
        cases hq
    have hupper : upper = none := by
      cases upper with
      | none => rfl
      | some u =>
        obtain ⟨q, hq⟩ := limitsBetween_of_upper s lower u
        rw [hlimits] at hq
        cases hq
    rw [hlower, hupper]
    simp
  · obtain rfl := limitsBetween_eq_some hq
    rw [Option.toList_some, List.map_singleton, List.sum_singleton,
      (Coupling.isLimit_ofConstraint hstart hwithin hc).force hlt v hi, Constraint.sum_limitSides,
      limitPush, limitRegularization, Constraint.sideRegularization, hdt]

/-- The limits of a joint that are left out would not push. -/
theorem Made.sum_force_windowed (hmade : s.Made) (hj : joint ∈ s.model.joints)
    (hstart : ∀ t, p.treeStart t = s.model.layout.start t) (hnum : p.numVelocities = s.model.numVelocities)
    (hdt : p.timeStep = s.timeStep) {full : Option (Constraint ℝ)}
    (h : s.limitConstraint x vFree joint = .ok o)
    (hfull : s.limitConstraintOf x joint (s.allLimits joint) = .ok full) (hi : i < p.numVelocities)
    (hv : ((∃ l, s.LeavesOutLower x vFree joint l) ∨ ∃ u, s.LeavesOutUpper x vFree joint u) →
      |v joint.velocityStart| ≤
      s.config.jointLimits.windowFactor / 2 * max |x.velocities joint.velocityStart| |vFree
        joint.velocityStart|) :
    (full.toList.map fun c => System.Of.force v i (Coupling.ofConstraint p factors c)).sum =
      (o.toList.map fun c => System.Of.force v i (Coupling.ofConstraint p factors c)).sum := by
  rw [limitConstraint_eq] at h
  rcases hmade.limitConstraintOf_eq_ok hj h with ⟨hnone, rfl⟩ | ⟨hfinite, hone, t, hwithin, -⟩
  · rw [limitConstraintOf, if_pos (by rw [hnone]; exact Bool.false_ne_true)] at hfull
    cases hfull
    rfl
  rw [windowedLimits_eq] at h
  rw [hmade.sum_force_limitsBetween hj hfinite hstart hnum hdt hwithin h hi,
    hmade.sum_force_limitsBetween hj hfinite hstart hnum hdt hwithin hfull hi]
  split_ifs
  · have hsettings := hmade.settings
    congr 1
    · cases hlower : joint.lowerLimits.getD 0 none with
      | none => rfl
      | some l =>
        rw [Option.filter_some]
        split_ifs with hinside
        · rfl
        · have houtside := not_not.mp (of_decide_eq_false (Bool.not_eq_true _ ▸ hinside))
          have hspeed := hv (.inl ⟨l, leavesOutLower_iff.mpr ⟨hlower, houtside⟩⟩)
          refine limitPush_of_outside hsettings (.inl rfl) ?_ hspeed
          rw [windowLower] at houtside
          linarith
    · cases hupper : joint.upperLimits.getD 0 none with
      | none => rfl
      | some u =>
        rw [Option.filter_some]
        split_ifs with hinside
        · rfl
        · have houtside := not_not.mp (of_decide_eq_false (Bool.not_eq_true _ ▸ hinside))
          have hspeed := hv (.inr ⟨u, leavesOutUpper_iff.mpr ⟨hupper, houtside⟩⟩)
          refine limitPush_of_outside hsettings (.inr rfl) ?_ hspeed
          rw [windowUpper] at houtside
          linarith
  · rfl

end

/-! ### The problem with all limits -/

section
variable {k : PositionKinematics ℝ} {pairs : List (ContactPair ℝ)} {contacts : List (ContactKinematics ℝ)}
  {dynamics : List (Mat ℝ)} {free : FreeAccelerations ℝ} {p full : AssembledProblem ℝ}

/-- The problem of a step with all limits of the joints, wherever these stand. -/
noncomputable def assembleFull (s : Simulator ℝ) (x : State ℝ) (dynamics : List (Mat ℝ))
    (free : FreeAccelerations ℝ)
    (pairs : List (ContactPair ℝ)) (contacts : List (ContactKinematics ℝ)) : Outcome ℝ (AssembledProblem ℝ) :=
  s.assembleWith x (fun joint => s.limitConstraintOf x joint (s.allLimits joint)) dynamics free pairs contacts

/-- Two problems that differ in their limits alone: those in the window, and all. -/
structure LimitsApart (s : Simulator ℝ) (x : State ℝ) (p full : Problem ℝ)
    (cones couplers : List (Constraint ℝ)) (windowed all : List (Option (Constraint ℝ))) : Prop where
  windowed_limits : s.model.joints.toList.map (s.limitConstraint x p.freeVelocities) = windowed.map .ok
  all_limits :
  s.model.joints.toList.map (fun joint => s.limitConstraintOf x joint (s.allLimits joint)) = all.map .ok
  constraints : p.constraints = (cones ++ windowed.filterMap id ++ couplers).toArray
  full_eq : full = { p with constraints := (cones ++ all.filterMap id ++ couplers).toArray }

/-- If a step has a problem it also has one with all limits. -/
theorem Assembles.exists_full (hmade : s.Made) (h : s.Assembles x k pairs contacts dynamics free p) :
    ∃ full, s.assembleFull x dynamics free pairs contacts = .ok full ∧
      ∃ cones couplers windowed all, s.LimitsApart x p.problem full.problem cones couplers windowed all := by
  obtain ⟨hbuilt, hlength, -, cones, limits, couplers, hcones, hlimits, hcouplers, hp⟩ :=
    assemble_eq_ok h.problem
  obtain ⟨base, hbase, -⟩ := bind_eq_ok_iff.mp h.problem
  have hnew := Problem.new_eq_ok hbase
  have hsizes : base.dynamics.toList.map Mat.rows = s.model.layout.sizes.toList := by
    rw [hnew]
    exact map_rows_linearDynamics h.dynamics
  obtain ⟨all, hall⟩ : ∃ all : List (Option (Constraint ℝ)),
      s.model.joints.toList.map (fun joint => s.limitConstraintOf x joint (s.allLimits joint)) =
        all.map .ok := by
    refine exists_map_eq_ok fun joint hjoint => ?_
    have hjoint' := Array.mem_toList_iff.mp hjoint
    obtain ⟨o, -, ho⟩ := exists_of_mem_map_eq_ok hlimits hjoint
    rw [limitConstraint_eq] at ho
    refine hmade.exists_limitConstraint hjoint' (fun hfinite => ?_) fun q hq =>
      allLimits_allows (hmade.limited joint hjoint') hq
    rcases hmade.limitConstraintOf_eq_ok hjoint' ho with ⟨hnone, -⟩ | ⟨-, hone, -⟩
    · rw [hfinite] at hnone
      cases hnone
    · exact hone
  have hmember : ∀ c ∈ all.filterMap id, c.isContact = false ∧ ∀ b ∈ c.blocks, base.Fits b := by
    intro c hc
    obtain ⟨o, ho, rfl⟩ := List.mem_filterMap.mp hc
    obtain ⟨joint, hjoint, hok⟩ := exists_mem_of_map_eq_ok hall ho
    rcases hmade.limitConstraintOf_eq_ok (Array.mem_toList_iff.mp hjoint) hok with ⟨-, hnone⟩ |
      ⟨-, -, t, hwithin, ⟨-, hnone⟩ | ⟨q, d, -, hd, hlimit⟩⟩
    · cases hnone
    · cases hnone
    · cases hd
      exact ⟨(Constraint.limit_eq_ok hlimit).1, Constraint.limit_fits hsizes hwithin hlimit⟩
  have hfits : ∀ c ∈ cones ++ all.filterMap id ++ couplers, ∀ b ∈ c.blocks, base.Fits b := by
    have hpart : ∀ c, c ∈ cones ∨ c ∈ couplers → ∀ b ∈ c.blocks, base.Fits b := by
      intro c hc b hb
      have hmem : c ∈ p.problem.constraints.toList := by
        rw [hp]
        simp only [List.mem_append]
        exact hc.elim (fun hc => .inl (.inl hc)) .inr
      have hfits := hbuilt.fits c hmem b hb
      rw [hp] at hfits
      rw [hnew]
      exact ⟨hfits.tree, hfits.cols⟩
    intro c hc
    simp only [List.mem_append] at hc
    rcases hc with (hc | hc) | hc
    · exact hpart c (.inl hc)
    · exact (hmember c hc).2
    · exact hpart c (.inr hc)
  refine ⟨_, assembleWith_of_fits hbase hlength hcones hall (fun c hc => (hmember c hc).1) hcouplers hfits,
    cones, couplers, limits, all, ⟨?_, hall, ?_, ?_⟩⟩
  · rw [hp]
    exact hlimits
  · rw [hp]
  · rw [hp, hnew]
    simp [Problem.extend]

/-- Below half the speed of the window the problems have the same gradient. -/
theorem LimitsApart.gradient_eq {p full : Problem ℝ} {cones couplers : List (Constraint ℝ)}
    {windowed all : List (Option (Constraint ℝ))} (hmade : s.Made)
    (h : s.LimitsApart x p full cones couplers windowed all)
    (hstart : ∀ t, p.treeStart t = s.model.layout.start t) (hnum : p.numVelocities = s.model.numVelocities)
    (hdt : p.timeStep = s.timeStep) {a b : System ℝ} (ha : System.ofProblem? p = some a)
    (hb : System.ofProblem? full = some b)
    (hv : ∀ joint ∈ s.model.joints, (∃ l, s.LeavesOutLower x p.freeVelocities joint l) ∨
      (∃ u, s.LeavesOutUpper x p.freeVelocities joint u) → |v joint.velocityStart| ≤
        s.config.jointLimits.windowFactor / 2 * max |x.velocities joint.velocityStart| |p.freeVelocities
          joint.velocityStart|) :
    (b.evaluate v).gradient = (a.evaluate v).gradient := by
  obtain ⟨hwindowed, hall, hconstraints, rfl⟩ := h
  obtain ⟨factors, hfactors, rfl⟩ := System.ofProblem?_eq_some ha
  obtain ⟨factors', hfactors', rfl⟩ := System.ofProblem?_eq_some hb
  obtain rfl := Option.some.inj (hfactors.symm.trans hfactors')
  refine System.gradient_eq_of_forces rfl rfl fun i hi => ?_
  have hi : i < p.numVelocities := hi
  -- Joint by joint, what is left out would not push.
  have hjoints :
    (all.map fun o => (o.toList.map fun c => System.Of.force v i
      (Coupling.ofConstraint p factors.toArray c)).sum) =
      windowed.map fun o =>
        (o.toList.map fun c => System.Of.force v i (Coupling.ofConstraint p factors.toArray c)).sum := by
    refine map_eq_of_map_eq_map hall hwindowed fun joint hjoint full o hfull ho => ?_
    have hmem : joint ∈ s.model.joints := Array.mem_toList_iff.mp hjoint
    exact hmade.sum_force_windowed hmem hstart hnum hdt ho hfull hi (hv joint hmem)
  show (((cones ++ all.filterMap id ++ couplers).map (Coupling.ofConstraint p factors.toArray)).map
    (System.Of.force v i)).sum =
    ((p.constraints.toList.map (Coupling.ofConstraint p factors.toArray)).map (System.Of.force v i)).sum
  rw [hconstraints]
  simp only [List.map_append, List.sum_append, List.map_map]
  congr 2
  refine (sum_filterMap_id all _).trans (Eq.trans ?_ (sum_filterMap_id windowed _).symm)
  exact congrArg List.sum hjoints

/-- Both problems have a system or neither has. -/
theorem LimitsApart.isSome_ofProblem? {p full : Problem ℝ} {cones couplers : List (Constraint ℝ)}
    {windowed all : List (Option (Constraint ℝ))} (h : s.LimitsApart x p full cones couplers windowed all) :
    (System.ofProblem? full).isSome = (System.ofProblem? p).isSome := by
  rw [h.full_eq, System.ofProblem?, System.ofProblem?]
  cases p.dynamics.toList.mapM Cholesky.factor? <;> rfl

end

/-- In a context that the simulator vouches for, the problem of a step has a counterpart with all limits
    of the joints. The window leaves out no limit that is violated. Where each velocity that lost a
    limit is within half the speed of its window the two have the same gradient, so one is solved
    exactly if and only if the other is. -/
theorem Vouches.gradient_with_all_limits {c d : Context ℝ} {p : AssembledProblem ℝ} (hmade : s.Made)
    (h : s.Vouches c) (hc : c.Reachable) (hp : c.run (s.evalProblem c.toSetting) = (.ok p, d)) :
    ∃ k pairs contacts dynamics free full, s.Assembles d.state k pairs contacts dynamics free p ∧
      s.assembleFull d.state dynamics free pairs contacts = .ok full ∧
      (∀ joint ∈ s.model.joints,
        (∀ l, s.LeavesOutLower d.state p.problem.freeVelocities joint l →
          ¬ d.state.positions joint.velocityStart < l) ∧
        ∀ u, s.LeavesOutUpper d.state p.problem.freeVelocities joint u →
        ¬ u < d.state.positions joint.velocityStart) ∧
      (System.ofProblem? full.problem).isSome = (System.ofProblem? p.problem).isSome ∧
      ∀ a b, System.ofProblem? p.problem = some a → System.ofProblem? full.problem = some b → ∀ v : Vec ℝ,
        (∀ joint ∈ s.model.joints, (∃ l, s.LeavesOutLower d.state p.problem.freeVelocities joint l) ∨
          (∃ u, s.LeavesOutUpper d.state p.problem.freeVelocities joint u) →
            |v joint.velocityStart| ≤ s.config.jointLimits.windowFactor / 2 *
              max |d.state.velocities joint.velocityStart| |p.problem.freeVelocities joint.velocityStart|) →
          (b.evaluate v).gradient = (a.evaluate v).gradient ∧ (a.Solves v ↔ b.Solves v) := by
  obtain ⟨-, hvalid, k, pairs, contacts, dynamics, free, hassembles, -⟩ := h.evalProblem hc hp
  obtain ⟨full, hfull, cones, couplers, windowed, all, hapart⟩ := hassembles.exists_full hmade
  have hnum := hassembles.numVelocities_problem (validate_eq_ok hvalid).2.2
  have hdt : p.problem.timeStep = s.timeStep := by
    obtain ⟨-, -, -, _, _, _, -, -, -, heq⟩ := assemble_eq_ok hassembles.problem
    rw [heq]
  refine ⟨k, pairs, contacts, dynamics, free, full, hassembles, hfull,
    fun joint _ => ⟨fun l hl => ?_, fun u hu => ?_⟩,
    hapart.isSome_ofProblem?, fun a b ha hb v hv => ?_⟩
  · exact not_lt.mpr (hl.le hmade.settings)
  · exact not_lt.mpr (hu.le hmade.settings)
  · have hgradient := hapart.gradient_eq hmade hassembles.treeStart hnum hdt ha hb hv
    refine ⟨hgradient, ?_⟩
    rw [System.Solves, System.Solves, hgradient]

/-! ### A ball between stops -/

noncomputable section

/-- A hoist with a stop at either side of its position. -/
def stoppedHoist : Joint ℝ := hoistBetween (some (-1)) (some 1)

/-- A ball on it, above no ground. -/
def ballBetweenStops : Simulator ℝ := ballAbove (.ofTable [] (.ok [])) (some (-1)) (some 1)

end

theorem made_ballBetweenStops : ballBetweenStops.Made := by
  have hordered : Bound.ordered (some (-1 : ℝ)) (some 1) = true := by norm_num [Bound.ordered]
  exact .new (build_ballBetween _ _ hordered) (new_ball _ _ one_pos zero_le_one)

section
variable {vFree : Vec ℝ} (hfree : vFree = ballBetweenStops.defaultContext.state.velocities)
include hfree

/-- At rest the window is as narrow as the position, so both stops are outside. -/
theorem leavesOut_ballBetweenStops :
    ballBetweenStops.LeavesOutLower ballBetweenStops.defaultContext.state vFree stoppedHoist (-1) ∧
      ballBetweenStops.LeavesOutUpper ballBetweenStops.defaultContext.state vFree stoppedHoist 1 := by
  have hposition : ∀ i, ballBetweenStops.defaultContext.state.positions i = 0 := Vec.get_zeros _
  have hvelocity : ∀ i, ballBetweenStops.defaultContext.state.velocities i = 0 := Vec.get_zeros _
  rw [leavesOutLower_iff, leavesOutUpper_iff, hfree, windowLower, windowUpper, hposition, hvelocity,
    abs_zero, max_self, mul_zero, mul_zero, sub_zero, add_zero]
  exact ⟨⟨rfl, by norm_num⟩, rfl, one_pos⟩

theorem limitConstraint_ballBetweenStops :
    ballBetweenStops.limitConstraint ballBetweenStops.defaultContext.state vFree stoppedHoist = .ok none := by
  obtain ⟨⟨-, hlower⟩, -, hupper⟩ := leavesOut_ballBetweenStops hfree
  have hmem : stoppedHoist ∈ ballBetweenStops.model.joints := Array.mem_singleton.mpr rfl
  have hnone : ballBetweenStops.windowedLimits stoppedHoist
      (ballBetweenStops.defaultContext.state.positions stoppedHoist.velocityStart)
      (ballBetweenStops.defaultContext.state.velocities stoppedHoist.velocityStart)
      (vFree stoppedHoist.velocityStart) = none := by
    refine Option.eq_none_iff_forall_ne_some.mpr fun p hp => ?_
    obtain ⟨-, hside, -⟩ := windowedLimits_allows (made_ballBetweenStops.limited stoppedHoist hmem) hp
    rw [hlower p hp, hupper p hp] at hside
    exact hside.elim Bool.false_ne_true Bool.false_ne_true
  obtain ⟨o, ho⟩ : ∃ o, ballBetweenStops.limitConstraintOf ballBetweenStops.defaultContext.state
    stoppedHoist none = .ok o :=
    made_ballBetweenStops.exists_limitConstraint hmem (fun _ => rfl) fun p hp => nomatch hp
  rw [limitConstraint_eq, hnone, ho]
  rcases made_ballBetweenStops.limitConstraintOf_eq_ok hmem ho with ⟨-, rfl⟩ | ⟨-, -, t, -, h⟩
  · rfl
  · obtain ⟨-, rfl⟩ | ⟨_, _, hsome, -⟩ := h
    · rfl
    · cases hsome

end

theorem exists_follows_ballBetweenStops : ∃ y : StepValues ℝ,
    y.Follows ballBetweenStops ballBetweenStops.defaultContext.state ∧
      ballBetweenStops.freeAccelerations ballBetweenStops.defaultContext.state y.kinematics (.zeros 1) =
        .ok y.free ∧
      y.problem.problem.HasSPDTrees ∧
      y.problem.problem.freeVelocities = ballBetweenStops.defaultContext.state.velocities := by
  have hpairs : ∀ k, ballBetweenStops.discretizer.contactPairs k .point = .ok [] := fun _ => rfl
  obtain ⟨y, hfollows, hfree, -, htrees, hrest, -⟩ :=
      exists_follows_ball _ _ _ rfl hpairs fun k a free hspd hrows hzero => by
    have hlimits : ballBetweenStops.model.joints.toList.map (ballBetweenStops.limitConstraint
        ballBetweenStops.defaultContext.state
          (ballBetweenStops.freeVelocities ballBetweenStops.defaultContext.state free)) =
          [none].map .ok := congrArg (fun o => [o])
          (limitConstraint_ballBetweenStops (freeVelocities_eq hzero))
    have hcones : (([] : List (ContactPair ℝ)).zip []).map
      (fun (pair, k) => ballBetweenStops.contactConstraint pair k) =
        [].map .ok := rfl
    have hcouplers : ballBetweenStops.couplers.map (ballBetweenStops.couplerConstraint
        ballBetweenStops.defaultContext.state) = [].map .ok := rfl
    have hproblem :=
      assemble_of_fits (new_problem_ball _ _ _ rfl hspd hrows free) rfl hcones hlimits hcouplers
      fun c hc => nomatch hc
    exact ⟨[], _, rfl, hproblem⟩
  exact ⟨y, hfollows, hfree, htrees, hrest⟩

/-- The problem of the ball at rest leaves out both stops, and with them it has the same gradient at rest. -/
theorem gradient_with_all_limits_ballBetweenStops : ∃ d p k pairs contacts dynamics free full a b,
    ballBetweenStops.defaultContext.run
      (ballBetweenStops.evalProblem ballBetweenStops.defaultContext.toSetting) = (.ok p, d) ∧
      ballBetweenStops.LeavesOutLower d.state p.problem.freeVelocities stoppedHoist (-1) ∧
      ballBetweenStops.LeavesOutUpper d.state p.problem.freeVelocities stoppedHoist 1 ∧
      ballBetweenStops.Assembles d.state k pairs contacts dynamics free p ∧
      ballBetweenStops.assembleFull d.state dynamics free pairs contacts = .ok full ∧
      System.ofProblem? p.problem = some a ∧ System.ofProblem? full.problem = some b ∧
      (b.evaluate (.zeros 1)).gradient = (a.evaluate (.zeros 1)).gradient ∧
      (a.Solves (.zeros 1) ↔ b.Solves (.zeros 1)) := by
  obtain ⟨y, hfollows, hfree, htrees, hrest⟩ := exists_follows_ballBetweenStops
  obtain ⟨d, hd⟩ := hfollows.exists_run_problem hfree
  have hvouches := ballBetweenStops.vouches_defaultContext
  have hc : ballBetweenStops.defaultContext.Reachable := .created ballBetweenStops
  have hstate : d.state = ballBetweenStops.defaultContext.state :=
    congrArg Setting.state (hvouches.evalProblem hc hd).1
  obtain ⟨k, pairs, contacts, dynamics, free, full, hassembles, hfull, -, hsome, hgradient⟩ :=
    Vouches.gradient_with_all_limits made_ballBetweenStops hvouches hc hd
  obtain ⟨a, ha, -⟩ := (assemble_eq_ok hassembles.problem).1.exists_system htrees
  rw [ha] at hsome
  obtain ⟨b, hb⟩ := Option.isSome_iff_exists.mp hsome
  have hleaves := leavesOut_ballBetweenStops hrest
  rw [← hstate] at hleaves
  refine ⟨d, y.problem, k, pairs, contacts, dynamics, free, full, a, b, hd, hleaves.1, hleaves.2,
    hassembles, hfull, ha, hb,
    hgradient a b ha hb (.zeros 1) fun joint _ _ => ?_⟩
  rw [Vec.get_zeros, abs_zero]
  exact mul_nonneg (by norm_num [ballBetweenStops, ballAbove, ballOnGround, ballConfig])
    ((abs_nonneg _).trans (le_max_left ..))

/-! ### A ball below a stop -/

noncomputable section

/-- A ball on a hoist without stops, above no ground. -/
def ballAlone : Simulator ℝ := ballAbove (.ofTable [] (.ok [])) none none

/-- The hoist with a stop that it has to be above. -/
def raisedHoist : Joint ℝ := hoistBetween (some 1) none

/-- The ball, for a simulator that knows of this stop. -/
def ballBelowStop : Simulator ℝ := ballAbove (.ofTable [] (.ok [])) (some 1) none

end

theorem made_ballAlone : ballAlone.Made := .new build_ball (new_ball _ _ one_pos zero_le_one)

theorem made_ballBelowStop : ballBelowStop.Made := by
  have hordered : Bound.ordered (some (1 : ℝ)) none = true := decide_eq_true le_rfl
  exact .new (build_ballBetween _ _ hordered) (new_ball _ _ one_pos zero_le_one)

/-- Without contacts and limits the problem has no constraints. -/
theorem constraints_ballAlone {y : StepValues ℝ} {x : State ℝ} (h : y.Follows ballAlone x) :
    y.problem.problem.constraints = #[] := by
  obtain ⟨-, -, -, cones, limits, couplers, hcones, hlimits, hcouplers, hp⟩ := assemble_eq_ok h.problem
  have hpairs : [] = y.pairs := Except.ok.inj h.pairs
  have hhoist : ballAlone.limitConstraint x (ballAlone.freeVelocities x y.free) hoist = .ok none := by
    rw [limitConstraint, if_pos (by rw [hasFiniteLimits_hoist]; decide)]
  have hjoints : ballAlone.model.joints.toList = [hoist] := rfl
  rw [← hpairs] at hcones
  rw [hjoints, List.map_singleton, hhoist] at hlimits
  obtain rfl : cones = [] := List.map_eq_nil_iff.mp hcones.symm
  obtain rfl : couplers = [] := List.map_eq_nil_iff.mp hcouplers.symm
  obtain ⟨o, rfl⟩ : ∃ o, limits = [o] :=
    List.length_eq_one_iff.mp (by simpa using (congrArg List.length hlimits).symm)
  cases hlimits
  rw [hp]
  rfl

/-- A simulator that knows of no stop leaves its problem to one that does. The stop is violated, and the
    problem that the second simulator is served has no limit for it. -/
theorem gradient_with_all_limits_ballBelowStop : ballAlone.Made ∧ ballBelowStop.Made ∧ ∃ r c p,
    ballAlone.defaultContext.run (ballAlone.evalResults ballAlone.defaultContext.toSetting) = (.ok r, c) ∧
      c.run (ballBelowStop.evalProblem c.toSetting) = (.ok p, c) ∧ p.problem.constraints = #[] ∧
      raisedHoist ∈ ballBelowStop.model.joints ∧ raisedHoist.lowerLimits = #[some 1] ∧
      c.state.positions raisedHoist.velocityStart < 1 := by
  obtain ⟨y, hfollows, hfree, -⟩ := exists_follows_ball_apart (.ofTable [] (.ok [])) fun _ => rfl
  obtain ⟨c, hrun, hsetting, hhas⟩ := hfollows.exists_served hfree (t := ballBelowStop) rfl
  refine ⟨made_ballAlone, made_ballBelowStop, y.results, c, y.problem, hrun, hhas.problem,
    constraints_ballAlone hfollows, Array.mem_singleton.mpr rfl, rfl, ?_⟩
  rw [hsetting]
  exact (Vec.get_zeros ..).trans_lt one_pos

end Simulator

end CompliantContact
