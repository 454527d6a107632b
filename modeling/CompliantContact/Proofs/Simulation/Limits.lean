import CompliantContact.Proofs.Mechanism.Limits
import CompliantContact.Proofs.Simulation.ConstraintVelocities

/-!
The limits of joints in the problem of a step.

The settings of a simulator are in range, and the limits of its joints in order. So whichever of the
limits of a joint are kept, the constraint for them is accepted, and its block is as wide as the tree of
the joint.
-/

namespace CompliantContact

open Outcome

/-- Settings that passed their checks. -/
structure Config.InRange (config : Config ℝ) : Prop where
  timeStep : 0 < config.timeStep
  defaultStiffness : 0 < config.defaultContactStiffness
  beta : 0 < config.contact.beta
  sigma : 0 < config.contact.sigma
  windowFactor : 0 ≤ config.jointLimits.windowFactor
  limitStiffness : 0 < config.jointLimits.stiffness
  limitBeta : 0 < config.jointLimits.beta
  couplerBeta : 0 < config.couplerBeta

theorem Config.inRange_of_validate {config : Config ℝ} (h : config.validate = .ok ()) : config.InRange := by
  simp only [validate, require_bind_eq_ok_iff] at h
  obtain ⟨⟨-, htimeStep⟩, ⟨hdefault, -⟩, ⟨hbeta, hsigma⟩, ⟨hwindow, -⟩, ⟨hstiffness, hlimitBeta⟩,
    hcoupler, -⟩ := h
  exact ⟨not_le.mp htimeStep, hdefault, hbeta, hsigma, hwindow, hstiffness, hlimitBeta, hcoupler⟩

namespace Simulator

variable {s : Simulator ℝ} {x : State ℝ} {joint : Joint ℝ} {limits : Option (LimitParameters ℝ)}
    {lower upper : Option ℝ}

theorem Made.settings (h : s.Made) : s.config.InRange := by
  induction h with
  | new _ h =>
    simp only [Simulator.new, bind_eq_ok_iff] at h
    obtain ⟨_, hvalid, _, -, h⟩ := h
    cases h
    exact Config.inRange_of_validate hvalid
  | coupled _ ht ih =>
    obtain rfl := addCoupler_eq_ok ht
    exact ih
  | registered _ ht ih =>
    obtain rfl := registerDeformable_eq_ok ht
    exact ih

theorem Made.limited (h : s.Made) : ∀ joint ∈ s.model.joints, joint.Limited := by
  obtain ⟨_, _, hbuild⟩ := h.exists_build
  exact Mechanism.build_limited hbuild

/-! ### Limits that are kept -/

/-- The parameters of a limit with given bounds, none if both are absent. -/
noncomputable def limitsBetween (s : Simulator ℝ) (lower upper : Option ℝ) : Option (LimitParameters ℝ) :=
  if Bound.isInfinite lower && Bound.isInfinite upper then none
  else some {
    lower
    upper
    stiffness := s.config.jointLimits.stiffness
    dissipationTime := s.timeStep
    beta := s.config.jointLimits.beta }

/-- All limits of a joint, wherever it stands. -/
noncomputable def allLimits (s : Simulator ℝ) (joint : Joint ℝ) : Option (LimitParameters ℝ) :=
  s.limitsBetween (joint.lowerLimits.getD 0 none) (joint.upperLimits.getD 0 none)

/-- The lower end of the window around the position of a joint. -/
noncomputable def windowLower (s : Simulator ℝ) (q0 v0 vFree : ℝ) : ℝ :=
  q0 - s.config.jointLimits.windowFactor * (s.timeStep * max |v0| |vFree|)

noncomputable def windowUpper (s : Simulator ℝ) (q0 v0 vFree : ℝ) : ℝ :=
  q0 + s.config.jointLimits.windowFactor * (s.timeStep * max |v0| |vFree|)

theorem windowedLimits_eq (s : Simulator ℝ) (joint : Joint ℝ) (q0 v0 vFree : ℝ) :
    s.windowedLimits joint q0 v0 vFree =
    s.limitsBetween ((joint.lowerLimits.getD 0 none).filter fun l => ¬ l < s.windowLower q0 v0 vFree)
      ((joint.upperLimits.getD 0 none).filter fun u => ¬ s.windowUpper q0 v0 vFree < u) := by
  simp only [windowedLimits, limitsBetween, windowLower, windowUpper, ← Scalar.larger_eq_max,
    ← Scalar.abs_eq_abs]

/-- The limit constraint of a joint, with given parameters. -/
noncomputable def limitConstraintOf (s : Simulator ℝ) (x : State ℝ) (joint : Joint ℝ)
    (limits : Option (LimitParameters ℝ)) :
    Outcome ℝ (Option (Constraint ℝ)) :=
  if ¬ joint.hasFiniteLimits then .ok none
  else do
    require (joint.dofs = 1) (.unsupportedJointLimits joint.name)
    match s.model.layout.locate? joint.velocityStart with
    | none => .error (.structural (.velocityWithoutTree joint.velocityStart joint.name))
    | some (tree, treeDof) =>
      match limits with
      | none => return none
      | some p =>
        return some (← Constraint.limit tree treeDof (s.model.layout.size tree)
          (x.positions joint.velocityStart) p)

theorem limitConstraint_eq (s : Simulator ℝ) (x : State ℝ) (vFree : Vec ℝ) (joint : Joint ℝ) :
    s.limitConstraint x vFree joint =
      s.limitConstraintOf x joint (s.windowedLimits joint (x.positions joint.velocityStart)
      (x.velocities joint.velocityStart) (vFree joint.velocityStart)) := by
  rw [limitConstraint, limitConstraintOf]
  split
  · rfl
  · refine congrArg _ (funext fun _ => ?_)
    dsimp only
    cases s.model.layout.locate? joint.velocityStart with
    | none => rfl
    | some found =>
      cases s.windowedLimits joint (x.positions joint.velocityStart) (x.velocities joint.velocityStart)
        (vFree joint.velocityStart) <;> rfl

/-- Limits that the simulator may ask for. -/
structure Allows (s : Simulator ℝ) (p : LimitParameters ℝ) : Prop where
  ordered : Bound.ordered p.lower p.upper = true
  side : p.lower.isSome = true ∨ p.upper.isSome = true
  stiffness : p.stiffness = s.config.jointLimits.stiffness
  dissipationTime : p.dissipationTime = s.timeStep
  beta : p.beta = s.config.jointLimits.beta

theorem isInfinite_eq (bound : Option ℝ) : Bound.isInfinite bound = bound.isNone := by
  cases bound with
  | none => rfl
  | some x => simp [Bound.isInfinite]

theorem limitsBetween_eq_some {p : LimitParameters ℝ} (h : s.limitsBetween lower upper = some p) :
    p = ⟨lower, upper, s.config.jointLimits.stiffness, s.timeStep, s.config.jointLimits.beta⟩ := by
  rw [limitsBetween] at h
  split at h
  · cases h
  · exact (Option.some.inj h).symm

theorem limitsBetween_allows {p : LimitParameters ℝ} (hordered : Bound.ordered lower upper = true)
    (h : s.limitsBetween lower upper = some p) : s.Allows p := by
  obtain rfl := limitsBetween_eq_some h
  refine ⟨hordered, ?_, rfl, rfl, rfl⟩
  cases lower with
  | some l => exact .inl rfl
  | none => cases upper with
    | some u => exact .inr rfl
    | none => cases h

/-- Bounds in order stay so where some are left out. -/
theorem ordered_filter (f g : ℝ → Bool) (h : Bound.ordered lower upper = true) :
    Bound.ordered (lower.filter f) (upper.filter g) = true := by
  have hself : ∀ b : Option ℝ, Bound.ordered b none = true ∧ Bound.ordered none b = true := fun b => by
    cases b <;> simp [Bound.ordered]
  cases lower with
  | none => exact (hself _).2
  | some l => cases upper with
    | none => exact (hself _).1
    | some u =>
      rw [Option.filter_some, Option.filter_some]
      split_ifs
      · exact h
      · exact (hself _).1
      · exact (hself _).2
      · rfl

theorem allLimits_allows {p : LimitParameters ℝ} (hlimited : joint.Limited)
    (h : s.allLimits joint = some p) : s.Allows p :=
  limitsBetween_allows (hlimited.ordered 0) h

theorem windowedLimits_allows {p : LimitParameters ℝ} {q0 v0 vFree : ℝ} (hlimited : joint.Limited)
    (h : s.windowedLimits joint q0 v0 vFree = some p) : s.Allows p := by
  rw [windowedLimits_eq] at h
  exact limitsBetween_allows (ordered_filter _ _ (hlimited.ordered 0)) h

end Simulator

/-- Limits in range on a velocity of a tree make a constraint. -/
theorem Constraint.exists_limit {t : TreeIndex} {place size : ℕ} {p : LimitParameters ℝ} (q0 : ℝ)
    (hplace : place < size)
    (hordered : Bound.ordered p.lower p.upper = true) (hside : p.lower.isSome = true ∨ p.upper.isSome = true)
    (hstiffness : 0 < p.stiffness) (hdissipation : 0 ≤ p.dissipationTime) (hbeta : 0 < p.beta) :
    ∃ c, limit t place size q0 p = .ok c := by
  have hsides : limitSides q0 p ≠ [] := by
    rw [limitSides_real]
    rcases hside with hside | hside
    · obtain ⟨l, hl⟩ := Option.isSome_iff_exists.mp hside
      simp [hl]
    · obtain ⟨u, hu⟩ := Option.isSome_iff_exists.mp hside
      simp [hu]
  refine ⟨⟨.limit q0 p, .ofList ((limitSides q0 p).map Prod.fst),
      ⟨t, .ofFn (limitSides q0 p).length size fun i j =>
    if j = place then Vec.ofList ((limitSides q0 p).map Prod.snd) i else 0⟩, none⟩, ?_⟩
  rw [limit, require_bind_eq_ok_iff, require_bind_eq_ok_iff, bind_eq_ok_iff]
  refine ⟨hplace, ⟨hordered, hstiffness, hdissipation⟩, (), require_eq_ok_iff.mpr ⟨hbeta, rfl⟩, ?_⟩
  simp only [require_bind_eq_ok_iff]
  exact ⟨hsides, rfl⟩

namespace Simulator

variable {s : Simulator ℝ} {x : State ℝ} {joint : Joint ℝ} {limits : Option (LimitParameters ℝ)}

/-- The tree of a joint with one degree of freedom. -/
theorem Made.exists_place (hmade : s.Made) (hj : joint ∈ s.model.joints) (hone : joint.dofs = 1) :
    joint.velocityStart < s.model.numVelocities ∧ ∃ t, s.model.layout.Within t joint.velocityStart ∧
      s.model.layout.locate? joint.velocityStart =
        some (t, joint.velocityStart - s.model.layout.start t) := by
  obtain ⟨i, hi⟩ := Array.mem_iff_getElem?.mp hj
  have hlt := hmade.laidOut.lt ⟨i⟩ joint _ hi (velocityStart_moves hone)
  obtain ⟨t, ht, hwithin⟩ := hmade.laidOut.located _ hlt
  exact ⟨hlt, t, hwithin, by rw [TreeLayout.locate?, ht]; rfl⟩

/-- Whichever limits are kept, the constraint of a joint is accepted. -/
theorem Made.exists_limitConstraint (hmade : s.Made) (hj : joint ∈ s.model.joints)
    (hone : joint.hasFiniteLimits = true → joint.dofs = 1) (hlimits : ∀ p, limits = some p → s.Allows p) :
    ∃ o, s.limitConstraintOf x joint limits = .ok o := by
  by_cases hfinite : joint.hasFiniteLimits = true
  · obtain ⟨-, t, hwithin, hlocate⟩ := hmade.exists_place hj (hone hfinite)
    rw [limitConstraintOf, if_neg (not_not.mpr hfinite)]
    simp only [hlocate]
    cases limits with
    | none => exact ⟨none, require_bind_eq_ok_iff.mpr ⟨hone hfinite, rfl⟩⟩
    | some p =>
      have hallows := hlimits p rfl
      have hplace : joint.velocityStart - s.model.layout.start t < s.model.layout.size t := by
        obtain ⟨hfirst, hlast⟩ := hwithin
        omega
      obtain ⟨c, hc⟩ := Constraint.exists_limit (t :=
        t) (x.positions joint.velocityStart) hplace hallows.ordered hallows.side
        (hallows.stiffness ▸ hmade.settings.limitStiffness)
        (hallows.dissipationTime ▸ hmade.settings.timeStep.le) (hallows.beta ▸ hmade.settings.limitBeta)
      exact ⟨some c, require_bind_eq_ok_iff.mpr ⟨hone hfinite, bind_eq_ok_iff.mpr ⟨c, hc, rfl⟩⟩⟩
  · exact ⟨none, if_pos hfinite⟩

/-- What the limit constraint of a joint is made from. -/
theorem Made.limitConstraintOf_eq_ok (hmade : s.Made) (hj : joint ∈ s.model.joints)
    {o : Option (Constraint ℝ)}
    (h : s.limitConstraintOf x joint limits = .ok o) : (joint.hasFiniteLimits = false ∧ o = none) ∨
      (joint.hasFiniteLimits = true ∧ joint.dofs = 1 ∧ ∃ t, s.model.layout.Within t joint.velocityStart ∧
        ((limits = none ∧ o = none) ∨ ∃ p c, limits = some p ∧ o = some c ∧
          Constraint.limit t (joint.velocityStart - s.model.layout.start t) (s.model.layout.size t)
            (x.positions joint.velocityStart) p = .ok c)) := by
  rw [limitConstraintOf] at h
  split at h
  · rename_i hfinite
    cases h
    exact .inl ⟨Bool.not_eq_true _ ▸ hfinite, rfl⟩
  · rename_i hfinite
    obtain ⟨hone, h⟩ := require_bind_eq_ok_iff.mp h
    obtain ⟨-, t, hwithin, hlocate⟩ := hmade.exists_place hj hone
    refine .inr ⟨not_not.mp hfinite, hone, t, hwithin, ?_⟩
    simp only [hlocate] at h
    cases limits with
    | none =>
      cases h
      exact .inl ⟨rfl, rfl⟩
    | some p =>
      obtain ⟨c, hc, h⟩ := bind_eq_ok_iff.mp h
      cases h
      exact .inr ⟨p, c, rfl, rfl, hc⟩

/-! ### Trees of the problem -/

theorem map_rows_linearDynamics {k : PositionKinematics ℝ} {dynamics : List (Mat ℝ)}
    (h : s.linearDynamics x k = .ok dynamics) :
    dynamics.map Mat.rows = s.model.layout.sizes.toList := by
  rw [linearDynamics, bind_eq_ok_iff] at h
  obtain ⟨mass, -, h⟩ := h
  rw [← Except.ok.inj h, List.map_map, ← TreeLayout.map_size_trees]
  rfl

end Simulator

/-- A block as wide as its tree of the layout fits a problem with the trees of the layout. -/
theorem Problem.fits_of_layout {p : Problem ℝ} {layout : TreeLayout} {b : JacobianBlock ℝ}
    (hsizes : p.dynamics.toList.map Mat.rows = layout.sizes.toList) (ht : b.tree ∈ layout.trees)
    (hcols : b.jacobian.cols = layout.size b.tree) : p.Fits b := by
  obtain ⟨t, ht, heq⟩ := List.mem_map.mp ht
  have htree : b.tree.val = t := (congrArg TreeIndex.val heq).symm
  have hlength : p.dynamics.size = layout.sizes.size := by
    have hlength := congrArg List.length hsizes
    rwa [List.length_map, Array.length_toList, Array.length_toList] at hlength
  refine ⟨?_, hcols.trans ?_⟩
  · rw [htree, numTrees, hlength]
    exact List.mem_range.mp ht
  · have hentry := congrArg (fun sizes : List ℕ => sizes[b.tree.val]?) hsizes
    simp only [List.getElem?_map, Array.getElem?_toList] at hentry
    rw [TreeLayout.size, treeSize, Array.getD_eq_getD_getElem?, hentry]

/-- The block of a limit is as wide as the tree of the joint. -/
theorem Constraint.limit_fits {p : Problem ℝ} {layout : TreeLayout} {t : TreeIndex} {d place : ℕ}
    {q0 : ℝ} {q : LimitParameters ℝ}
    {c : Constraint ℝ} (hsizes : p.dynamics.toList.map Mat.rows = layout.sizes.toList)
    (hd : layout.Within t d)
    (h : limit t place (layout.size t) q0 q = .ok c) : ∀ b ∈ c.blocks, p.Fits b := by
  rw [(limit_blocks h).2]
  intro b hb
  rw [List.mem_singleton.mp hb]
  exact Problem.fits_of_layout hsizes hd.mem_trees (Mat.cols_ofFn ..)

end CompliantContact
