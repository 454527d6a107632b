import CompliantContact.Proofs.Contact.Registry
import CompliantContact.Proofs.Simulation.FreeMotion

/-!
The sizes of what a context holds.

Whoever has made and used a context: its parameters and the actuation that is fixed in it have an entry
for each of its velocities, because every change is checked for that. So where a simulator accepts a
context, no size is in the way of the free accelerations and the linear dynamics. What can fail is that
a mass matrix is not positive definite.
-/

namespace CompliantContact

open Outcome

variable {α : Type}

/-! ### Settings -/

/-- The parameters and the fixed actuation have an entry for each velocity. -/
structure Setting.Sized (c : Setting α) : Prop where
  damping : c.state.damping.size = c.state.velocities.size
  reflectedInertia : c.state.reflectedInertia.size = c.state.velocities.size
  fixed : ∀ tau, c.actuation = .fixed tau → tau.size = c.state.velocities.size

variable [Scalar α]

/-- A change that is not refused keeps the sizes. -/
theorem Setting.Sized.next {c : Setting α} {x : Change α} (h : c.Sized) (hx : x.check c = .ok ()) :
    Sized (x.next c) := by
  cases x with
  | time t => exact ⟨h.damping, h.reflectedInertia, h.fixed⟩
  | discreteState x =>
    have hsize : (x.slice c.state.positions.size c.state.velocities.size).size =
      c.state.velocities.size := Vec.size_ofFn ..
    exact ⟨h.damping.trans hsize.symm, h.reflectedInertia.trans hsize.symm,
      fun tau htau => (h.fixed tau htau).trans hsize.symm⟩
  | positions x => exact ⟨h.damping, h.reflectedInertia, h.fixed⟩
  | velocities v =>
    have hsize : c.state.velocities.size = v.size := requireSize_eq_ok_iff.mp hx
    exact ⟨h.damping.trans hsize, h.reflectedInertia.trans hsize,
      fun tau htau => (h.fixed tau htau).trans hsize⟩
  | damping d =>
    obtain ⟨_, hsize, -⟩ := bind_eq_ok_iff.mp hx
    exact ⟨(requireSize_eq_ok_iff.mp hsize).symm, h.reflectedInertia, h.fixed⟩
  | reflectedInertia d =>
    obtain ⟨_, hsize, -⟩ := bind_eq_ok_iff.mp hx
    exact ⟨h.damping, (requireSize_eq_ok_iff.mp hsize).symm, h.fixed⟩
  | fixActuation tau =>
    refine ⟨h.damping, h.reflectedInertia, fun tau' htau => ?_⟩
    cases htau
    exact (requireSize_eq_ok_iff.mp hx).symm
  | connectActuation source => exact ⟨h.damping, h.reflectedInertia, nofun⟩
  | clearActuation => exact ⟨h.damping, h.reflectedInertia, nofun⟩

/-- What joints have for each degree of freedom is gathered into one entry for each velocity. -/
theorem Mechanism.size_gather (m : Mechanism α) (field : Joint α → Vec α) :
    (m.gather field).size = m.numVelocities := by
  have hset : ∀ (joint : Joint α) (indices : List ℕ) (out : Array α),
      (indices.foldl (fun out i => out.setIfInBounds (joint.velocityStart + i) (field joint i))
        out).size = out.size := by
    intro joint indices
    induction indices with
    | nil => exact fun _ => rfl
    | cons i indices ih => exact fun out => (ih _).trans Array.size_setIfInBounds
  rw [gather, Vec.size]
  refine Array.foldl_induction (motive := fun _ (out : Array α) => out.size = m.numVelocities)
    Array.size_replicate ?_
  exact fun i out ih => (hset m.joints[i] _ out).trans ih

theorem Context.Reachable.sized {c : Context α} (h : c.Reachable) : c.toSetting.Sized := by
  induction h with
  | created s =>
    have hvelocities : s.defaultContext.state.velocities.size = s.model.numVelocities := Vec.size_zeros _
    exact ⟨(Mechanism.size_gather ..).trans hvelocities.symm,
      (Mechanism.size_gather ..).trans hvelocities.symm, nofun⟩
  | @performed s op c _ ih =>
    cases op with
    | change x =>
      rw [Operation.perform_change]
      cases hx : x.check c.toSetting with
      | error e => exact ih
      | ok u => exact ih.next hx
    | ask q => exact ih
    | advance =>
      rw [Operation.perform]
      cases hw : s.evalNextState c.toSetting c.cache with
      | mk r cache =>
        cases r with
        | error e =>
          rw [Simulator.advance_of_error hw]
          exact ih
        | ok x =>
          rw [Simulator.advance_of_ok hw, Direct.commit]
          cases hx : Change.check c.toSetting (.discreteState x) with
          | error e => exact ih
          | ok u => exact Setting.Sized.next (x := .time (c.time + s.timeStep)) (ih.next hx) rfl
    | clone => exact ih
    | invalidateAll => exact ih

/-! ### Forces -/

omit [Scalar α] in
theorem Forces.sizedFor_iff {f : Forces α} {m : Mechanism α} :
    f.sizedFor m = true ↔ f.generalized.size = m.numVelocities ∧ f.bodies.size = m.numBodies := by
  rw [sizedFor, Bool.and_eq_true_iff, beq_iff_eq, beq_iff_eq]

/-- The laws of forces that come with the library. -/
inductive ForceElement.BuiltIn : ForceElement ℝ → Prop where
  | gravity (g : Vec3 ℝ) : BuiltIn (.gravity g)
  | spring (j : JointIndex) (stiffness rest : ℝ) : BuiltIn (.spring j stiffness rest)

/-- A law that leaves the sizes of the forces that it adds to. -/
def ForceElement.KeepsSizes (e : ForceElement α) : Prop :=
  ∀ (m : Mechanism α) k q v (f : Forces α), f.sizedFor m = true → (e.addForces m k q v f).sizedFor m = true

section
variable {m : Mechanism α} {k : PositionKinematics α} {q v : Vec α} {f : Forces α}

theorem ForceElement.addWeight_sizedFor (g : Vec3 α) (h : f.sizedFor m = true) (b : BodyIndex) :
    (addWeight m g k f b).sizedFor m = true := by
  rw [addWeight]
  split
  · exact h
  · split
    · exact h
    · obtain ⟨hgeneralized, hbodies⟩ := Forces.sizedFor_iff.mp h
      exact Forces.sizedFor_iff.mpr ⟨hgeneralized, Array.size_modify.trans hbodies⟩

theorem ForceElement.keepsSizes_gravity (g : Vec3 α) : (gravity g).KeepsSizes := by
  intro m k q v f h
  show (m.movableBodies.foldl (addWeight m g k) f).sizedFor m = true
  generalize m.movableBodies = bodies
  induction bodies generalizing f with
  | nil => exact h
  | cons b bodies ih => exact ih _ (addWeight_sizedFor g h b)

theorem ForceElement.keepsSizes_spring (j : JointIndex) (stiffness rest : α) :
    (spring j stiffness rest).KeepsSizes := by
  intro m k q v f h
  dsimp only [ForceElement.spring]
  cases m.joint? j with
  | none => exact h
  | some joint =>
    obtain ⟨hgeneralized, hbodies⟩ := Forces.sizedFor_iff.mp h
    exact Forces.sizedFor_iff.mpr ⟨(Vec.size_ofFn ..).trans hgeneralized, hbodies⟩

omit [Scalar α] in
theorem Model.addElementForces_sizedFor {model : Model α} (helements : ∀ e ∈ model.elements, e.KeepsSizes)
    (h : f.sizedFor model.toMechanism = true) :
    (model.addElementForces k q v f).sizedFor model.toMechanism = true := by
  rw [addElementForces]
  generalize model.elements = elements at helements
  induction elements generalizing f with
  | nil => exact h
  | cons e elements ih =>
    exact ih (helements e (List.mem_cons_self ..) _ _ _ _ _ h) fun e' he' =>
      helements e' (List.mem_cons_of_mem _ he')

theorem ForceElement.BuiltIn.keepsSizes {e : ForceElement ℝ} (he : e.BuiltIn) : e.KeepsSizes := by
  cases he with
  | gravity g => exact keepsSizes_gravity g
  | spring j stiffness rest => exact keepsSizes_spring j stiffness rest

/-! ### Free accelerations and linear dynamics -/

/-- With forces and inertia for every velocity, only a mass matrix can be in the way of forward dynamics. -/
theorem Mechanism.forwardDynamics_eq_error {added : Vec α} {e : Failure α} (hf : f.sizedFor m = true)
    (hv : v.size = m.numVelocities) (hadded : added.size = m.numVelocities)
    (h : m.forwardDynamics k v added f = .error e) :
    ∃ t ∈ m.layout.trees, e = .notPositiveDefinite ("mass matrix of " ++ toString t) := by
  have hforces : m.generalizedForces k f = .ok _ := require_bind_eq_ok_iff.mpr ⟨hf, rfl⟩
  have hbias : m.biasForces k v = .ok _ := bind_eq_ok_iff.mpr ⟨(), requireSize_eq_ok_iff.mpr hv.symm, rfl⟩
  rw [forwardDynamics, requireVelocitySize, requireSize, require_bind_eq_error_iff] at h
  obtain ⟨-, h⟩ := h.resolve_left fun hnot => hnot.1 hadded.symm
  simp only [bind_eq_error_iff, hforces, hbias, reduceCtorEq, false_or] at h
  obtain ⟨_, -, _, -, h | ⟨_, -, h⟩⟩ := h
  · obtain ⟨t, ht, htree⟩ := exists_of_mapM_eq_error h
    refine ⟨t, ht, ?_⟩
    rw [solveTree] at htree
    split at htree
    · cases htree
      rfl
    · cases htree
  · cases h

end

namespace Simulator

variable {s : Simulator α} {x : State α} {k : PositionKinematics α} {tau : Vec α}

theorem appliedForces_sizedFor (helements : ∀ e ∈ s.model.elements, e.KeepsSizes) :
    (s.appliedForces x k tau).sizedFor s.model.toMechanism = true := by
  have hzero : (Forces.zero s.model.toMechanism).sizedFor s.model.toMechanism = true :=
    Forces.sizedFor_iff.mpr ⟨Vec.size_zeros _, Array.size_replicate⟩
  obtain ⟨hgeneralized, hbodies⟩ := Forces.sizedFor_iff.mp
    (Model.addElementForces_sizedFor (k := k) (q := x.positions) (v := x.velocities) helements hzero)
  refine Forces.sizedFor_iff.mpr ⟨?_, hbodies⟩
  show (_ - _ + _ : Vec α).size = _
  rw [Vec.size_add, Vec.size_sub, hgeneralized]

/-- In a state of the sizes of the model, only a mass matrix can be in the way of the free accelerations. -/
theorem isInternal_of_freeAccelerations {e : Failure α} (helements : ∀ e ∈ s.model.elements, e.KeepsSizes)
    (hvelocities : x.velocities.size = s.model.numVelocities)
    (hinertia : x.reflectedInertia.size = s.model.numVelocities)
    (h : s.freeAccelerations x k tau = .error e) : e.isInternal = false := by
  have hsized : (s.appliedForces x k tau).sizedFor s.model.toMechanism = true :=
    appliedForces_sizedFor helements
  rcases bind_eq_error_iff.mp h with h | ⟨a, -, h⟩
  · obtain ⟨t, -, rfl⟩ :=
      Mechanism.forwardDynamics_eq_error hsized hvelocities (Vec.size_add.trans hinertia) h
    rfl
  · have hforces : s.model.generalizedForces k (s.appliedForces x k tau) = .ok _ :=
      require_bind_eq_ok_iff.mpr ⟨hsized, rfl⟩
    rw [hforces] at h
    cases h

theorem exists_linearDynamics (hinertia : x.reflectedInertia.size = s.model.numVelocities) :
    ∃ ms, s.linearDynamics x k = .ok ms :=
  ⟨_, bind_eq_ok_iff.mpr ⟨_, bind_eq_ok_iff.mpr ⟨(), requireSize_eq_ok_iff.mpr hinertia.symm, rfl⟩, rfl⟩⟩

end Simulator

end CompliantContact
