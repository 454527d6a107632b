import CompliantContact.Proofs.Contact.Frame
import CompliantContact.Proofs.Dense.Cholesky
import CompliantContact.Proofs.Dense.Solve
import CompliantContact.Proofs.Space.Algebra

/-!
Mechanisms at rest.

Where no velocity differs from zero, the motion asks for no forces, and without other forces nothing
accelerates, in whatever configuration.
-/

namespace CompliantContact

open Outcome

namespace Columns

theorem transposeMulVec_zero (c : Columns ℝ) (i : ℕ) : c.transposeMulVec 0 i = 0 := by
  rw [transposeMulVec, Vec.get_ofFn]
  split_ifs
  · simp [Vec3.dot]
  · rfl

theorem add_transposeMulVec_zero (v : Vec ℝ) (c : Columns ℝ) : v + c.transposeMulVec 0 = v := by
  refine Vec.ext Vec.size_add fun i hi => ?_
  have hi : i < v.size := by rwa [Vec.size_add] at hi
  refine (Vec.get_ofFn_of_lt hi).trans ?_
  rw [transposeMulVec_zero, add_zero]

end Columns

/-! ### Forces of the motion -/

namespace Mechanism

variable {m : Mechanism ℝ} {k : PositionKinematics ℝ}

theorem relativeVelocity_rest (frame : Pose ℝ) (kind : JointKind ℝ) :
    relativeVelocity frame kind (fun _ => 0) = (0, 0) := by
  cases kind with
  | weld => rfl
  | revolute a => simp [relativeVelocity]
  | prismatic a => simp [relativeVelocity]
  | translational =>
    have hzero : (⟨0, 0, 0⟩ : Vec3 ℝ) = 0 := rfl
    simp [relativeVelocity, hzero]

theorem childMotion_rest (r : Vec3 ℝ) : childMotion .rest r 0 0 = .rest := by
  simp [childMotion, BiasMotion.rest]

/-- No body moves. -/
theorem biasMotions_rest (m : Mechanism ℝ) (k : PositionKinematics ℝ) (n i : ℕ) :
    (m.biasMotions k (.zeros n)).getD i .rest = .rest := by
  have hstep : ∀ (bodies : List BodyIndex) (motions : Array (BiasMotion ℝ)),
    (∀ i, motions.getD i .rest = .rest) →
      ∀ i, (bodies.foldl (m.placeMotion k (.zeros n)) motions).getD i .rest = .rest := by
    intro bodies
    induction bodies with
    | nil => exact fun _ h => h
    | cons b bodies ih =>
      intro motions h
      refine ih _ fun i => ?_
      rw [placeMotion]
      split
      · rw [getD_push]
        split
        · rfl
        · exact h i
      · rename_i j joint hjoint
        simp only [Vec.get_zeros, relativeVelocity_rest, h, childMotion_rest]
        rw [getD_push]
        split
        · rfl
        · exact h i
  refine hstep _ _ (fun i => ?_) i
  cases i with
  | zero => rfl
  | succ i => rfl

theorem addBiasForces_rest {motions : Array (BiasMotion ℝ)} (h : ∀ i, motions.getD i .rest = .rest)
    (acc : Vec ℝ) (b : BodyIndex) (body : Body ℝ) : m.addBiasForces k motions acc b body = acc := by
  simp only [addBiasForces, h]
  simp only [BiasMotion.rest, Vec3.zero_cross, Mat3.mulVec_zero, Vec3.add_zero, Vec3.zero_mul,
    Columns.add_transposeMulVec_zero]

theorem biasForces_rest (m : Mechanism ℝ) (k : PositionKinematics ℝ) :
    m.biasForces k (.zeros m.numVelocities) = .ok (.zeros m.numVelocities) := by
  have hnone : ∀ bodies : List (BodyIndex × Body ℝ), bodies.foldl (fun acc (b, body) =>
      m.addBiasForces k (m.biasMotions k (.zeros m.numVelocities)) acc b body) (.zeros m.numVelocities) =
        .zeros m.numVelocities := by
    intro bodies
    induction bodies with
    | nil => rfl
    | cons found bodies ih =>
      obtain ⟨b, body⟩ := found
      rw [List.foldl_cons]
      dsimp only
      rw [addBiasForces_rest (m.biasMotions_rest k _)]
      exact ih
  rw [biasForces, bind_eq_ok_iff]
  exact ⟨(), requireSize_eq_ok_iff.mpr (Vec.size_zeros _).symm, congrArg Except.ok (hnone _)⟩

/-! ### Accelerations -/

theorem generalizedForces_zero (m : Mechanism ℝ) (k : PositionKinematics ℝ) :
    m.generalizedForces k (.zero m) = .ok (.zeros m.numVelocities) := by
  have hsized : (Forces.zero m).sizedFor m = true := by simp [Forces.sizedFor, Forces.zero]
  have hbody : ∀ b : BodyIndex, (Forces.zero m).bodies.getD b.val 0 = 0 := by
    intro b
    rw [Forces.zero, Array.getD_eq_getD_getElem?, Array.getElem?_replicate]
    split <;> rfl
  have hisZero : (0 : SpatialForce ℝ).isZero = true := by
    have hzero : (0 : SpatialForce ℝ) = ⟨0, 0⟩ := rfl
    simp [hzero, SpatialForce.isZero, Vec3.isZero, Scalar.isZero]
  have hnone : ∀ bodies : List BodyIndex, (bodies.map fun b => (b, (Forces.zero m).bodies.getD b.val 0)).foldl
      (m.spatialForceTerm k) (.zeros m.numVelocities) = .zeros m.numVelocities := by
    intro bodies
    induction bodies with
    | nil => rfl
    | cons b bodies ih =>
      rw [List.map_cons, List.foldl_cons, spatialForceTerm, hbody, if_pos hisZero]
      exact ih
  rw [generalizedForces, require_bind_eq_ok_iff]
  exact ⟨hsized, congrArg Except.ok (hnone _)⟩

end Mechanism

theorem Vec.concat_zero {vs : List (Vec ℝ)} (h : ∀ v ∈ vs, ∀ i, v i = 0) (i : ℕ) : concat vs i = 0 := by
  induction vs generalizing i with
  | nil => exact get_of_size_le (Nat.zero_le i)
  | cons v vs ih =>
    rw [concat_cons, get_append]
    split_ifs
    · exact h v (List.mem_cons_self ..) i
    · exact ih (fun w hw => h w (List.mem_cons_of_mem _ hw)) _

namespace Mechanism

variable {m : Mechanism ℝ} {k : PositionKinematics ℝ}

/-- Joints with nothing but zeros. -/
theorem gather_zero {m : Mechanism ℝ} {field : Joint ℝ → Vec ℝ}
    (h : ∀ joint ∈ m.joints.toList, ∀ i, field joint i = 0) :
    m.gather field = .zeros m.numVelocities := by
  have hset : ∀ (joint : Joint ℝ) (indices : List ℕ), (∀ i, field joint i = 0) →
      indices.foldl (fun out i => out.setIfInBounds (joint.velocityStart + i) (field joint i))
        (Array.replicate m.numVelocities 0) = Array.replicate m.numVelocities 0 := by
    intro joint indices hzero
    induction indices with
    | nil => rfl
    | cons i indices ih => rw [List.foldl_cons, hzero i, Array.setIfInBounds_replicate_self, ih]
  have hall : ∀ joints : List (Joint ℝ), (∀ joint ∈ joints, ∀ i, field joint i = 0) →
      joints.foldl (fun out joint => (List.range (field joint).size).foldl
        (fun out i => out.setIfInBounds (joint.velocityStart + i) (field joint i)) out)
          (Array.replicate m.numVelocities 0) = Array.replicate m.numVelocities 0 := by
    intro joints hzero
    induction joints with
    | nil => rfl
    | cons joint joints ih =>
      rw [List.foldl_cons, hset joint _ (hzero joint (List.mem_cons_self ..))]
      exact ih fun other hother => hzero other (List.mem_cons_of_mem _ hother)
  rw [gather]
  dsimp only
  rw [← Array.foldl_toList, hall _ h]
  refine Vec.ext ?_ fun i hi => ?_
  · rw [Vec.size_zeros]
    exact Array.size_replicate
  · rw [Vec.get_zeros, Vec.get, Array.getD_eq_getD_getElem?, Array.getElem?_replicate]
    split <;> rfl

/-- Without forces nothing accelerates. -/
theorem forwardDynamics_rest (m : Mechanism ℝ) (k : PositionKinematics ℝ) (addedInertia : Vec ℝ)
    (hsize : addedInertia.size = m.numVelocities)
    (hfactor : ∀ t ∈ m.layout.trees, ∃ l, Cholesky.factor?
      (((m.rigidMassMatrix k).addDiagonal addedInertia).diagonalBlock (m.layout.start t)
        (m.layout.size t)) = some l) :
    ∃ a, m.forwardDynamics k (.zeros m.numVelocities) addedInertia (.zero m) = .ok a ∧ ∀ i, a i = 0 := by
  have hrhs : ∀ i, ((.zeros m.numVelocities : Vec ℝ) - .zeros m.numVelocities) i = 0 := by
    intro i
    show Vec.ofFn (Vec.zeros m.numVelocities).size (fun i => (Vec.zeros m.numVelocities : Vec ℝ) i - _) i = 0
    rw [Vec.get_ofFn]
    simp
  have htrees : ∀ trees : List TreeIndex, (∀ t ∈ trees, t ∈ m.layout.trees) → ∃ parts, trees.mapM (m.solveTree
      ((m.rigidMassMatrix k).addDiagonal addedInertia)
      (.zeros m.numVelocities - .zeros m.numVelocities)) = .ok parts ∧
        ∀ v ∈ parts, ∀ i, v i = 0 := by
    intro trees
    induction trees with
    | nil => exact fun _ => ⟨[], rfl, nofun⟩
    | cons t trees ih =>
      intro hsub
      obtain ⟨l, hl⟩ := hfactor t (hsub t (List.mem_cons_self ..))
      obtain ⟨parts, hparts, hzero⟩ := ih fun u hu => hsub u (List.mem_cons_of_mem _ hu)
      refine ⟨Cholesky.solve l
        ((.zeros m.numVelocities - .zeros m.numVelocities : Vec ℝ).slice
          (m.layout.start t) (m.layout.size t)) :: parts, ?_, fun v hv => ?_⟩
      · rw [List.mapM_cons, bind_eq_ok_iff]
        refine ⟨_, ?_, bind_eq_ok_iff.mpr ⟨parts, hparts, rfl⟩⟩
        simp only [solveTree, hl]
      · rcases List.mem_cons.mp hv with rfl | hv
        · refine Cholesky.solve_zero l fun i => ?_
          rw [Vec.slice, Vec.get_ofFn]
          split_ifs
          · exact hrhs _
          · rfl
        · exact hzero v hv
  obtain ⟨parts, hparts, hzero⟩ := htrees _ fun _ h => h
  refine ⟨.concat parts, ?_, Vec.concat_zero hzero⟩
  rw [forwardDynamics, bind_eq_ok_iff]
  refine ⟨(), requireSize_eq_ok_iff.mpr hsize.symm, ?_⟩
  rw [generalizedForces_zero, biasForces_rest]
  exact bind_eq_ok_iff.mpr ⟨_, rfl, bind_eq_ok_iff.mpr ⟨_, rfl, bind_eq_ok_iff.mpr ⟨parts, hparts, rfl⟩⟩⟩

end Mechanism

end CompliantContact
