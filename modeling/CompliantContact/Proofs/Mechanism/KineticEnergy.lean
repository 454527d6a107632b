import CompliantContact.Proofs.Dense.Definite
import CompliantContact.Proofs.Mechanism.Transport

/-!
The mass matrix and the kinetic energy.

At given velocities the form of the mass matrix is twice the kinetic energy: what the mass of each body
makes of the velocity of its center of mass, and its inertia of its angular velocity
(`Mechanism.quad_rigidMassMatrix`). So the matrix is positive semidefinite if no body has a negative
inertia about any axis, and with inertia added to every velocity it is positive definite, in the block
of each tree as well, where forward dynamics solves with it (`Model.build_massMatrix`).
-/

namespace CompliantContact

open Finset Outcome

/-! ### Columns -/

/-- Two vectors that velocities are taken to, by the products of the columns. -/
theorem Columns.mulVec_dot_mulVec (c d : Columns ℝ) (v : Vec ℝ) : (c.mulVec v).dot (d.mulVec v) =
    ∑ i ∈ range c.size, ∑ j ∈ range d.size, v i * (c i).dot (d j) * v j := by
  rw [Vec3.dot_comm, dot_mulVec]
  refine sum_congr rfl fun i _ => ?_
  rw [Vec3.dot_comm, dot_mulVec, sum_mul]
  refine sum_congr rfl fun j _ => ?_
  ring

/-! ### Energy -/

namespace Mechanism

theorem mulVec_worldInertia (q : Rotation ℝ) (inertia : Mat3 ℝ) (w : Vec3 ℝ) :
    (worldInertia q inertia).mulVec w = q.toMat3.mulVec (inertia.mulVec (q.toMat3.transposeMulVec w)) := by
  rw [worldInertia]
  generalize q.toMat3 = r
  show (Mat3.mul (Mat3.mul r inertia) r.transpose).mulVec w = _
  ext <;> simp [Mat3.mul, Mat3.mulVec, Mat3.transposeMulVec, Mat3.transpose, Mat3.ofRows, Vec3.dot] <;> ring

variable {m : Mechanism ℝ} {k : PositionKinematics ℝ} {b : BodyIndex}

/-- Twice the kinetic energy of a body. -/
noncomputable def twiceEnergy (m : Mechanism ℝ) (k : PositionKinematics ℝ) (v : Vec ℝ) (b : BodyIndex) : ℝ :=
  let u := (m.translationalJacobian k b (comPosition k b (m.bodyAt b))).mulVec v
  let w := (m.angularJacobian k b).mulVec v
  (m.bodyAt b).mass * u.dot u + w.dot ((worldInertia (k.bodyPose b).rotation (m.bodyAt b).inertia).mulVec w)

theorem twiceEnergy_nonneg (hmass : 0 ≤ (m.bodyAt b).mass) (hinertia : (m.bodyAt b).inertia.IsPSD)
    (v : Vec ℝ) :
    0 ≤ m.twiceEnergy k v b := by
  refine add_nonneg (mul_nonneg hmass (Vec3.dot_self_nonneg _)) ?_
  rw [mulVec_worldInertia, ← Mat3.transposeMulVec_dot]
  exact hinertia.nonneg _

@[simp] theorem size_momentum (k : PositionKinematics ℝ) (b : BodyIndex) (body : Body ℝ) :
    (m.massTerm k b body).momentum.size = m.numVelocities :=
  (Columns.size_ofFn ..).trans size_angularJacobian

/-- The columns of the momentum, all together. -/
theorem mulVec_momentum (k : PositionKinematics ℝ) (b : BodyIndex) (body : Body ℝ) (v : Vec ℝ) :
    (m.massTerm k b body).momentum.mulVec v =
      (worldInertia (k.bodyPose b).rotation body.inertia).transposeMulVec
        ((m.angularJacobian k b).mulVec v) := by
  refine Vec3.ext_dot fun u => ?_
  rw [Vec3.dot_comm u (Mat3.transposeMulVec ..), Mat3.transposeMulVec_dot,
    Vec3.dot_comm _ (Mat3.mulVec ..), Columns.dot_mulVec,
    Columns.dot_mulVec, size_momentum, size_angularJacobian]
  refine sum_congr rfl fun i _ => ?_
  rw [massTerm_momentum, Vec3.dot_comm, Mat3.transposeMulVec_dot, Vec3.dot_comm]

/-- What a body adds to the form of the mass matrix. -/
theorem sum_entry_massTerm (k : PositionKinematics ℝ) (b : BodyIndex) (v : Vec ℝ) :
    ∑ i ∈ range m.numVelocities, ∑ j ∈ range m.numVelocities,
    v i * (m.massTerm k b (m.bodyAt b)).entry i j * v j = m.twiceEnergy k v b := by
  have htranslational := (m.translationalJacobian k b (comPosition k b (m.bodyAt b))).mulVec_dot_mulVec
    (m.translationalJacobian k b (comPosition k b (m.bodyAt b))) v
  have hangular := (m.massTerm k b (m.bodyAt b)).momentum.mulVec_dot_mulVec (m.angularJacobian k b) v
  rw [size_translationalJacobian] at htranslational
  rw [mulVec_momentum, Mat3.transposeMulVec_dot, size_momentum, size_angularJacobian] at hangular
  rw [twiceEnergy, htranslational, hangular, mul_sum, ← sum_add_distrib]
  refine sum_congr rfl fun i _ => ?_
  rw [mul_sum, ← sum_add_distrib]
  refine sum_congr rfl fun j _ => ?_
  have hentry : (m.massTerm k b (m.bodyAt b)).entry i j =
      (m.translationalJacobian k b (comPosition k b (m.bodyAt b)) i).dot
        (m.translationalJacobian k b (comPosition k b (m.bodyAt b)) j) * (m.bodyAt b).mass +
      ((m.massTerm k b (m.bodyAt b)).momentum i).dot (m.angularJacobian k b j) := rfl
  rw [hentry]
  ring

/-- The form of a sum of matrices is the sum of their forms. -/
theorem sum_form_list {ι : Type} (n : ℕ) (v : ℕ → ℝ) (entry : ι → ℕ → ℕ → ℝ) (l : List ι) :
    ∑ i ∈ range n, ∑ j ∈ range n, v i * (l.map fun x => entry x i j).sum * v j =
      (l.map fun x => ∑ i ∈ range n, ∑ j ∈ range n, v i * entry x i j * v j).sum := by
  induction l with
  | nil => simp
  | cons x l ih =>
    simp only [List.map_cons, List.sum_cons, mul_add, add_mul, sum_add_distrib]
    rw [ih]

/-- The form of the mass matrix is twice the kinetic energy of all bodies. -/
theorem quad_rigidMassMatrix (m : Mechanism ℝ) (k : PositionKinematics ℝ) (v : Vec ℝ) :
    (m.rigidMassMatrix k).quad v = (m.movableBodies.map fun b => m.twiceEnergy k v b).sum := by
  have hentry : ∀ i ∈ range m.numVelocities, ∀ j ∈ range m.numVelocities, m.rigidMassMatrix k i j =
      (m.movableBodies.map fun b => (m.massTerm k b (m.bodyAt b)).entry i j).sum := by
    intro i hi j hj
    rw [rigidMassMatrix_get (mem_range.mp hi) (mem_range.mp hj), indexedBodies_eq, List.map_map]
    rfl
  calc (m.rigidMassMatrix k).quad v
      = ∑ i ∈ range m.numVelocities, ∑ j ∈ range m.numVelocities,
          v i * (m.movableBodies.map fun b => (m.massTerm k b (m.bodyAt b)).entry i j).sum * v j :=
        sum_congr rfl fun i hi => sum_congr rfl fun j hj => by rw [hentry i hi j hj]
    _ = _ := by
        rw [sum_form_list m.numVelocities v fun b => (m.massTerm k b (m.bodyAt b)).entry]
        simp only [sum_entry_massTerm]

/-- Bodies as they should be: none has a negative mass, or a negative inertia about any axis. -/
def Massive (m : Mechanism ℝ) : Prop := ∀ body ∈ m.bodies, 0 ≤ body.mass ∧ body.inertia.IsPSD

theorem Massive.isPSD_rigidMassMatrix (h : m.Massive) (k : PositionKinematics ℝ) :
    (m.rigidMassMatrix k).IsPSD where
  square := rfl
  symm := rigidMassMatrix_symm (fun body hbody => (h body hbody).2.symm) k
  nonneg x := by
    have hentry : ∀ i < m.numVelocities, x i = Vec.ofFn m.numVelocities x i := fun i hi =>
      (Vec.get_ofFn_of_lt hi).symm
    rw [Mat.quad_congr hentry, quad_rigidMassMatrix]
    refine List.sum_nonneg fun e he => ?_
    obtain ⟨b, hb, rfl⟩ := List.mem_map.mp he
    obtain ⟨hmass, hinertia⟩ := h _ (Array.mem_of_getElem? (body?_of_mem_movableBodies hb))
    exact twiceEnergy_nonneg hmass hinertia _

/-- With inertia added to every velocity, the mass matrix is positive definite on every tree. -/
theorem Massive.isSPD_diagonalBlock (h : m.Massive) (hlaid : m.LaidOut) (k : PositionKinematics ℝ) {d : Vec ℝ}
    (hd : ∀ i < m.numVelocities, 0 < d i) {t : TreeIndex} (ht : t ∈ m.layout.trees) :
    (((m.rigidMassMatrix k).addDiagonal d).diagonalBlock (m.layout.start t) (m.layout.size t)).IsSPD :=
  ((h.isPSD_rigidMassMatrix k).addDiagonal hd).diagonalBlock (hlaid.start_add_size_le ht)

theorem build_massive {bodies : List (Body ℝ)} {joints : List (Joint ℝ)} (h : build bodies joints = .ok m)
    (hinertia : ∀ body ∈ bodies, body.inertia.IsPSD) : m.Massive := by
  simp only [build, bind_eq_ok_iff] at h
  obtain ⟨_, hmass, c, -, _, -, h⟩ := h
  cases h
  intro body hbody
  have hbody : body ∈ Body.world :: bodies := List.mem_toArray.mp hbody
  refine ⟨(require_eq_ok_iff.mp (forM_eq_ok_iff.mp hmass body hbody)).1, ?_⟩
  rcases List.mem_cons.mp hbody with rfl | hmem
  · exact Mat3.isPSD_zero
  · exact hinertia body hmem

end Mechanism

/-! ### Models -/

/-- In every model whose bodies have symmetric inertias that are nowhere negative, the mass matrix is
    symmetric and positive semidefinite, and couples no velocities of different trees. So the
    accelerations that are solved for tree by tree solve the equations of motion of all velocities, with
    whatever inertia is added to single velocities, and where it is added to all of them forward
    dynamics finds these accelerations. -/
theorem Model.build_massMatrix {bodies : List (Body ℝ)} {joints : List (Joint ℝ)}
    {elements : List (ForceElement ℝ)} {m : Model ℝ} (h : Model.build bodies joints elements = .ok m)
    (hinertia : ∀ body ∈ bodies, body.inertia.IsPSD) (k : PositionKinematics ℝ) :
    (m.rigidMassMatrix k).rows = m.numVelocities ∧ (m.rigidMassMatrix k).IsPSD ∧
    (∀ i j t u, m.layout.velocityTree? i = some t → m.layout.velocityTree? j = some u → t ≠ u →
      m.rigidMassMatrix k i j = 0) ∧
    (∀ v d f acc, m.forwardDynamics k v d f = .ok acc → acc.size = m.numVelocities ∧ ∃ applied bias,
      m.generalizedForces k f = .ok applied ∧ m.biasForces k v = .ok bias ∧
        ((m.rigidMassMatrix k).addDiagonal d).mulVec acc = applied - bias) ∧
    ∀ v d f, v.size = m.numVelocities → d.size = m.numVelocities → f.sizedFor m.toMechanism = true →
      (∀ i < m.numVelocities, 0 < d i) → ∃ acc, m.forwardDynamics k v d f = .ok acc := by
  have hbuild := Model.build_mechanism h
  have hmassive := Mechanism.build_massive hbuild hinertia
  have horderly := Mechanism.build_orderly hbuild
  have hlaid := Mechanism.build_laidOut hbuild
  refine ⟨rfl, hmassive.isPSD_rigidMassMatrix k, fun i j t u hi hj hne => ?_, fun v d f acc hacc => ?_,
    fun v d f hv hd hf hpos => ?_⟩
  · refine horderly.rigidMassMatrix_eq_zero (hlaid.velocityTree?_eq_some_iff.mp hi) fun hwithin => hne ?_
    exact hwithin.unique (hlaid.velocityTree?_eq_some_iff.mp hj)
  · exact (Mechanism.forwardDynamics_eq_ok horderly hlaid
      (fun body hbody => (hmassive body hbody).2.symm) hacc).2
  · exact Mechanism.exists_forwardDynamics hf hv hd fun t ht => hmassive.isSPD_diagonalBlock hlaid k hpos ht

/-- Of the bodies that slide, the second is in a tree of its own: none of its velocities is coupled with
    those of the first. With rotors everywhere forward dynamics finds how they all fall. -/
theorem massMatrix_sliding : Model.build slidingBodies slidingJoints [] = .ok sliding ∧
    (∀ body ∈ slidingBodies, body.inertia.IsPSD) ∧
    ∃ k acc applied bias, sliding.positionKinematics (.zeros 9) = .ok k ∧
      (sliding.rigidMassMatrix k).IsPSD ∧ sliding.rigidMassMatrix k 0 6 = 0 ∧
      sliding.forwardDynamics k (.zeros 9) (.replicate 9 1) (.zero sliding.toMechanism) = .ok acc ∧
      sliding.generalizedForces k (.zero sliding.toMechanism) = .ok applied ∧
      sliding.biasForces k (.zeros 9) = .ok bias ∧
      ((sliding.rigidMassMatrix k).addDiagonal (.replicate 9 1)).mulVec acc = applied - bias := by
  have hinertia : ∀ body ∈ slidingBodies, body.inertia.IsPSD := by
    simp only [slidingBodies, List.forall_mem_cons]
    exact ⟨Mat3.isPSD_zero, Mat3.isPSD_zero, Mat3.isPSD_zero, Mat3.isPSD_zero, Mat3.isPSD_zero,
      List.forall_mem_nil _⟩
  obtain ⟨k, hk⟩ : ∃ k, sliding.positionKinematics (.zeros 9) = .ok k :=
    ⟨_, Mechanism.positionKinematics_eq_ok_iff.mpr ⟨rfl, Mechanism.positionsWithin_of_all rfl, rfl⟩⟩
  obtain ⟨-, hpsd, htrees, hsolves, hfinds⟩ := Model.build_massMatrix build_eq_sliding hinertia k
  have hrotors : ∀ i < sliding.numVelocities, 0 < (Vec.replicate 9 1 : Vec ℝ) i := by
    intro i hi
    have hone : (Vec.replicate 9 1 : Vec ℝ) i = 1 := Vec.get_ofFn_of_lt hi
    rw [hone]
    exact one_pos
  obtain ⟨acc, hacc⟩ := hfinds (.zeros 9) (.replicate 9 1) (.zero sliding.toMechanism) rfl rfl rfl hrotors
  obtain ⟨-, applied, bias, happlied, hbias, hmotion⟩ := hsolves _ _ _ _ hacc
  exact ⟨build_eq_sliding, hinertia, k, acc, applied, bias, hk, hpsd,
    htrees 0 6 ⟨0⟩ ⟨1⟩ rfl rfl (by decide), hacc, happlied, hbias, hmotion⟩

end CompliantContact
