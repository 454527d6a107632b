import CompliantContact.Proofs.Contact.Frame
import CompliantContact.Proofs.Mechanism.Places
import CompliantContact.Proofs.Space.Algebra

/-!
The velocity of a point that moves with a body.

Each joint on the way from the body to the world gives the point a velocity: it turns the point about
the place of the joint, or moves it along. The velocity of the point is the sum of these, and the
translational Jacobian finds it (`Mechanism.LaidOut.mulVec_translationalJacobian`).
-/

namespace CompliantContact

open Finset

namespace Mechanism

section
variable {α : Type} [Scalar α]

/-- The velocity that a joint gives the world point `p`, with the velocities `v 0`, `v 1`, … of the joint. -/
def jointVelocity (frame : Pose α) (kind : JointKind α) (v : ℕ → α) (p : Vec3 α) : Vec3 α :=
  let (w, u) := relativeVelocity frame kind v
  w.cross (p - frame.position) + u

/-- The velocity of the world point `p` that moves with a body: all joints on the way to the world add
    to it. -/
def bodyVelocity (m : Mechanism α) (k : PositionKinematics α) (v : Vec α) (b : BodyIndex)
    (p : Vec3 α) : Vec3 α :=
  ((m.chain b).map fun (j, joint) =>
    jointVelocity (k.jointFrame j) joint.kind (fun i => v (joint.velocityStart + i)) p).sum

/-- The world rests. -/
theorem bodyVelocity_of_none {m : Mechanism α} {b : BodyIndex} (h : m.inboardJoint? b = none)
    (k : PositionKinematics α) (v : Vec α) (p : Vec3 α) : m.bodyVelocity k v b p = 0 := by
  rw [bodyVelocity, chain, h]
  rfl

/-- A point of a body moves as it would with the parent, and with the joint. -/
theorem bodyVelocity_of_inboard {m : Mechanism α} {b : BodyIndex} {j : JointIndex} {joint : Joint α}
    (h : m.inboardJoint? b = some (j, joint)) (hlt : joint.parent.val < b.val)
    (k : PositionKinematics α) (v : Vec α) (p : Vec3 α) : m.bodyVelocity k v b p =
      jointVelocity (k.jointFrame j) joint.kind (fun i => v (joint.velocityStart + i)) p +
        m.bodyVelocity k v joint.parent p := by
  rw [bodyVelocity, chain, h]
  dsimp only
  rw [if_pos hlt]
  rfl

end

variable {m : Mechanism ℝ} {k : PositionKinematics ℝ} {b : BodyIndex} {p : Vec3 ℝ}

/-- A joint gives a point the sum of what its single velocities give. -/
theorem dot_jointVelocity (u : Vec3 ℝ) (frame : Pose ℝ) (kind : JointKind ℝ) (v : ℕ → ℝ) (p : Vec3 ℝ) :
    u.dot (jointVelocity frame kind v p) = ∑ i ∈ range kind.dofs,
    u.dot (pointVelocity frame kind i p) * v i := by
  cases kind <;>
    simp only [jointVelocity, relativeVelocity, pointVelocity, JointKind.dofs, sum_range_succ,
      range_zero, sum_empty,
      Vec3.dot, Vec3.cross, Vec3.add_x, Vec3.add_y, Vec3.add_z, Vec3.sub_x, Vec3.sub_y, Vec3.sub_z,
      Vec3.mul_x, Vec3.mul_y,
      Vec3.mul_z, Vec3.zero_x, Vec3.zero_y, Vec3.zero_z, Rotation.apply, Vec3.axis, Vec3.unitX,
      Vec3.unitY, Vec3.unitZ] <;>
    ring

/-- The column of a velocity for the joints of a chain. -/
noncomputable def chainColumn (k : PositionKinematics ℝ) (p : Vec3 ℝ)
    (chain : List (JointIndex × Joint ℝ)) (i : ℕ) : Vec3 ℝ :=
  match owner? k chain i with
  | none => 0
  | some (frame, kind, i) => pointVelocity frame kind i p

instance (joint : Joint ℝ) (i : ℕ) : Decidable (joint.Moves i) := inferInstanceAs (Decidable (_ ∧ _))

theorem chainColumn_cons (j : JointIndex) (joint : Joint ℝ) (chain : List (JointIndex × Joint ℝ)) (i : ℕ) :
    chainColumn k p ((j, joint) :: chain) i =
      if joint.Moves i then pointVelocity (k.jointFrame j) joint.kind (i - joint.velocityStart) p
      else chainColumn k p chain i := by
  by_cases h : joint.Moves i
  · rw [if_pos h, chainColumn, owner?, List.find?_cons_of_pos (by exact decide_eq_true h)]
    rfl
  · rw [if_neg h, chainColumn, owner?, List.find?_cons_of_neg (by exact fun hd => h (of_decide_eq_true hd))]
    rfl

theorem chainColumn_eq_zero {chain : List (JointIndex × Joint ℝ)} {i : ℕ}
    (h : ∀ found ∈ chain, ¬ found.2.Moves i) :
    chainColumn k p chain i = 0 := by
  have howner : owner? k chain i = none := by
    rw [owner?, Option.map_eq_none_iff, List.find?_eq_none]
    exact fun found hfound hrange => h found hfound (of_decide_eq_true hrange)
  rw [chainColumn, howner]

/-- What one joint adds stands at its own velocities. -/
theorem sum_moves {n : ℕ} {joint : Joint ℝ} (hlt : ∀ i, joint.Moves i → i < n) (f : ℕ → ℝ) (v : ℕ → ℝ) :
    ∑ i ∈ range n, (if joint.Moves i then f (i - joint.velocityStart) * v i else 0) =
      ∑ i ∈ range joint.dofs, f i * v (joint.velocityStart + i) := by
  rw [← sum_filter]
  refine sum_bij' (fun i _ => i - joint.velocityStart) (fun i _ => joint.velocityStart + i)
    (fun i hi => ?_) (fun i hi => ?_)
    (fun i hi => ?_) (fun i _ => Nat.add_sub_cancel_left ..) (fun i hi => ?_)
  · obtain ⟨-, hfirst, hlast⟩ := mem_filter.mp hi
    exact mem_range.mpr (by omega)
  · have hmoves : joint.Moves (joint.velocityStart + i) :=
      ⟨Nat.le_add_right .., Nat.add_lt_add_left (mem_range.mp hi) _⟩
    exact mem_filter.mpr ⟨mem_range.mpr (hlt _ hmoves), hmoves⟩
  all_goals
    obtain ⟨-, hfirst, -⟩ := mem_filter.mp hi
    rw [Nat.add_sub_cancel' hfirst]

/-- Joints that share no velocity give a point what the columns of their velocities give. -/
theorem sum_chainColumn {chain : List (JointIndex × Joint ℝ)} {n : ℕ}
    (hlt : ∀ found ∈ chain, ∀ i, found.2.Moves i → i < n)
    (hdistinct : chain.Pairwise fun found other => ∀ i, found.2.Moves i → ¬ other.2.Moves i)
    (u : Vec3 ℝ) (v : Vec ℝ) :
    ∑ i ∈ range n, u.dot (chainColumn k p chain i) * v i = u.dot ((chain.map fun (j, joint) =>
      jointVelocity (k.jointFrame j) joint.kind (fun i => v (joint.velocityStart + i)) p).sum) := by
  rw [Vec3.dot_sum, List.map_map]
  induction chain with
  | nil => simp [chainColumn, owner?, Vec3.dot]
  | cons found chain ih =>
    obtain ⟨j, joint⟩ := found
    obtain ⟨hhead, hdistinct⟩ := List.pairwise_cons.mp hdistinct
    have hsplit : ∀ i, u.dot (chainColumn k p ((j, joint) :: chain) i) * v i =
        (if joint.Moves i then
          u.dot (pointVelocity (k.jointFrame j) joint.kind (i - joint.velocityStart) p) * v i else 0) +
          u.dot (chainColumn k p chain i) * v i := by
      intro i
      rw [chainColumn_cons]
      split
      · rename_i hmoves
        rw [chainColumn_eq_zero fun other hother => hhead other hother i hmoves]
        simp [Vec3.dot]
      · rw [zero_add]
    rw [List.map_cons, List.sum_cons,
      ← ih (fun other hother => hlt other (List.mem_cons_of_mem _ hother)) hdistinct,
      sum_congr rfl fun i _ => hsplit i, sum_add_distrib]
    congr 1
    have hsum := sum_moves (hlt _ (List.mem_cons_self ..))
      (fun i => u.dot (pointVelocity (k.jointFrame j) joint.kind i p)) v
    exact hsum.trans (dot_jointVelocity u _ _ _ p).symm

/-- The joints on the way to the world are joints of the mechanism, of bodies not after the first. -/
theorem LaidOut.mem_chain (hm : m.LaidOut) {found : JointIndex × Joint ℝ} (h : found ∈ m.chain b) :
    m.joint? found.1 = some found.2 ∧ found.2.child.val ≤ b.val := by
  obtain ⟨n, hn⟩ : ∃ n, b.val = n := ⟨_, rfl⟩
  induction n using Nat.strong_induction_on generalizing b with
  | _ n ih =>
    rw [chain] at h
    cases hb : m.inboardJoint? b with
    | none => simp [hb] at h
    | some first =>
      simp only [hb, List.mem_cons] at h
      rcases h with rfl | htail
      · refine ⟨?_, (congrArg BodyIndex.val (hm.child b _ _ hb)).le⟩
        obtain ⟨j, -, hjoint⟩ := Option.bind_eq_some_iff.mp hb
        obtain ⟨joint, hget, rfl⟩ := Option.map_eq_some_iff.mp hjoint
        exact hget
      · split at htail
        · rename_i hlt
          obtain ⟨hget, hle⟩ := ih first.2.parent.val (hn ▸ hlt) htail rfl
          exact ⟨hget, hle.trans hlt.le⟩
        · cases htail

theorem LaidOut.pairwise_chain (hm : m.LaidOut) (b : BodyIndex) :
    (m.chain b).Pairwise fun found other => ∀ i, found.2.Moves i → ¬ other.2.Moves i := by
  obtain ⟨n, hn⟩ : ∃ n, b.val = n := ⟨_, rfl⟩
  induction n using Nat.strong_induction_on generalizing b with
  | _ n ih =>
    rw [chain]
    cases hb : m.inboardJoint? b with
    | none => exact .nil
    | some first =>
      have hmem : first ∈ m.chain b := by
        rw [chain, hb]
        exact List.mem_cons_self ..
      dsimp only
      split
      · rename_i hlt
        refine List.pairwise_cons.mpr ⟨fun other hother i hmoves hmoves' => ?_, ih _ (hn ▸ hlt) _ rfl⟩
        obtain ⟨hget, hle⟩ := hm.mem_chain hother
        -- The same joint would hang two bodies.
        have hsame := hm.unique _ _ _ _ i (hm.mem_chain hmem).1 hget hmoves hmoves'
        have hjoint : first.2 = other.2 := by
          have hfirst := (hm.mem_chain hmem).1
          rw [hsame, hget] at hfirst
          exact (Option.some.inj hfirst).symm
        have hchild := congrArg BodyIndex.val (hm.child b _ _ hb)
        rw [← hjoint, hchild] at hle
        exact absurd hlt (Nat.not_lt.mpr hle)
      · exact List.pairwise_singleton ..

/-- The translational Jacobian takes the velocities of the mechanism to the velocity of the point. -/
theorem LaidOut.mulVec_translationalJacobian (hm : m.LaidOut) (k : PositionKinematics ℝ) (b : BodyIndex)
    (p : Vec3 ℝ) (v : Vec ℝ) : (m.translationalJacobian k b p).mulVec v = m.bodyVelocity k v b p := by
  refine Vec3.ext_dot fun u => ?_
  rw [Columns.dot_mulVec, size_translationalJacobian, bodyVelocity,
    ← sum_chainColumn (fun found hfound i hmoves => hm.lt _ _ i (hm.mem_chain hfound).1 hmoves)
      (hm.pairwise_chain b)]
  refine sum_congr rfl fun i hi => ?_
  rw [translationalJacobian, Columns.get_ofFn, if_pos (mem_range.mp hi), chainColumn]
  cases owner? k (m.chain b) i <;> rfl

end Mechanism

end CompliantContact
