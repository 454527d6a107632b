import CompliantContact.Proofs.Contact.Frame
import CompliantContact.Proofs.Mechanism.Places
import CompliantContact.Proofs.Simulation.Results

/-!
What the contact reports of a step add up to.

The reported force of a contact acts on the second body at the contact point, and its opposite on the
first. Along the velocities of the mechanism these do what the results say that the contacts do,
whichever trees the two bodies are in.
-/

namespace CompliantContact

open Finset Outcome

namespace Simulator

variable {α : Type} [Scalar α]

/-- The mechanism of such a simulator was built. -/
theorem Made.exists_build {s : Simulator α} (h : s.Made) :
    ∃ bodies joints, Mechanism.build bodies joints = .ok s.model.toMechanism := by
  induction h with
  | @new bodies joints _ _ _ _ _ hmodel h =>
    simp only [Simulator.new, bind_eq_ok_iff] at h
    obtain ⟨_, -, _, -, h⟩ := h
    cases h
    exact ⟨bodies, joints, Model.build_mechanism hmodel⟩
  | coupled _ ht ih =>
    obtain rfl := addCoupler_eq_ok ht
    exact ih
  | registered _ ht ih =>
    obtain rfl := registerDeformable_eq_ok ht
    exact ih

theorem Made.orderly {s : Simulator α} (h : s.Made) : s.model.Orderly := by
  obtain ⟨_, _, hbuild⟩ := h.exists_build
  exact Mechanism.build_orderly hbuild

theorem Made.laidOut {s : Simulator α} (h : s.Made) : s.model.LaidOut := by
  obtain ⟨_, _, hbuild⟩ := h.exists_build
  exact Mechanism.build_laidOut hbuild

/-- The body of a geometry, and the world where there is no such geometry. -/
def bodyOf (s : Simulator α) (id : GeometryId) : BodyIndex := (s.geometry.body? id).getD .world

end Simulator

/-! ### One contact -/

section
variable {p : Problem ℝ} {m : Mechanism ℝ} {k : PositionKinematics ℝ} {frame : Mat3 ℝ} {a b : BodyIndex}
  {point : Vec3 ℝ} {c : Constraint ℝ} {n i j : ℕ}

open ContactKinematics

theorem spread_block {relative : Columns ℝ} (hstart : ∀ t, p.treeStart t = m.layout.start t)
    (hn : n < 3) (t : TreeIndex) :
    p.spread (block m.layout frame relative t) n j =
      if m.layout.Within t j then (frame.transposeMulVec (relative j)).get n else 0 := by
  have hcols : (block m.layout frame relative t).jacobian.cols = m.layout.size t := Columns.size_ofFn ..
  have htree : (block m.layout frame relative t).tree = t := rfl
  rw [Problem.spread, hcols, htree, hstart]
  by_cases hwithin : m.layout.Within t j
  · obtain ⟨hfirst, hlast⟩ := hwithin
    have hplace : j - m.layout.start t < m.layout.size t := by omega
    rw [if_pos ⟨hfirst, hlast⟩, if_pos ⟨hfirst, hlast⟩]
    have hcolumn : j - m.layout.start t < (block m.layout frame relative t).jacobian.cols := hcols ▸ hplace
    refine (Mat.get_ofFn_of_lt hn hcolumn).trans ?_
    rw [Columns.get_ofFn, if_pos hplace, Nat.add_sub_cancel' hfirst]
  · rw [if_neg hwithin]
    exact if_neg hwithin

/-- The rows of a contact are the relative velocity of its bodies along the axes of the frame. -/
theorem jacobianEntry_contact (hm : m.Orderly) (hstart : ∀ t, p.treeStart t = m.layout.start t)
    (hblocks : c.blocks = (treesOf m.layout a b).map (block m.layout frame (relative m k a b point)))
    (hn : n < 3) (hj : j < m.numVelocities) : p.jacobianEntry c n j =
      (frame.transposeMulVec (relative m k a b point j)).get n := by
  rw [Problem.jacobianEntry_eq, hblocks, List.map_map, ← sum_blocks hm k point frame n j hj]
  exact congrArg List.sum (List.map_congr_left fun t _ => spread_block hstart hn t)

/-- What the impulses of a contact do along the velocities, the force in the world does on the relative
    velocity. -/
theorem sum_contactForce_mul (hm : m.Orderly) (hstart : ∀ t, p.treeStart t = m.layout.start t)
    (hblocks : c.blocks = (treesOf m.layout a b).map (block m.layout frame (relative m k a b point)))
    (impulses v : Vec ℝ) :
    ∑ j ∈ range m.numVelocities, ContactResults.contactForce p p.timeStep impulses j (c, i) * v j =
      (frame.mulVec ⟨impulses (3 * i) / p.timeStep, impulses (3 * i + 1) / p.timeStep,
        impulses (3 * i + 2) / p.timeStep⟩).dot ((relative m k a b point).mulVec v) := by
  have hsize : (relative m k a b point).size = m.numVelocities :=
    Columns.size_sub.trans Mechanism.size_translationalJacobian
  rw [Columns.dot_mulVec, hsize]
  refine sum_congr rfl fun j hj => ?_
  rw [← Mat3.sum_transposeMulVec, ContactResults.contactForce, mul_sum]
  congr 1
  refine sum_congr rfl fun n hn => ?_
  have hforce :
    (⟨impulses (3 * i) / p.timeStep, impulses (3 * i + 1) / p.timeStep, impulses (3 * i + 2) / p.timeStep⟩ :
      Vec3 ℝ).get n = impulses (3 * i + n) / p.timeStep := by
    rcases n with _ | _ | _ | n
    · rfl
    · rfl
    · rfl
    · exact absurd (mem_range.mp hn) (by omega)
  rw [hforce, jacobianEntry_contact hm hstart hblocks (mem_range.mp hn) (mem_range.mp hj), one_div_mul_eq_div,
    mul_div_assoc]

end

/-! ### All contacts -/

section
variable {s : Simulator ℝ} {c d : Context ℝ} {r : ContactResults ℝ} {y : StepValues ℝ} {x : State ℝ}

namespace Simulator.Assembles

variable {kinematics : PositionKinematics ℝ} {pairs : List (ContactPair ℝ)}
  {contacts : List (ContactKinematics ℝ)}
  {dynamics : List (Mat ℝ)} {free : FreeAccelerations ℝ} {p : AssembledProblem ℝ}

/-- The problem has the trees of the model. -/
theorem treeStart (h : s.Assembles x kinematics pairs contacts dynamics free p) (t : TreeIndex) :
    p.problem.treeStart t = s.model.layout.start t := by
  obtain ⟨-, -, -, _, _, _, -, -, -, hp⟩ := Simulator.assemble_eq_ok h.problem
  have hdynamics := h.dynamics
  rw [Simulator.linearDynamics, bind_eq_ok_iff] at hdynamics
  obtain ⟨mass, -, hdynamics⟩ := hdynamics
  have hsizes : dynamics.map Mat.rows = s.model.layout.sizes.toList := by
    rw [← Except.ok.inj hdynamics, List.map_map, ← TreeLayout.map_size_trees]
    rfl
  rw [Problem.treeStart, hp, TreeLayout.start, ← hsizes, List.map_take]

theorem numVelocities_problem (h : s.Assembles x kinematics pairs contacts dynamics free p)
    (hx : x.numVelocities = s.model.numVelocities) : p.problem.numVelocities = s.model.numVelocities := by
  obtain ⟨-, -, -, _, _, _, -, -, -, hp⟩ := Simulator.assemble_eq_ok h.problem
  rw [Problem.numVelocities, hp, ← hx]
  exact Vec.size_add

/-- The bodies and the Jacobian of a contact. -/
theorem exists_contact (h : s.Assembles x kinematics pairs contacts dynamics free p) {i : ℕ}
    {pair : ContactPair ℝ}
    {k : ContactKinematics ℝ} (hpair : pairs[i]? = some pair) (hk : contacts[i]? = some k) :
    s.geometry.body? pair.a = some (s.bodyOf pair.a) ∧ s.geometry.body? pair.b = some (s.bodyOf pair.b) ∧
      k.frame = ContactFrame.alongAxis (-pair.normal) 2 ∧ ∃ c, p.problem.constraint? i = some c ∧
      c.numEquations = 3 ∧
        c.blocks = (ContactKinematics.treesOf s.model.layout (s.bodyOf pair.a) (s.bodyOf pair.b)).map
          (ContactKinematics.block s.model.layout k.frame
            (ContactKinematics.relative s.model.toMechanism kinematics (s.bodyOf pair.a)
              (s.bodyOf pair.b) pair.point)) := by
  have hmade := congrArg (fun ks : List (Outcome ℝ (ContactKinematics ℝ)) => ks[i]?)
    (mapM_eq_ok_iff.mp h.contacts)
  simp only [List.getElem?_map, hpair, hk, Option.map_some] at hmade
  obtain ⟨a, b, ha, hb, hframe, hblocks⟩ := ContactKinematics.ofPair_eq_ok (Option.some.inj hmade)
  obtain ⟨c, hc, hconstraint⟩ := (Simulator.contacts_of_assemble h.problem).2 i pair k hpair hk
  have hbodyA : s.bodyOf pair.a = a := by rw [Simulator.bodyOf, ha, Option.getD_some]
  have hbodyB : s.bodyOf pair.b = b := by rw [Simulator.bodyOf, hb, Option.getD_some]
  obtain ⟨-, hequations, hsame, -⟩ := Simulator.contactConstraint_eq_ok hconstraint
  rw [hbodyA, hbodyB]
  exact ⟨ha, hb, hframe, c, hc, hequations, hsame.trans hblocks⟩

end Simulator.Assembles

namespace StepValues.Follows

theorem assembles (h : y.Follows s x) :
    s.Assembles x y.kinematics y.pairs y.contacts y.dynamics y.free y.problem :=
  ⟨h.kinematics, h.pairs, h.contacts, h.dynamics, h.free, h.problem⟩

/-- The values of a step make a report of each contact. -/
theorem exists_reports (h : y.Follows s x) : ∃ reports,
    Simulator.contactReports y.pairs y.problem y.results = .ok reports ∧
    reports.length = y.pairs.length ∧ ∀ i < y.pairs.length, ∃ pair k, y.pairs[i]? = some pair ∧
    y.contacts[i]? = some k ∧
      reports[i]? = some (.ofResults y.results pair k.frame i) := by
  obtain ⟨-, hlength, hframes, -⟩ := Simulator.assemble_eq_ok h.problem
  refine ⟨(y.pairs.zip y.problem.frames).zipIdx.map
    fun ((pair, frame), i) => .ofResults y.results pair frame i, ?_, ?_,
    fun i hi => ⟨y.pairs[i], y.contacts[i], List.getElem?_eq_getElem hi,
      List.getElem?_eq_getElem (hlength ▸ hi), ?_⟩⟩
  · rw [Simulator.contactReports, require_bind_eq_ok_iff, hframes, List.length_map]
    exact ⟨⟨hlength.symm, h.numContacts⟩, rfl⟩
  · rw [List.length_map, List.length_zipIdx, List.length_zip, hframes, List.length_map, hlength, Nat.min_self]
  · have hzip : (y.pairs.zip y.problem.frames)[i]? = some (y.pairs[i], y.contacts[i].frame) := by
      rw [hframes, List.getElem?_zip_eq_some, List.getElem?_map, List.getElem?_eq_getElem hi,
        List.getElem?_eq_getElem (hlength ▸ hi)]
      exact ⟨rfl, rfl⟩
    rw [List.getElem?_map, List.getElem?_zipIdx, hzip, Option.map_some, Option.map_some, Nat.zero_add]

/-- What a contact does along the velocities, its report does on the relative velocity of the bodies. -/
theorem sum_contactForce (h : y.Follows s x) (hm : s.model.Orderly) {guess : Vec ℝ} {solution : Solution ℝ}
    (hsolution : y.results.Reports y.problem.problem s.config.solverConfig guess solution
      y.problem.problem.timeStep)
    {i : ℕ} {pair : ContactPair ℝ}
    {k : ContactKinematics ℝ} (hpair : y.pairs[i]? = some pair) (hk : y.contacts[i]? = some k) (v : Vec ℝ) :
    ∃ c, y.problem.problem.constraint? i = some c ∧
      ∑ j ∈ range y.problem.problem.numVelocities,
      ContactResults.contactForce y.problem.problem y.problem.problem.timeStep
          solution.impulses j (c, i) * v j =
        (ContactReport.ofResults y.results pair k.frame i).force.dot
          ((s.model.translationalJacobian y.kinematics (s.bodyOf pair.b) pair.point -
            s.model.translationalJacobian y.kinematics (s.bodyOf pair.a) pair.point).mulVec v) := by
  obtain ⟨-, -, -, c, hc, -, hblocks⟩ := h.assembles.exists_contact hpair hk
  have hi : i < y.pairs.length := (List.getElem?_eq_some_iff.mp hpair).1
  obtain ⟨hfirst, hsecond, hthird⟩ := hsolution.forces ((Simulator.contacts_of_assemble h.problem).1 ▸ hi)
  refine ⟨c, hc, ?_⟩
  rw [h.assembles.numVelocities_problem h.numVelocities,
    sum_contactForce_mul hm h.assembles.treeStart hblocks, ← hfirst, ← hsecond, ← hthird]
  rfl

/-- The forces along the velocities are those of the reports, contact by contact. -/
theorem contactForces_dot (h : y.Follows s x) (hm : s.model.Orderly) :
    ∃ reports, Simulator.contactReports y.pairs y.problem y.results = .ok reports ∧
      (∀ report ∈ reports, s.geometry.body? report.a = some (s.bodyOf report.a) ∧
        s.geometry.body? report.b = some (s.bodyOf report.b)) ∧
      ∀ v : Vec ℝ, y.results.contactForces.dot v = (reports.map fun report =>
        report.force.dot ((s.model.translationalJacobian y.kinematics (s.bodyOf report.b) report.point -
          s.model.translationalJacobian y.kinematics (s.bodyOf report.a) report.point).mulVec v)).sum := by
  obtain ⟨reports, hreports, hlength, hentry⟩ := h.exists_reports
  obtain ⟨-, solution, hsolution⟩ := h.reports
  have hcount := (Simulator.contacts_of_assemble h.problem).1
  refine ⟨reports, hreports, fun report hreport => ?_, fun v => ?_⟩
  · obtain ⟨i, hi⟩ := List.mem_iff_getElem?.mp hreport
    obtain ⟨pair, k, hpair, hk, hget⟩ := hentry i (hlength ▸ (List.getElem?_eq_some_iff.mp hi).1)
    obtain rfl := Option.some.inj (hi.symm.trans hget)
    obtain ⟨ha, hb, -⟩ := h.assembles.exists_contact hpair hk
    exact ⟨ha, hb⟩
  rw [hsolution.contactForces_dot]
  -- Both sums have a term for each contact.
  congr 1
  refine List.ext_getElem? fun i => ?_
  rw [List.getElem?_map, List.getElem?_map, List.getElem?_zipIdx, List.getElem?_take, hcount]
  by_cases hi : i < y.pairs.length
  · obtain ⟨pair, k, hpair, hk, hget⟩ := hentry i hi
    obtain ⟨c, hc, hforce⟩ := h.sum_contactForce hm hsolution hpair hk v
    rw [Problem.constraint?_eq] at hc
    rw [if_pos hi, hc, hget, Option.map_some, Option.map_some, Option.map_some, Nat.zero_add, hforce]
    rfl
  · rw [if_neg hi, List.getElem?_eq_none (by omega)]
    rfl

end StepValues.Follows

end

end CompliantContact
