import CompliantContact.Proofs.Mechanism.KineticEnergy
import CompliantContact.Proofs.Simulation.OwnValues

/-!
Trees do not influence each other in free motion.

Two contexts may differ in all that belongs to other trees. What the simulator evaluates for a tree,
from the state and the actuation of this tree on, is the same in both: the poses of its bodies, its
block of the linear dynamics and its velocities in free motion (`Simulator.Serves.tree_apart`).
-/

namespace CompliantContact

open Outcome

/-! ### Settings that agree on a tree -/

variable {α : Type} [Scalar α]

/-- The actuation without a source: what is fixed, or none. -/
def Setting.drive (c : Setting α) : Vec α :=
  match c.actuation with
  | .fixed tau => tau
  | _ => .zeros c.state.numVelocities

/-- Settings that agree on what belongs to a tree. -/
structure Setting.AgreeOn (l : TreeLayout) (t : TreeIndex) (c d : Setting α) : Prop where
  positions : ∀ i, l.Within t i → c.state.positions i = d.state.positions i
  velocities : ∀ i, l.Within t i → c.state.velocities i = d.state.velocities i
  damping : ∀ i, l.Within t i → c.state.damping i = d.state.damping i
  reflectedInertia : ∀ i, l.Within t i → c.state.reflectedInertia i = d.state.reflectedInertia i
  drive : ∀ i, l.Within t i → c.drive i = d.drive i

section
variable {s : Simulator ℝ} {c d : Setting ℝ} {l : TreeLayout} {t : TreeIndex} {k k' : PositionKinematics ℝ}

theorem Setting.Sized.size_drive (h : c.Sized) : c.drive.size = c.state.velocities.size := by
  rw [Setting.drive]
  cases hc : c.actuation with
  | none => exact Vec.size_zeros _
  | fixed tau => exact h.fixed tau hc
  | source source => exact Vec.size_zeros _

/-- Without a source, actuation does not ask for stages. -/
theorem Direct.actuation_eq (h : c.Sized) (hactuation : c.actuation.Sourceless)
    (answer : Stage → Outcome ℝ (StageValue ℝ)) : Direct.actuation c answer = .ok c.drive := by
  unfold Direct.actuation Setting.drive
  cases hc : c.actuation with
  | none => rfl
  | fixed tau => exact bind_eq_ok_iff.mpr ⟨(), requireSize_eq_ok_iff.mpr (h.fixed tau hc).symm, rfl⟩
  | source source => exact absurd hc (hactuation source)

/-! ### One tree in two settings -/

theorem Forces.Same.addElementForces {model : Model ℝ} (helements : ∀ e ∈ model.elements, e.BuiltIn)
    {q q' v w : Vec ℝ}
    (hk : model.SameKinematics t k k') (hq : ∀ i, model.layout.Within t i → q i = q' i) {f f' : Forces ℝ}
    (hf : Forces.Same model.toMechanism t f f') :
    Forces.Same model.toMechanism t (model.addElementForces k q v f) (model.addElementForces k' q' w f') := by
  refine List.foldl_rel hf fun e he f f' hf => ?_
  cases helements e he with
  | gravity g => exact hf.gravity hk g
  | spring j stiffness rest => exact hf.spring hq j stiffness rest

namespace Setting.AgreeOn

variable (h : AgreeOn s.model.layout t c d) (hsize : c.state.velocities.size = d.state.velocities.size)
  (hc : c.Sized) (hd : d.Sized)
include h hsize hc hd

/-- The forces are the same to the tree. -/
theorem appliedForces (helements : ∀ e ∈ s.model.elements, e.BuiltIn) (hk : s.model.SameKinematics t k k') :
    Forces.Same s.model.toMechanism t (s.appliedForces c.state k c.drive)
      (s.appliedForces d.state k' d.drive) := by
  have hzero : Forces.Same s.model.toMechanism t (.zero s.model.toMechanism) (.zero s.model.toMechanism) :=
    ⟨.refl _, rfl, fun _ _ => rfl⟩
  have hforces := hzero.addElementForces (v := c.state.velocities) (w :=
    d.state.velocities) helements hk h.positions
  have hdamping : s.model.layout.Same t c.state.damping d.state.damping :=
    ⟨by rw [hc.damping, hd.damping, hsize], h.damping⟩
  have hdrive : s.model.layout.Same t c.drive d.drive :=
    ⟨by rw [hc.size_drive, hd.size_drive, hsize], h.drive⟩
  exact ⟨(hforces.generalized.sub (hdamping.hadamard ⟨hsize, h.velocities⟩)).add hdrive, hforces.size,
    hforces.body⟩

theorem addedInertia : s.model.layout.Same t (s.addedInertia c.state) (s.addedInertia d.state) := by
  have hdamping : s.model.layout.Same t c.state.damping d.state.damping :=
    ⟨by rw [hc.damping, hd.damping, hsize], h.damping⟩
  have hinertia : s.model.layout.Same t c.state.reflectedInertia d.state.reflectedInertia :=
    ⟨by rw [hc.reflectedInertia, hd.reflectedInertia, hsize], h.reflectedInertia⟩
  exact hinertia.add (hdamping.mul _)

end Setting.AgreeOn

end

/-! ### Contexts -/

/-- The vector that a client gets, if it gets one. -/
def Reply.vector? : Outcome α (Reply α) → Option (Vec α)
  | .ok (.vector x) => some x
  | _ => none

omit [Scalar α] in
theorem Reply.vector?_eq_some_iff {reply : Outcome α (Reply α)} {x : Vec α} : vector? reply = some x ↔
    reply = .ok (.vector x) := by
  constructor
  · intro h
    unfold vector? at h
    split at h
    · cases h
      rfl
    · cases h
  · rintro rfl
    rfl

/-- A change that is not refused. -/
theorem Operation.perform_change_of_check {s : Simulator α} {c : Context α} {x : Change α}
    (h : x.check c.toSetting = .ok ()) : (Operation.change x).perform s c =
      (.ok .done, ⟨x.next c.toSetting, c.cache⟩) := by
  rw [Operation.perform_change, h]

namespace Simulator

/-- A context that clients have made and the simulator accepts, with no or fixed actuation, in which it
    finds its own values only. -/
structure Serves (s : Simulator α) (c : Context α) : Prop where
  reachable : c.Reachable
  accepted : s.validate c.toSetting = .ok ()
  sourceless : c.actuation.Sourceless
  own : s.FindsOwn c

variable {s : Simulator ℝ} {c d : Context ℝ} {t : TreeIndex}

/-- So it is with a context that no other simulator has used. -/
theorem Owns.serves (h : s.Owns c) (hvalid : s.validate c.toSetting = .ok ())
    (hactuation : c.actuation.Sourceless) :
    s.Serves c := ⟨h.reachable, hvalid, hactuation, h.findsOwn hvalid hactuation⟩

namespace Serves

/-- What is up to date does not show in the answers. -/
theorem ask (h : s.Serves c) (q : Query) :
    ((Operation.ask q).perform s c).1 = Direct.ask s c.toSetting (fun _ => none) q := by
  have blind := h.sourceless.blind
  rw [((h.reachable.resting.agrees s).perform blind (.ask q)).1]
  exact Direct.ask_eq_of_own (h.own.own h.accepted blind) blind q

theorem of_ask_positionKinematics (h : s.Serves c) {k : PositionKinematics ℝ}
    (hk : ((Operation.ask (.stage .positionKinematics)).perform s c).1 =
      .ok (.value (.positionKinematics k))) :
    s.model.positionKinematics c.state.positions = .ok k := by
  rw [h.ask, Direct.ask, Direct.any] at hk
  obtain ⟨x, hx, hk⟩ := bind_eq_ok_iff.mp hk
  cases hk
  obtain ⟨k, hk, hx⟩ := bind_eq_ok_iff.mp hx
  cases hx
  exact (Direct.stage_eq_ok_iff.mp hk).2

theorem of_ask_linearDynamics (h : s.Serves c) {ms : List (Mat ℝ)}
    (hms : ((Operation.ask .linearDynamics).perform s c).1 = .ok (.matrices ms)) :
    ∃ k, s.model.positionKinematics c.state.positions = .ok k ∧ s.linearDynamics c.state k = .ok ms := by
  rw [h.ask, Direct.ask] at hms
  obtain ⟨x, hx, hms⟩ := bind_eq_ok_iff.mp hms
  cases hms
  obtain ⟨k, hk, hms⟩ := bind_eq_ok_iff.mp hx
  exact ⟨k, (Direct.stage_eq_ok_iff.mp hk).2, hms⟩

theorem of_ask_freeVelocities (h : s.Serves c) {v : Vec ℝ}
    (hv : ((Operation.ask .freeVelocities).perform s c).1 = .ok (.vector v)) :
    ∃ k acc, s.model.positionKinematics c.state.positions = .ok k ∧
      s.model.forwardDynamics k c.state.velocities (s.addedInertia c.state)
        (s.appliedForces c.state k c.drive) = .ok acc ∧
      v = c.state.velocities + acc * s.timeStep := by
  rw [h.ask, Direct.ask] at hv
  obtain ⟨x, hx, hv⟩ := bind_eq_ok_iff.mp hv
  cases hv
  obtain ⟨a, ha, hx⟩ := bind_eq_ok_iff.mp hx
  cases hx
  obtain ⟨k, hk, hfree⟩ := bind_eq_ok_iff.mp (Direct.stage_eq_ok_iff.mp ha).2
  rw [Direct.actuation_eq h.reachable.sized h.sourceless] at hfree
  obtain ⟨tau, htau, hfree⟩ := bind_eq_ok_iff.mp hfree
  cases htau
  obtain ⟨acc, hacc, hfree⟩ := bind_eq_ok_iff.mp hfree
  obtain ⟨_, -, hfree⟩ := bind_eq_ok_iff.mp hfree
  cases hfree
  exact ⟨k, acc, (Direct.stage_eq_ok_iff.mp hk).2, hacc, rfl⟩

/-- Where each joint finds its positions and each tree has a positive definite block, free motion has
    velocities. -/
theorem exists_freeVelocities (h : s.Serves c) (helements : ∀ e ∈ s.model.elements, e.BuiltIn)
    (hwithin : s.model.PositionsWithin s.model.numPositions)
    (hspd : ∀ k, s.model.positionKinematics c.state.positions = .ok k → ∀ t ∈ s.model.layout.trees,
      (((s.model.rigidMassMatrix k).addDiagonal (s.addedInertia c.state)).diagonalBlock
        (s.model.layout.start t) (s.model.layout.size t)).IsSPD) :
    ∃ v, ((Operation.ask .freeVelocities).perform s c).1 = .ok (.vector v) := by
  obtain ⟨-, hpositions, hvelocities⟩ := validate_eq_ok h.accepted
  have hsize : c.state.positions.size = s.model.numPositions := hpositions
  have hsized := h.reachable.sized
  obtain ⟨k, hk⟩ : ∃ k, s.model.positionKinematics c.state.positions = .ok k :=
    ⟨_, Mechanism.positionKinematics_eq_ok_iff.mpr ⟨hpositions, hsize ▸ hwithin, rfl⟩⟩
  have hforces : (s.appliedForces c.state k c.drive).sizedFor s.model.toMechanism = true :=
    appliedForces_sizedFor fun e he => (helements e he).keepsSizes
  obtain ⟨acc, hacc⟩ := Mechanism.exists_forwardDynamics hforces hvelocities
    (Vec.size_add.trans (hsized.reflectedInertia.trans hvelocities)) (hspd k hk)
  obtain ⟨a, hfree⟩ : ∃ a, s.freeAccelerations c.state k c.drive = .ok a :=
    ⟨_, bind_eq_ok_iff.mpr ⟨acc, hacc,
      bind_eq_ok_iff.mpr ⟨_, require_bind_eq_ok_iff.mpr ⟨hforces, rfl⟩, rfl⟩⟩⟩
  have hkinematics : Direct.kinematics s c.toSetting (fun _ => none) = .ok k :=
    Direct.stage_eq_ok_iff.mpr ⟨h.accepted, hk⟩
  refine ⟨s.freeVelocities c.state a, ?_⟩
  rw [h.ask, Direct.ask]
  refine bind_eq_ok_iff.mpr ⟨_, bind_eq_ok_iff.mpr ⟨_, Direct.stage_eq_ok_iff.mpr ⟨h.accepted, ?_⟩, rfl⟩, rfl⟩
  exact bind_eq_ok_iff.mpr ⟨k, hkinematics,
    bind_eq_ok_iff.mpr ⟨_, Direct.actuation_eq hsized h.sourceless _, hfree⟩⟩

theorem size_eq (h : s.Serves c) (h' : s.Serves d) : c.state.velocities.size = d.state.velocities.size :=
  (validate_eq_ok h.accepted).2.2.trans (validate_eq_ok h'.accepted).2.2.symm

end Serves

theorem Made.bound (h : s.Made) : s.model.Bound := by
  obtain ⟨_, _, hbuild⟩ := h.exists_build
  exact Mechanism.build_bound hbuild

/-- In free motion the trees do not influence each other: what a simulator with gravity and springs
    evaluates for a tree in two contexts which agree on this tree is the same, whatever the other trees
    do. -/
theorem Serves.tree_apart (hmade : s.Made) (helements : ∀ e ∈ s.model.elements, e.BuiltIn) (hc : s.Serves c)
    (hd : s.Serves d) (hagree : Setting.AgreeOn s.model.layout t c.toSetting d.toSetting) :
    (∀ v w, ((Operation.ask .freeVelocities).perform s c).1 = .ok (.vector v) →
      ((Operation.ask .freeVelocities).perform s d).1 = .ok (.vector w) →
      ∀ i, s.model.layout.start t ≤ i → i < s.model.layout.start t + s.model.layout.size t → v i = w i) ∧
    (∀ ms ns, ((Operation.ask .linearDynamics).perform s c).1 = .ok (.matrices ms) →
      ((Operation.ask .linearDynamics).perform s d).1 = .ok (.matrices ns) → ms[t.val]? = ns[t.val]?) ∧
    ∀ k k', ((Operation.ask (.stage .positionKinematics)).perform s c).1 =
      .ok (.value (.positionKinematics k)) →
      ((Operation.ask (.stage .positionKinematics)).perform s d).1 = .ok (.value (.positionKinematics k')) →
      ∀ b, s.model.layout.bodyTree? b = some t → k.bodyPose b = k'.bodyPose b := by
  have hm := hmade.bound
  have hsize := hc.size_eq hd
  have hsized := hc.reachable.sized
  have hsized' := hd.reachable.sized
  have hadded := hagree.addedInertia hsize hsized hsized'
  refine ⟨fun v w hv hw i hfirst hlast => ?_, fun ms ns hms hns => ?_, fun k k' hk hk' b hb => ?_⟩
  · obtain ⟨k, acc, hk, hacc, rfl⟩ := hc.of_ask_freeVelocities hv
    obtain ⟨k', acc', hk', hacc', rfl⟩ := hd.of_ask_freeVelocities hw
    have hsame := hm.sameKinematics hagree.positions hk hk'
    have hforces := hagree.appliedForces hsize hsized hsized' helements hsame
    have haccelerations := hm.forwardDynamics_same hsame hagree.velocities hadded.entry hforces hacc hacc'
    have hvelocities : s.model.layout.Same t c.state.velocities d.state.velocities :=
      ⟨hsize, hagree.velocities⟩
    exact (hvelocities.add (haccelerations.mul _)).entry i ⟨hfirst, hlast⟩
  · obtain ⟨k, hk, hms⟩ := hc.of_ask_linearDynamics hms
    obtain ⟨k', hk', hns⟩ := hd.of_ask_linearDynamics hns
    have hblock := hm.diagonalBlock_same (hm.sameKinematics hagree.positions hk hk') hadded.entry
    rw [(linearDynamics_eq_ok hms).2, (linearDynamics_eq_ok hns).2, List.getElem?_map, List.getElem?_map]
    by_cases ht : t ∈ s.model.layout.trees
    · rw [TreeLayout.getElem?_trees ht, Option.map_some, Option.map_some, hblock]
    · have hnone : s.model.layout.trees[t.val]? = none := by
        rw [TreeLayout.mem_trees, not_lt] at ht
        exact List.getElem?_eq_none (by rwa [TreeLayout.trees, List.length_map, List.length_range])
      rw [hnone, Option.map_none, Option.map_none]
  · have hsame := hm.sameKinematics hagree.positions (hc.of_ask_positionKinematics hk)
      (hd.of_ask_positionKinematics hk')
    exact hsame.pose b fun u hu => Option.some.inj (hu.symm.trans hb)

end Simulator

/-! ### Two hoists -/

noncomputable section

def loads : List (Body ℝ) := [.pointMass "left" 1, .pointMass "right" 1]

def hoists : List (Joint ℝ) :=
  [.ofKind "left" (.prismatic .unitZ) .world ⟨1⟩, .ofKind "right" (.prismatic .unitZ) .world ⟨2⟩]

def pulls : List (ForceElement ℝ) := [.gravity (-.unitZ), .spring ⟨0⟩ 1 0]

/-- Two loads, each on a hoist of its own, the first of them also on a spring. -/
def hoisted : Model ℝ where
  bodies := #[.world, .pointMass "left" 1, .pointMass "right" 1]
  joints := #[.ofKind "left" (.prismatic .unitZ) .world ⟨1⟩,
    { Joint.ofKind "right" (.prismatic .unitZ) .world ⟨2⟩ with velocityStart := 1 }]
  inboard := #[none, some ⟨0⟩, some ⟨1⟩]
  layout := ⟨#[none, some ⟨0⟩, some ⟨1⟩], #[⟨0⟩, ⟨1⟩], #[1, 1]⟩
  elements := pulls

end

theorem build_hoisted : Model.build loads hoists pulls = .ok hoisted := by
  have hmass : ∀ b ∈ Body.world :: loads, Mechanism.requireMass b = .ok () := by
    simp only [loads, List.forall_mem_cons]
    exact ⟨Mechanism.requireMass_pointMass "world" le_rfl, Mechanism.requireMass_pointMass "left" zero_le_one,
      Mechanism.requireMass_pointMass "right" zero_le_one, List.forall_mem_nil _⟩
  have hconnect : hoists.foldlM (Mechanism.connect 3) ⟨#[], Array.replicate 3 none⟩ =
      .ok ⟨hoists.toArray, #[none, some ⟨0⟩, some ⟨1⟩]⟩ := by
    simp only [hoists, List.foldlM_cons, List.foldlM_nil, bind_eq_ok_iff]
    exact ⟨_, Mechanism.connect_ofKind (normalizeAxis_unitZ rfl) (by decide) (by decide) rfl, _,
      Mechanism.connect_ofKind (normalizeAxis_unitZ rfl) (by decide) (by decide) rfl, rfl⟩
  have hbuild : Mechanism.build loads hoists = .ok hoisted.toMechanism := by
    simp only [Mechanism.build, bind_eq_ok_iff]
    exact ⟨(), forM_eq_ok_iff.mpr hmass, _, hconnect, (), rfl, rfl⟩
  have hspring : (ForceElement.spring ⟨0⟩ 1 0).check hoisted.toMechanism = .ok () :=
    require_bind_eq_ok_iff.mpr ⟨rfl, require_eq_ok_iff.mpr ⟨rfl, not_lt.mpr zero_le_one⟩⟩
  refine bind_eq_ok_iff.mpr ⟨_, hbuild, bind_eq_ok_iff.mpr ⟨(), forM_eq_ok_iff.mpr ?_, rfl⟩⟩
  simp only [pulls, List.forall_mem_cons]
  exact ⟨rfl, hspring, List.forall_mem_nil _⟩

namespace Simulator

noncomputable section

/-- A simulator of the two loads, without geometry. -/
def ofHoisted : Simulator ℝ := { ballOnGround with model := hoisted, geometry := .ofTable [] (.ok []) }

/-- Rotors on both hoists, everything at rest. -/
def hoistedAtRest : Context ℝ :=
  ((Operation.change (.reflectedInertia (.replicate 2 1))).perform ofHoisted ofHoisted.defaultContext).2

/-- The second load moves. -/
def hoistedMoving : Context ℝ :=
  ((Operation.change (.velocities ⟨#[0, 1]⟩)).perform ofHoisted hoistedAtRest).2

end

theorem made_ofHoisted : ofHoisted.Made := .new build_hoisted (new_ball _ _ one_pos zero_le_one)

theorem damping_ofHoisted : ofHoisted.defaultContext.state.damping = .zeros 2 := by
  refine Mechanism.gather_zero fun joint hjoint i => ?_
  have hjoints : hoisted.joints.toList = [.ofKind "left" (.prismatic .unitZ) .world ⟨1⟩,
      { Joint.ofKind "right" (.prismatic .unitZ) .world ⟨2⟩ with velocityStart := 1 }] := rfl
  have hjoint : joint ∈ hoisted.joints.toList := hjoint
  simp only [hjoints, List.mem_cons, List.not_mem_nil, or_false] at hjoint
  rcases hjoint with rfl | rfl <;> exact Vec.get_zeros 1 i

theorem toSetting_hoistedAtRest :
    hoistedAtRest.toSetting = (Change.reflectedInertia (.replicate 2 1)).next
      ofHoisted.defaultContext.toSetting := by
  have hsize : ofHoisted.defaultContext.state.velocities.size = (Vec.replicate 2 (1 : ℝ)).size :=
    (Vec.size_zeros 2).trans (Vec.size_ofFn ..).symm
  have hnone : (Vec.replicate 2 (1 : ℝ)).toArray.find? (fun d => ¬ 0 ≤ d) = none := by
    rw [Array.find?_eq_none]
    intro x hx
    obtain ⟨i, rfl⟩ := Array.mem_ofFn.mp hx
    simp
  have hcheck : (Change.reflectedInertia (.replicate 2 1)).check ofHoisted.defaultContext.toSetting =
      .ok () := by
    refine bind_eq_ok_iff.mpr ⟨(), requireSize_eq_ok_iff.mpr hsize, ?_⟩
    rw [Context.requireNonNegative, hnone]
  rw [hoistedAtRest, Operation.perform_change_of_check hcheck]

theorem toSetting_hoistedMoving : hoistedMoving.toSetting =
    (Change.velocities ⟨#[0, 1]⟩).next hoistedAtRest.toSetting := by
  have hcheck : (Change.velocities ⟨#[0, 1]⟩).check hoistedAtRest.toSetting = .ok () := by
    refine requireSize_eq_ok_iff.mpr ?_
    rw [toSetting_hoistedAtRest]
    exact Vec.size_zeros 2
  rw [hoistedMoving, Operation.perform_change_of_check hcheck]

theorem serves_hoistedAtRest : ofHoisted.Serves hoistedAtRest := by
  refine Owns.serves (.performed _ (.created _ _)) ?_ ?_
  · rw [toSetting_hoistedAtRest]
    exact ofHoisted.validate_defaultContext
  · rw [toSetting_hoistedAtRest]
    intro source hsource
    cases hsource

theorem serves_hoistedMoving : ofHoisted.Serves hoistedMoving := by
  refine Owns.serves (.performed _ (.performed _ (.created _ _))) ?_ ?_
  · rw [toSetting_hoistedMoving, toSetting_hoistedAtRest, validate, require_bind_eq_ok_iff, require_eq_ok_iff]
    exact ⟨rfl, Vec.size_zeros 2, rfl⟩
  · rw [toSetting_hoistedMoving, toSetting_hoistedAtRest]
    intro source hsource
    cases hsource

/-- They agree on the tree of the first load. -/
theorem agreeOn_hoisted :
    Setting.AgreeOn hoisted.layout ⟨0⟩ hoistedAtRest.toSetting hoistedMoving.toSetting := by
  rw [toSetting_hoistedMoving, toSetting_hoistedAtRest]
  refine ⟨fun i _ => rfl, fun i hi => ?_, fun i _ => rfl, fun i _ => rfl, fun i _ => rfl⟩
  obtain ⟨-, hlast⟩ := hi
  obtain rfl : i = 0 := Nat.lt_one_iff.mp hlast
  exact Vec.get_zeros 2 0

/-- Gravity and the spring are such elements. -/
theorem builtIn_ofHoisted : ∀ e ∈ ofHoisted.model.elements, e.BuiltIn := by
  have helements : ofHoisted.model.elements = [.gravity (-.unitZ), .spring ⟨0⟩ 1 0] := rfl
  simp only [helements, List.forall_mem_cons]
  exact ⟨.gravity _, .spring _ _ _, List.forall_mem_nil _⟩

theorem massive_hoisted : hoisted.Massive := by
  have hbodies : hoisted.bodies = #[.world, .pointMass "left" 1, .pointMass "right" 1] := rfl
  intro body hbody
  simp only [hbodies, List.mem_toArray, List.mem_cons, List.not_mem_nil, or_false] at hbody
  rcases hbody with rfl | rfl | rfl
  exacts [⟨le_rfl, Mat3.isPSD_zero⟩, ⟨zero_le_one, Mat3.isPSD_zero⟩, ⟨zero_le_one, Mat3.isPSD_zero⟩]

/-- With the rotors the mass matrix is positive definite on each tree. -/
theorem isSPD_ofHoisted {x : State ℝ} (hdamping : x.damping = .zeros 2)
    (hinertia : x.reflectedInertia = .replicate 2 1)
    (k : PositionKinematics ℝ) : ∀ t ∈ hoisted.layout.trees, (((hoisted.rigidMassMatrix k).addDiagonal
      (ofHoisted.addedInertia x)).diagonalBlock (hoisted.layout.start t) (hoisted.layout.size t)).IsSPD := by
  refine fun t ht => massive_hoisted.isSPD_diagonalBlock made_ofHoisted.laidOut k
    (fun i (hi : i < 2) => ?_) ht
  have hadded : ofHoisted.addedInertia x i = 1 := by
    rw [Simulator.addedInertia, hdamping, hinertia, Vec.get_add ((Vec.size_ofFn ..).symm ▸ hi),
      Vec.get_mul, Vec.get_zeros, zero_mul, add_zero]
    exact Vec.get_ofFn_of_lt hi
  rw [hadded]
  exact one_pos

theorem positionsWithin_hoisted : hoisted.PositionsWithin hoisted.numPositions :=
  Mechanism.positionsWithin_of_all rfl

/-- The first load falls the same, whether the second rests or moves. -/
theorem tree_apart_hoisted : ∃ v w,
    ((Operation.ask .freeVelocities).perform ofHoisted hoistedAtRest).1 = .ok (.vector v) ∧
    ((Operation.ask .freeVelocities).perform ofHoisted hoistedMoving).1 = .ok (.vector w) ∧
      hoistedAtRest.state.velocities 1 ≠ hoistedMoving.state.velocities 1 ∧ v 0 = w 0 := by
  obtain ⟨v, hv⟩ := serves_hoistedAtRest.exists_freeVelocities builtIn_ofHoisted positionsWithin_hoisted
    fun k _ => isSPD_ofHoisted (by
    rw [toSetting_hoistedAtRest]; exact damping_ofHoisted) (by rw [toSetting_hoistedAtRest]; rfl) k
  obtain ⟨w, hw⟩ := serves_hoistedMoving.exists_freeVelocities builtIn_ofHoisted positionsWithin_hoisted
    fun k _ => isSPD_ofHoisted (by
    rw [toSetting_hoistedMoving, toSetting_hoistedAtRest]; exact damping_ofHoisted) (by
      rw [toSetting_hoistedMoving, toSetting_hoistedAtRest]; rfl) k
  refine ⟨v, w, hv, hw, ?_, ?_⟩
  · rw [toSetting_hoistedMoving, toSetting_hoistedAtRest]
    show (Vec.zeros 2 : Vec ℝ) 1 ≠ 1
    rw [Vec.get_zeros]
    exact zero_ne_one
  · exact (Serves.tree_apart made_ofHoisted builtIn_ofHoisted serves_hoistedAtRest serves_hoistedMoving
      agreeOn_hoisted).1
      v w hv hw 0 (Nat.le_refl 0) Nat.one_pos

/-! ### Floating point -/

/-- Two bodies on slides of their own, the second slide far out. -/
def crowded : Model Float where
  bodies := #[.world, .pointMass "near" 1, .pointMass "far" 1]
  joints := #[.ofKind "near" (.prismatic .unitX) .world ⟨1⟩,
    { (Joint.ofKind "far" (.prismatic .unitX) .world ⟨2⟩).atPoint ⟨1e308, 0, 0⟩ with velocityStart := 1 }]
  inboard := #[none, some ⟨0⟩, some ⟨1⟩]
  layout := ⟨#[none, some ⟨0⟩, some ⟨1⟩], #[⟨0⟩, ⟨1⟩], #[1, 1]⟩
  elements := []

def ofCrowded : Simulator Float := ⟨crowded, .ofTable [] (.ok []), .standard, [], none, 0⟩

/-- The second body moves as far again. -/
def crowdedFar : Context Float :=
  ((Operation.change (.positions ⟨#[0, 1e308]⟩)).perform ofCrowded ofCrowded.defaultContext).2

/-- A new context in which another simulator, with gravity along the slides, has evaluated free motion
    first. -/
def crowdedPulled : Context Float :=
  ((Operation.ask .freeVelocities).perform
    { ofCrowded with model := { crowded with elements := [.gravity .unitX] } } ofCrowded.defaultContext).2

theorem made_ofCrowded : ofCrowded.Made := by
  have hbuild : Mechanism.build [.pointMass "near" 1,
    .pointMass "far" 1] [.ofKind "near" (.prismatic .unitX) .world ⟨1⟩,
      (Joint.ofKind "far" (.prismatic .unitX) .world ⟨2⟩).atPoint ⟨1e308, 0, 0⟩] = .ok crowded.toMechanism :=
    eq_ok_iff_toOption.mpr (by decide +kernel)
  have hconfig : (Config.standard : Config Float).validate = .ok () :=
    eq_ok_iff_toOption.mpr (by decide +kernel)
  exact .new (bind_eq_ok_iff.mpr ⟨_, hbuild, bind_eq_ok_iff.mpr ⟨(), rfl, rfl⟩⟩)
    (bind_eq_ok_iff.mpr ⟨(), hconfig, bind_eq_ok_iff.mpr ⟨(), rfl, rfl⟩⟩)

/-- Nothing has been evaluated in these contexts. -/
theorem serves_ofCrowded : ofCrowded.Serves ofCrowded.defaultContext ∧ ofCrowded.Serves crowdedFar := by
  refine ⟨⟨.created _, ofCrowded.validate_defaultContext, nofun, fun stage x hx => ?_⟩,
    ⟨.performed _ _ (.created _), eq_ok_iff_toOption.mpr (by decide +kernel), nofun, fun stage x hx => ?_⟩⟩
  · have hnone : (ofCrowded.defaultContext.current ofCrowded.defaultContext.cache stage).isNone = true := by
      cases stage <;> decide +kernel
    rw [hx] at hnone
    cases hnone
  · have hnone : (crowdedFar.current crowdedFar.cache stage).isNone = true := by
      cases stage <;> decide +kernel
    rw [hx] at hnone
    cases hnone

/-- In floating point a tree does depend on the others: where the position of the second body overflows,
    the free velocity of the first is no number. And it depends on what another simulator has left in
    the context. -/
theorem tree_not_apart_crowded : ofCrowded.Made ∧ ofCrowded.model.elements = [] ∧
    ofCrowded.Serves ofCrowded.defaultContext ∧
    ofCrowded.Serves crowdedFar ∧ crowdedFar.state.positions.isFinite = true ∧
    Setting.AgreeOn ofCrowded.model.layout ⟨0⟩ ofCrowded.defaultContext.toSetting crowdedFar.toSetting ∧
    crowdedPulled.Reachable ∧ crowdedPulled.toSetting = ofCrowded.defaultContext.toSetting ∧
    ofCrowded.model.layout.Within ⟨0⟩ 0 ∧
    ∃ v far pulled, ((Operation.ask .freeVelocities).perform ofCrowded ofCrowded.defaultContext).1 =
      .ok (.vector v) ∧
      ((Operation.ask .freeVelocities).perform ofCrowded crowdedFar).1 = .ok (.vector far) ∧
      ((Operation.ask .freeVelocities).perform ofCrowded crowdedPulled).1 = .ok (.vector pulled) ∧
      v 0 ≠ far 0 ∧ v 0 ≠ pulled 0 := by
  have hsame : ∀ {x y : Vec Float}, x 0 = y 0 → ∀ i, ofCrowded.model.layout.Within ⟨0⟩ i → x i = y i := by
    intro x y h i hi
    obtain rfl : i = 0 := Nat.lt_one_iff.mp hi.2
    exact h
  refine ⟨made_ofCrowded, rfl, serves_ofCrowded.1, serves_ofCrowded.2, ?_,
    ⟨hsame ?_, hsame ?_, hsame ?_, hsame ?_, hsame ?_⟩,
    .performed _ _ (.created _), rfl, ?_, ⟨#[0, 0]⟩, ⟨#[0 / 0, 0 / 0]⟩, ⟨#[1e-3, 1e-3]⟩,
    Reply.vector?_eq_some_iff.mp ?_,
    Reply.vector?_eq_some_iff.mp ?_, Reply.vector?_eq_some_iff.mp ?_, ?_, ?_⟩
  all_goals decide +kernel

end Simulator

end CompliantContact
