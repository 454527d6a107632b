import CompliantContact.Dense.Mat
import CompliantContact.Mechanism.Basic

/-!
Poses of bodies, and the velocities of their points.

The velocity of a point that moves with a body depends linearly on the velocities of the mechanism.
Column `i` of the map is the velocity that a unit of velocity `i` gives the point. It is zero unless
the joint of that velocity lies on the way from the body to the world.
-/

namespace CompliantContact

/-- A matrix with three rows, by its columns. -/
structure Columns (α : Type) where
  toArray : Array (Vec3 α)
deriving Inhabited, DecidableEq

namespace Columns

variable {α : Type}

def size (c : Columns α) : Nat := c.toArray.size

def ofFn (n : Nat) (f : Nat → Vec3 α) : Columns α := ⟨Array.ofFn fun i : Fin n => f i⟩

@[simp] theorem size_ofFn (n : Nat) (f : Nat → Vec3 α) : (ofFn n f).size = n := by
  simp [size, ofFn]

variable [Scalar α]

/-- The column at a position, zero past the end. -/
def get (c : Columns α) (i : Nat) : Vec3 α := c.toArray.getD i 0

instance : CoeFun (Columns α) fun _ => Nat → Vec3 α := ⟨get⟩

theorem get_ofFn (n : Nat) (f : Nat → Vec3 α) (i : Nat) :
    ofFn n f i = if i < n then f i else 0 := by
  by_cases h : i < n <;> simp [get, ofFn, Array.getD, h]

def mulVec (c : Columns α) (v : Vec α) : Vec3 α :=
  (List.range c.size).foldl (fun acc i => acc + c i * v i) 0

def transposeMulVec (c : Columns α) (u : Vec3 α) : Vec α := .ofFn c.size fun i => (c i).dot u

def sub (c d : Columns α) : Columns α := ofFn c.size fun i => c i - d i

instance : Sub (Columns α) := ⟨sub⟩

def toMat (c : Columns α) : Mat α := .ofFn 3 c.size fun i j => (c j).get i

end Columns

/-- The poses in the world of all bodies and of all joint frames. -/
structure PositionKinematics (α : Type) where
  bodyPoses : Array (Pose α)
  jointFrames : Array (Pose α)
deriving Inhabited, DecidableEq

namespace PositionKinematics

variable {α : Type} [Scalar α]

def bodyPose (k : PositionKinematics α) (b : BodyIndex) : Pose α := k.bodyPoses.getD b.val .identity

def jointFrame (k : PositionKinematics α) (j : JointIndex) : Pose α :=
  k.jointFrames.getD j.val .identity

end PositionKinematics

namespace Mechanism

variable {α : Type} [Scalar α]

/-- The pose of a joint's frame, given the poses of the bodies. -/
def jointFrame (poses : Array (Pose α)) (joint : Joint α) : Pose α :=
  poses.getD joint.parent.val .identity * joint.offset

/-- The poses of the bodies before `b`, extended by that of body `b`. -/
def placeBody (m : Mechanism α) (q : Vec α) (poses : Array (Pose α)) (b : BodyIndex) :
    Array (Pose α) :=
  match m.inboardJoint? b with
  | none => poses.push .identity
  | some (_, joint) =>
    poses.push (jointFrame poses joint * joint.kind.motion fun i => q (joint.velocityStart + i))

def bodyPoses (m : Mechanism α) (q : Vec α) : Array (Pose α) :=
  m.movableBodies.foldl (m.placeBody q) #[.identity]

/-- Takes the positions of the joint that a body hangs on. A joint without any still has a place for
    them, which must not lie past the end. -/
def requirePositions (m : Mechanism α) (q : Vec α) (b : BodyIndex) : Outcome α Unit :=
  match m.inboardJoint? b with
  | none => .ok ()
  | some (_, joint) =>
    let last := joint.velocityStart + joint.dofs
    require (last ≤ q.size) (.outOfRange last q.size)

def positionKinematics (m : Mechanism α) (q : Vec α) : Outcome α (PositionKinematics α) := do
  requireSize "generalized positions" m.numPositions q.size
  m.movableBodies.forM (m.requirePositions q)
  let poses := m.bodyPoses q
  return ⟨poses, m.joints.map (jointFrame poses)⟩

def comPosition (k : PositionKinematics α) (b : BodyIndex) (body : Body α) : Vec3 α :=
  (k.bodyPose b).apply body.com

/-- The joint of a chain that owns a velocity, its frame, and which of its velocities it is. -/
def owner? (k : PositionKinematics α) (chain : List (JointIndex × Joint α)) (i : Nat) :
    Option (Pose α × JointKind α × Nat) :=
  (chain.find? fun (_, joint) =>
      joint.velocityStart ≤ i ∧ i < joint.velocityStart + joint.dofs).map fun (j, joint) =>
    (k.jointFrame j, joint.kind, i - joint.velocityStart)

/-- The velocity of the world point `p` from a unit of a joint's velocity number `i`. -/
def pointVelocity (frame : Pose α) (kind : JointKind α) (i : Nat) (p : Vec3 α) : Vec3 α :=
  match kind with
  | .weld => 0
  | .revolute a => (frame.rotation.apply a).cross (p - frame.position)
  | .prismatic a => frame.rotation.apply a
  | .translational => frame.rotation.apply (.axis i)

/-- The angular velocity from a unit of a joint's velocity. -/
def angularVelocity (frame : Pose α) (kind : JointKind α) : Vec3 α :=
  match kind with
  | .revolute a => frame.rotation.apply a
  | _ => 0

/-- The map from velocities to the velocity of the world point `p`, moving with a body. -/
def translationalJacobian (m : Mechanism α) (k : PositionKinematics α) (b : BodyIndex) (p : Vec3 α) :
    Columns α :=
  let chain := m.chain b
  .ofFn m.numVelocities fun i =>
    match owner? k chain i with
    | none => 0
    | some (frame, kind, i) => pointVelocity frame kind i p

/-- The map from velocities to the angular velocity of a body. -/
def angularJacobian (m : Mechanism α) (k : PositionKinematics α) (b : BodyIndex) : Columns α :=
  let chain := m.chain b
  .ofFn m.numVelocities fun i =>
    match owner? k chain i with
    | none => 0
    | some (frame, kind, _) => angularVelocity frame kind

end Mechanism

end CompliantContact
