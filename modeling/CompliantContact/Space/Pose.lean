import CompliantContact.Space.Vec3

/-!
Rotations and poses.

A rotation is held as a quaternion of length one, so that composing many of them stays cheap and no
rotation has two meanings. Every rotation here is the identity, one given by an axis and an angle, or
a product of such, and all these have length one in exact arithmetic.
-/

namespace CompliantContact

/-- A rotation, as a quaternion of length one with scalar part `w` and vector part `v`. -/
@[ext] structure Rotation (α : Type) where
  w : α
  v : Vec3 α
deriving Inhabited, DecidableEq

namespace Rotation

variable {α : Type} [Scalar α]

def identity : Rotation α := ⟨1, 0⟩

/-- The rotation about the direction of a vector, by its length in radians. -/
def ofScaledAxis (r : Vec3 α) : Rotation α :=
  let h := r / (Scalar.two : α)
  let nn := h.normSq
  if nn ≤ Scalar.epsilon * Scalar.epsilon then identity
  else
    let n := Scalar.sqrt nn
    ⟨Scalar.cos n, h * (Scalar.sin n / n)⟩

/-- The second rotation followed by the first. -/
def mul (p q : Rotation α) : Rotation α :=
  ⟨p.w * q.w - p.v.x * q.v.x - p.v.y * q.v.y - p.v.z * q.v.z,
   p.w * q.v.x + p.v.x * q.w + p.v.y * q.v.z - p.v.z * q.v.y,
   p.w * q.v.y - p.v.x * q.v.z + p.v.y * q.w + p.v.z * q.v.x,
   p.w * q.v.z + p.v.x * q.v.y - p.v.y * q.v.x + p.v.z * q.w⟩

instance : Mul (Rotation α) := ⟨mul⟩

def apply (q : Rotation α) (u : Vec3 α) : Vec3 α :=
  let t := q.v.cross u * (Scalar.two : α)
  t * q.w + q.v.cross t + u

def toMat3 (q : Rotation α) : Mat3 α :=
  let two : α := Scalar.two
  let i := q.v.x
  let j := q.v.y
  let k := q.v.z
  let ww := q.w * q.w
  let ii := i * i
  let jj := j * j
  let kk := k * k
  let ij := i * j * two
  let wk := q.w * k * two
  let wj := q.w * j * two
  let ik := i * k * two
  let jk := j * k * two
  let wi := q.w * i * two
  .ofRows
    ⟨ww + ii - jj - kk, ij - wk, wj + ik⟩
    ⟨wk + ij, ww - ii + jj - kk, jk - wi⟩
    ⟨ik - wj, wi + jk, ww - ii - jj + kk⟩

end Rotation

/-- The place of one frame in another: where its origin is, and how it is turned. -/
@[ext] structure Pose (α : Type) where
  position : Vec3 α
  rotation : Rotation α
deriving Inhabited, DecidableEq

namespace Pose

variable {α : Type} [Scalar α]

def identity : Pose α := ⟨0, .identity⟩

def ofPosition (p : Vec3 α) : Pose α := ⟨p, .identity⟩

/-- The pose, in the frame of the first, of what the second places in its own. -/
def mul (a b : Pose α) : Pose α := ⟨a.position + a.rotation.apply b.position, a.rotation * b.rotation⟩

instance : Mul (Pose α) := ⟨mul⟩

/-- Where a point of the placed frame lies. -/
def apply (a : Pose α) (p : Vec3 α) : Vec3 α := a.position + a.rotation.apply p

end Pose

end CompliantContact
