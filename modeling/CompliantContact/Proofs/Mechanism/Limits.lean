import CompliantContact.Proofs.Mechanism.Places

/-!
The limits of the joints of a mechanism.

The check of a joint asks for a lower and an upper limit for each of its degrees of freedom, in order.
What building does to a joint afterwards leaves its limits alone, so the joints of a mechanism that was
built have them in order too.
-/

namespace CompliantContact

open Outcome

variable {α : Type} [Scalar α] {joint joint' : Joint α} {n i : ℕ}

/-- A lower and an upper limit for each degree of freedom, in order. -/
structure Joint.Limited (joint : Joint α) : Prop where
  lower : joint.lowerLimits.size = joint.dofs
  upper : joint.upperLimits.size = joint.dofs
  ordered : ∀ i, Bound.ordered (joint.lowerLimits.getD i none) (joint.upperLimits.getD i none) = true

theorem Joint.limited_of_check (h : joint.check n = .ok ()) : joint.Limited := by
  rw [check, require_bind_eq_ok_iff, require_bind_eq_ok_iff, require_bind_eq_ok_iff] at h
  obtain ⟨-, -, -, h⟩ := h
  simp only [bind_eq_ok_iff] at h
  obtain ⟨_, -, _, -, _, hlower, _, hupper, _, -, _, -, h⟩ := h
  have hlower : joint.dofs = joint.lowerLimits.size := requireSize_eq_ok_iff.mp hlower
  have hupper : joint.dofs = joint.upperLimits.size := requireSize_eq_ok_iff.mp hupper
  refine ⟨hlower.symm, hupper.symm, fun i => ?_⟩
  rcases Nat.lt_or_ge i joint.dofs with hi | hi
  · have hzip : i < (joint.lowerLimits.zip joint.upperLimits).size := by
      rw [Array.size_zip, ← hlower, ← hupper, Nat.min_self]
      exact hi
    have hpair := Array.all_eq_true.mp (require_eq_ok_iff.mp h) i hzip
    rw [Array.getElem_zip] at hpair
    rw [Array.getD_eq_getD_getElem?, Array.getD_eq_getD_getElem?, Array.getElem?_eq_getElem (hlower ▸ hi),
      Array.getElem?_eq_getElem (hupper ▸ hi)]
    exact hpair
  · rw [Array.getD_eq_getD_getElem?, Array.getD_eq_getD_getElem?, Array.getElem?_eq_none (hlower ▸ hi),
      Array.getElem?_eq_none (hupper ▸ hi)]
    rfl

/-- Only the length of the axis changes. -/
theorem Joint.Limited.normalizeAxis (h : joint.Limited) (hnormal : joint.normalizeAxis = .ok joint') :
    joint'.Limited := by
  rw [Joint.normalizeAxis] at hnormal
  split at hnormal
  · cases hnormal
    exact h
  · rw [require_bind_eq_ok_iff] at hnormal
    obtain ⟨-, hnormal⟩ := hnormal
    cases hnormal
    have hdofs : ∀ axis, (joint.kind.withAxis axis).dofs = joint.kind.dofs := fun axis => by
      cases joint.kind <;> rfl
    exact ⟨h.lower.trans (hdofs _).symm, h.upper.trans (hdofs _).symm, h.ordered⟩

namespace Mechanism

variable {c d : Connections α}

/-- All joints that were accepted so far have their limits in order. -/
def Connections.Limited (c : Connections α) : Prop := ∀ joint ∈ c.joints, joint.Limited

theorem Connections.Limited.connect (h : c.Limited) (hd : Mechanism.connect n c joint = .ok d) :
    d.Limited := by
  rw [Mechanism.connect, bind_eq_ok_iff] at hd
  obtain ⟨_, hcheck, hd⟩ := hd
  obtain ⟨joint', hnormal, hd⟩ := bind_eq_ok_iff.mp hd
  obtain ⟨-, hd⟩ := require_bind_eq_ok_iff.mp hd
  cases hd
  intro other hmem
  rcases Array.mem_push.mp hmem with hmem | rfl
  · exact h other hmem
  · exact (Joint.limited_of_check hcheck).normalizeAxis hnormal

theorem Connections.Limited.foldlM_connect {joints : List (Joint α)} (h : c.Limited)
    (hd : joints.foldlM (Mechanism.connect n) c = .ok d) : d.Limited := by
  induction joints generalizing c with
  | nil =>
    cases hd
    exact h
  | cons joint joints ih =>
    rw [List.foldlM_cons, bind_eq_ok_iff] at hd
    obtain ⟨next, hnext, hd⟩ := hd
    exact ih (h.connect hnext) hd

/-- A joint that was placed has the limits that it was accepted with. -/
theorem build_limited {bodies : List (Body α)} {joints : List (Joint α)} {m : Mechanism α}
    (h : build bodies joints = .ok m) :
    ∀ joint ∈ m.joints, joint.Limited := by
  simp only [build, bind_eq_ok_iff] at h
  obtain ⟨_, -, c, hc, _, -, h⟩ := h
  cases h
  have hlimited : c.Limited := Connections.Limited.foldlM_connect (fun joint hmem => by simp at hmem) hc
  intro joint hmem
  obtain ⟨i, hi⟩ := Array.mem_iff_getElem?.mp hmem
  obtain ⟨old, hold, heq⟩ := Connections.getElem?_foldl_placeVelocities _ _ hi
  have hlimits := hlimited old (Array.mem_of_getElem? hold)
  rw [heq]
  exact ⟨hlimits.lower, hlimits.upper, hlimits.ordered⟩

end Mechanism

end CompliantContact
