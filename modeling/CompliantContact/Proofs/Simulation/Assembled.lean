import CompliantContact.Proofs.Problem.Shape
import CompliantContact.Proofs.Simulation.Coherent

/-!
The constraints of an assembled problem, in their order: a cone for each contact, the limits that are
needed, and the couplers.
-/

namespace CompliantContact

variable {α : Type} [Scalar α]

open Outcome

namespace Problem

/-- A problem with constraints appended to its own. -/
def extend (p : Problem α) (cs : List (Constraint α)) : Problem α :=
  { p with constraints := p.constraints ++ cs.toArray }

omit [Scalar α] in
theorem extend_nil (p : Problem α) : p.extend [] = p := by
  rw [extend, Array.append_empty]

omit [Scalar α] in
theorem extend_extend (p : Problem α) (cs ds : List (Constraint α)) :
    (p.extend cs).extend ds = p.extend (cs ++ ds) := by
  simp only [extend, Array.append_assoc, List.append_toArray]

omit [Scalar α] in
theorem extend_singleton (p : Problem α) (c : Constraint α) :
    p.extend [c] = { p with constraints := p.constraints.push c } := by
  rw [extend, Array.push_eq_append]

omit [Scalar α] in
/-- What fits does so whatever the constraints are. -/
theorem Fits.extend {p : Problem α} {b : JacobianBlock α} (h : p.Fits b) (cs : List (Constraint α)) :
    (p.extend cs).Fits b :=
  ⟨h.tree, h.cols⟩

theorem new_eq_ok {timeStep : α} {dynamics : List (Mat α)} {freeVelocities : Vec α} {p : Problem α}
    (h : new timeStep dynamics freeVelocities = .ok p) :
    p = ⟨timeStep, dynamics.toArray, freeVelocities, #[]⟩ := by
  rw [new, require_bind_eq_ok_iff, bind_eq_ok_iff] at h
  obtain ⟨-, _, -, h⟩ := h
  cases h
  rfl

end Problem

namespace Simulator

variable {s : Simulator α} {x : State α} {p q : Problem α} {β : Type}

/-- Appends a constraint if there is one. -/
def appendNeeded (p : Problem α) : Option (Constraint α) → Outcome α (Problem α)
  | none => .ok p
  | some c => append p (.ok c)

omit [Scalar α] in
theorem append_eq (p : Problem α) (o : Outcome α (Constraint α)) :
    append p o = o.map some >>= appendNeeded p := by
  cases o <;> rfl

theorem addLimit_eq (s : Simulator α) (x : State α) (vFree : Vec α) (p : Problem α) (joint : Joint α) :
    s.addLimit x vFree p joint = s.limitConstraint x vFree joint >>= appendNeeded p := by
  show (s.limitConstraint x vFree joint >>= fun o => _) = _
  refine congrArg _ (funext fun o => ?_)
  cases o <;> rfl

theorem appendNeeded_eq_ok {o : Option (Constraint α)} (h : appendNeeded p o = .ok q) (hp : p.Built)
    (hmade : ∀ c, o = some c → c.Made) : q.Built ∧ q = p.extend o.toList := by
  cases o with
  | none =>
    cases h
    exact ⟨hp, p.extend_nil.symm⟩
  | some c =>
    obtain ⟨_, hc, h⟩ := bind_eq_ok_iff.mp h
    cases hc
    obtain ⟨⟨r, i⟩, hadd, h⟩ := bind_eq_ok_iff.mp h
    cases h
    obtain ⟨-, -, hq⟩ := Problem.addConstraint_eq_ok hadd
    exact ⟨.addConstraint hp (hmade c rfl) hadd, hq.trans (p.extend_singleton c).symm⟩

omit [Scalar α] in
/-- What fits is appended, contacts before anything else. -/
theorem appendNeeded_of_fits {o : Option (Constraint α)} (hfits : ∀ c, o = some c → ∀ b ∈ c.blocks, p.Fits b)
    (hfirst : ∀ c, o = some c → c.isContact = true → p.numContacts = p.numConstraints) :
    appendNeeded p o = .ok (p.extend o.toList) := by
  cases o with
  | none => exact congrArg Except.ok p.extend_nil.symm
  | some c =>
    refine bind_eq_ok_iff.mpr ⟨c, rfl,
      bind_eq_ok_iff.mpr ⟨_, Problem.addConstraint_of_fits (hfirst c rfl) (hfits c rfl), ?_⟩⟩
    exact congrArg Except.ok (p.extend_singleton c).symm

omit [Scalar α] in
/-- A loop over constraints that fit, all of them contacts or none, appends them. -/
theorem foldlM_appendNeeded_of_fits {xs : List β} {f : β → Outcome α (Option (Constraint α))}
    {step : Problem α → β → Outcome α (Problem α)} (hstep : ∀ p y, step p y = f y >>= appendNeeded p)
    {cs : List (Option (Constraint α))} (hcs : xs.map f = cs.map .ok)
    (hfits : ∀ c ∈ cs.filterMap id, ∀ b ∈ c.blocks, p.Fits b)
    (hfirst : (p.numContacts = p.numConstraints ∧ ∀ c ∈ cs.filterMap id, c.isContact = true) ∨
      ∀ c ∈ cs.filterMap id, c.isContact = false) : xs.foldlM step p = .ok (p.extend (cs.filterMap id)) := by
  induction xs generalizing p cs with
  | nil =>
    obtain rfl := List.map_eq_nil_iff.mp hcs.symm
    exact congrArg Except.ok p.extend_nil.symm
  | cons y xs ih =>
    cases cs with
    | nil => cases hcs
    | cons o cs =>
      rw [List.map_cons, List.map_cons, List.cons.injEq] at hcs
      have hsplit : (o :: cs).filterMap id = o.toList ++ cs.filterMap id := by cases o <;> rfl
      rw [hsplit] at hfits hfirst ⊢
      have happend : appendNeeded p o = .ok (p.extend o.toList) := by
        refine appendNeeded_of_fits (fun c hc => ?_) fun c hc hcontact => ?_
        · exact hfits c (List.mem_append_left _ (Option.mem_toList.mpr hc))
        · rcases hfirst with ⟨hall, -⟩ | hnone
          · exact hall
          · rw [hnone c (List.mem_append_left _ (Option.mem_toList.mpr hc))] at hcontact
            cases hcontact
      rw [List.foldlM_cons, hstep, hcs.1]
      refine bind_eq_ok_iff.mpr ⟨_, happend, ?_⟩
      refine (ih hcs.2 (fun c hc b hb => ?_) ?_).trans (congrArg Except.ok (Problem.extend_extend ..))
      · exact (hfits c (List.mem_append_right _ hc) b hb).extend _
      · refine hfirst.imp (fun ⟨hall, hcontacts⟩ =>
          ⟨?_, fun c hc => hcontacts c (List.mem_append_right _ hc)⟩)
          fun hnone c hc => hnone c (List.mem_append_right _ hc)
        cases o with
        | none => rwa [Option.toList_none, Problem.extend_nil]
        | some c =>
          rw [Option.toList_some, Problem.extend_singleton, Problem.numContacts_push,
            hcontacts c (List.mem_cons_self ..), hall]
          exact (Array.size_push ..).symm

omit [Scalar α] in
theorem foldlM_append_of_fits {xs : List β} {f : β → Outcome α (Constraint α)}
    {step : Problem α → β → Outcome α (Problem α)}
    (hstep : ∀ p y, step p y = append p (f y)) {cs : List (Constraint α)} (hcs : xs.map f = cs.map .ok)
    (hfits : ∀ c ∈ cs, ∀ b ∈ c.blocks, p.Fits b)
    (hfirst : (p.numContacts = p.numConstraints ∧ ∀ c ∈ cs, c.isContact = true) ∨
      ∀ c ∈ cs, c.isContact = false) :
    xs.foldlM step p = .ok (p.extend cs) := by
  have hsome : (cs.map some).filterMap id = cs := by
    rw [List.filterMap_map]
    exact List.filterMap_some
  have hneeded : (xs.map fun y => (f y).map some) = (cs.map some).map .ok := by
    have hmap := congrArg (List.map (Except.map some)) hcs
    rw [List.map_map, List.map_map] at hmap
    rw [List.map_map]
    exact hmap
  have hloop := foldlM_appendNeeded_of_fits (p :=
    p) (fun p y => (hstep p y).trans (append_eq p (f y))) hneeded
  rw [hsome] at hloop
  exact hloop hfits hfirst

/-- A loop that appends what is needed appends all of it, in order. -/
theorem foldlM_appendNeeded {xs : List β} {f : β → Outcome α (Option (Constraint α))}
    {step : Problem α → β → Outcome α (Problem α)} (hstep : ∀ p y, step p y = f y >>= appendNeeded p)
    (hmade : ∀ y c, f y = .ok (some c) → c.Made) (h : xs.foldlM step p = .ok q) (hp : p.Built) :
    q.Built ∧ ∃ cs : List (Option (Constraint α)), xs.map f = cs.map .ok ∧
    q = p.extend (cs.filterMap id) := by
  induction xs generalizing p with
  | nil =>
    cases h
    exact ⟨hp, [], rfl, (Problem.extend_nil _).symm⟩
  | cons y xs ih =>
    rw [List.foldlM_cons, hstep, bind_eq_ok_iff] at h
    obtain ⟨r, hr, h⟩ := h
    obtain ⟨o, ho, hr⟩ := bind_eq_ok_iff.mp hr
    obtain ⟨hbuilt, rfl⟩ := appendNeeded_eq_ok hr hp fun c hc => hmade y c (ho.trans (congrArg Except.ok hc))
    obtain ⟨hq, cs, hcs, rfl⟩ := ih h hbuilt
    refine ⟨hq, o :: cs, by rw [List.map_cons, List.map_cons, ho, hcs], ?_⟩
    rw [Problem.extend_extend]
    cases o <;> rfl

/-- The same for constraints that are always needed. -/
theorem foldlM_append {xs : List β} {f : β → Outcome α (Constraint α)}
    {step : Problem α → β → Outcome α (Problem α)}
    (hstep : ∀ p y, step p y = append p (f y)) (hmade : ∀ y c, f y = .ok c → c.Made)
    (h : xs.foldlM step p = .ok q) (hp : p.Built) :
    q.Built ∧ ∃ cs : List (Constraint α), xs.map f = cs.map .ok ∧ q = p.extend cs := by
  induction xs generalizing p with
  | nil =>
    cases h
    exact ⟨hp, [], rfl, (Problem.extend_nil _).symm⟩
  | cons y xs ih =>
    rw [List.foldlM_cons, hstep, append_eq, bind_eq_ok_iff] at h
    obtain ⟨r, hr, h⟩ := h
    obtain ⟨o, ho, hr⟩ := bind_eq_ok_iff.mp hr
    cases hy : f y with
    | error e =>
      rw [hy] at ho
      cases ho
    | ok c =>
      rw [hy] at ho
      cases ho
      obtain ⟨hbuilt, rfl⟩ := appendNeeded_eq_ok hr hp fun d hd => by
        cases hd
        exact hmade y c hy
      obtain ⟨hq, cs, hcs, rfl⟩ := ih h hbuilt
      refine ⟨hq, c :: cs, by rw [List.map_cons, List.map_cons, hy, hcs], ?_⟩
      rw [Problem.extend_extend]
      rfl

theorem contactConstraint_eq_ok {pair : ContactPair α} {k : ContactKinematics α} {c : Constraint α}
    (h : s.contactConstraint pair k = .ok c) :
    (∃ p, c.kind = .cone p ∧ p.mu = pair.friction) ∧ c.numEquations = 3 ∧ c.blocks = k.blocks ∧ c.Made := by
  obtain ⟨hkind, hg0, hblocks, -⟩ := Constraint.cone_eq_ok h
  refine ⟨⟨_, hkind, rfl⟩, ?_, hblocks, .cone h⟩
  rw [Constraint.numEquations, hg0]
  rfl

theorem limitConstraint_eq_ok {vFree : Vec α} {joint : Joint α} {c : Constraint α}
    (h : s.limitConstraint x vFree joint = .ok (some c)) : c.isContact = false ∧ c.Made := by
  rw [limitConstraint] at h
  split at h
  · cases h
  · rw [require_bind_eq_ok_iff] at h
    obtain ⟨-, h⟩ := h
    simp only at h
    split at h
    · cases h
    · split at h
      · cases h
      · obtain ⟨d, hd, h⟩ := bind_eq_ok_iff.mp h
        cases h
        exact ⟨(Constraint.limit_eq_ok hd).1, .limit hd⟩

theorem couplerConstraint_eq_ok {coupler : Coupler α} {c : Constraint α}
    (h : s.couplerConstraint x coupler = .ok c) :
    c.isContact = false ∧ c.Made := by
  simp only [couplerConstraint, bind_eq_ok_iff] at h
  obtain ⟨_, -, _, -, h⟩ := h
  exact ⟨(Constraint.holonomic_eq_ok h).1, .holonomic h⟩

/-- The cones of contacts are contacts. -/
theorem isContact_of_cones {contacts : List (ContactPair α × ContactKinematics α)}
    {cones : List (Constraint α)}
    (h : (contacts.map fun (pair, k) => s.contactConstraint pair k) = cones.map .ok) {c : Constraint α}
    (hc : c ∈ cones) :
    c.isContact = true := by
  have hmem : Except.ok c ∈ cones.map (Except.ok (ε := Failure α)) := List.mem_map_of_mem hc
  rw [← h] at hmem
  obtain ⟨⟨pair, k⟩, -, hk⟩ := List.mem_map.mp hmem
  obtain ⟨⟨q, hkind, -⟩, -⟩ := contactConstraint_eq_ok hk
  rw [Constraint.isContact, hkind]

/-- Limits and couplers are not. -/
theorem isContact_of_limits {joints : List (Joint α)} {vFree : Vec α} {limits : List (Option (Constraint α))}
    (h : joints.map (s.limitConstraint x vFree) = limits.map .ok) {c : Constraint α}
    (hc : c ∈ limits.filterMap id) :
    c.isContact = false := by
  obtain ⟨o, ho, hc⟩ := List.mem_filterMap.mp hc
  obtain rfl : o = some c := hc
  have hmem : Except.ok (some c) ∈ limits.map (Except.ok (ε := Failure α)) := List.mem_map_of_mem ho
  rw [← h] at hmem
  obtain ⟨joint, -, hjoint⟩ := List.mem_map.mp hmem
  exact (limitConstraint_eq_ok hjoint).1

theorem isContact_of_couplers {cs : List (Coupler α)} {couplers : List (Constraint α)}
    (h : cs.map (s.couplerConstraint x) = couplers.map .ok) {c : Constraint α}
    (hc : c ∈ couplers) : c.isContact = false := by
  have hmem : Except.ok c ∈ couplers.map (Except.ok (ε := Failure α)) := List.mem_map_of_mem hc
  rw [← h] at hmem
  obtain ⟨coupler, -, hcoupler⟩ := List.mem_map.mp hmem
  exact (couplerConstraint_eq_ok hcoupler).1

/-- What an assembled problem consists of. -/
theorem assemble_eq_ok {dynamics : List (Mat α)} {a : FreeAccelerations α} {pairs : List (ContactPair α)}
    {kinematics : List (ContactKinematics α)} {p : AssembledProblem α}
    (h : s.assemble x dynamics a pairs kinematics = .ok p) :
    p.problem.Built ∧ pairs.length = kinematics.length ∧ p.frames = kinematics.map ContactKinematics.frame ∧
      ∃ (cones : List (Constraint α)) (limits : List (Option (Constraint α)))
        (couplers : List (Constraint α)),
        ((pairs.zip kinematics).map fun (pair, k) => s.contactConstraint pair k) = cones.map .ok ∧
        s.model.joints.toList.map (s.limitConstraint x (s.freeVelocities x a)) = limits.map .ok ∧
        s.couplers.map (s.couplerConstraint x) = couplers.map .ok ∧
        p.problem = ⟨s.timeStep, dynamics.toArray, s.freeVelocities x a,
          (cones ++ limits.filterMap id ++ couplers).toArray⟩ := by
  rw [assemble, bind_eq_ok_iff] at h
  obtain ⟨base, hbase, h⟩ := h
  obtain ⟨contacts, hcontacts, h⟩ := bind_eq_ok_iff.mp h
  obtain ⟨q, hq, h⟩ := bind_eq_ok_iff.mp h
  cases h
  have hnew := Problem.new_eq_ok hbase
  rw [addContacts, bind_eq_ok_iff] at hcontacts
  obtain ⟨_, hlength, hcontacts⟩ := hcontacts
  have hlength : pairs.length = kinematics.length := requireSize_eq_ok_iff.mp hlength
  obtain ⟨withCones, hcones, hcontacts⟩ := bind_eq_ok_iff.mp hcontacts
  cases hcontacts
  obtain ⟨hbuilt, cones, hcones', rfl⟩ := foldlM_append
    (f := fun (x : ContactPair α × ContactKinematics α) => s.contactConstraint x.1 x.2) (fun _ _ => rfl)
    (fun y c hc => (contactConstraint_eq_ok hc).2.2.2) hcones (.new hbase)
  rw [addJointConstraints, bind_eq_ok_iff] at hq
  obtain ⟨withLimits, hlimits, hq⟩ := hq
  obtain ⟨hbuilt, limits, hlimits', rfl⟩ := foldlM_appendNeeded (fun p joint => addLimit_eq s x _ p joint)
    (fun joint c hc => (limitConstraint_eq_ok hc).2) hlimits hbuilt
  obtain ⟨hbuilt, couplers, hcouplers, rfl⟩ := foldlM_append (fun _ _ => rfl)
    (fun coupler c hc => (couplerConstraint_eq_ok hc).2) hq hbuilt
  refine ⟨hbuilt, hlength, rfl, cones, limits, couplers, hcones', ?_, hcouplers, ?_⟩
  · rw [← hlimits', hnew]
    rfl
  · show ((base.extend cones).extend (limits.filterMap id)).extend couplers = _
    rw [Problem.extend_extend, Problem.extend_extend, hnew, Problem.extend, Array.empty_append,
      List.append_assoc]

/-- The problem of a step with the limits that a rule gives for the joints. -/
def assembleWith (s : Simulator α) (x : State α) (limit : Joint α → Outcome α (Option (Constraint α)))
    (dynamics : List (Mat α))
    (a : FreeAccelerations α) (pairs : List (ContactPair α)) (kinematics : List (ContactKinematics α)) :
    Outcome α (AssembledProblem α) := do
  let p ← Problem.new s.timeStep dynamics (s.freeVelocities x a)
  let contacts ← s.addContacts p pairs kinematics
  let p ← s.model.joints.toList.foldlM (fun p joint => limit joint >>= appendNeeded p) contacts.problem
  let p ← s.couplers.foldlM (fun p c => append p (s.couplerConstraint x c)) p
  return ⟨p, contacts.frames⟩

/-- Without another rule these are the limits in the window. -/
theorem assemble_eq_with (s : Simulator α) (x : State α) (dynamics : List (Mat α)) (a : FreeAccelerations α)
    (pairs : List (ContactPair α)) (kinematics : List (ContactKinematics α)) :
    s.assemble x dynamics a pairs kinematics =
      s.assembleWith x (s.limitConstraint x (s.freeVelocities x a)) dynamics a pairs kinematics := by
  rw [assemble, assembleWith]
  cases hbase : Problem.new s.timeStep dynamics (s.freeVelocities x a) with
  | error e => rfl
  | ok base =>
    show (s.addContacts base pairs kinematics >>= fun contacts => _) =
      (s.addContacts base pairs kinematics >>= fun contacts => _)
    cases hcontacts : s.addContacts base pairs kinematics with
    | error e => rfl
    | ok contacts =>
      have hfree : contacts.problem.freeVelocities = s.freeVelocities x a := by
        rw [addContacts, bind_eq_ok_iff] at hcontacts
        obtain ⟨_, -, hcontacts⟩ := hcontacts
        obtain ⟨withCones, hcones, hcontacts⟩ := bind_eq_ok_iff.mp hcontacts
        cases hcontacts
        obtain ⟨-, cones, -, rfl⟩ := foldlM_append
          (f := fun (x : ContactPair α × ContactKinematics α) => s.contactConstraint x.1 x.2) (fun _ _ => rfl)
          (fun y c hc => (contactConstraint_eq_ok hc).2.2.2) hcones (.new hbase)
        exact congrArg Problem.freeVelocities (Problem.new_eq_ok hbase)
      show (s.addJointConstraints x contacts.problem >>= fun p => _) = _
      rw [addJointConstraints, hfree]
      have hstep := funext fun p => funext (addLimit_eq s x (s.freeVelocities x a) p)
      rw [hstep]
      exact bind_assoc ..

/-- Constraints that fit the trees make a problem. -/
theorem assembleWith_of_fits {limit : Joint α → Outcome α (Option (Constraint α))} {dynamics : List (Mat α)}
    {a : FreeAccelerations α} {pairs : List (ContactPair α)} {kinematics : List (ContactKinematics α)}
    {base : Problem α} {cones couplers : List (Constraint α)} {limits : List (Option (Constraint α))}
    (hbase : Problem.new s.timeStep dynamics (s.freeVelocities x a) = .ok base)
    (hlength : pairs.length = kinematics.length)
    (hcones : ((pairs.zip kinematics).map fun (pair, k) => s.contactConstraint pair k) = cones.map .ok)
    (hlimits : s.model.joints.toList.map limit = limits.map .ok)
    (hothers : ∀ c ∈ limits.filterMap id, c.isContact = false)
    (hcouplers : s.couplers.map (s.couplerConstraint x) = couplers.map .ok)
    (hfits : ∀ c ∈ cones ++ limits.filterMap id ++ couplers, ∀ b ∈ c.blocks, base.Fits b) :
    s.assembleWith x limit dynamics a pairs kinematics =
      .ok ⟨base.extend (cones ++ limits.filterMap id ++ couplers),
        kinematics.map ContactKinematics.frame⟩ := by
  have hmem : ∀ {c}, c ∈ cones ∨ c ∈ limits.filterMap id ∨ c ∈ couplers →
      ∀ b ∈ c.blocks, base.Fits b := fun hc =>
    hfits _ (by simpa only [List.mem_append, or_assoc] using hc)
  have hempty : base.numContacts = base.numConstraints := by rw [Problem.new_eq_ok hbase]; rfl
  have hcontacts :
    (pairs.zip kinematics).foldlM (fun p (pair, k) => append p (s.contactConstraint pair k)) base =
      .ok (base.extend cones) :=
    foldlM_append_of_fits (f := fun (pair, k) => s.contactConstraint pair k) (fun _ _ => rfl) hcones
      (fun c hc => hmem (.inl hc)) (.inl ⟨hempty, fun c hc => isContact_of_cones hcones hc⟩)
  have hjoints := foldlM_appendNeeded_of_fits (p := base.extend cones) (fun p joint => rfl) hlimits
    (fun c hc b hb => (hmem (.inr (.inl hc)) b hb).extend _) (.inr hothers)
  have hrest := foldlM_append_of_fits (p :=
    (base.extend cones).extend (limits.filterMap id)) (fun _ _ => rfl) hcouplers
    (fun c hc b hb => ((hmem (.inr (.inr hc)) b hb).extend _).extend _)
    (.inr fun c hc => isContact_of_couplers hcouplers hc)
  rw [Problem.extend_extend, Problem.extend_extend] at hrest
  rw [Problem.extend_extend] at hjoints
  refine bind_eq_ok_iff.mpr ⟨base, hbase,
    bind_eq_ok_iff.mpr ⟨⟨base.extend cones, kinematics.map ContactKinematics.frame⟩, ?_,
    bind_eq_ok_iff.mpr ⟨_, hjoints, bind_eq_ok_iff.mpr ⟨_, hrest, ?_⟩⟩⟩⟩
  · exact bind_eq_ok_iff.mpr ⟨(), requireSize_eq_ok_iff.mpr hlength, bind_eq_ok_iff.mpr ⟨_, hcontacts, rfl⟩⟩
  · rw [List.append_assoc]
    rfl

theorem assemble_of_fits {dynamics : List (Mat α)} {a : FreeAccelerations α} {pairs : List (ContactPair α)}
    {kinematics : List (ContactKinematics α)} {base : Problem α} {cones couplers : List (Constraint α)}
    {limits : List (Option (Constraint α))}
    (hbase : Problem.new s.timeStep dynamics (s.freeVelocities x a) = .ok base)
    (hlength : pairs.length = kinematics.length)
    (hcones : ((pairs.zip kinematics).map fun (pair, k) => s.contactConstraint pair k) = cones.map .ok)
    (hlimits : s.model.joints.toList.map (s.limitConstraint x (s.freeVelocities x a)) = limits.map .ok)
    (hcouplers : s.couplers.map (s.couplerConstraint x) = couplers.map .ok)
    (hfits : ∀ c ∈ cones ++ limits.filterMap id ++ couplers, ∀ b ∈ c.blocks, base.Fits b) :
    s.assemble x dynamics a pairs kinematics =
      .ok ⟨base.extend (cones ++ limits.filterMap id ++ couplers),
        kinematics.map ContactKinematics.frame⟩ := by
  rw [assemble_eq_with]
  exact assembleWith_of_fits hbase hlength hcones hlimits
    (fun c hc => isContact_of_limits hlimits hc) hcouplers hfits

/-- A cone for each contact, at its place, and no other constraint is a contact. -/
theorem contacts_of_assemble {dynamics : List (Mat α)} {a : FreeAccelerations α}
    {pairs : List (ContactPair α)} {kinematics : List (ContactKinematics α)} {p : AssembledProblem α}
    (h : s.assemble x dynamics a pairs kinematics = .ok p) :
    p.problem.numContacts = pairs.length ∧ ∀ i pair k, pairs[i]? = some pair → kinematics[i]? = some k →
      ∃ c, p.problem.constraint? i = some c ∧ s.contactConstraint pair k = .ok c := by
  obtain ⟨-, hlength, -, cones, limits, couplers, hcones, hlimits, hcouplers, hp⟩ := assemble_eq_ok h
  have hsize : cones.length = pairs.length := by
    have hmap := congrArg List.length hcones
    rw [List.length_map, List.length_map, List.length_zip] at hmap
    omega
  have hcontacts : ∀ c ∈ cones, c.isContact = true := fun c hc => isContact_of_cones hcones hc
  have hothers : ∀ c ∈ limits.filterMap id ++ couplers, c.isContact = false := fun c hc =>
    (List.mem_append.mp hc).elim (isContact_of_limits hlimits) (isContact_of_couplers hcouplers)
  refine ⟨?_, fun i pair k hpair hk => ?_⟩
  · have hcount : cones.countP Constraint.isContact = cones.length := List.countP_eq_length.mpr hcontacts
    have hnone : (limits.filterMap id ++ couplers).countP Constraint.isContact = 0 :=
      List.countP_eq_zero.mpr fun c hc => by rw [hothers c hc]; exact Bool.false_ne_true
    rw [hp, Problem.numContacts, List.countP_toArray, List.append_assoc, List.countP_append, hcount,
      hnone, hsize]
    rfl
  · have hzip : (pairs.zip kinematics)[i]? = some (pair, k) := List.getElem?_zip_eq_some.mpr ⟨hpair, hk⟩
    obtain ⟨c, hc, hok⟩ := exists_getElem?_of_map_eq_ok hcones hzip
    refine ⟨c, ?_, hok⟩
    rw [hp, Problem.constraint?, List.getElem?_toArray, List.append_assoc, List.getElem?_append_left, hc]
    exact (List.getElem?_eq_some_iff.mp hc).1

end Simulator

end CompliantContact
