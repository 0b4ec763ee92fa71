import PortableImage.Session.Order
/-!
# Accepted orders

When an order is accepted, and what session comes of it.  Whether its roots are accepted depends on
which there are, not on their order or on how often they are named.
-/

namespace PortableImage.Order

/-- The session of an order over an input module, with a backend. -/
def sessionOf (order : Order) (input : ModuleIndex) (backend : Backend) : Session where
  bubble := order.bubble
  bodies := order.bodies
  compiler := ⟨backend, .ofParts order.mode order.options⟩
  roots := order.effectiveRoots input

/-- What is asked of an order over an input module, with a backend. -/
structure Accepted (order : Order) (program : Program) (input : ModuleIndex) (backend : Backend) :
    Prop where
  located : program.moduleAt? order.input = some input
  inside : order.bubble.hasModule input
  supplied : order.backend = some backend
  workers : order.workers ≠ some 0
  known : ∀ root ∈ order.effectiveRoots input, root.isKnown program order.bubble

variable {order : Order} {program : Program} {session : Session}

theorem Accepted.build {input : ModuleIndex} {backend : Backend}
    (h : order.Accepted program input backend) :
    order.build program = .ok (order.sessionOf input backend) := by
  have hroots : (order.effectiveRoots input).find?
      (fun root => !root.isKnown program order.bubble) = none := by
    simpa using h.known
  unfold Order.build
  simp only [h.located, h.supplied, if_neg h.workers, if_pos h.inside, hroots]
  rfl

/-- Which roots an order comes to depends on which it names. -/
theorem mem_effectiveRoots_congr {roots : List Root} (h : ∀ root, root ∈ roots ↔ root ∈ order.roots)
    (input : ModuleIndex) (root : Root) :
    root ∈ { order with roots }.effectiveRoots input ↔ root ∈ order.effectiveRoots input := by
  have hempty : roots.isEmpty = order.roots.isEmpty := by
    rw [Bool.eq_iff_iff, List.isEmpty_iff, List.isEmpty_iff, List.eq_nil_iff_forall_not_mem,
      List.eq_nil_iff_forall_not_mem]
    exact forall_congr' fun root => not_congr (h root)
  rw [effectiveRoots, effectiveRoots, hempty]
  split
  · rfl
  · exact h root

theorem Accepted.withRoots {input : ModuleIndex} {backend : Backend} {roots : List Root}
    (h : order.Accepted program input backend) (hroots : ∀ root, root ∈ roots ↔ root ∈ order.roots) :
    { order with roots }.Accepted program input backend where
  located := h.located
  inside := h.inside
  supplied := h.supplied
  workers := h.workers
  known root hroot := h.known root ((mem_effectiveRoots_congr hroots input root).mp hroot)

theorem accepted_of_build (h : order.build program = .ok session) :
    ∃ input backend, order.Accepted program input backend ∧
      session = order.sessionOf input backend := by
  unfold Order.build at h
  cases hinput : program.moduleAt? order.input with
  | none =>
    simp only [hinput] at h
    cases h
  | some input =>
    cases hbackend : order.backend with
    | none =>
      simp only [hinput, hbackend] at h
      split at h <;> cases h
    | some backend =>
      simp only [hinput, hbackend] at h
      split at h
      · rename_i hinside
        split at h
        · cases h
        · rename_i hworkers
          split at h
          · cases h
          · rename_i hroots
            cases h
            refine ⟨input, backend, ⟨hinput, hinside, hbackend, hworkers, ?_⟩, rfl⟩
            simpa using hroots
      · cases h

end PortableImage.Order
