import Osl.Executor
import Osl.Proofs.Arena.Reset

/-!
# A new executor

A configuration with a layout, memory for it and a directory to print to gets an executor that stands
before its first statement, and no other configuration gets one. Its arena was reset, so it does not
matter what the memory held.
-/

namespace Osl.Executor
set_option autoImplicit false

variable {L : Layout} {c : Config} {world : Surroundings}

/-- The executor that a configuration gets. -/
theorem create_of_layout (valid : c.layout = .ok L) (reservable : L.size < Arena.reserveLimit)
    (directory : c.sinkDir.all world.hasDirectory) :
    create c world = .ok ⟨L, start L ⟨some {}⟩ world.log⟩ := by
  simp only [create, Arena.create, valid, if_pos reservable, Spool.open?, directory, if_true,
    Arena.reset_eq_initial]
  rfl

/-- A new executor is one before its first statement. -/
theorem eq_start_of_create {x : Executor L Spool} (created : create c world = .ok ⟨L, x⟩) :
    x = start L ⟨some {}⟩ world.log := by
  unfold create at created
  split at created
  · cases created
  · split at created
    · cases created
    · rename_i arena _ sink opened
      cases created
      unfold Spool.open? at opened
      split at opened
      · cases opened
        rw [Arena.reset_eq_initial]
        rfl
      · cases opened

end Osl.Executor
