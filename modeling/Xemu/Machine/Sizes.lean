import Xemu.Machine.Rings
import Xemu.Machine.Accesses

/-! The two arrays the guest reaches without a check keep the sizes they were given. -/

namespace Xemu

/-- RAM has the size that was allocated, and the configuration record its 256 bytes. -/
structure Bus.Sized (bus : Bus) : Prop where
  ram : bus.ram.size = ramSize
  config : bus.blk.vdev.config.size = 256

/-- No event changes the size of either array. -/
theorem sized_invariant : Machine.Invariant Bus.Sized where
  read host bus device addr size params holds := by
    intro result read
    cases device with
    | dummy | clint => cases read
    -- Reads may change a controller, the clock or the serial port, none of which has the arrays.
    | rtc | plic | uart =>
      obtain ⟨_, _, same⟩ := bind_eq_ok.mp read
      cases Except.ok.inj same
      exact ⟨holds.ram, holds.config⟩
    | pciHost | rom | flash | ram | virtio =>
      obtain ⟨_, _, same⟩ := bind_eq_ok.mp read
      cases Except.ok.inj same
      exact holds
  write host write fuel bus device addr data size params other holds := by
    intro result written
    have changed := Bus.deviceWrite_changed other result written
    exact ⟨changed.size.trans holds.ram, changed.blk ▸ holds.config⟩
  blk bus blk same holds := ⟨holds.ram, same.config ▸ holds.config⟩
  signal bus holds := fun plic sent => ⟨holds.ram, holds.config⟩
  poll bus supervisor holds := fun result polled => ⟨holds.ram, holds.config⟩
  timer host bus holds := ⟨holds.ram, holds.config⟩
  input bus byte holds := fun result received => ⟨holds.ram, holds.config⟩

/-- In every reachable state the two arrays have the sizes they were given. -/
theorem Machine.Reached.sized {m : Machine} (reached : m.Reached) : m.bus.Sized :=
  sized_invariant.reached (fun _ _ _ => ⟨rfl, rfl⟩) reached

end Xemu
