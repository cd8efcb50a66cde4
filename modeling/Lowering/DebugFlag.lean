/-!
Switches for debugging. A switch has a value besides its setting; switching it off restores the
value it had at first.
-/
namespace Lowering

structure DebugFlag (α : Type) where
  initial : α
  value : α := initial
  enabled : Bool := false

namespace DebugFlag

variable {α : Type}

def enable (f : DebugFlag α) (value : Option α) : DebugFlag α :=
  { f with value := value.getD f.value, enabled := true }

def disable (f : DebugFlag α) : DebugFlag α := { f with value := f.initial, enabled := false }

@[simp] theorem disable_enable (f : DebugFlag α) (value : Option α) : (f.enable value).disable = f.disable := rfl

end DebugFlag
end Lowering
