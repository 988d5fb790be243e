/-
Flash layout constants the update path depends on.
-/
import Mathlib.Data.Nat.Basic

namespace GarageDoor
namespace Flash

/-- Erase sector size. -/
def pageBytes : Nat := 4096

def activeBytes : Nat := 780 * 1024

end Flash
end GarageDoor
