/-
A delay that doubles up to a cap.
-/
import Mathlib.Data.Nat.Basic
import Mathlib.Algebra.Group.Nat.Defs

namespace GarageDoor
namespace Library
namespace Backoff

end Backoff
end Library
end GarageDoor
