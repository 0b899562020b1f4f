import Mathlib.Data.Fintype.EquivFin
import Mathlib.Data.Nat.Factorization.Basic
import Mathlib.Data.Nat.ModEq
import Mathlib.Tactic.Ring
import Mathlib.Tactic.Linarith

namespace DbosScheduler.Triangular

-- A walk around a circle of n places whose steps are 1, 2, 3, ..: after k steps it
-- stands at the k-th triangular number.
def triangle : Nat → Nat
  | 0 => 0
  | k+1 => triangle k + (k + 1)

end DbosScheduler.Triangular
