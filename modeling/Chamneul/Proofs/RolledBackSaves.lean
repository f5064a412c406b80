import Chamneul.Proofs.StaleWrites

/-! Saves that have been rolled back. The row forgets them and the instance does not: it goes
on leaving their columns out, until it is given other values. -/

namespace Chamneul.StaleWrite

variable {V : Type} [DecidableEq V]

section

variable (row : Column → V) (i : ℕ) (c : Column)

end

variable {row : Column → V} {i : ℕ} {c : Column} {past : List (TxOp V)}

end Chamneul.StaleWrite
