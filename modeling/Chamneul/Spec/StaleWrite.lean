import Mathlib.Logic.Function.Basic
import Mathlib.Data.Nat.Notation

/-! `accounts.models`: `User` as Python sees it, that is instances of one row that are loaded,
assigned to, saved and refreshed. Values are compared as `==` does, and nothing else is asked
of them. -/

namespace Chamneul.StaleWrite

/-- The columns of `User` other than the primary key. -/
inductive Column
  | password | lastLogin | isSuperuser | email | nickname | activeRole | isActive | isStaff
  | job | interest | profileImageUrl | createdAt | updatedAt
  deriving DecidableEq

/-- `_meta.concrete_fields`, less the primary key. -/
def concreteFields : List Column :=
  [.password, .lastLogin, .isSuperuser, .email, .nickname, .activeRole, .isActive, .isStaff,
    .job, .interest, .profileImageUrl, .createdAt, .updatedAt]

/-- `STALE_WRITE_GUARDED`. -/
def staleWriteGuarded : List Column :=
  [.password, .lastLogin, .email, .isActive, .isStaff, .isSuperuser, .activeRole]

/-- `_guarded_among`. -/
def guardedAmong : Option (List Column) → List Column
  | none => staleWriteGuarded
  | some fieldNames => staleWriteGuarded.filter fun name => decide (name ∈ fieldNames)

variable {V : Type}

/-- An instance that is not `adding`. A column missing in `dict` is deferred. -/
structure Instance (V : Type) where
  dict : Column → Option V
  guardedBaseline : Column → Option V

namespace Instance

/-- `_remember_guarded`. -/
def rememberGuarded (names : List Column) (u : Instance V) : Instance V :=
  { u with guardedBaseline := fun name =>
      if name ∈ names ∧ (u.dict name).isSome then u.dict name else u.guardedBaseline name }

/-- The columns `names` with the values they have in the row. -/
def setFrom (row : Column → V) (names : List Column) (u : Instance V) : Instance V :=
  { u with dict := fun c => if c ∈ names then some (row c) else u.dict c }

/-- `setattr`. -/
def assign (c : Column) (v : V) (u : Instance V) : Instance V :=
  { u with dict := Function.update u.dict c (some v) }

def fromDb (row : Column → V) (fieldNames : List Column) : Instance V :=
  (setFrom row fieldNames ⟨fun _ => none, fun _ => none⟩).rememberGuarded staleWriteGuarded

/-- The columns that are not deferred. -/
def loaded (u : Instance V) : List Column := concreteFields.filter fun c => (u.dict c).isSome

/-- Django's own refresh leaves the deferred columns alone unless they are named. -/
def refreshFromDb (row : Column → V) (fields : Option (List Column)) (u : Instance V) : Instance V :=
  (u.setFrom row (fields.getD u.loaded)).rememberGuarded (guardedAmong fields)

/-- `pre_save`. `updated_at` is `auto_now`; reading another deferred column refreshes it. -/
def preSave (row : Column → V) (now : V) (u : Instance V) (c : Column) : Instance V :=
  if c = .updatedAt then u.assign .updatedAt now
  else if (u.dict c).isSome then u
  else u.refreshFromDb row (some [c])

/-- `super().save()`, with what its `UPDATE` sets. Without `update_fields` Django saves the
columns that are loaded. -/
def djangoSave (row : Column → V) (now : V) (updateFields : Option (List Column)) (u : Instance V) :
    Instance V × List (Column × V) :=
  let columns := concreteFields.filter fun c => decide (c ∈ updateFields.getD u.loaded)
  let saved := columns.foldl (preSave row now) u
  (saved, columns.filterMap fun c => (saved.dict c).map fun v => (c, v))

variable [DecidableEq V]

/-- A column in the baseline is in `__dict__`, where `get` finds it. -/
def untouched (u : Instance V) : List Column :=
  concreteFields.filter fun n =>
    (u.guardedBaseline n).isSome && decide (u.dict n = u.guardedBaseline n)

/-- The `update_fields` that `save` hands on. -/
def kwargs (updateFields : Option (List Column)) (u : Instance V) : Option (List Column) :=
  if (concreteFields.any fun n => (u.guardedBaseline n).isSome) ∧ updateFields = none ∧
      u.untouched ≠ [] then
    some (concreteFields.filter fun c => (u.dict c).isSome && decide (c ∉ u.untouched))
  else updateFields

/-- `save(update_fields=…)`, and `save()`. -/
def save (row : Column → V) (now : V) (updateFields : Option (List Column)) (u : Instance V) :
    Instance V × List (Column × V) :=
  let (saved, set) := u.djangoSave row now (u.kwargs updateFields)
  (saved.rememberGuarded (guardedAmong (u.kwargs updateFields)), set)

end Instance

/-! Histories of one row. -/

structure State (V : Type) where
  row : Column → V
  instances : ℕ → Option (Instance V)

inductive Op (V : Type)
  | load (i : ℕ) (fieldNames : List Column)
  | assign (i : ℕ) (c : Column) (v : V)
  | save (i : ℕ) (updateFields : Option (List Column)) (now : V)
  | refresh (i : ℕ) (fields : Option (List Column))

namespace State

variable [DecidableEq V]

/-- What the operation's `UPDATE` sets, if it makes one. -/
def set (s : State V) : Op V → List (Column × V)
  | .save i updateFields now => (s.instances i).elim [] fun u => (u.save s.row now updateFields).2
  | _ => []

def step (s : State V) : Op V → State V
  | .load i fieldNames =>
    { s with instances := Function.update s.instances i (some (.fromDb s.row fieldNames)) }
  | .assign i c v =>
    { s with instances := Function.update s.instances i ((s.instances i).map (·.assign c v)) }
  | .refresh i fields =>
    { s with instances :=
        Function.update s.instances i ((s.instances i).map (·.refreshFromDb s.row fields)) }
  | .save i updateFields now =>
    { row := fun c => ((s.set (.save i updateFields now)).lookup c).getD (s.row c)
      instances := Function.update s.instances i
        ((s.instances i).map fun u => (u.save s.row now updateFields).1) }

end State

/-- The state after a history, which has its last operation first. -/
def after [DecidableEq V] (row : Column → V) : List (Op V) → State V
  | [] => ⟨row, fun _ => none⟩
  | op :: past => (after row past).step op

/-! Histories with transactions. One connection runs the operations, inside `atomic` blocks that
may be nested; a rollback restores the row, and no instance. -/

/-- `undo` has, for each open block, the innermost first, the row as it was before the block
wrote it. -/
structure TxState (V : Type) where
  state : State V
  undo : List (Option (Column → V))

inductive TxOp (V : Type)
  | op (o : Op V)
  /-- An `UPDATE` that another connection commits. -/
  | other (set : List (Column × V))
  | atomic
  /-- The block ends: `COMMIT`, or `RELEASE SAVEPOINT` in another block. -/
  | commit
  /-- The block is left by an exception. -/
  | rollback

namespace TxState

/-- The row is locked by what is not committed yet. -/
def locked (s : TxState V) : Bool := s.undo.any Option.isSome

/-- The blocks once the row is written. -/
def marked (s : TxState V) : List (Option (Column → V)) :=
  match s.undo with
  | [] => []
  | before :: blocks => before.or (some s.state.row) :: blocks

variable [DecidableEq V]

def step (s : TxState V) : TxOp V → TxState V
  | .op o => ⟨s.state.step o, if (s.state.set o).isEmpty then s.undo else s.marked⟩
  | .other set =>
    if s.locked then s
    else { s with state := { s.state with row := fun c => (set.lookup c).getD (s.state.row c) } }
  | .atomic => { s with undo := none :: s.undo }
  | .commit =>
    match s.undo with
    | before :: outer :: blocks => { s with undo := outer.or before :: blocks }
    | _ => { s with undo := [] }
  | .rollback =>
    match s.undo with
    | before :: blocks => ⟨{ s.state with row := before.getD s.state.row }, blocks⟩
    | [] => s

end TxState

end Chamneul.StaleWrite
