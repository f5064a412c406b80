import Mathlib.Data.Set.Basic
import Mathlib.Data.List.Basic

/-! Database programs. A program is a tree of statements of one connection: what
it does next may depend on what its earlier statements returned, and on nothing
else. Nothing here says how several programs run together. -/

namespace ReadCommitted

/-- What the connection supplies to a writing statement: the time of the
statement and the identifier drawn for a row it may insert. -/
structure Env where
  now : ℕ
  uuid : ℕ

/-- A database `D` written by row-level changes `W`. `locks` names the rows and
unique index entries a change must own until its transaction ends. `refers` names
the rows behind the foreign keys of a change, which are looked up, and locked
against a `FOR UPDATE`, when the transaction commits. -/
class Engine (D : Type) (K W : outParam Type) where
  apply : Env → W → D → D
  violates : D → Env → W → Bool
  locks : Env → W → List K
  refers : W → List K

/-- The changes a transaction has made and not yet committed, oldest first. -/
abbrev Pending (W : Type) := List (Env × W)

section

variable {D K W : Type} [Engine D K W]

def applyAll (ws : Pending W) (db : D) : D := ws.foldl (fun db p => Engine.apply p.1 p.2 db) db

@[simp] theorem applyAll_nil (db : D) : applyAll ([] : Pending W) db = db := rfl

@[simp] theorem applyAll_cons (p : Env × W) (ws : Pending W) (db : D) :
    applyAll (p :: ws) db = applyAll ws (Engine.apply p.1 p.2 db) := rfl

theorem applyAll_append (ws ws' : Pending W) (db : D) :
    applyAll (ws ++ ws') db = applyAll ws' (applyAll ws db) := by
  simp [applyAll, List.foldl_append]

/-- What every change keeps, all of them keep. -/
theorem holds_applyAll {I : D → Prop} {ws : Pending W} {db : D} (h : I db)
    (hkeeps : ∀ p ∈ ws, ∀ db, I db → I (Engine.apply p.1 p.2 db)) : I (applyAll ws db) :=
  List.foldlRecOn ws _ h fun db hdb p hp => hkeeps p hp db hdb

/-- What holds after the changes held before, or one of them made it so. -/
theorem held_of_applyAll {I : D → Prop} {P : Env × W → Prop} {ws : Pending W} {db : D}
    (hmade : ∀ p db, I (Engine.apply p.1 p.2 db) → I db ∨ P p) (h : I (applyAll ws db)) :
    I db ∨ ∃ p ∈ ws, P p := by
  by_contra hnone
  rw [not_or] at hnone
  refine holds_applyAll (I := fun db => ¬ I db) hnone.1 (fun p hp db hdb happly => ?_) h
  rcases hmade p db happly with hbefore | hp'
  · exact hdb hbefore
  · exact hnone.2 ⟨p, hp, hp'⟩

end

/-- A program over database `D` that returns an `α` or raises an `ε`.

`commit` and `rollback` end the running transaction; the next statement opens a
new one. `select` is a plain read and `forUpdate` a read that first takes the
given row locks; both see the committed rows and the program's own changes. -/
inductive Prog (D K W ε α : Type) : Type
  | ret (r : Except ε α)
  | commit (next : Prog D K W ε α)
  | rollback (next : Prog D K W ε α)
  | clock (next : ℕ → Prog D K W ε α)
  | select (next : D → Prog D K W ε α)
  | forUpdate (rows : D → List K) (next : D → Prog D K W ε α)
  | write (stmt : D → List W) (next : Env → D → Bool → Prog D K W ε α)

namespace Prog

variable {D K W ε α β : Type}

/-- Continue with `f` on the outcome, be it a value or an exception. -/
def andThen : Prog D K W ε α → (Except ε α → Prog D K W ε β) → Prog D K W ε β
  | ret r, f => f r
  | commit n, f => commit (n.andThen f)
  | rollback n, f => rollback (n.andThen f)
  | clock n, f => clock fun t => (n t).andThen f
  | select n, f => select fun v => (n v).andThen f
  | forUpdate rows n, f => forUpdate rows fun v => (n v).andThen f
  | write stmt n, f => write stmt fun e v ok => (n e v ok).andThen f

instance : Monad (Prog D K W ε) where
  pure a := ret (.ok a)
  bind p f := p.andThen fun
    | .ok a => f a
    | .error e => ret (.error e)

def raise (e : ε) : Prog D K W ε α := ret (.error e)

def raiseIf (c : Prop) [Decidable c] (e : ε) : Prog D K W ε Unit :=
  if c then raise e else pure ()

/-- `if c: p`. -/
def runIf (c : Prop) [Decidable c] (p : Prog D K W ε Unit) : Prog D K W ε Unit :=
  if c then p else pure ()

/-- `try: p except: h`. -/
def handle (p : Prog D K W ε α) (h : ε → Prog D K W ε α) : Prog D K W ε α :=
  p.andThen fun
    | .ok a => pure a
    | .error e => h e

/-- `with transaction.atomic(): p`, outermost. -/
def atomic (p : Prog D K W ε α) : Prog D K W ε α :=
  p.andThen fun
    | .ok a => commit (ret (.ok a))
    | .error e => rollback (ret (.error e))

def query (q : D → α) : Prog D K W ε α := select fun v => ret (.ok (q v))

def queryForUpdate (rows : D → List K) (q : D → α) : Prog D K W ε α :=
  forUpdate rows fun v => ret (.ok (q v))

def time : Prog D K W ε ℕ := clock fun t => ret (.ok t)

/-- One writing statement. `out` reads its answer off the view it ran on; a
violated constraint raises `integrity` and writes nothing. -/
def execute (stmt : D → List W) (integrity : ε) (out : Env → D → α) : Prog D K W ε α :=
  write stmt fun e v ok => if ok then ret (.ok (out e v)) else ret (.error integrity)

/-- One after another over a list that was read earlier. -/
def collect {γ : Type} (p : γ → Prog D K W ε (Option β)) : List γ → Prog D K W ε (List β)
  | [] => pure []
  | x :: xs => do
    let y ← p x
    let ys ← collect p xs
    pure (y.toList ++ ys)

end Prog

/-- A committed database and the time. -/
structure World (D : Type) where
  db : D
  now : ℕ

namespace World

variable {D K W : Type}

/-- Time passes. -/
def tick (σ : World D) : World D := ⟨σ.db, σ.now + 1⟩

@[simp] theorem tick_db (σ : World D) : σ.tick.db = σ.db := rfl

@[simp] theorem tick_now (σ : World D) : σ.tick.now = σ.now + 1 := rfl

variable [Engine D K W]

/-- What a statement of a transaction with pending changes `w` sees. -/
def view (σ : World D) (w : Pending W) : D := applyAll w σ.db

/-- The committed database after the transaction commits. -/
def commit (σ : World D) (w : Pending W) : World D := ⟨applyAll w σ.db, σ.now + 1⟩

@[simp] theorem commit_db (σ : World D) (w : Pending W) : (σ.commit w).db = applyAll w σ.db := rfl

@[simp] theorem commit_now (σ : World D) (w : Pending W) : (σ.commit w).now = σ.now + 1 := rfl

@[simp] theorem view_nil (σ : World D) : σ.view ([] : Pending W) = σ.db := rfl

end World

namespace Prog

variable {D K W ε α β : Type} [Engine D K W]

/-- A program that runs alone. `draw` gives the identifier drawn at each time. -/
def exec (draw : ℕ → ℕ) : Prog D K W ε α → Pending W → World D → Except ε α × World D
  | ret r, _, σ => (r, σ)
  | commit n, w, σ => exec draw n [] (σ.commit w)
  | rollback n, _, σ => exec draw n [] σ.tick
  | clock n, w, σ => exec draw (n σ.now) w σ.tick
  | select n, w, σ => exec draw (n (σ.view w)) w σ.tick
  | forUpdate _ n, w, σ => exec draw (n (σ.view w)) w σ.tick
  | write stmt n, w, σ =>
    let e : Env := ⟨σ.now, draw σ.now⟩
    let ws := stmt (σ.view w)
    if ws.any (Engine.violates (σ.view w) e) then exec draw (n e (σ.view w) false) w σ.tick
    else exec draw (n e (σ.view w) true) (w ++ ws.map (e, ·)) σ.tick

end Prog

end ReadCommitted
