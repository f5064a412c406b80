import Chamneul.Store.Program
import Mathlib.Logic.Function.Basic
import Mathlib.Logic.Relation

/-! Programs run together at READ COMMITTED. One statement of one session is one
step. A statement reads the rows committed when it runs and its own session's
changes, and waits while another session owns a lock it needs; locks are held
until the transaction ends. A commit looks up the rows that its foreign keys name,
under locks that can be shared and end with it, so nobody comes to own them. It has
to wait where another session has locked the row `FOR UPDATE`, and not where that
session has only changed it. Which of the two it was is not kept: the commit may go
on, and counts as waiting. -/

namespace ReadCommitted

/-- The calls a system serves, and the program behind each. -/
structure System (D K W ε : Type) where
  Call : Type
  Res : Call → Type
  program : (call : Call) → Prog D K W ε (Res call)

variable {D K W ε : Type}

/-- A call being served: what is left of its program and what it has not committed. -/
structure Session (S : System D K W ε) where
  call : S.Call
  prog : Prog D K W ε (S.Res call)
  writes : Pending W

structure Config (S : System D K W ε) where
  world : World D
  owner : K → Option ℕ
  slot : ℕ → Option (Session S)

/-- What the scheduler does next. `abort` is the database ending a session, for
a deadlock, a lost connection or any other reason. -/
inductive Event (S : System D K W ε) where
  | start (t : ℕ) (call : S.Call)
  | run (t uuid : ℕ)
  | abort (t : ℕ)

/-- The event starts no call outside `p`. -/
def Event.startsOnly {S : System D K W ε} (p : S.Call → Bool) : Event S → Bool
  | .start _ call => p call
  | _ => true

/-- The locks the next statement takes. -/
def Session.needs {S : System D K W ε} [Engine D K W] (s : Session S) (σ : World D) (uuid : ℕ) :
    List K :=
  match s.prog with
  | .forUpdate rows _ => rows (σ.view s.writes)
  | .write stmt _ => (stmt (σ.view s.writes)).flatMap (Engine.locks D ⟨σ.now, uuid⟩)
  | _ => []

/-- The rows that the next statement looks up for its foreign keys. -/
def Session.refers {S : System D K W ε} [Engine D K W] (s : Session S) : List K :=
  match s.prog with
  | .commit _ => s.writes.flatMap fun p => Engine.refers D p.2
  | _ => []

namespace Config

variable {S : System D K W ε}

/-- Nobody is connected. -/
def idle (σ : World D) : Config S := ⟨σ, fun _ => none, fun _ => none⟩

def held (c : Config S) (t : ℕ) : Set K := {k | c.owner k = some t}

/-- No other session owns `k`. -/
def free (c : Config S) (t : ℕ) (k : K) : Bool :=
  match c.owner k with
  | none => true
  | some t' => decide (t' = t)

/-- A lock has one owner. -/
theorem owner_unique {c : Config S} {k : K} {t t' : ℕ} (h : c.owner k = some t)
    (h' : c.owner k = some t') : t = t' :=
  Option.some.inj (h.symm.trans h')

theorem free_iff {c : Config S} {t : ℕ} {k : K} :
    c.free t k = true ↔ ∀ t', c.owner k = some t' → t' = t := by
  unfold free
  split <;> rename_i h <;> simp [h]

def acquire [DecidableEq K] (c : Config S) (t : ℕ) (ks : List K) : K → Option ℕ :=
  fun k => if k ∈ ks then some t else c.owner k

def release (c : Config S) (t : ℕ) : K → Option ℕ :=
  fun k => if c.owner k = some t then none else c.owner k

def put (c : Config S) (t : ℕ) (s : Option (Session S)) : ℕ → Option (Session S) :=
  Function.update c.slot t s

variable [Engine D K W] [DecidableEq K]

/-- The next statement of session `s`, or nothing if it has to wait or is done. -/
def advance (c : Config S) (t uuid : ℕ) (s : Session S) : Option (Config S) :=
  match s.prog with
  | .ret _ => none
  | .commit n => some ⟨c.world.commit s.writes, c.release t, c.put t (some ⟨s.call, n, []⟩)⟩
  | .rollback n => some ⟨c.world.tick, c.release t, c.put t (some ⟨s.call, n, []⟩)⟩
  | .clock n =>
    some ⟨c.world.tick, c.owner, c.put t (some ⟨s.call, n c.world.now, s.writes⟩)⟩
  | .select n =>
    some ⟨c.world.tick, c.owner, c.put t (some ⟨s.call, n (c.world.view s.writes), s.writes⟩)⟩
  | .forUpdate rows n =>
    let v := c.world.view s.writes
    if (rows v).all (c.free t) then
      some ⟨c.world.tick, c.acquire t (rows v), c.put t (some ⟨s.call, n v, s.writes⟩)⟩
    else none
  | .write stmt n =>
    let v := c.world.view s.writes
    let e : Env := ⟨c.world.now, uuid⟩
    let ws := stmt v
    let ks := ws.flatMap (Engine.locks D e)
    if ks.all (c.free t) then
      if ws.any (Engine.violates v e) then
        some ⟨c.world.tick, c.owner, c.put t (some ⟨s.call, n e v false, s.writes⟩)⟩
      else
        some ⟨c.world.tick, c.acquire t ks,
          c.put t (some ⟨s.call, n e v true, s.writes ++ ws.map (e, ·)⟩)⟩
    else none

def step (c : Config S) : Event S → Option (Config S)
  | .start t call =>
    match c.slot t with
    | none => some ⟨c.world.tick, c.owner, c.put t (some ⟨call, S.program call, []⟩)⟩
    | some _ => none
  | .run t uuid =>
    match c.slot t with
    | none => none
    | some s => c.advance t uuid s
  | .abort t =>
    match c.slot t with
    | none => none
    | some _ => some ⟨c.world.tick, c.release t, c.put t none⟩

/-- Reached from `c₀` by steps that all satisfy `ok`. -/
inductive Reaches (ok : Config S → Event S → Prop) (c₀ : Config S) : Config S → Prop
  | refl : Reaches ok c₀ c₀
  | step {c c' : Config S} {e : Event S} :
      Reaches ok c₀ c → ok c e → c.step e = some c' → Reaches ok c₀ c'

/-- Reached by some schedule. -/
abbrev Reachable (c₀ c : Config S) : Prop := Reaches (fun _ _ => True) c₀ c

def runAll (c : Config S) : List (Event S) → Option (Config S)
  | [] => some c
  | e :: es =>
    match c.step e with
    | none => none
    | some c' => c'.runAll es

/-- What a schedule ends in, if all of it can run. -/
def after (c : Config S) (es : List (Event S)) : Config S := (c.runAll es).getD c

/-- Session `t'` owns a lock that session `t` takes next, whatever identifier it draws,
or a row that the commit of `t` looks up. -/
def Waits (c : Config S) (t t' : ℕ) : Prop :=
  t ≠ t' ∧ ∃ s, c.slot t = some s ∧
    ((∀ uuid, ∃ k ∈ s.needs c.world uuid, c.owner k = some t') ∨
      ∃ k ∈ s.refers, c.owner k = some t')

/-- Some sessions wait for each other in a cycle. -/
def Deadlocked (c : Config S) : Prop := ∃ t, Relation.TransGen c.Waits t t

theorem Reaches.trans {ok : Config S → Event S → Prop} {a b c : Config S}
    (h : Reaches ok a b) (h' : Reaches ok b c) : Reaches ok a c := by
  induction h' with
  | refl => exact h
  | step _ ho hs ih => exact ih.step ho hs

theorem Reaches.mono {ok ok' : Config S → Event S → Prop} {a b : Config S}
    (hok : ∀ c e, ok c e → ok' c e) (h : Reaches ok a b) : Reaches ok' a b := by
  induction h with
  | refl => exact .refl
  | step _ ho hs ih => exact ih.step (hok _ _ ho) hs

/-- Every step of a schedule, as far as it can run, passes `check`. -/
def passes (check : Config S → Event S → Bool) (c : Config S) : List (Event S) → Bool
  | [] => true
  | e :: es => check c e && (c.step e).all fun c' => c'.passes check es

theorem reaches_runAll {ok : Config S → Event S → Prop} {check : Config S → Event S → Bool}
    (hok : ∀ c e, check c e = true → ok c e) {c c' : Config S} {es : List (Event S)}
    (hp : c.passes check es = true) (h : c.runAll es = some c') : Reaches ok c c' := by
  induction es generalizing c with
  | nil => cases h; exact .refl
  | cons e es ih =>
    simp only [runAll] at h
    split at h
    · cases h
    · rename_i c₁ hs
      rw [passes, hs, Option.all_some, Bool.and_eq_true] at hp
      exact (Reaches.step .refl (hok c e hp.1) hs).trans (ih hp.2 h)

/-- A schedule whose steps all pass reaches what it ends in. -/
theorem reaches_after {ok : Config S → Event S → Prop} {check : Config S → Event S → Bool}
    (hok : ∀ c e, check c e = true → ok c e) {c : Config S} {es : List (Event S)}
    (hp : c.passes check es = true) : Reaches ok c (c.after es) := by
  unfold after
  cases h : c.runAll es with
  | none => exact .refl
  | some c' => exact reaches_runAll hok hp h

theorem passes_true (c : Config S) (es : List (Event S)) : c.passes (fun _ _ => true) es = true := by
  induction es generalizing c with
  | nil => rfl
  | cons e es ih => cases h : c.step e <;> simp [passes, h, ih]

theorem reachable_after (c : Config S) (es : List (Event S)) : Reachable c (c.after es) :=
  reaches_after (fun _ _ _ => trivial) (passes_true c es)

/-- A property of the start that every step keeps holds of everything reached. -/
theorem Reaches.invariant {ok : Config S → Event S → Prop} {I : Config S → Prop}
    {c₀ c : Config S} (h : Reaches ok c₀ c) (h₀ : I c₀)
    (hstep : ∀ c e c', Reaches ok c₀ c → I c → ok c e → c.step e = some c' → I c') : I c := by
  induction h with
  | refl => exact h₀
  | step hr ho hs ih => exact hstep _ _ _ hr ih ho hs

end Config

/-! How a step moves the locks. -/

namespace Config

variable {S : System D K W ε}

theorem held_release (c : Config S) (t : ℕ) : {k | c.release t k = some t} = ∅ := by
  ext k
  simp only [release, Set.mem_ofPred_eq, Set.mem_empty_iff_false, iff_false]
  split_ifs with h
  · simp
  · exact h

theorem release_other (c : Config S) {t t' : ℕ} (ht : t' ≠ t) (k : K) :
    c.release t k = some t' ↔ c.owner k = some t' := by
  unfold release
  split_ifs with h
  · simp [h, ht.symm]
  · rfl

variable [DecidableEq K]

theorem held_acquire (c : Config S) (t : ℕ) (ks : List K) :
    {k | c.acquire t ks k = some t} = c.held t ∪ {k | k ∈ ks} := by
  ext k
  simp only [acquire, held, Set.mem_ofPred_eq, Set.mem_union]
  split_ifs with h <;> simp [h]

theorem acquire_other (c : Config S) {t t' : ℕ} {ks : List K} (ht : t' ≠ t)
    (hf : ks.all (c.free t) = true) (k : K) :
    c.acquire t ks k = some t' ↔ c.owner k = some t' := by
  unfold acquire
  split_ifs with h
  · have := free_iff.mp (List.all_eq_true.mp hf k h)
    refine ⟨fun he => absurd (Option.some.inj he).symm ht, fun he => absurd (this t' he) ht⟩
  · rfl

variable [Engine D K W]

/-- One statement of session `s`, by what it does. -/
inductive Turn (c : Config S) (t uuid : ℕ) (s : Session S) : Config S → Prop
  | commit (n) (hp : s.prog = .commit n) :
      Turn c t uuid s ⟨c.world.commit s.writes, c.release t, c.put t (some ⟨s.call, n, []⟩)⟩
  | rollback (n) (hp : s.prog = .rollback n) :
      Turn c t uuid s ⟨c.world.tick, c.release t, c.put t (some ⟨s.call, n, []⟩)⟩
  | clock (n) (hp : s.prog = .clock n) :
      Turn c t uuid s
        ⟨c.world.tick, c.owner, c.put t (some ⟨s.call, n c.world.now, s.writes⟩)⟩
  | select (n) (hp : s.prog = .select n) :
      Turn c t uuid s
        ⟨c.world.tick, c.owner, c.put t (some ⟨s.call, n (c.world.view s.writes), s.writes⟩)⟩
  | forUpdate (rows n) (hp : s.prog = .forUpdate rows n)
      (hf : (rows (c.world.view s.writes)).all (c.free t) = true) :
      Turn c t uuid s ⟨c.world.tick, c.acquire t (rows (c.world.view s.writes)),
        c.put t (some ⟨s.call, n (c.world.view s.writes), s.writes⟩)⟩
  | refused (stmt n) (hp : s.prog = .write stmt n)
      (hv : (stmt (c.world.view s.writes)).any
        (Engine.violates (c.world.view s.writes) ⟨c.world.now, uuid⟩) = true) :
      Turn c t uuid s ⟨c.world.tick, c.owner, c.put t
        (some ⟨s.call, n ⟨c.world.now, uuid⟩ (c.world.view s.writes) false, s.writes⟩)⟩
  | written (stmt n) (hp : s.prog = .write stmt n)
      (hf : ((stmt (c.world.view s.writes)).flatMap
        (Engine.locks D ⟨c.world.now, uuid⟩)).all (c.free t) = true)
      (hv : (stmt (c.world.view s.writes)).any
        (Engine.violates (c.world.view s.writes) ⟨c.world.now, uuid⟩) = false) :
      Turn c t uuid s ⟨c.world.tick,
        c.acquire t ((stmt (c.world.view s.writes)).flatMap
          (Engine.locks D ⟨c.world.now, uuid⟩)),
        c.put t (some ⟨s.call, n ⟨c.world.now, uuid⟩ (c.world.view s.writes) true,
          s.writes ++ (stmt (c.world.view s.writes)).map ((⟨c.world.now, uuid⟩ : Env), ·)⟩)⟩

theorem turn_of_advance {c c' : Config S} {t uuid : ℕ} {s : Session S}
    (h : c.advance t uuid s = some c') : Turn c t uuid s c' := by
  unfold advance at h
  split at h
  · cases h
  · rename_i n hp
    cases h
    exact .commit n hp
  · rename_i n hp
    cases h
    exact .rollback n hp
  · rename_i n hp
    cases h
    exact .clock n hp
  · rename_i n hp
    cases h
    exact .select n hp
  · rename_i rows n hp
    dsimp only at h
    split at h
    · rename_i hf
      cases h
      exact .forUpdate rows n hp hf
    · cases h
  · rename_i stmt n hp
    dsimp only at h
    split at h
    · rename_i hf
      split at h
      · rename_i hv
        cases h
        exact .refused stmt n hp hv
      · rename_i hv
        cases h
        exact .written stmt n hp hf (by simpa using hv)
    · cases h

theorem turn_of_run {c c' : Config S} {t uuid : ℕ} {s : Session S} (hslot : c.slot t = some s)
    (hs : c.step (.run t uuid) = some c') : Turn c t uuid s c' := by
  simp only [step, hslot] at hs
  exact turn_of_advance hs

/-- Everything one step of a schedule can be. -/
theorem step_cases {c c' : Config S} {e : Event S} (hs : c.step e = some c') :
    (∃ t call, e = .start t call ∧ c.slot t = none ∧
      c' = ⟨c.world.tick, c.owner, c.put t (some ⟨call, S.program call, []⟩)⟩) ∨
    (∃ t uuid s, e = .run t uuid ∧ c.slot t = some s ∧ Turn c t uuid s c') ∨
    (∃ t s, e = .abort t ∧ c.slot t = some s ∧
      c' = ⟨c.world.tick, c.release t, c.put t none⟩) := by
  cases e with
  | start t call =>
    simp only [step] at hs
    split at hs
    · rename_i hslot
      cases hs
      exact Or.inl ⟨t, call, rfl, hslot, rfl⟩
    · cases hs
  | run t uuid =>
    simp only [step] at hs
    split at hs
    · cases hs
    · rename_i s hslot
      exact Or.inr (Or.inl ⟨t, uuid, s, rfl, hslot, turn_of_advance hs⟩)
  | abort t =>
    simp only [step] at hs
    split at hs
    · cases hs
    · rename_i s hslot
      cases hs
      exact Or.inr (Or.inr ⟨t, s, rfl, hslot, rfl⟩)

/-- Every step takes time. -/
theorem step_now {c c' : Config S} {e : Event S} (hs : c.step e = some c') :
    c'.world.now = c.world.now + 1 := by
  obtain ⟨_, _, -, -, rfl⟩ | ⟨_, _, _, -, -, ht⟩ | ⟨_, _, -, -, rfl⟩ := step_cases hs
  · rfl
  · cases ht <;> rfl
  · rfl

/-- The committed rows change only when a session commits, and then by exactly
what that session wrote. -/
theorem step_world {c c' : Config S} {e : Event S} (hs : c.step e = some c') :
    c'.world = c.world.tick ∨ ∃ t uuid s n, e = .run t uuid ∧ c.slot t = some s ∧
      s.prog = .commit n ∧ c'.world = c.world.commit s.writes := by
  obtain ⟨_, _, -, -, rfl⟩ | ⟨t, uuid, s, rfl, hslot, ht⟩ | ⟨_, _, -, -, rfl⟩ := step_cases hs
  · exact Or.inl rfl
  · cases ht with
    | commit n hp => exact Or.inr ⟨t, uuid, s, n, rfl, hslot, hp, rfl⟩
    | _ => exact Or.inl rfl
  · exact Or.inl rfl

/-- What holds of the committed rows holds after a step, if the commit it may be keeps it. -/
theorem step_keeps {I : D → Prop} {c c' : Config S} {e : Event S} (hs : c.step e = some c')
    (h : I c.world.db) (hcommit : ∀ {t uuid s n}, e = .run t uuid → c.slot t = some s →
      s.prog = .commit n → I (applyAll s.writes c.world.db)) : I c'.world.db := by
  rcases step_world hs with hw | ⟨t, uuid, s, n, he, hslot, hp, hw⟩
  · rw [hw]
    exact h
  · rw [hw]
    exact hcommit he hslot hp

end Config

end ReadCommitted
