import Chamneul.Store.Contract

/-! Calls served one after another. A program whose only commit is its last
writing step is one transaction, so a call that runs alone either leaves the
database as it was or commits once, on the database it started from. -/

namespace ReadCommitted

variable {D K W ε α β : Type}

namespace Prog

/-- No commit anywhere. -/
def Quiet : Prog D K W ε α → Prop
  | .ret _ => True
  | .commit _ => False
  | .rollback n => n.Quiet
  | .clock n => ∀ t, (n t).Quiet
  | .select n => ∀ v, (n v).Quiet
  | .forUpdate _ n => ∀ v, (n v).Quiet
  | .write _ n => ∀ e v ok, (n e v ok).Quiet

/-- At most one commit on every path. -/
def Once : Prog D K W ε α → Prop
  | .ret _ => True
  | .commit n => n.Quiet
  | .rollback n => n.Once
  | .clock n => ∀ t, (n t).Once
  | .select n => ∀ v, (n v).Once
  | .forUpdate _ n => ∀ v, (n v).Once
  | .write _ n => ∀ e v ok, (n e v ok).Once

/-- A property that a program has if all that may follow its first step has it, where that step
is no commit. -/
structure Hereditary (P : Prog D K W ε α → Prop) : Prop where
  rollback : ∀ {n}, P n → P (.rollback n)
  clock : ∀ {n}, (∀ t, P (n t)) → P (.clock n)
  select : ∀ {n}, (∀ v, P (n v)) → P (.select n)
  forUpdate : ∀ {rows n}, (∀ v, P (n v)) → P (.forUpdate rows n)
  write : ∀ {stmt n}, (∀ e v ok, P (n e v ok)) → P (.write stmt n)

/-- What follows a program that does not commit passes such a property on to the whole. -/
theorem Quiet.passes_on {P : Prog D K W ε β → Prop} (hP : Hereditary P) {p : Prog D K W ε α}
    {f : Except ε α → Prog D K W ε β} (h : p.Quiet) (hf : ∀ r, P (f r)) : P (p.andThen f) := by
  induction p with
  | ret r => exact hf r
  | commit n _ => exact absurd h id
  | rollback n ih => exact hP.rollback (ih h)
  | clock n ih => exact hP.clock fun t => ih t (h t)
  | select n ih => exact hP.select fun v => ih v (h v)
  | forUpdate rows n ih => exact hP.forUpdate fun v => ih v (h v)
  | write stmt n ih => exact hP.write fun e v ok => ih e v ok (h e v ok)

theorem Quiet.andThen {p : Prog D K W ε α} {f : Except ε α → Prog D K W ε β} (h : p.Quiet)
    (hf : ∀ r, (f r).Quiet) : (p.andThen f).Quiet :=
  h.passes_on ⟨id, id, id, id, id⟩ hf

@[simp] theorem quiet_pure (a : α) : (pure a : Prog D K W ε α).Quiet := trivial

@[simp] theorem quiet_raise (e : ε) : (raise e : Prog D K W ε α).Quiet := trivial

theorem Quiet.bind {p : Prog D K W ε α} {f : α → Prog D K W ε β} (h : p.Quiet)
    (hf : ∀ a, (f a).Quiet) : (p >>= f).Quiet :=
  h.andThen fun r => match r with
    | .ok a => hf a
    | .error _ => trivial

theorem Quiet.handle {p : Prog D K W ε α} {h : ε → Prog D K W ε α} (hp : p.Quiet)
    (hh : ∀ e, (h e).Quiet) : (p.handle h).Quiet :=
  hp.andThen fun r => match r with
    | .ok _ => trivial
    | .error e => hh e

@[simp] theorem quiet_raiseIf (c : Prop) [Decidable c] (e : ε) :
    (raiseIf c e : Prog D K W ε Unit).Quiet := by
  unfold raiseIf
  split_ifs <;> trivial

theorem Quiet.runIf {c : Prop} [Decidable c] {p : Prog D K W ε Unit} (h : p.Quiet) :
    (Prog.runIf c p).Quiet := by
  unfold Prog.runIf
  split_ifs
  · exact h
  · trivial

@[simp] theorem quiet_query (q : D → α) : (query q : Prog D K W ε α).Quiet := fun _ => trivial

@[simp] theorem quiet_queryForUpdate (rows : D → List K) (q : D → α) :
    (queryForUpdate rows q : Prog D K W ε α).Quiet := fun _ => trivial

@[simp] theorem quiet_time : (time : Prog D K W ε ℕ).Quiet := fun _ => trivial

@[simp] theorem quiet_execute (stmt : D → List W) (integrity : ε) (out : Env → D → α) :
    (execute stmt integrity out : Prog D K W ε α).Quiet := by
  intro e v ok
  cases ok <;> trivial

theorem quiet_collect {γ : Type} {p : γ → Prog D K W ε (Option β)} (h : ∀ x, (p x).Quiet)
    (xs : List γ) : (collect p xs).Quiet := by
  induction xs with
  | nil => trivial
  | cons x xs ih => exact (h x).bind fun _ => ih.bind fun _ => trivial

end Prog

/-- Nothing happens between two statements but that time passes. -/
def Rely.alone : Rely D K W := fun _ _ σ σ' => σ'.db = σ.db ∧ σ.now ≤ σ'.now

theorem Rely.alone_lawful : (Rely.alone : Rely D K W).Lawful where
  refl _ _ _ := ⟨rfl, le_rfl⟩
  trans _ _ _ _ _ h h' := ⟨h'.1.trans h.1, h.2.trans h'.2⟩
  tick _ _ _ := ⟨rfl, Nat.le_succ _⟩

variable [Engine D K W]

/-- One transaction that keeps its promise, committed on `db`. -/
def Duty.Commits (G : Duty D K W) (db db' : D) : Prop :=
  ∃ L w σ, σ.db = db ∧ G.commit L w σ ∧ db' = applyAll w db

variable {G : Duty D K W} {Q : Post D K W ε α}

theorem Prog.Quiet.exec_db (draw : ℕ → ℕ) {p : Prog D K W ε α} (h : p.Quiet) (w : Pending W)
    (σ : World D) : (p.exec draw w σ).2.db = σ.db := by
  induction p generalizing w σ with
  | ret r => rfl
  | commit n _ => exact absurd h id
  | rollback n ih => exact ih h _ _
  | clock n ih => exact ih _ (h _) _ _
  | select n ih => exact ih _ (h _) _ _
  | forUpdate rows n ih => exact ih _ (h _) _ _
  | write stmt n ih =>
    simp only [Prog.exec]
    split
    · exact ih _ _ _ (h _ _ _) _ _
    · exact ih _ _ _ (h _ _ _) _ _

theorem Prog.exec_now (draw : ℕ → ℕ) (p : Prog D K W ε α) (w : Pending W) (σ : World D) :
    σ.now ≤ (p.exec draw w σ).2.now := by
  induction p generalizing w σ with
  | ret r => exact le_rfl
  | commit n ih => exact (Nat.le_succ _).trans (ih [] (σ.commit w))
  | rollback n ih => exact (Nat.le_succ _).trans (ih [] σ.tick)
  | clock n ih => exact (Nat.le_succ _).trans (ih _ w σ.tick)
  | select n ih => exact (Nat.le_succ _).trans (ih _ w σ.tick)
  | forUpdate rows n ih => exact (Nat.le_succ _).trans (ih _ w σ.tick)
  | write stmt n ih =>
    simp only [Prog.exec]
    split
    · exact (Nat.le_succ _).trans (ih _ _ _ w σ.tick)
    · exact (Nat.le_succ _).trans (ih _ _ _ _ σ.tick)

/-- The changes carry times from `t` on and before `t'`. -/
def Stamped (t t' : ℕ) (w : Pending W) : Prop := ∀ p ∈ w, t ≤ p.1.now ∧ p.1.now < t'

omit [Engine D K W] in
theorem Stamped.nil (t t' : ℕ) : Stamped t t' ([] : Pending W) := by simp [Stamped]

theorem Stamped.mono {t t' t'' : ℕ} {w : Pending W} (h : Stamped t t' w) (ht : t' ≤ t'') :
    Stamped t t'' w :=
  fun p hp => ⟨(h p hp).1, (h p hp).2.trans_le ht⟩

theorem Stamped.write {t now uuid : ℕ} {w : Pending W} (h : Stamped t now w) (ht : t ≤ now)
    (ws : List W) : Stamped t (now + 1) (w ++ ws.map ((⟨now, uuid⟩ : Env), ·)) := by
  intro p hp
  rcases List.mem_append.mp hp with hp | hp
  · exact h.mono (Nat.le_succ _) p hp
  · obtain ⟨x, -, rfl⟩ := List.mem_map.mp hp
    exact ⟨ht, Nat.lt_succ_self _⟩

/-- One transaction that keeps its promise, served from `σ` to `σ'`: its changes
carry times in between. -/
def Duty.Serves (G : Duty D K W) (σ σ' : World D) : Prop :=
  ∃ L w σ₁, σ₁.db = σ.db ∧ G.commit L w σ₁ ∧ σ'.db = applyAll w σ.db ∧ σ.now ≤ σ'.now ∧
    Stamped σ.now σ'.now w

theorem Duty.Serves.commits {σ σ' : World D} (h : G.Serves σ σ') : G.Commits σ.db σ'.db := by
  obtain ⟨L, w, σ₁, hdb, hc, hdb', -, -⟩ := h
  exact ⟨L, w, σ₁, hdb, hc, hdb'⟩

/-- A transaction that runs alone changes nothing or commits what it promised. -/
theorem Prog.Once.exec_serves (draw : ℕ → ℕ) {p : Prog D K W ε α} (ho : p.Once) {L : Set K}
    {w : Pending W} {σ₀ σ : World D} (h : wp Rely.alone G p L w σ Q) (hdb : σ.db = σ₀.db)
    (hnow : σ₀.now ≤ σ.now) (hw : Stamped σ₀.now σ.now w) :
    (p.exec draw w σ).2.db = σ₀.db ∨ G.Serves σ₀ (p.exec draw w σ).2 := by
  induction p generalizing L w σ with
  | ret r => exact Or.inl hdb
  | commit n _ =>
    obtain ⟨-, hc, -⟩ := h σ ⟨rfl, le_rfl⟩
    have hend : σ.now ≤ (n.exec draw [] (σ.commit w)).2.now :=
      (Nat.le_succ _).trans (n.exec_now draw [] (σ.commit w))
    have hquiet := (show n.Quiet from ho).exec_db draw [] (σ.commit w)
    exact Or.inr ⟨L, w, σ, hdb, hc, by rw [← hdb]; exact hquiet, hnow.trans hend, hw.mono hend⟩
  | rollback n ih =>
    exact ih ho (h σ ⟨rfl, le_rfl⟩).2 hdb (hnow.trans (Nat.le_succ _)) (.nil _ _)
  | clock n ih =>
    exact ih _ (ho _) (h σ ⟨rfl, le_rfl⟩).2 hdb (hnow.trans (Nat.le_succ _)) (hw.mono (Nat.le_succ _))
  | select n ih =>
    exact ih _ (ho _) (h σ ⟨rfl, le_rfl⟩).2 hdb (hnow.trans (Nat.le_succ _)) (hw.mono (Nat.le_succ _))
  | forUpdate rows n ih =>
    exact ih _ (ho _) (h σ ⟨rfl, le_rfl⟩).2 hdb (hnow.trans (Nat.le_succ _)) (hw.mono (Nat.le_succ _))
  | write stmt n ih =>
    obtain ⟨-, hf, ht⟩ := h σ (draw σ.now) ⟨rfl, le_rfl⟩
    have hnow' : σ₀.now ≤ σ.tick.now := hnow.trans (Nat.le_succ _)
    simp only [Prog.exec]
    split
    · rename_i hv
      exact ih _ _ _ (ho _ _ _) (hf hv) hdb hnow' (hw.mono (Nat.le_succ _))
    · rename_i hv
      exact ih _ _ _ (ho _ _ _) (ht (by simpa using hv)) hdb hnow' (hw.write hnow _)

/-- Reached by serving calls one at a time, each of them `ok` on the database it
finds. Time may pass between two calls. -/
inductive Serial (S : System D K W ε) (ok : D → S.Call → Prop) (σ₀ : World D) : World D → Prop
  | refl : Serial S ok σ₀ σ₀
  | later {σ : World D} (now : ℕ) : Serial S ok σ₀ σ → σ.now ≤ now → Serial S ok σ₀ ⟨σ.db, now⟩
  | call {σ : World D} (call : S.Call) (draw : ℕ → ℕ) : Serial S ok σ₀ σ → ok σ.db call →
      Serial S ok σ₀ ((S.program call).exec draw [] σ).2

/-- The calls of a list, one after another. -/
def System.serve (S : System D K W ε) (draw : ℕ → ℕ) (calls : List S.Call) (σ : World D) : World D :=
  calls.foldl (fun σ call => ((S.program call).exec draw [] σ).2) σ

theorem Serial.serve {S : System D K W ε} {ok : D → S.Call → Prop} {σ₀ σ : World D}
    (h : Serial S ok σ₀ σ) (draw : ℕ → ℕ) {calls : List S.Call}
    (hok : ∀ db, ∀ call ∈ calls, ok db call) : Serial S ok σ₀ (S.serve draw calls σ) := by
  induction calls generalizing σ with
  | nil => exact h
  | cons call calls ih =>
    exact ih (h.call call draw (hok _ _ (by simp))) fun db c hc => hok db c (by simp [hc])

/-- What every transaction of an `ok` call keeps, and time does not spoil, holds in
every serial run. -/
theorem Serial.invariant {S : System D K W ε} {ok : D → S.Call → Prop} {J : World D → Prop}
    {G : S.Call → Duty D K W} {Q : (call : S.Call) → Post D K W ε (S.Res call)}
    (honce : ∀ call, (S.program call).Once)
    (hprog : ∀ call σ, wp Rely.alone (G call) (S.program call) ∅ [] σ (Q call))
    (hlater : ∀ σ σ', σ'.db = σ.db → σ.now ≤ σ'.now → J σ → J σ')
    (hstep : ∀ call σ σ', ok σ.db call → J σ → (G call).Serves σ σ' → J σ') {σ₀ σ : World D}
    (h : Serial S ok σ₀ σ) (h₀ : J σ₀) : J σ := by
  induction h with
  | refl => exact h₀
  | @later σ now _ hnow ih => exact hlater σ _ rfl hnow ih
  | @call σ call draw _ hok ih =>
    rcases (honce call).exec_serves draw (hprog call σ) rfl le_rfl (.nil _ _) with he | hc
    · exact hlater _ _ he (Prog.exec_now _ _ _ _) ih
    · exact hstep call _ _ hok ih hc

end ReadCommitted
