import Chamneul.Store.Program

/-! A program that runs alone, piece by piece: how the outcome of a program comes of
the outcomes of what it is put together from. -/

namespace ReadCommitted

variable {D K W ε α β : Type} [Engine D K W]

namespace Prog

/-- `exec` with the changes that are left to commit. -/
def alone (draw : ℕ → ℕ) : Prog D K W ε α → Pending W → World D →
    Except ε α × Pending W × World D
  | ret r, w, σ => (r, w, σ)
  | commit n, w, σ => alone draw n [] (σ.commit w)
  | rollback n, _, σ => alone draw n [] σ.tick
  | clock n, w, σ => alone draw (n σ.now) w σ.tick
  | select n, w, σ => alone draw (n (σ.view w)) w σ.tick
  | forUpdate _ n, w, σ => alone draw (n (σ.view w)) w σ.tick
  | write stmt n, w, σ =>
    let e : Env := ⟨σ.now, draw σ.now⟩
    let ws := stmt (σ.view w)
    if ws.any (Engine.violates (σ.view w) e) then alone draw (n e (σ.view w) false) w σ.tick
    else alone draw (n e (σ.view w) true) (w ++ ws.map (e, ·)) σ.tick

variable (draw : ℕ → ℕ) (w : Pending W) (σ : World D)

theorem exec_eq_alone (p : Prog D K W ε α) :
    p.exec draw w σ = ((p.alone draw w σ).1, (p.alone draw w σ).2.2) := by
  induction p generalizing w σ with
  | ret r => rfl
  | commit n ih => exact ih _ _
  | rollback n ih => exact ih _ _
  | clock n ih => exact ih _ _ _
  | select n ih => exact ih _ _ _
  | forUpdate rows n ih => exact ih _ _ _
  | write stmt n ih =>
    simp only [exec, alone]
    split
    · exact ih _ _ _ _ _
    · exact ih _ _ _ _ _

theorem alone_andThen (p : Prog D K W ε α) (f : Except ε α → Prog D K W ε β) :
    (p.andThen f).alone draw w σ =
      (f (p.alone draw w σ).1).alone draw (p.alone draw w σ).2.1 (p.alone draw w σ).2.2 := by
  induction p generalizing w σ with
  | ret r => rfl
  | commit n ih => exact ih _ _
  | rollback n ih => exact ih _ _
  | clock n ih => exact ih _ _ _
  | select n ih => exact ih _ _ _
  | forUpdate rows n ih => exact ih _ _ _
  | write stmt n ih =>
    simp only [andThen, alone]
    split
    · exact ih _ _ _ _ _
    · exact ih _ _ _ _ _

@[simp] theorem alone_pure (a : α) :
    (pure a : Prog D K W ε α).alone draw w σ = (.ok a, w, σ) := rfl

@[simp] theorem alone_query (q : D → α) :
    (query q : Prog D K W ε α).alone draw w σ = (.ok (q (σ.view w)), w, σ.tick) := rfl

@[simp] theorem alone_queryForUpdate (rows : D → List K) (q : D → α) :
    (queryForUpdate rows q : Prog D K W ε α).alone draw w σ = (.ok (q (σ.view w)), w, σ.tick) := rfl

theorem alone_execute (stmt : D → List W) (integrity : ε) (out : Env → D → α) :
    (execute stmt integrity out : Prog D K W ε α).alone draw w σ =
      if (stmt (σ.view w)).any (Engine.violates (σ.view w) ⟨σ.now, draw σ.now⟩) then
        (.error integrity, w, σ.tick)
      else (.ok (out ⟨σ.now, draw σ.now⟩ (σ.view w)),
        w ++ (stmt (σ.view w)).map ((⟨σ.now, draw σ.now⟩ : Env), ·), σ.tick) := by
  simp only [execute, alone]
  split <;> rfl

/-! What follows a piece runs on its outcome. -/

section

variable {draw w σ} {p : Prog D K W ε α} {w' : Pending W} {σ' : World D}

theorem exec_of_alone {r : Except ε α} (h : p.alone draw w σ = (r, w', σ')) :
    p.exec draw w σ = (r, σ') := by
  rw [exec_eq_alone, h]

theorem alone_bind_ok {a : α} (h : p.alone draw w σ = (.ok a, w', σ')) (f : α → Prog D K W ε β) :
    (p >>= f).alone draw w σ = (f a).alone draw w' σ' := by
  refine (alone_andThen draw w σ p _).trans ?_
  rw [h]

theorem alone_bind_error {e : ε} (h : p.alone draw w σ = (.error e, w', σ'))
    (f : α → Prog D K W ε β) : (p >>= f).alone draw w σ = (.error e, w', σ') := by
  refine (alone_andThen draw w σ p _).trans ?_
  rw [h]
  rfl

theorem alone_atomic_ok {a : α} (h : p.alone draw w σ = (.ok a, w', σ')) :
    p.atomic.alone draw w σ = (.ok a, [], σ'.commit w') := by
  refine (alone_andThen draw w σ p _).trans ?_
  rw [h]
  rfl

theorem alone_atomic_error {e : ε} (h : p.alone draw w σ = (.error e, w', σ')) :
    p.atomic.alone draw w σ = (.error e, [], σ'.tick) := by
  refine (alone_andThen draw w σ p _).trans ?_
  rw [h]
  rfl

theorem alone_handle_ok {a : α} (h : p.alone draw w σ = (.ok a, w', σ'))
    (f : ε → Prog D K W ε α) : (p.handle f).alone draw w σ = (.ok a, w', σ') := by
  refine (alone_andThen draw w σ p _).trans ?_
  rw [h]
  rfl

theorem alone_handle_error {e : ε} (h : p.alone draw w σ = (.error e, w', σ'))
    (f : ε → Prog D K W ε α) : (p.handle f).alone draw w σ = (f e).alone draw w' σ' := by
  refine (alone_andThen draw w σ p _).trans ?_
  rw [h]

theorem alone_raiseIf_of_not {c : Prop} [Decidable c] (hc : ¬ c) (e : ε) :
    (raiseIf c e : Prog D K W ε Unit).alone draw w σ = (.ok (), w, σ) := by
  rw [raiseIf, if_neg hc]
  rfl

theorem alone_raiseIf_of {c : Prop} [Decidable c] (hc : c) (e : ε) :
    (raiseIf c e : Prog D K W ε Unit).alone draw w σ = (.error e, w, σ) := by
  rw [raiseIf, if_pos hc]
  rfl

/-- A loop whose rounds all answer, each in a world that is as good as the last. -/
theorem alone_collect {γ : Type} {I : World D → Prop} {q : γ → Prog D K W ε (Option β)} {f : γ → β}
    {xs : List γ} (hq : ∀ x ∈ xs, ∀ σ, I σ →
      ∃ σ', I σ' ∧ (q x).alone draw w σ = (.ok (some (f x)), w, σ')) (hσ : I σ) :
    ∃ σ', I σ' ∧ (collect q xs).alone draw w σ = (.ok (xs.map f), w, σ') := by
  induction xs generalizing σ with
  | nil => exact ⟨σ, hσ, rfl⟩
  | cons x xs ih =>
    obtain ⟨σ₁, hσ₁, hx⟩ := hq x List.mem_cons_self σ hσ
    obtain ⟨σ₂, hσ₂, hxs⟩ := ih (fun y hy => hq y (List.mem_cons_of_mem x hy)) hσ₁
    refine ⟨σ₂, hσ₂, ?_⟩
    rw [collect, alone_bind_ok hx, alone_bind_ok hxs]
    rfl

end

/-! Whether a program returns, without what it returns. -/

/-- Alone, the program does not raise. -/
def Succeeds (draw : ℕ → ℕ) (p : Prog D K W ε α) (w : Pending W) (σ : World D) : Prop :=
  ∃ a, (p.alone draw w σ).1 = .ok a

section

variable {draw w σ} {p : Prog D K W ε α} {w' : Pending W} {σ' : World D}

theorem succeeds_of_alone {a : α} (h : p.alone draw w σ = (.ok a, w', σ')) :
    p.Succeeds draw w σ := ⟨a, by rw [h]⟩

theorem succeeds_bind_ok {a : α} (h : p.alone draw w σ = (.ok a, w', σ')) (f : α → Prog D K W ε β) :
    (p >>= f).Succeeds draw w σ ↔ (f a).Succeeds draw w' σ' := by
  rw [Succeeds, alone_bind_ok h, Succeeds]

theorem not_succeeds_bind {e : ε} (h : p.alone draw w σ = (.error e, w', σ'))
    (f : α → Prog D K W ε β) : ¬ (p >>= f).Succeeds draw w σ := by
  rintro ⟨b, hb⟩
  rw [alone_bind_error h] at hb
  cases hb

theorem succeeds_bind_raiseIf (c : Prop) [Decidable c] (e : ε) (f : Unit → Prog D K W ε β) :
    (raiseIf c e >>= f).Succeeds draw w σ ↔ ¬ c ∧ (f ()).Succeeds draw w σ := by
  by_cases hc : c
  · exact iff_of_false (not_succeeds_bind (alone_raiseIf_of hc e) f) fun h => h.1 hc
  · rw [succeeds_bind_ok (alone_raiseIf_of_not hc e)]
    exact (and_iff_right hc).symm

theorem succeeds_atomic : p.atomic.Succeeds draw w σ ↔ p.Succeeds draw w σ := by
  obtain ⟨r, w', σ', h⟩ : ∃ r w' σ', p.alone draw w σ = (r, w', σ') := ⟨_, _, _, rfl⟩
  cases r with
  | ok a => exact iff_of_true (succeeds_of_alone (alone_atomic_ok h)) (succeeds_of_alone h)
  | error e =>
    rw [Succeeds, Succeeds, alone_atomic_error h, h]

/-- A program succeeds when the call it is the body of does. -/
theorem exec_succeeds : (∃ a, (p.exec draw w σ).1 = .ok a) ↔ p.Succeeds draw w σ := by
  rw [exec_eq_alone, Succeeds]

end

end Prog

end ReadCommitted
