import Chamneul.Store.Sessions

/-! What a program may write, whatever it reads. A property of every writing statement follows
the program through a run, and an invariant that such statements keep survives programs of any
number of transactions. Changes that carry times read off the clock are late ones. -/

namespace ReadCommitted

variable {D K W ε α β : Type}

namespace Prog

/-- The changes of every writing statement satisfy `P`. -/
def Writes (P : List W → Prop) : Prog D K W ε α → Prop
  | .ret _ => True
  | .commit n => n.Writes P
  | .rollback n => n.Writes P
  | .clock n => ∀ t, (n t).Writes P
  | .select n => ∀ v, (n v).Writes P
  | .forUpdate _ n => ∀ v, (n v).Writes P
  | .write stmt n => (∀ v, P (stmt v)) ∧ ∀ e v ok, (n e v ok).Writes P

variable {P P' : List W → Prop}

theorem Writes.mono {p : Prog D K W ε α} (hP : ∀ ws, P ws → P' ws) (h : p.Writes P) :
    p.Writes P' := by
  induction p with
  | ret r => trivial
  | commit n ih | rollback n ih => exact ih h
  | clock n ih | select n ih | forUpdate _ n ih => exact fun v => ih v (h v)
  | write stmt n ih => exact ⟨fun v => hP _ (h.1 v), fun e v ok => ih e v ok (h.2 e v ok)⟩

theorem Writes.next {p q : Prog D K W ε α} (h : p.Writes P) (hn : Next p q) : q.Writes P := by
  cases hn with
  | commit n | rollback n => exact h
  | clock n t => exact h t
  | select n v | forUpdate _ n v => exact h v
  | write stmt n e v ok => exact h.2 e v ok

theorem Writes.andThen {p : Prog D K W ε α} {f : Except ε α → Prog D K W ε β} (h : p.Writes P)
    (hf : ∀ r, (f r).Writes P) : (p.andThen f).Writes P := by
  induction p with
  | ret r => exact hf r
  | commit n ih | rollback n ih => exact ih h
  | clock n ih | select n ih | forUpdate _ n ih => exact fun v => ih v (h v)
  | write stmt n ih => exact ⟨h.1, fun e v ok => ih e v ok (h.2 e v ok)⟩

@[simp] theorem writes_raiseIf (c : Prop) [Decidable c] (e : ε) :
    (raiseIf c e : Prog D K W ε Unit).Writes P := by
  unfold raiseIf
  split <;> trivial

@[simp] theorem writes_query (q : D → α) : (query q : Prog D K W ε α).Writes P := fun _ => trivial

@[simp] theorem writes_queryForUpdate (rows : D → List K) (q : D → α) :
    (queryForUpdate rows q : Prog D K W ε α).Writes P := fun _ => trivial

@[simp] theorem writes_time : (time : Prog D K W ε ℕ).Writes P := fun _ => trivial

theorem Writes.bind {p : Prog D K W ε α} {f : α → Prog D K W ε β} (h : p.Writes P)
    (hf : ∀ a, (f a).Writes P) : (p >>= f).Writes P :=
  h.andThen fun r => match r with
    | .ok a => hf a
    | .error _ => trivial

theorem Writes.handle {p : Prog D K W ε α} {f : ε → Prog D K W ε α} (h : p.Writes P)
    (hf : ∀ e, (f e).Writes P) : (p.handle f).Writes P :=
  h.andThen fun r => match r with
    | .ok _ => trivial
    | .error e => hf e

theorem Writes.atomic {p : Prog D K W ε α} (h : p.Writes P) : p.atomic.Writes P :=
  h.andThen fun r => match r with
    | .ok _ => trivial
    | .error _ => trivial

variable [Engine D K W]

/-- An invariant that every statement keeps on what it sees survives the program. -/
theorem Writes.exec {I : D → Prop}
    (hI : ∀ e v ws, I v → P ws → ws.any (Engine.violates v e) = false →
      I (applyAll (ws.map (e, ·)) v))
    (draw : ℕ → ℕ) {p : Prog D K W ε α} (h : p.Writes P) {w : Pending W} {σ : World D}
    (hσ : I σ.db) (hw : I (σ.view w)) : I (p.exec draw w σ).2.db := by
  induction p generalizing w σ with
  | ret r => exact hσ
  | commit n ih => exact ih h hw hw
  | rollback n ih => exact ih h hσ hσ
  | clock n ih | select n ih | forUpdate _ n ih => exact ih _ (h _) hσ hw
  | write stmt n ih =>
    simp only [Prog.exec]
    split
    · exact ih _ _ _ (h.2 _ _ _) hσ hw
    · rename_i hv
      refine ih _ _ _ (h.2 _ _ _) hσ ?_
      have hkeep := hI _ _ _ hw (h.1 (σ.view w)) (by simpa using hv)
      rw [World.view, World.tick_db, applyAll_append]
      exact hkeep

section

omit [Engine D K W]

variable {lo : ℕ} {P : W → Prop}

/-- Every change the program writes satisfies `P`, if the clock gives it times after `lo` only. -/
def WritesAfter (lo : ℕ) (P : W → Prop) : Prog D K W ε α → Prop
  | .ret _ => True
  | .commit n => n.WritesAfter lo P
  | .rollback n => n.WritesAfter lo P
  | .clock n => ∀ t, lo < t → (n t).WritesAfter lo P
  | .select n => ∀ v, (n v).WritesAfter lo P
  | .forUpdate _ n => ∀ v, (n v).WritesAfter lo P
  | .write stmt n => (∀ v, ∀ x ∈ stmt v, P x) ∧ ∀ e v ok, (n e v ok).WritesAfter lo P

theorem WritesAfter.andThen {p : Prog D K W ε α} {f : Except ε α → Prog D K W ε β}
    (h : p.WritesAfter lo P) (hf : ∀ r, (f r).WritesAfter lo P) : (p.andThen f).WritesAfter lo P := by
  induction p with
  | ret r => exact hf r
  | commit n ih | rollback n ih => exact ih h
  | clock n ih => exact fun t ht => ih t (h t ht)
  | select n ih | forUpdate _ n ih => exact fun v => ih v (h v)
  | write stmt n ih => exact ⟨h.1, fun e v ok => ih e v ok (h.2 e v ok)⟩

theorem WritesAfter.bind {p : Prog D K W ε α} {f : α → Prog D K W ε β} (h : p.WritesAfter lo P)
    (hf : ∀ a, (f a).WritesAfter lo P) : (p >>= f).WritesAfter lo P :=
  h.andThen fun r => match r with
    | .ok a => hf a
    | .error _ => trivial

theorem WritesAfter.handle {p : Prog D K W ε α} {f : ε → Prog D K W ε α} (h : p.WritesAfter lo P)
    (hf : ∀ e, (f e).WritesAfter lo P) : (p.handle f).WritesAfter lo P :=
  h.andThen fun r => match r with
    | .ok _ => trivial
    | .error e => hf e

theorem WritesAfter.atomic {p : Prog D K W ε α} (h : p.WritesAfter lo P) :
    p.atomic.WritesAfter lo P :=
  h.andThen fun r => match r with
    | .ok _ => trivial
    | .error _ => trivial

theorem writesAfter_execute {stmt : D → List W} {integrity : ε} {out : Env → D → α}
    (h : ∀ v, ∀ x ∈ stmt v, P x) :
    (execute stmt integrity out : Prog D K W ε α).WritesAfter lo P := by
  refine ⟨h, fun e v ok => ?_⟩
  cases ok <;> trivial

theorem writesAfter_query (q : D → α) : (query q : Prog D K W ε α).WritesAfter lo P := fun _ => trivial

theorem writesAfter_queryForUpdate (rows : D → List K) (q : D → α) :
    (queryForUpdate rows q : Prog D K W ε α).WritesAfter lo P := fun _ => trivial

theorem writesAfter_time_bind {f : ℕ → Prog D K W ε α} (hf : ∀ t, lo < t → (f t).WritesAfter lo P) :
    (time >>= f).WritesAfter lo P := hf

theorem writesAfter_raiseIf (c : Prop) [Decidable c] (e : ε) :
    (raiseIf c e : Prog D K W ε Unit).WritesAfter lo P := by
  unfold raiseIf
  split <;> trivial

theorem WritesAfter.runIf {c : Prop} [Decidable c] {p : Prog D K W ε Unit} (h : p.WritesAfter lo P) :
    (Prog.runIf c p).WritesAfter lo P := by
  unfold Prog.runIf
  split_ifs
  · exact h
  · trivial

end

end Prog

variable [Engine D K W]

/-- A turn taken after `lo` leaves such a program, and no other changes. -/
theorem Config.Turn.writesAfter {S : System D K W ε} [DecidableEq K] {lo : ℕ} {P : W → Prop}
    {c c' : Config S} {t uuid : ℕ} {s s' : Session S} (h : Turn c t uuid s c')
    (hs : c'.slot t = some s') (hlo : lo < c.world.now) (hprog : s.prog.WritesAfter lo P)
    (hold : ∀ p ∈ s.writes, P p.2) :
    s'.prog.WritesAfter lo P ∧ ∀ p ∈ s'.writes, P p.2 := by
  refine ⟨?_, fun p hp => ?_⟩
  · have hput : ∀ {s₁ : Session S}, c.put t (some s₁) t = some s' → s' = s₁ := fun h => by
      simpa [put, eq_comm] using h
    cases h with
    | commit n hp | rollback n hp =>
      rw [hp] at hprog
      rw [hput hs]
      exact hprog
    | clock n hp =>
      rw [hp] at hprog
      rw [hput hs]
      exact hprog _ hlo
    | select n hp | forUpdate _ n hp _ =>
      rw [hp] at hprog
      rw [hput hs]
      exact hprog _
    | refused stmt n hp _ | written stmt n hp _ _ =>
      rw [hp] at hprog
      rw [hput hs]
      exact hprog.2 _ _ _
  · obtain ⟨-, hp | ⟨stmt, n, x, hwrite, -, hx, rfl⟩⟩ := h.mem_writes hs hp
    · exact hold p hp
    · rw [hwrite] at hprog
      exact hprog.1 _ x hx

/-- What the statements of `ok` calls keep holds in every serial run. -/
theorem Serial.keeps {S : System D K W ε} {ok : D → S.Call → Prop} {P : S.Call → List W → Prop}
    {I : D → Prop} (hprog : ∀ db call, ok db call → (S.program call).Writes (P call))
    (hI : ∀ call e v ws, I v → P call ws → ws.any (Engine.violates v e) = false →
      I (applyAll (ws.map (e, ·)) v))
    {σ₀ σ : World D} (h : Serial S ok σ₀ σ) (h₀ : I σ₀.db) : I σ.db := by
  induction h with
  | refl => exact h₀
  | later _ _ _ ih => exact ih
  | call call draw _ hok ih => exact (hprog _ call hok).exec (hI call) draw ih ih

/-- What a turn leaves of a program, and of what it has not committed. -/
theorem Config.Turn.writes {S : System D K W ε} [DecidableEq K] {P : List W → Prop} {c c' : Config S}
    {t uuid : ℕ} {s s' : Session S} (h : Turn c t uuid s c') (hs : c'.slot t = some s')
    (hprog : s.prog.Writes P) (hold : ∀ p ∈ s.writes, ∃ ws, P ws ∧ p.2 ∈ ws) :
    s'.prog.Writes P ∧ ∀ p ∈ s'.writes, ∃ ws, P ws ∧ p.2 ∈ ws := by
  refine ⟨?_, fun p hp => ?_⟩
  · obtain ⟨q, w, hslot, hn⟩ := h.next
    obtain rfl := Option.some.inj (hslot.symm.trans hs)
    exact hprog.next hn
  · obtain ⟨-, hp | ⟨stmt, n, x, hwrite, -, hx, rfl⟩⟩ := h.mem_writes hs hp
    · exact hold p hp
    · rw [hwrite] at hprog
      exact ⟨_, hprog.1 _, hx⟩

/-- In a schedule, what is left of a program and what it has not committed. -/
theorem Config.Reaches.writes {S : System D K W ε} [DecidableEq K] {P : S.Call → List W → Prop}
    {ok : Config S → Event S → Prop} (hprog : ∀ call, (S.program call).Writes (P call))
    {σ : World D} {c : Config S} (h : Reaches ok (idle σ) c) {t : ℕ} {s : Session S}
    (hs : c.slot t = some s) :
    s.prog.Writes (P s.call) ∧ ∀ p ∈ s.writes, ∃ ws, P s.call ws ∧ p.2 ∈ ws := by
  induction h generalizing t s with
  | refl => cases hs
  | step _ _ hstep ih =>
    obtain hold | ⟨-, hfresh⟩ | ⟨uuid, s₀, -, hslot, hcall, ht⟩ := step_slot hstep hs
    · exact ih hold
    · rw [hfresh.prog, hfresh.writes]
      exact ⟨hprog s.call, by simp⟩
    · refine ht.writes hs ?_ ?_
      · rw [← hcall]
        exact (ih hslot).1
      · rw [← hcall]
        exact (ih hslot).2

/-- The same from any point on, until the session takes another call. -/
theorem Config.Reaches.writes_on {S : System D K W ε} [DecidableEq K] {P : List W → Prop}
    {c c' : Config S} {t : ℕ} {s s' : Session S}
    (h : Reaches (fun _ e => ∀ call, e ≠ .start t call) c c') (hs : c.slot t = some s)
    (hprog : s.prog.Writes P) (hold : ∀ p ∈ s.writes, ∃ ws, P ws ∧ p.2 ∈ ws)
    (hs' : c'.slot t = some s') :
    s'.prog.Writes P ∧ ∀ p ∈ s'.writes, ∃ ws, P ws ∧ p.2 ∈ ws := by
  induction h generalizing s' with
  | refl =>
    obtain rfl := Option.some.inj (hs.symm.trans hs')
    exact ⟨hprog, hold⟩
  | step _ ho hstep ih =>
    obtain hold' | ⟨he, -⟩ | ⟨uuid, s₀, -, hslot, -, ht⟩ := step_slot hstep hs'
    · exact ih hold'
    · exact absurd he (ho _)
    · exact ht.writes hs' (ih hslot).1 (ih hslot).2

end ReadCommitted
