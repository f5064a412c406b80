import Chamneul.Store.Serial

/-! Following one session through a schedule: what its own turns make of it, and that
nothing else touches it. -/

namespace ReadCommitted

variable {D K W ε α β : Type}

namespace Prog

/-- `q` is what may be left of `p` after one statement. -/
inductive Next : Prog D K W ε α → Prog D K W ε α → Prop
  | commit (n) : Next (.commit n) n
  | rollback (n) : Next (.rollback n) n
  | clock (n t) : Next (.clock n) (n t)
  | select (n v) : Next (.select n) (n v)
  | forUpdate (rows n v) : Next (.forUpdate rows n) (n v)
  | write (stmt n e v ok) : Next (.write stmt n) (n e v ok)

/-- Nothing is left of a program that has returned. -/
theorem ret_of_next {a b : Except ε α}
    (h : Relation.ReflTransGen Next (.ret a : Prog D K W ε α) (.ret b)) : a = b := by
  obtain h | ⟨p, hp, -⟩ := h.cases_head
  · exact Prog.ret.inj h
  · cases hp

/-- A program that runs alone goes on like any. -/
theorem next_of_exec [Engine D K W] (draw : ℕ → ℕ) (p : Prog D K W ε α) (w : Pending W)
    (σ : World D) : Relation.ReflTransGen Next p (.ret (p.exec draw w σ).1) := by
  induction p generalizing w σ with
  | ret r => exact .refl
  | commit n ih => exact .head (.commit n) (ih _ _)
  | rollback n ih => exact .head (.rollback n) (ih _ _)
  | clock n ih => exact .head (.clock n _) (ih _ _ _)
  | select n ih => exact .head (.select n _) (ih _ _ _)
  | forUpdate rows n ih => exact .head (.forUpdate rows n _) (ih _ _ _)
  | write stmt n ih =>
    rw [exec]
    split
    · exact .head (.write stmt n _ _ _) (ih _ _ _ _ _)
    · exact .head (.write stmt n _ _ _) (ih _ _ _ _ _)

/-- A commit is the last thing the program does, and then it returns a value. -/
def CommitsLast : Prog D K W ε α → Prop
  | .ret _ => True
  | .commit n => ∃ a, n = .ret (.ok a)
  | .rollback n => n.CommitsLast
  | .clock n => ∀ t, (n t).CommitsLast
  | .select n => ∀ v, (n v).CommitsLast
  | .forUpdate _ n => ∀ v, (n v).CommitsLast
  | .write _ n => ∀ e v ok, (n e v ok).CommitsLast

theorem CommitsLast.next {p q : Prog D K W ε α} (h : p.CommitsLast) (hn : Next p q) :
    q.CommitsLast := by
  cases hn with
  | commit n =>
    obtain ⟨a, rfl⟩ := h
    trivial
  | rollback n => exact h
  | clock n t => exact h t
  | select n v => exact h v
  | forUpdate rows n v => exact h v
  | write stmt n e v ok => exact h e v ok

theorem Quiet.commitsLast_andThen {p : Prog D K W ε α} {f : Except ε α → Prog D K W ε β} (h : p.Quiet)
    (hf : ∀ r, (f r).CommitsLast) : (p.andThen f).CommitsLast :=
  h.passes_on ⟨id, id, id, id, id⟩ hf

theorem Quiet.commitsLast_atomic {p : Prog D K W ε α} (h : p.Quiet) : p.atomic.CommitsLast :=
  Quiet.commitsLast_andThen h fun r => match r with
    | .ok a => ⟨a, rfl⟩
    | .error _ => trivial

/-- A value is returned by a commit and by nothing else, and that is the end. -/
def Transacts : Prog D K W ε α → Prop
  | .ret r => ∃ e, r = .error e
  | .commit n => ∃ a, n = .ret (.ok a)
  | .rollback n => n.Transacts
  | .clock n => ∀ t, (n t).Transacts
  | .select n => ∀ v, (n v).Transacts
  | .forUpdate _ n => ∀ v, (n v).Transacts
  | .write _ n => ∀ e v ok, (n e v ok).Transacts

theorem Quiet.transacts_andThen {p : Prog D K W ε α} {f : Except ε α → Prog D K W ε β} (h : p.Quiet)
    (hf : ∀ r, (f r).Transacts) : (p.andThen f).Transacts :=
  h.passes_on ⟨id, id, id, id, id⟩ hf

theorem Quiet.transacts_atomic {p : Prog D K W ε α} (h : p.Quiet) : p.atomic.Transacts :=
  Quiet.transacts_andThen h fun r => match r with
    | .ok a => ⟨a, rfl⟩
    | .error e => ⟨e, rfl⟩

end Prog

/-- The next thing is a write, or a commit. -/
def Prog.saving : Prog D K W ε α → Bool
  | .write _ _ | .commit _ => true
  | _ => false

namespace Prog

/-- One write, and with it the transaction and the program end. -/
def SavesLast (p : Prog D K W ε α) : Prop :=
  ∃ stmt n, p = .write stmt n ∧ ∀ e db,
    (∃ r, n e db true = .commit (.ret r)) ∧ ∃ r, n e db false = .rollback (.ret r)

/-- What is left of `p₀`, a program that saves last, where `P` holds until it commits. -/
inductive Saving (P : Prop) (p₀ : Prog D K W ε α) : Prog D K W ε α → Pending W → Prop
  | passed (hP : P) : Saving P p₀ p₀ []
  | committing (r w) (hP : P) : Saving P p₀ (.commit (.ret r)) w
  | failing (r w) : Saving P p₀ (.rollback (.ret r)) w
  | returned (r w) : Saving P p₀ (.ret r) w

variable {P P' : Prop} {p p₀ : Prog D K W ε α} {w : Pending W}

theorem SavesLast.saving (h : p₀.SavesLast) : p₀.saving = true := by
  obtain ⟨stmt, n, rfl, -⟩ := h
  rfl

theorem Saving.keep (h : Saving P p₀ p w) (hlast : p₀.SavesLast) (hP : p.saving = true → P → P') :
    Saving P' p₀ p w := by
  cases h with
  | passed h => exact .passed (hP hlast.saving h)
  | committing r w h => exact .committing r w (hP rfl h)
  | failing r w => exact .failing r w
  | returned r w => exact .returned r w

theorem Saving.of_saving (h : Saving P p₀ p w) (hp : p.saving = true) : P := by
  cases h with
  | passed h => exact h
  | committing r w h => exact h
  | failing r w => cases hp
  | returned r w => cases hp

end Prog

/-- The session an event is about. -/
def Event.session {S : System D K W ε} : Event S → ℕ
  | .start t _ | .run t _ | .abort t => t

/-- It has run no statement yet. -/
structure Session.Fresh {S : System D K W ε} (s : Session S) : Prop where
  prog : s.prog = S.program s.call
  writes : s.writes = []

namespace Config

variable {S : System D K W ε}

theorem slot_of_put {c : Config S} {t t₀ : ℕ} {s₀ : Option (Session S)} {s : Session S}
    (h : c.put t₀ s₀ t = some s) : (t = t₀ ∧ s₀ = some s) ∨ c.slot t = some s := by
  by_cases ht : t = t₀
  · subst ht
    exact Or.inl ⟨rfl, by simpa [put] using h⟩
  · exact Or.inr (by simpa [put, ht] using h)

variable [Engine D K W] [DecidableEq K]

theorem step_start {c c' : Config S} {t : ℕ} {call : S.Call} (hs : c.step (.start t call) = some c') :
    c'.world.db = c.world.db ∧ c'.slot t = some ⟨call, S.program call, []⟩ := by
  obtain ⟨_, _, he, -, rfl⟩ | ⟨_, _, _, he, -⟩ | ⟨_, _, he, -⟩ := step_cases hs
  · cases he
    exact ⟨rfl, by simp [put]⟩
  · cases he
  · cases he

theorem step_run {c c' : Config S} {t uuid : ℕ} (hs : c.step (.run t uuid) = some c') :
    ∃ s, c.slot t = some s ∧ Turn c t uuid s c' := by
  obtain ⟨_, _, he, -⟩ | ⟨_, _, s, he, hslot, ht⟩ | ⟨_, _, he, -⟩ := step_cases hs
  · cases he
  · cases he
    exact ⟨s, hslot, ht⟩
  · cases he

theorem step_abort {c c' : Config S} {t : ℕ} (hs : c.step (.abort t) = some c') :
    c'.world.db = c.world.db ∧ c'.slot t = none := by
  obtain ⟨_, _, he, -⟩ | ⟨_, _, _, he, -⟩ | ⟨_, _, he, -, rfl⟩ := step_cases hs
  · cases he
  · cases he
  · cases he
    exact ⟨rfl, by simp [put]⟩

/-- How a session comes to be what it is after a step: it was so before, it has just
been started, or the step was its own. -/
theorem step_slot {c c' : Config S} {e : Event S} (hs : c.step e = some c') {t : ℕ} {s' : Session S}
    (h : c'.slot t = some s') :
    c.slot t = some s' ∨ (e = .start t s'.call ∧ s'.Fresh) ∨
    ∃ uuid s, e = .run t uuid ∧ c.slot t = some s ∧ s.call = s'.call ∧ Turn c t uuid s c' := by
  obtain ⟨t₀, call, rfl, -, rfl⟩ | ⟨t₀, uuid, s, rfl, hslot, ht⟩ | ⟨t₀, s, -, -, rfl⟩ := step_cases hs
  · rcases slot_of_put h with ⟨rfl, hs'⟩ | hold
    · cases hs'
      exact Or.inr (Or.inl ⟨rfl, rfl, rfl⟩)
    · exact Or.inl hold
  · have hown : (t = t₀ ∧ s.call = s'.call) ∨ c.slot t = some s' := by
      cases ht <;>
      · rcases slot_of_put h with ⟨rfl, hs'⟩ | hold
        · cases hs'
          exact Or.inl ⟨rfl, rfl⟩
        · exact Or.inr hold
    rcases hown with ⟨rfl, hcall⟩ | hold
    · exact Or.inr (Or.inr ⟨uuid, s, rfl, hslot, hcall, ht⟩)
    · exact Or.inl hold
  · rcases slot_of_put h with ⟨-, hs'⟩ | hold
    · cases hs'
    · exact Or.inl hold

/-- What holds of every session holds after a step if it holds of the one the step was about. -/
theorem step_slots {P : Session S → Prop} {c c' : Config S} {e : Event S} (hs : c.step e = some c')
    (hold : ∀ t s, c.slot t = some s → P s) (hnew : ∀ s, c'.slot e.session = some s → P s) (t : ℕ)
    (s : Session S) (h : c'.slot t = some s) : P s := by
  obtain h' | ⟨rfl, -⟩ | ⟨uuid, s₀, rfl, -⟩ := step_slot hs h
  · exact hold t s h'
  · exact hnew s h
  · exact hnew s h

/-- A session serves the call it was started with. -/
theorem step_call {c c' : Config S} {e : Event S} (hs : c.step e = some c') {t : ℕ} {s' : Session S}
    (h : c'.slot t = some s') :
    (∃ s, c.slot t = some s ∧ s.call = s'.call) ∨ e = .start t s'.call := by
  obtain hold | ⟨he, -⟩ | ⟨_, s, -, hslot, hcall, -⟩ := step_slot hs h
  · exact Or.inl ⟨s', hold, rfl⟩
  · exact Or.inr he
  · exact Or.inl ⟨s, hslot, hcall⟩

/-- Only calls that may be started are served. -/
theorem Reaches.calls {ok : Config S → Event S → Prop} {P : S.Call → Prop}
    (hP : ∀ c t call, ok c (.start t call) → P call) {σ : World D} {c : Config S}
    (h : Reaches ok (idle σ) c) {t : ℕ} {s : Session S} (hs : c.slot t = some s) : P s.call := by
  induction h generalizing t s with
  | refl => cases hs
  | step _ ho hstep ih =>
    rcases step_call hstep hs with ⟨s₀, hs₀, hcall⟩ | rfl
    · exact hcall ▸ ih hs₀
    · exact hP _ _ _ ho

/-! What a turn is, by the statement it is a turn of. -/

namespace Turn

variable {c c' : Config S} {t uuid : ℕ} {s : Session S}

theorem not_ret {r} (h : Turn c t uuid s c') (hp : s.prog = .ret r) : False := by
  cases h <;> simp_all

theorem of_commit {n} (h : Turn c t uuid s c') (hp : s.prog = .commit n) :
    c'.world = c.world.commit s.writes ∧ c'.slot t = some ⟨s.call, n, []⟩ := by
  cases h with
  | commit n' hp' =>
    obtain rfl : n = n' := by simpa [hp] using hp'
    exact ⟨rfl, by simp [put]⟩
  | _ => simp_all

theorem of_rollback {n} (h : Turn c t uuid s c') (hp : s.prog = .rollback n) :
    c'.world = c.world.tick ∧ c'.slot t = some ⟨s.call, n, []⟩ := by
  cases h with
  | rollback n' hp' =>
    obtain rfl : n = n' := by simpa [hp] using hp'
    exact ⟨rfl, by simp [put]⟩
  | _ => simp_all

theorem of_clock {n} (h : Turn c t uuid s c') (hp : s.prog = .clock n) :
    c'.world = c.world.tick ∧ c'.slot t = some ⟨s.call, n c.world.now, s.writes⟩ := by
  cases h with
  | clock n' hp' =>
    obtain rfl : n = n' := by simpa [hp] using hp'
    exact ⟨rfl, by simp [put]⟩
  | _ => simp_all

theorem of_select {n} (h : Turn c t uuid s c') (hp : s.prog = .select n) :
    c'.world = c.world.tick ∧
      c'.slot t = some ⟨s.call, n (c.world.view s.writes), s.writes⟩ := by
  cases h with
  | select n' hp' =>
    obtain rfl : n = n' := by simpa [hp] using hp'
    exact ⟨rfl, by simp [put]⟩
  | _ => simp_all

theorem of_forUpdate {rows n} (h : Turn c t uuid s c') (hp : s.prog = .forUpdate rows n) :
    c'.world = c.world.tick ∧
      c'.slot t = some ⟨s.call, n (c.world.view s.writes), s.writes⟩ := by
  cases h with
  | forUpdate rows' n' hp' hf =>
    obtain ⟨rfl, rfl⟩ : rows = rows' ∧ n = n' := by simpa [hp] using hp'
    exact ⟨rfl, by simp [put]⟩
  | _ => simp_all

theorem of_write {stmt n} (h : Turn c t uuid s c') (hp : s.prog = .write stmt n) :
    c'.world = c.world.tick ∧
      (c'.slot t = some
          ⟨s.call, n ⟨c.world.now, uuid⟩ (c.world.view s.writes) false, s.writes⟩ ∨
        (stmt (c.world.view s.writes)).any
            (Engine.violates (c.world.view s.writes) ⟨c.world.now, uuid⟩) = false ∧
          c'.slot t = some ⟨s.call, n ⟨c.world.now, uuid⟩ (c.world.view s.writes) true,
            s.writes ++ (stmt (c.world.view s.writes)).map ((⟨c.world.now, uuid⟩ : Env), ·)⟩) := by
  cases h with
  | refused stmt' n' hp' hv =>
    obtain ⟨rfl, rfl⟩ : stmt = stmt' ∧ n = n' := by simpa [hp] using hp'
    exact ⟨rfl, Or.inl (by simp [put])⟩
  | written stmt' n' hp' hf hv =>
    obtain ⟨rfl, rfl⟩ : stmt = stmt' ∧ n = n' := by simpa [hp] using hp'
    exact ⟨rfl, Or.inr ⟨hv, by simp [put]⟩⟩
  | _ => simp_all

/-- A write that violates nothing is made. -/
theorem of_write_ok {stmt n} (h : Turn c t uuid s c') (hp : s.prog = .write stmt n)
    (hv : (stmt (c.world.view s.writes)).any
      (Engine.violates (c.world.view s.writes) ⟨c.world.now, uuid⟩) = false) :
    c'.world = c.world.tick ∧
      c'.slot t = some ⟨s.call, n ⟨c.world.now, uuid⟩ (c.world.view s.writes) true,
        s.writes ++ (stmt (c.world.view s.writes)).map ((⟨c.world.now, uuid⟩ : Env), ·)⟩ := by
  cases h with
  | refused stmt' n' hp' hv' =>
    obtain ⟨rfl, rfl⟩ : stmt = stmt' ∧ n = n' := by simpa [hp] using hp'
    rw [hv] at hv'
    cases hv'
  | written stmt' n' hp' hf hv' =>
    obtain ⟨rfl, rfl⟩ : stmt = stmt' ∧ n = n' := by simpa [hp] using hp'
    exact ⟨rfl, by simp [put]⟩
  | _ => simp_all

/-- What a turn leaves of the program. -/
theorem next (h : Turn c t uuid s c') :
    ∃ q w, c'.slot t = some ⟨s.call, q, w⟩ ∧ Prog.Next s.prog q := by
  have hput : ∀ s' : Session S, c.put t (some s') t = some s' := fun s' => by simp [put]
  cases h with
  | commit n hp => exact ⟨n, [], hput _, by rw [hp]; exact .commit n⟩
  | rollback n hp => exact ⟨n, [], hput _, by rw [hp]; exact .rollback n⟩
  | clock n hp => exact ⟨_, _, hput _, by rw [hp]; exact .clock n _⟩
  | select n hp => exact ⟨_, _, hput _, by rw [hp]; exact .select n _⟩
  | forUpdate rows n hp hf => exact ⟨_, _, hput _, by rw [hp]; exact .forUpdate rows n _⟩
  | refused stmt n hp hv => exact ⟨_, _, hput _, by rw [hp]; exact .write stmt n _ _ false⟩
  | written stmt n hp hf hv => exact ⟨_, _, hput _, by rw [hp]; exact .write stmt n _ _ true⟩

/-- What waits for the commit after a turn waited before it, or has just been written. -/
theorem mem_writes (h : Turn c t uuid s c') {s' : Session S} (hs : c'.slot t = some s') {p : Env × W}
    (hp : p ∈ s'.writes) :
    c'.world = c.world.tick ∧ (p ∈ s.writes ∨ ∃ stmt n x, s.prog = .write stmt n ∧
      (stmt (c.world.view s.writes)).any
        (Engine.violates (c.world.view s.writes) ⟨c.world.now, uuid⟩) = false ∧
      x ∈ stmt (c.world.view s.writes) ∧ p = (⟨c.world.now, uuid⟩, x)) := by
  have hput : ∀ {s₁ : Session S}, c.put t (some s₁) t = some s' → s' = s₁ := fun h => by
    simpa [put, eq_comm] using h
  cases h with
  | commit n _ | rollback n _ =>
    rw [hput hs] at hp
    cases hp
  | clock n _ | select n _ | forUpdate _ n _ _ | refused stmt n _ _ =>
    rw [hput hs] at hp
    exact ⟨rfl, Or.inl hp⟩
  | written stmt n hprog _ hv =>
    rw [hput hs] at hp
    rcases List.mem_append.mp hp with hp | hp
    · exact ⟨rfl, Or.inl hp⟩
    · obtain ⟨x, hx, rfl⟩ := List.mem_map.mp hp
      exact ⟨rfl, Or.inr ⟨stmt, n, x, hprog, hv, hx, rfl⟩⟩

/-- A transaction goes on without a trace, or commits and returns. -/
theorem transacts (h : Turn c t uuid s c') (hp : s.prog.Transacts) :
    (∃ a, s.prog = .commit (.ret (.ok a)) ∧ c'.world = c.world.commit s.writes ∧
      c'.slot t = some ⟨s.call, .ret (.ok a), []⟩) ∨
    c'.world = c.world.tick ∧ ∃ q w, c'.slot t = some ⟨s.call, q, w⟩ ∧ q.Transacts := by
  have hput : ∀ s' : Session S, c.put t (some s') t = some s' := fun s' => by simp [put]
  cases h with
  | commit n hc =>
    rw [hc] at hp
    obtain ⟨a, rfl⟩ := hp
    exact Or.inl ⟨a, hc, rfl, hput _⟩
  | rollback n hc => rw [hc] at hp; exact Or.inr ⟨rfl, _, _, hput _, hp⟩
  | clock n hc | select n hc | forUpdate _ n hc _ =>
    rw [hc] at hp
    exact Or.inr ⟨rfl, _, _, hput _, hp _⟩
  | refused stmt n hc _ | written stmt n hc _ _ =>
    rw [hc] at hp
    exact Or.inr ⟨rfl, _, _, hput _, hp _ _ _⟩

/-- A session that saves last goes on as it must. -/
theorem saving {P : D → Prop} {call : S.Call} {p p₀ : Prog D K W ε (S.Res call)} {w : Pending W}
    (hlast : p₀.SavesLast) (h : Prog.Saving (P c.world.db) p₀ p w)
    (ht : Turn c t uuid ⟨call, p, w⟩ c') :
    ∃ p' w', c'.slot t = some ⟨call, p', w'⟩ ∧ Prog.Saving (P c'.world.db) p₀ p' w' := by
  cases h with
  | passed hP =>
    obtain ⟨stmt, n, hp, hn⟩ := hlast
    obtain ⟨hworld, hslot | ⟨-, hslot⟩⟩ := ht.of_write hp
    · obtain ⟨r, hnext⟩ := (hn ⟨c.world.now, uuid⟩ (c.world.view [])).2
      refine ⟨_, _, hslot, ?_⟩
      rw [hnext]
      exact .failing r _
    · obtain ⟨r, hnext⟩ := (hn ⟨c.world.now, uuid⟩ (c.world.view [])).1
      refine ⟨_, _, hslot, ?_⟩
      rw [hnext, hworld]
      exact .committing r _ hP
  | committing r w hP => exact ⟨_, _, (ht.of_commit rfl).2, .returned r _⟩
  | failing r w => exact ⟨_, _, (ht.of_rollback rfl).2, .returned r _⟩
  | returned r w => exact (ht.not_ret rfl).elim

end Turn

/-- What waits for a commit after a step waited before it, or is as old as the step. -/
theorem step_writes {c c' : Config S} {e : Event S} (hs : c.step e = some c') {t : ℕ} {s' : Session S}
    (h : c'.slot t = some s') {p : Env × W} (hp : p ∈ s'.writes) :
    (∃ s, c.slot t = some s ∧ p ∈ s.writes) ∨ p.1.now = c.world.now := by
  obtain hold | ⟨-, hfresh⟩ | ⟨uuid, s, -, hslot, -, ht⟩ := step_slot hs h
  · exact Or.inl ⟨s', hold, hp⟩
  · rw [hfresh.writes] at hp
    cases hp
  · obtain ⟨-, hp | ⟨_, _, _, -, -, -, rfl⟩⟩ := ht.mem_writes h hp
    · exact Or.inl ⟨s, hslot, hp⟩
    · exact Or.inr rfl

/-- What holds of every program at its start and of what is left after each statement
holds of every session. -/
theorem Reaches.progs {ok : Config S → Event S → Prop}
    {P : (call : S.Call) → Prog D K W ε (S.Res call) → Prop} (hstart : ∀ call, P call (S.program call))
    (hnext : ∀ call p q, Prog.Next p q → P call p → P call q) {σ : World D} {c : Config S}
    (h : Reaches ok (idle σ) c) {t : ℕ} {s : Session S} (hs : c.slot t = some s) :
    P s.call s.prog := by
  induction h generalizing t s with
  | refl => cases hs
  | step _ _ hstep ih =>
    obtain hold | ⟨-, hfresh⟩ | ⟨uuid, s₀, -, hslot, -, hturn⟩ := step_slot hstep hs
    · exact ih hold
    · rw [hfresh.prog]
      exact hstart _
    · obtain ⟨q, w, hq, hn⟩ := hturn.next
      obtain rfl := Option.some.inj (hq.symm.trans hs)
      exact hnext _ _ _ hn (ih hslot)

/-- A call that is one transaction has not committed yet, or has returned. -/
theorem Reaches.transacts {ok : Config S → Event S → Prop} {σ : World D} {c : Config S}
    (h : Reaches ok (idle σ) c) {t : ℕ} {s : Session S} (hs : c.slot t = some s)
    (hprog : (S.program s.call).Transacts) : s.prog.Transacts ∨ ∃ a, s.prog = .ret (.ok a) := by
  refine h.progs (P := fun call p => (S.program call).Transacts →
    p.Transacts ∨ ∃ a, p = .ret (.ok a)) (fun _ h => Or.inl h) ?_ hs hprog
  rintro call p q hn hp hcall
  rcases hp hcall with hp | ⟨a, rfl⟩
  · cases hn with
    | commit n => exact Or.inr hp
    | rollback n => exact Or.inl hp
    | clock n v | select n v | forUpdate _ n v => exact Or.inl (hp v)
    | write stmt n e v ok => exact Or.inl (hp e v ok)
  · cases hn

/-- What each session knows of the committed rows: what it knows when it starts, what its
own turns make of it, and what no commit of another session takes away. -/
theorem Reaches.assertions {ok : Config S → Event S → Prop} {σ : World D} {I : Session S → D → Prop}
    (hfresh : ∀ s db, s.Fresh → I s db)
    (hown : ∀ {c c' t uuid s s'}, Reaches ok (idle σ) c → ok c (.run t uuid) → c.slot t = some s →
      I s c.world.db → Turn c t uuid s c' → c'.slot t = some s' → I s' c'.world.db)
    (hother : ∀ {c t t' uuid s s' n}, Reaches ok (idle σ) c → ok c (.run t' uuid) → t ≠ t' →
      c.slot t = some s → c.slot t' = some s' → s'.prog = .commit n → I s c.world.db →
      I s (applyAll s'.writes c.world.db))
    {c : Config S} (h : Reaches ok (idle σ) c) {t : ℕ} {s : Session S} (hs : c.slot t = some s) :
    I s c.world.db := by
  induction h generalizing t s with
  | refl => cases hs
  | @step c c' e hr ho hstep ih =>
    by_cases hmine : ∃ uuid, e = .run t uuid
    · obtain ⟨uuid, rfl⟩ := hmine
      cases hslot : c.slot t with
      | none => simp [Config.step, hslot] at hstep
      | some s₀ => exact hown hr ho hslot (ih hslot) (turn_of_run hslot hstep) hs
    · obtain hold | ⟨-, hs'⟩ | ⟨uuid, s₀, rfl, -⟩ := step_slot hstep hs
      · refine step_keeps hstep (ih hold) ?_
        rintro t' uuid s' n rfl hslot' hp
        exact hother hr ho (fun ht => hmine ⟨uuid, by rw [ht]⟩) hold hslot' hp (ih hold)
      · exact hfresh s _ hs'
      · exact absurd ⟨uuid, rfl⟩ hmine

/-- The same of the sessions that serve one call. -/
theorem Reaches.knows {ok : Config S → Event S → Prop} {σ : World D} {call : S.Call}
    {I : Prog D K W ε (S.Res call) → Pending W → D → Prop} (hstart : ∀ db, I (S.program call) [] db)
    (hturn : ∀ {c c' t uuid p w}, I p w c.world.db → Turn c t uuid ⟨call, p, w⟩ c' →
      ∃ p' w', c'.slot t = some ⟨call, p', w'⟩ ∧ I p' w' c'.world.db)
    (hother : ∀ {c t t' uuid p w s' n}, Reaches ok (idle σ) c → ok c (.run t' uuid) → t ≠ t' →
      c.slot t = some ⟨call, p, w⟩ → c.slot t' = some s' → s'.prog = .commit n →
      I p w c.world.db → I p w (applyAll s'.writes c.world.db))
    {c : Config S} (h : Reaches ok (idle σ) c) {t : ℕ} {p : Prog D K W ε (S.Res call)}
    {w : Pending W} (hs : c.slot t = some ⟨call, p, w⟩) : I p w c.world.db := by
  refine h.assertions (I := fun s db => ∀ p w, s = ⟨call, p, w⟩ → I p w db) ?_ ?_ ?_ hs p w rfl
  · rintro s db ⟨hp, hw⟩ p w rfl
    obtain rfl : p = S.program call := hp
    obtain rfl : w = [] := hw
    exact hstart db
  · rintro c c' t uuid ⟨call₀, p₀, w₀⟩ s' - - - hknown ht hs' p w rfl
    obtain ⟨q, w', hslot', -⟩ := ht.next
    cases Option.some.inj (hslot'.symm.trans hs')
    obtain ⟨p', w'', hslot'', hknown'⟩ := hturn (hknown p₀ w₀ rfl) ht
    cases Option.some.inj (hslot''.symm.trans hs')
    exact hknown'
  · rintro c t t' uuid s s' n hr hok hne hslot hslot' hp hknown p w rfl
    exact hother hr hok hne hslot hslot' hp (hknown p w rfl)

/-! Schedules of few sessions. -/

/-- Only the sessions of `T` are connected. -/
def Within (T : List ℕ) (c : Config S) : Prop := ∀ t ∉ T, c.slot t = none

theorem Within.step {T : List ℕ} {c c' : Config S} {e : Event S} (h : c.Within T)
    (he : e.session ∈ T) (hs : c.step e = some c') : c'.Within T := by
  intro t ht
  by_contra hne
  obtain ⟨s, hslot⟩ := Option.ne_none_iff_exists'.mp hne
  obtain hold | ⟨rfl, -⟩ | ⟨uuid, s₀, rfl, -⟩ := step_slot hs hslot
  · rw [h t ht] at hold
    cases hold
  · exact ht he
  · exact ht he

omit [Engine D K W] [DecidableEq K] in
theorem Within.mem {T : List ℕ} {c : Config S} (h : c.Within T) {t : ℕ} {s : Session S}
    (hs : c.slot t = some s) : t ∈ T := by
  by_contra ht
  rw [h t ht] at hs
  cases hs

theorem Within.of_reaches {T : List ℕ} {c c' : Config S} (h : c.Within T)
    (hr : Reaches (fun _ e => e.session ∈ T) c c') : c'.Within T :=
  hr.invariant h fun _ _ _ _ hwithin he hs => hwithin.step he hs

/-- A check of the steps and one of the events are one check. -/
theorem passes_and {check : Config S → Event S → Bool} {q : Event S → Bool} {c : Config S}
    {es : List (Event S)} (hp : c.passes check es = true) (hq : es.all q = true) :
    c.passes (fun c e => check c e && q e) es = true := by
  induction es generalizing c with
  | nil => rfl
  | cons e es ih =>
    rw [passes, Bool.and_eq_true] at hp
    rw [List.all_cons, Bool.and_eq_true] at hq
    rw [passes, hp.1, hq.1]
    cases hs : c.step e with
    | none => rfl
    | some c' =>
      rw [hs] at hp
      exact ih hp.2 hq.2

theorem Within.after {T : List ℕ} {c : Config S} (h : c.Within T) {es : List (Event S)}
    (hes : es.all (fun e => decide (e.session ∈ T)) = true) : (c.after es).Within T :=
  h.of_reaches (reaches_after (fun _ _ he => of_decide_eq_true he)
    (passes_and (passes_true c es) hes))

/-- Along events of `T` a step may count on `Within T`. -/
theorem Within.reaches {ok ok' : Config S → Event S → Prop} {T : List ℕ}
    (hok : ∀ c e, c.Within T → ok' c e → ok c e) {c c' : Config S} (h : c.Within T)
    (hr : Reaches (fun c e => ok' c e ∧ e.session ∈ T) c c') : Reaches ok c c' := by
  induction hr with
  | refl => exact .refl
  | step hr' he hs ih =>
    have hwithin := h.of_reaches (hr'.mono fun _ _ => And.right)
    exact ih.step (hok _ _ hwithin he.1) hs

/-- What is checked of the sessions of `T` along a schedule of theirs is all there is. -/
theorem Within.reaches_after {ok : Config S → Event S → Prop} {check : Config S → Event S → Bool}
    {T : List ℕ} (hok : ∀ c e, c.Within T → check c e = true → ok c e) {c : Config S}
    (h : c.Within T) {es : List (Event S)} (hes : es.all (fun e => decide (e.session ∈ T)) = true)
    (hp : c.passes check es = true) : Reaches ok c (c.after es) :=
  h.reaches hok (Config.reaches_after (fun c e he => by simpa using he) (passes_and hp hes))

omit [Engine D K W] [DecidableEq K] in
theorem within_idle (T : List ℕ) (σ : World D) : (idle σ : Config S).Within T := fun _ _ => rfl

end Config

end ReadCommitted
