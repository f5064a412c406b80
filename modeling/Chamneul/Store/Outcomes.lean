import Chamneul.Store.Answers
import Chamneul.Store.Frontend

/-! When a call takes effect. A program that ends well if it has committed, and otherwise does not,
takes effect at one step between its start and its answer, or not at all. -/

namespace ReadCommitted

variable {D K W ε α β : Type}

namespace Prog

/-- Nothing is left but to read and to end well. -/
def Concludes (good : Except ε α → Prop) : Prog D K W ε α → Prop
  | .ret r => good r
  | .clock n => ∀ t, (n t).Concludes good
  | .select n => ∀ v, (n v).Concludes good
  | .commit _ | .rollback _ | .forUpdate _ _ | .write _ _ => False

/-- The program ends well after it has committed, which it does once, and not otherwise. -/
def Lands (good : Except ε α → Prop) : Prog D K W ε α → Prop
  | .ret r => ¬ good r
  | .commit n => n.Concludes good
  | .rollback n => n.Lands good
  | .clock n => ∀ t, (n t).Lands good
  | .select n => ∀ v, (n v).Lands good
  | .forUpdate _ n => ∀ v, (n v).Lands good
  | .write _ n => ∀ e v ok, (n e v ok).Lands good

/-- A value is returned. -/
def Returned : Except ε α → Prop := fun r => r.isOk = true

variable {good : Except ε α → Prop} {good' : Except ε β → Prop}

theorem Concludes.quiet {p : Prog D K W ε α} (h : p.Concludes good) : p.Quiet := by
  induction p with
  | ret r => trivial
  | clock n ih | select n ih => exact fun v => ih v (h v)
  | commit n _ | rollback n _ => exact h.elim
  | forUpdate rows n _ => exact h.elim
  | write stmt n _ => exact h.elim

theorem Lands.once {p : Prog D K W ε α} (h : p.Lands good) : p.Once := by
  induction p with
  | ret r => trivial
  | commit n _ => exact Concludes.quiet h
  | rollback n ih => exact ih h
  | clock n ih | select n ih => exact fun v => ih v (h v)
  | forUpdate rows n ih => exact fun v => ih v (h v)
  | write stmt n ih => exact fun e v ok => ih e v ok (h e v ok)

theorem Concludes.andThen {p : Prog D K W ε α} {f : Except ε α → Prog D K W ε β} (h : p.Concludes good)
    (hf : ∀ r, good r → (f r).Concludes good') : (p.andThen f).Concludes good' := by
  induction p with
  | ret r => exact hf r h
  | clock n ih | select n ih => exact fun v => ih v (h v)
  | commit n _ | rollback n _ => exact h.elim
  | forUpdate rows n _ => exact h.elim
  | write stmt n _ => exact h.elim

theorem Lands.andThen {p : Prog D K W ε α} {f : Except ε α → Prog D K W ε β} (h : p.Lands good)
    (hgood : ∀ r, good r → (f r).Concludes good') (hf : ∀ r, ¬ good r → (f r).Lands good') :
    (p.andThen f).Lands good' := by
  induction p with
  | ret r => exact hf r h
  | commit n _ => exact Concludes.andThen h hgood
  | rollback n ih => exact ih h
  | clock n ih | select n ih => exact fun v => ih v (h v)
  | forUpdate rows n ih => exact fun v => ih v (h v)
  | write stmt n ih => exact fun e v ok => ih e v ok (h e v ok)

theorem Quiet.lands_andThen {p : Prog D K W ε α} {f : Except ε α → Prog D K W ε β} (h : p.Quiet)
    (hf : ∀ r, (f r).Lands good') : (p.andThen f).Lands good' :=
  h.passes_on ⟨id, id, id, id, id⟩ hf

theorem Quiet.lands_atomic {p : Prog D K W ε α} (h : p.Quiet) : p.atomic.Lands Returned :=
  Quiet.lands_andThen h fun r => match r with
    | .ok _ => rfl
    | .error _ => Bool.false_ne_true

theorem Quiet.lands_bind {p : Prog D K W ε α} {f : α → Prog D K W ε β} (h : p.Quiet)
    (hf : ∀ a, (f a).Lands Returned) : (p >>= f).Lands Returned :=
  Quiet.lands_andThen h fun r => match r with
    | .ok a => hf a
    | .error _ => Bool.false_ne_true

/-- What is returned may be looked at and reported on. -/
theorem Lands.query {q : D → α} {f : α → Prog D K W ε β} (h : ∀ db, (f (q db)).Lands good') :
    (Prog.query q >>= f).Lands good' := fun db => h db

theorem Lands.bind {p : Prog D K W ε α} {f : α → Prog D K W ε β} (h : p.Lands Returned)
    (hf : ∀ a, (f a).Concludes Returned) : (p >>= f).Lands Returned := by
  refine h.andThen (fun r hr => ?_) fun r hr => ?_
  · cases r with
    | ok a => exact hf a
    | error e => cases hr
  · cases r with
    | ok a => exact absurd rfl hr
    | error e => exact Bool.false_ne_true

/-- One exception may stand for another. -/
theorem Lands.handle_raise {p : Prog D K W ε α} {f : ε → ε} (h : p.Lands Returned) :
    (p.handle fun e => raise (f e)).Lands Returned := by
  refine h.andThen (fun r hr => ?_) fun r hr => ?_
  · cases r with
    | ok a => rfl
    | error e => cases hr
  · cases r with
    | ok a => exact absurd rfl hr
    | error e => exact Bool.false_ne_true

@[simp] theorem concludes_pure (a : α) : (pure a : Prog D K W ε α).Concludes Returned := rfl

@[simp] theorem concludes_query (q : D → α) : (query q : Prog D K W ε α).Concludes Returned :=
  fun _ => rfl

theorem Concludes.next {p q : Prog D K W ε α} (h : p.Concludes good) (hn : Next p q) :
    q.Concludes good := by
  cases hn with
  | clock n v | select n v => exact h v
  | commit n | rollback n => exact h.elim
  | forUpdate rows n v => exact h.elim
  | write stmt n e v ok => exact h.elim

theorem Reads.next {p q : Prog D K W ε α} (h : p.Reads) (hn : Next p q) : q.Reads := by
  cases hn with
  | clock n v | select n v => exact h v
  | commit n | rollback n => exact h.elim
  | forUpdate rows n v => exact h.elim
  | write stmt n e v ok => exact h.elim

/-- A program that is to land does so at its commit, or is still to land. -/
theorem Lands.next {p q : Prog D K W ε α} (h : p.Lands good) (hn : Next p q) :
    p = .commit q ∧ q.Concludes good ∨ (∀ n, p ≠ .commit n) ∧ q.Lands good := by
  cases hn with
  | commit n => exact .inl ⟨rfl, h⟩
  | rollback n => exact .inr ⟨(fun _ hc => by cases hc), h⟩
  | clock n v | select n v => exact .inr ⟨(fun _ hc => by cases hc), h v⟩
  | forUpdate rows n v => exact .inr ⟨(fun _ hc => by cases hc), h v⟩
  | write stmt n e v ok => exact .inr ⟨(fun _ hc => by cases hc), h e v ok⟩

/-- A program that could only hand over to calls that nothing admits reads to its end. -/
theorem Fronts.reads {S : System D K W ε} {gate : D → S.Call → Prop} {seen : List D}
    {p : Prog D K W ε α} (h : p.Fronts S gate seen) (hnone : ∀ db call, ¬ gate db call) : p.Reads := by
  induction h with
  | answers hp => exact hp
  | serves call k hgate hk =>
    obtain ⟨db, -, hcall⟩ := hgate
    exact absurd hcall (hnone db call)
  | asks _ ih => exact fun db => ih db

end Prog

namespace Config

variable {S : System D K W ε} [Engine D K W] [DecidableEq K]

/-- Session `t` takes no new call. -/
def KeepsCall (t : ℕ) (_ : Config S) (e : Event S) : Prop := ∀ call, e ≠ .start t call

/-- Session `t` takes no new call, and if it is its turn, leaves the committed rows alone. -/
structure Spares (t : ℕ) (c : Config S) (e : Event S) : Prop where
  keepsCall : KeepsCall t c e
  unchanged : e.session = t → ∀ c', c.step e = some c' → c'.world.db = c.world.db

/-- From `c₁` to `c₂` session `t` has changed the committed rows in one step, by all it had written. -/
def TakesEffect (t : ℕ) (c₁ c₂ : Config S) : Prop :=
  ∃ c c' uuid s n, Reaches (Spares t) c₁ c ∧ c.slot t = some s ∧ s.prog = .commit n ∧
    c.step (.run t uuid) = some c' ∧ c'.world = c.world.commit s.writes ∧ Reaches (Spares t) c' c₂

variable {c c' c₁ c₂ : Config S} {t : ℕ} {s : Session S} {e : Event S}

theorem spares_of_world (hkeeps : KeepsCall t c e) (hs : c.step e = some c')
    (hworld : c'.world.db = c.world.db) : Spares t c e where
  keepsCall := hkeeps
  unchanged _ c'' hs' := by
    obtain rfl := Option.some.inj (hs.symm.trans hs')
    exact hworld

omit [Engine D K W] [DecidableEq K] in
theorem slot_of_answer? {a : Answer S} (h : c.answer? t = some a) :
    ∃ w, c.slot t = some ⟨a.call, .ret a.result, w⟩ := by
  obtain ⟨⟨call, p, w⟩, hslot, hs⟩ := Option.bind_eq_some_iff.mp h
  obtain ⟨r, rfl, rfl⟩ := ret_of_answer? hs
  exact ⟨w, hslot⟩

/-- A step is a turn of session `t`, or spares the rows and goes on with no more than was there. -/
theorem step_spares (hkeeps : KeepsCall t c e) (hs : c.step e = some c') :
    (Spares t c e ∧ ∀ s', c'.slot t = some s' → c.slot t = some s') ∨
      ∃ uuid s, e = .run t uuid ∧ c.slot t = some s ∧ Turn c t uuid s c' := by
  cases e with
  | start t₀ call =>
    have ht : t₀ ≠ t := fun ht => hkeeps call (by rw [ht])
    refine .inl ⟨⟨hkeeps, fun h => absurd h ht⟩, fun s' hs' => ?_⟩
    obtain hold | ⟨he, -⟩ | ⟨_, _, he, -⟩ := step_slot hs hs'
    · exact hold
    · exact absurd he (hkeeps _)
    · cases he
  | run t₀ uuid =>
    by_cases ht : t₀ = t
    · subst ht
      obtain ⟨s, hslot, hturn⟩ := step_run hs
      exact .inr ⟨uuid, s, rfl, hslot, hturn⟩
    · refine .inl ⟨⟨hkeeps, fun h => absurd h ht⟩, fun s' hs' => ?_⟩
      obtain hold | ⟨he, -⟩ | ⟨_, _, he, -⟩ := step_slot hs hs'
      · exact hold
      · cases he
      · cases he
        exact absurd rfl ht
  | abort t₀ =>
    refine .inl ⟨spares_of_world hkeeps hs (step_abort hs).1, fun s' hs' => ?_⟩
    obtain hold | ⟨he, -⟩ | ⟨_, _, he, -⟩ := step_slot hs hs'
    · exact hold
    · cases he
    · cases he

/-- A turn that is no commit leaves the committed rows alone. -/
theorem Turn.world_of_not_commit {uuid : ℕ} (h : Turn c t uuid s c')
    (hp : ∀ n, s.prog ≠ .commit n) : c'.world = c.world.tick := by
  cases h with
  | commit n hc => exact absurd hc (hp n)
  | _ => rfl

/-- A session that has come to programs which never commit leaves the committed rows alone. -/
theorem Reaches.spares {P : (call : S.Call) → Prog D K W ε (S.Res call) → Prop}
    (hnext : ∀ call p q, Prog.Next p q → P call p → P call q) (hcommit : ∀ call n, ¬ P call (.commit n))
    (h : Reaches (KeepsCall t) c₁ c₂) (hp : ∀ s, c₁.slot t = some s → P s.call s.prog) :
    Reaches (Spares t) c₁ c₂ ∧ ∀ s, c₂.slot t = some s → P s.call s.prog := by
  induction h with
  | refl => exact ⟨.refl, hp⟩
  | @step c c' e _ hkeeps hs ih =>
    obtain ⟨hreaches, hprog⟩ := ih
    obtain ⟨hspares, hold⟩ | ⟨uuid, s₀, rfl, hslot, hturn⟩ := step_spares hkeeps hs
    · exact ⟨hreaches.step hspares hs, fun s hs' => hprog s (hold s hs')⟩
    · have hworld := hturn.world_of_not_commit fun n hc =>
        hcommit s₀.call n (hc ▸ hprog s₀ hslot)
      refine ⟨hreaches.step (spares_of_world hkeeps hs (by rw [hworld]; rfl)) hs, fun s hs' => ?_⟩
      obtain ⟨q, w, hq, hn⟩ := hturn.next
      obtain rfl := Option.some.inj (hq.symm.trans hs')
      exact hnext _ _ _ hn (hprog s₀ hslot)

/-- A session that is to land has left the rows alone and is still to land, or has taken effect and
ends well. -/
theorem Reaches.lands {good : (call : S.Call) → Except ε (S.Res call) → Prop}
    (h : Reaches (KeepsCall t) c₁ c₂) (hp : ∀ s, c₁.slot t = some s → s.prog.Lands (good s.call)) :
    (Reaches (Spares t) c₁ c₂ ∧ ∀ s, c₂.slot t = some s → s.prog.Lands (good s.call)) ∨
      TakesEffect t c₁ c₂ ∧ ∀ s, c₂.slot t = some s → s.prog.Concludes (good s.call) := by
  induction h with
  | refl => exact .inl ⟨.refl, hp⟩
  | @step c c' e _ hkeeps hs ih =>
    obtain ⟨hreaches, hprog⟩ | ⟨⟨c₃, c₄, uuid, s, n, hto, hslot, hc, hcommit, hw, hfrom⟩, hprog⟩ := ih
    · obtain ⟨hspares, hold⟩ | ⟨uuid, s₀, rfl, hslot, hturn⟩ := step_spares hkeeps hs
      · exact .inl ⟨hreaches.step hspares hs, fun s hs' => hprog s (hold s hs')⟩
      · obtain ⟨q, w, hq, hn⟩ := hturn.next
        obtain ⟨hc, hends⟩ | ⟨hc, hlands⟩ := (hprog s₀ hslot).next hn
        · refine .inr ⟨⟨c, c', uuid, s₀, q, hreaches, hslot, hc, hs, (hturn.of_commit hc).1, .refl⟩,
            fun s hs' => ?_⟩
          obtain rfl := Option.some.inj (hq.symm.trans hs')
          exact hends
        · have hworld := hturn.world_of_not_commit hc
          refine .inl ⟨hreaches.step (spares_of_world hkeeps hs (by rw [hworld]; rfl)) hs,
            fun s hs' => ?_⟩
          obtain rfl := Option.some.inj (hq.symm.trans hs')
          exact hlands
    · have hrest := Reaches.spares (P := fun call p => p.Concludes (good call))
        (fun _ _ _ hn hp => hp.next hn) (fun _ _ hp => hp) (.step .refl hkeeps hs) hprog
      exact .inr ⟨⟨c₃, c₄, uuid, s, n, hto, hslot, hc, hcommit, hw, hfrom.trans hrest.1⟩, hrest.2⟩

end Config

end ReadCommitted
