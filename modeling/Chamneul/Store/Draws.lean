import Chamneul.Store.Contract
import Chamneul.Store.Outcomes
import Chamneul.Store.Waiting

/-! How a program ends in a run that draws no identifier in use and keeps the committed rows within
an invariant. `wp` asks for the best whatever is drawn; here a writing statement draws what `F` lets
through, and a program may look for the invariant in whatever it reads. -/

namespace ReadCommitted

variable {D K W ε α β : Type} [Engine D K W]

/-- The program ends in `Q`, whatever the others do between its statements, if it draws no more than
`F` lets through. -/
def ends (R : Rely D K W) (F : D → ℕ → Prop) :
    Prog D K W ε α → Set K → Pending W → World D → Post D K W ε α → Prop
  | .ret r, L, w, σ, Q => Q r L w σ
  | .commit n, L, w, σ, Q => ∀ σ', R L w σ σ' → ends R F n ∅ [] (σ'.commit w) Q
  | .rollback n, L, w, σ, Q => ∀ σ', R L w σ σ' → ends R F n ∅ [] σ'.tick Q
  | .clock n, L, w, σ, Q => ∀ σ', R L w σ σ' → ends R F (n σ'.now) L w σ'.tick Q
  | .select n, L, w, σ, Q => ∀ σ', R L w σ σ' → ends R F (n (σ'.view w)) L w σ'.tick Q
  | .forUpdate rows n, L, w, σ, Q => ∀ σ', R L w σ σ' →
      ends R F (n (σ'.view w)) (L ∪ {k | k ∈ rows (σ'.view w)}) w σ'.tick Q
  | .write stmt n, L, w, σ, Q => ∀ σ' uuid, R L w σ σ' → F (σ'.view w) uuid →
      let e : Env := ⟨σ'.now, uuid⟩
      let v := σ'.view w
      ((stmt v).any (Engine.violates v e) = true → ends R F (n e v false) L w σ'.tick Q) ∧
      ((stmt v).any (Engine.violates v e) = false →
        ends R F (n e v true) (L ∪ {k | k ∈ (stmt v).flatMap (Engine.locks D e)})
          (w ++ (stmt v).map (e, ·)) σ'.tick Q)

section

variable {R : Rely D K W} {F : D → ℕ → Prop} {L : Set K} {w : Pending W} {σ : World D}

theorem ends_andThen (p : Prog D K W ε α) (f : Except ε α → Prog D K W ε β) (L : Set K)
    (w : Pending W) (σ : World D) (Q : Post D K W ε β) :
    ends R F (p.andThen f) L w σ Q ↔ ends R F p L w σ fun r L w σ => ends R F (f r) L w σ Q := by
  induction p generalizing L w σ with
  | ret r => rfl
  | commit n ih => simp only [Prog.andThen, ends, ih]
  | rollback n ih => simp only [Prog.andThen, ends, ih]
  | clock n ih => simp only [Prog.andThen, ends, ih]
  | select n ih => simp only [Prog.andThen, ends, ih]
  | forUpdate rows n ih => simp only [Prog.andThen, ends, ih]
  | write stmt n ih => simp only [Prog.andThen, ends, ih]

theorem ends_mono {p : Prog D K W ε α} {Q Q' : Post D K W ε α} (hQ : ∀ r L w σ, Q r L w σ → Q' r L w σ)
    (h : ends R F p L w σ Q) : ends R F p L w σ Q' := by
  induction p generalizing L w σ with
  | ret r => exact hQ _ _ _ _ h
  | commit n ih | rollback n ih => exact fun σ' hr => ih (h σ' hr)
  | clock n ih | select n ih | forUpdate _ n ih => exact fun σ' hr => ih _ (h σ' hr)
  | write stmt n ih =>
    exact fun σ' uuid hr hf => ⟨fun hv => ih _ _ _ ((h σ' uuid hr hf).1 hv),
      fun hv => ih _ _ _ ((h σ' uuid hr hf).2 hv)⟩

/-! The rules, one for each way a program is put together. -/

@[simp] theorem ends_ret (r : Except ε α) (Q : Post D K W ε α) :
    ends R F (.ret r : Prog D K W ε α) L w σ Q ↔ Q r L w σ := Iff.rfl

@[simp] theorem ends_raise (e : ε) (Q : Post D K W ε α) :
    ends R F (Prog.raise e : Prog D K W ε α) L w σ Q ↔ Q (.error e) L w σ := Iff.rfl

/-- The same as `ends_andThen`, with the condition on the outcome worked out. -/
theorem ends_andThen_of_eq {p : Prog D K W ε α} {f : Except ε α → Prog D K W ε β}
    {Q : Post D K W ε β} {Q' : Post D K W ε α} (h : ∀ r L w σ, ends R F (f r) L w σ Q = Q' r L w σ) :
    ends R F (p.andThen f) L w σ Q ↔ ends R F p L w σ Q' := by
  rw [ends_andThen, show (fun r L w σ => ends R F (f r) L w σ Q) = Q' from
    funext fun r => funext fun L => funext fun w => funext fun σ => h r L w σ]

theorem ends_bind (p : Prog D K W ε α) (f : α → Prog D K W ε β) (Q : Post D K W ε β) :
    ends R F (p >>= f) L w σ Q ↔ ends R F p L w σ fun r L w σ =>
      match r with
      | .ok a => ends R F (f a) L w σ Q
      | .error e => Q (.error e) L w σ :=
  ends_andThen_of_eq fun r _ _ _ => by cases r <;> rfl

theorem ends_atomic (p : Prog D K W ε α) (Q : Post D K W ε α) :
    ends R F p.atomic L w σ Q ↔ ends R F p L w σ fun r L w σ =>
      match r with
      | .ok a => ∀ σ', R L w σ σ' → Q (.ok a) ∅ [] (σ'.commit w)
      | .error e => ∀ σ', R L w σ σ' → Q (.error e) ∅ [] σ'.tick :=
  ends_andThen_of_eq fun r _ _ _ => by cases r <;> rfl

theorem ends_handle (p : Prog D K W ε α) (h : ε → Prog D K W ε α) (Q : Post D K W ε α) :
    ends R F (p.handle h) L w σ Q ↔ ends R F p L w σ fun r L w σ =>
      match r with
      | .ok a => Q (.ok a) L w σ
      | .error e => ends R F (h e) L w σ Q :=
  ends_andThen_of_eq fun r _ _ _ => by cases r <;> rfl

/-- The program ends in `G`, from whatever state it is run. -/
def Prog.EndsIn (R : Rely D K W) (F : D → ℕ → Prop) (G : Except ε α → Prop) (p : Prog D K W ε α) : Prop :=
  ∀ L w σ, ends R F p L w σ fun r _ _ _ => G r

/-- No exception but those of `E` is raised. -/
def Raising (E : ε → Prop) : Except ε α → Prop
  | .ok _ => True
  | .error e => E e

namespace Prog

variable {E : ε → Prop} {G : Except ε β → Prop}

/-- A program comes to some end. -/
theorem endsIn_some (p : Prog D K W ε α) : p.EndsIn R F fun _ => True := by
  induction p with
  | ret r => exact fun _ _ _ => trivial
  | commit n ih | rollback n ih => exact fun L w σ σ' _ => ih _ _ _
  | clock n ih | select n ih | forUpdate _ n ih => exact fun L w σ σ' _ => ih _ _ _ _
  | write stmt n ih => exact fun L w σ σ' uuid _ _ => ⟨fun _ => ih _ _ _ _ _ _, fun _ => ih _ _ _ _ _ _⟩

theorem endsIn_pure {G : Except ε α → Prop} {a : α} (h : G (.ok a)) :
    (pure a : Prog D K W ε α).EndsIn R F G := fun _ _ _ => h

theorem ends_sequence {p : Prog D K W ε α} {f : α → Prog D K W ε β}
    (h : ends R F p L w σ fun r _ _ _ => Raising E r) (hf : ∀ a, (f a).EndsIn R F (Raising E)) :
    ends R F (p >>= f) L w σ fun r _ _ _ => Raising E r := by
  rw [ends_bind]
  refine ends_mono (fun r L w σ hr => ?_) h
  cases r with
  | ok a => exact hf a L w σ
  | error e => exact hr

theorem EndsIn.bind {p : Prog D K W ε α} {f : α → Prog D K W ε β} (h : p.EndsIn R F (Raising E))
    (hf : ∀ a, (f a).EndsIn R F (Raising E)) : (p >>= f).EndsIn R F (Raising E) :=
  fun L w σ => ends_sequence (h L w σ) hf

/-- In the midst of a program, only the exceptions that can be raised matter. -/
theorem EndsIn.ends {p : Prog D K W ε α} (h : p.EndsIn R F (Raising E)) {Q : Post D K W ε α}
    (hok : ∀ a L w σ, Q (.ok a) L w σ) (herror : ∀ e, E e → ∀ L w σ, Q (.error e) L w σ) :
    ends R F p L w σ Q := by
  refine ends_mono (fun r L w σ hr => ?_) (h L w σ)
  cases r with
  | ok a => exact hok a L w σ
  | error e => exact herror e hr L w σ

theorem ends_transaction {p : Prog D K W ε α} (h : ends R F p L w σ fun r _ _ _ => Raising E r) :
    ends R F p.atomic L w σ fun r _ _ _ => Raising E r := by
  rw [ends_atomic]
  refine ends_mono (fun r L w σ hr => ?_) h
  cases r with
  | ok a | error e => exact fun _ _ => hr

theorem EndsIn.atomic {p : Prog D K W ε α} (h : p.EndsIn R F (Raising E)) :
    p.atomic.EndsIn R F (Raising E) :=
  fun L w σ => ends_transaction (h L w σ)

/-- What handles an exception may be left with any. -/
theorem EndsIn.handle {p : Prog D K W ε α} {h : ε → Prog D K W ε α}
    (hh : ∀ e, (h e).EndsIn R F (Raising E)) : (p.handle h).EndsIn R F (Raising E) := by
  intro L w σ
  rw [ends_handle]
  refine ends_mono (fun r L w σ _ => ?_) (endsIn_some p L w σ)
  cases r with
  | ok a => trivial
  | error e => exact hh e L w σ

theorem EndsIn.runIf {c : Prop} [Decidable c] {p : Prog D K W ε Unit}
    (h : p.EndsIn R F (Raising E)) : (Prog.runIf c p).EndsIn R F (Raising E) := by
  unfold Prog.runIf
  split_ifs
  · exact h
  · exact endsIn_pure trivial

theorem EndsIn.collect {γ : Type} {p : γ → Prog D K W ε (Option β)}
    (h : ∀ x, (p x).EndsIn R F (Raising E)) (xs : List γ) :
    (Prog.collect p xs).EndsIn R F (Raising E) := by
  induction xs with
  | nil => exact endsIn_pure trivial
  | cons x xs ih => exact (h x).bind fun y => ih.bind fun ys => endsIn_pure trivial

end Prog

end

/-! In a run. -/

variable [Guarded D]

/-- The committed rows meet `I`, the others take them along `J`, and what is locked is kept. -/
def Rely.keeping (I : D → Prop) (J : D → D → Prop) : Rely D K W := fun L _ σ σ' =>
  I σ'.db ∧ J σ.db σ'.db ∧ ∀ k ∈ L, Guarded.keeps k σ.db σ'.db

variable {I : D → Prop} {J : D → D → Prop} {F : D → ℕ → Prop}

namespace Config

variable {S : System D K W ε} [DecidableEq K]

variable {c c' c₁ c₂ : Config S} {t : ℕ} {e : Event S}

/-- A turn of session `t` itself. -/
theorem Turn.ends {uuid : ℕ} {s s' : Session S} {Q : (call : S.Call) → Except ε (S.Res call) → Prop}
    (ht : Turn c t uuid s c') (hrefl : ∀ L w, Rely.keeping I J L w c.world c.world)
    (hdraws : F (c.world.view s.writes) uuid)
    (hw : ReadCommitted.ends (Rely.keeping I J) F s.prog (c.held t) s.writes c.world
      fun r _ _ _ => Q s.call r) (hs' : c'.slot t = some s') :
    ReadCommitted.ends (Rely.keeping I J) F s'.prog (c'.held t) s'.writes c'.world
      fun r _ _ _ => Q s'.call r := by
  have hput : ∀ {o}, c.put t o t = some s' → o = some s' := fun h =>
    (Function.update_self t _ c.slot).symm.trans h
  cases ht with
  | commit n hp | rollback n hp =>
    rw [hp] at hw
    obtain rfl := Option.some.inj (hput hs')
    change ReadCommitted.ends _ _ _ {k | c.release t k = some t} _ _ _
    rw [c.held_release t]
    exact hw _ (hrefl _ _)
  | clock n hp | select n hp =>
    rw [hp] at hw
    obtain rfl := Option.some.inj (hput hs')
    exact hw _ (hrefl _ _)
  | forUpdate rows n hp hf =>
    rw [hp] at hw
    obtain rfl := Option.some.inj (hput hs')
    change ReadCommitted.ends _ _ _ {k | c.acquire t _ k = some t} _ _ _
    rw [c.held_acquire t]
    exact hw _ (hrefl _ _)
  | refused stmt n hp hv =>
    rw [hp] at hw
    obtain rfl := Option.some.inj (hput hs')
    exact (hw _ uuid (hrefl _ _) hdraws).1 hv
  | written stmt n hp hf hv =>
    rw [hp] at hw
    obtain rfl := Option.some.inj (hput hs')
    change ReadCommitted.ends _ _ _ {k | c.acquire t _ k = some t} _ _ _
    rw [c.held_acquire t]
    exact (hw _ uuid (hrefl _ _) hdraws).2 hv

end Config

end ReadCommitted
