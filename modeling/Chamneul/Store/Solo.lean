import Chamneul.Store.Sessions

/-! A program while nobody else commits. All it sees is one database and its own changes, so what
it does up to its first commit can be worked out from that database, whatever other programs are
under way. -/

namespace ReadCommitted

variable {D K W ε α β : Type} [Engine D K W]

namespace Prog

/-- On the rows `db`, with the changes `w` and drawing `fresh` identifiers only, the program ends
in `Q`, or comes to a commit of changes where `C` holds of what is left of it. -/
def Solo (db : D) (fresh : ℕ → Prop) (C : Prog D K W ε α → Pending W → Prop)
    (Q : Except ε α → Pending W → Prop) : Prog D K W ε α → Pending W → Prop
  | .ret r, w => Q r w
  | .commit n, w => w = [] ∧ n.Solo db fresh C Q [] ∨ w ≠ [] ∧ C n w
  | .rollback n, _ => n.Solo db fresh C Q []
  | .clock n, w => ∀ t, (n t).Solo db fresh C Q w
  | .select n, w => (n (applyAll w db)).Solo db fresh C Q w
  | .forUpdate _ n, w => (n (applyAll w db)).Solo db fresh C Q w
  | .write stmt n, w => ∀ e : Env, fresh e.uuid →
      ((stmt (applyAll w db)).any (Engine.violates (applyAll w db) e) = true →
        (n e (applyAll w db) false).Solo db fresh C Q w) ∧
      ((stmt (applyAll w db)).any (Engine.violates (applyAll w db) e) = false →
        (n e (applyAll w db) true).Solo db fresh C Q (w ++ (stmt (applyAll w db)).map (e, ·)))

variable {db : D} {fresh : ℕ → Prop} {w : Pending W}

theorem solo_andThen (p : Prog D K W ε α) (f : Except ε α → Prog D K W ε β)
    (C : Prog D K W ε β → Pending W → Prop) (Q : Except ε β → Pending W → Prop) (w : Pending W) :
    (p.andThen f).Solo db fresh C Q w ↔
      p.Solo db fresh (fun n w => C (n.andThen f) w) (fun r w => (f r).Solo db fresh C Q w) w := by
  induction p generalizing w with
  | ret r => rfl
  | commit n ih => simp only [andThen, Solo, ih]
  | rollback n ih => simp only [andThen, Solo, ih]
  | clock n ih => simp only [andThen, Solo, ih]
  | select n ih => simp only [andThen, Solo, ih]
  | forUpdate rows n ih => simp only [andThen, Solo, ih]
  | write stmt n ih => simp only [andThen, Solo, ih]

/-- The same, with the condition on the outcome worked out. -/
theorem solo_andThen_of_eq {p : Prog D K W ε α} {f : Except ε α → Prog D K W ε β}
    {C : Prog D K W ε β → Pending W → Prop} {Q : Except ε β → Pending W → Prop}
    {Q' : Except ε α → Pending W → Prop} {w : Pending W}
    (h : ∀ r w, (f r).Solo db fresh C Q w = Q' r w) :
    (p.andThen f).Solo db fresh C Q w ↔ p.Solo db fresh (fun n w => C (n.andThen f) w) Q' w := by
  rw [solo_andThen, show (fun r w => (f r).Solo db fresh C Q w) = Q' from
    funext fun r => funext fun w => h r w]

variable {C : Prog D K W ε α → Pending W → Prop} {Q : Except ε α → Pending W → Prop}

@[simp] theorem solo_pure (a : α) :
    (pure a : Prog D K W ε α).Solo db fresh C Q w ↔ Q (.ok a) w := Iff.rfl

@[simp] theorem solo_raise (e : ε) :
    (raise e : Prog D K W ε α).Solo db fresh C Q w ↔ Q (.error e) w := Iff.rfl

@[simp] theorem solo_query (q : D → α) :
    (query q : Prog D K W ε α).Solo db fresh C Q w ↔ Q (.ok (q (applyAll w db))) w := Iff.rfl

@[simp] theorem solo_queryForUpdate (rows : D → List K) (q : D → α) :
    (queryForUpdate rows q : Prog D K W ε α).Solo db fresh C Q w ↔ Q (.ok (q (applyAll w db))) w :=
  Iff.rfl

theorem solo_raiseIf (c : Prop) [Decidable c] (e : ε) {C : Prog D K W ε Unit → Pending W → Prop}
    {Q : Except ε Unit → Pending W → Prop} : (raiseIf c e : Prog D K W ε Unit).Solo db fresh C Q w ↔
      (c → Q (.error e) w) ∧ (¬ c → Q (.ok ()) w) := by
  unfold raiseIf
  split_ifs with hc <;> simp [hc]

theorem solo_bind (p : Prog D K W ε α) (f : α → Prog D K W ε β)
    {C : Prog D K W ε β → Pending W → Prop} {Q : Except ε β → Pending W → Prop} :
    (p >>= f).Solo db fresh C Q w ↔ p.Solo db fresh (fun n w => C (n >>= f) w)
      (fun r w => match r with
        | .ok a => (f a).Solo db fresh C Q w
        | .error e => Q (.error e) w) w :=
  solo_andThen_of_eq fun r _ => by cases r <;> rfl

theorem solo_handle (p : Prog D K W ε α) (f : ε → Prog D K W ε α) :
    (p.handle f).Solo db fresh C Q w ↔ p.Solo db fresh (fun n w => C (n.handle f) w)
      (fun r w => match r with
        | .ok a => Q (.ok a) w
        | .error e => (f e).Solo db fresh C Q w) w :=
  solo_andThen_of_eq fun r _ => by cases r <;> rfl

theorem solo_atomic (p : Prog D K W ε α) :
    p.atomic.Solo db fresh C Q w ↔ p.Solo db fresh (fun n w => C n.atomic w)
      (fun r w => match r with
        | .ok a => w = [] ∧ Q (.ok a) [] ∨ w ≠ [] ∧ C (.ret (.ok a)) w
        | .error e => Q (.error e) []) w :=
  solo_andThen_of_eq fun r _ => by cases r <;> rfl

end Prog

/-- A session that is alone so far stays so, or commits as was worked out. -/
theorem Config.Turn.solo {S : System D K W ε} [DecidableEq K] {c c' : Config S} {t uuid : ℕ}
    {call : S.Call} {p : Prog D K W ε (S.Res call)} {w : Pending W} {fresh : ℕ → Prop}
    {C : Prog D K W ε (S.Res call) → Pending W → Prop} {Q : Except ε (S.Res call) → Pending W → Prop}
    (h : Turn c t uuid ⟨call, p, w⟩ c') (hs : p.Solo c.world.db fresh C Q w) (huuid : fresh uuid) :
    (c'.world.db = c.world.db ∧ ∃ q w', c'.slot t = some ⟨call, q, w'⟩ ∧
      q.Solo c.world.db fresh C Q w') ∨
    ∃ n, p = .commit n ∧ w ≠ [] ∧ C n w := by
  have hput : ∀ s' : Session S, c.put t (some s') t = some s' := fun s' => by simp [put]
  cases h with
  | commit n hp =>
    have hp : p = .commit n := hp
    rw [hp] at hs
    rcases hs with ⟨hw, hs⟩ | ⟨hw, hC⟩
    · refine Or.inl ⟨?_, n, [], hput _, hs⟩
      rw [hw]
      rfl
    · exact Or.inr ⟨n, hp, hw, hC⟩
  | rollback n hp =>
    have hp : p = .rollback n := hp
    rw [hp] at hs
    exact Or.inl ⟨rfl, n, [], hput _, hs⟩
  | clock n hp =>
    have hp : p = .clock n := hp
    rw [hp] at hs
    exact Or.inl ⟨rfl, _, w, hput _, hs _⟩
  | select n hp =>
    have hp : p = .select n := hp
    rw [hp] at hs
    exact Or.inl ⟨rfl, _, w, hput _, hs⟩
  | forUpdate rows n hp hf =>
    have hp : p = .forUpdate rows n := hp
    rw [hp] at hs
    exact Or.inl ⟨rfl, _, w, hput _, hs⟩
  | refused stmt n hp hv =>
    have hp : p = .write stmt n := hp
    rw [hp] at hs
    exact Or.inl ⟨rfl, _, w, hput _, (hs ⟨c.world.now, uuid⟩ huuid).1 hv⟩
  | written stmt n hp hf hv =>
    have hp : p = .write stmt n := hp
    rw [hp] at hs
    exact Or.inl ⟨rfl, _, _, hput _, (hs ⟨c.world.now, uuid⟩ huuid).2 hv⟩

end ReadCommitted
