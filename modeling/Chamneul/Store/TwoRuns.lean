import Chamneul.Store.Program

/-! Two runs side by side. Two programs, each running alone on a database of its own with
the same clock and the same identifiers drawn, are followed statement by statement. -/

namespace ReadCommitted

variable {D K W ε α β γ δ : Type}

/-- Where a program that runs alone stands: what is committed, and what it sees. -/
structure Stand (D : Type) where
  committed : D
  view : D

/-- Between two transactions. -/
def Stand.idle (d : D) : Stand D := ⟨d, d⟩

@[simp] theorem Stand.idle_committed (d : D) : (Stand.idle d).committed = d := rfl

@[simp] theorem Stand.idle_view (d : D) : (Stand.idle d).view = d := rfl

/-- What holds of the two outcomes, and of where the two programs stand. -/
abbrev Post₂ (D ε α β : Type) := Except ε α → Except ε β → Stand D → Stand D → Prop

/-- Related values, or one and the same exception. -/
def Answers (E : α → β → Prop) : Except ε α → Except ε β → Prop
  | .ok a, .ok b => E a b
  | .error e, .error e' => e = e'
  | _, _ => False

theorem answers_eq {r r' : Except ε α} : Answers Eq r r' ↔ r = r' := by
  cases r <;> cases r' <;> simp [Answers]

theorem Answers.and_left {E : α → β → Prop} {P : α → Prop} {r : Except ε α} {r' : Except ε β}
    (h : Answers E r r') (hP : ∀ a, r = .ok a → P a) : Answers (fun a b => E a b ∧ P a) r r' := by
  cases r <;> cases r'
  · exact h
  · exact h.elim
  · exact h.elim
  · exact ⟨h, hP _ rfl⟩

/-- Both ended between two transactions, on databases that `R` relates, with answers that
`E` relates there. -/
def Ends (R : D → D → Prop) (E : α → β → D → D → Prop) : Post₂ D ε α β :=
  fun r r' s s' => ∃ d d', s = .idle d ∧ s' = .idle d' ∧ R d d' ∧ Answers (fun a b => E a b d d') r r'

/-- The same of the end of a transaction that is still to be committed, or rolled back. -/
def EndsInside (R : D → D → Prop) (E : α → β → D → D → Prop) : Post₂ D ε α β
  | .ok a, .ok b, s, s' => R s.view s'.view ∧ E a b s.view s'.view
  | .error e, .error e', s, s' => R s.committed s'.committed ∧ e = e'
  | _, _, _, _ => False

section

variable [Engine D K W]

/-- The two programs make the same statements, as far as that can be told, and end in `Q`. -/
def Prog.Alike (Q : Post₂ D ε α β) :
    Prog D K W ε α → Prog D K W ε β → Stand D → Stand D → Prop
  | .ret r, .ret r', s, s' => Q r r' s s'
  | .commit n, .commit n', s, s' => Alike Q n n' (.idle s.view) (.idle s'.view)
  | .rollback n, .rollback n', s, s' => Alike Q n n' (.idle s.committed) (.idle s'.committed)
  | .clock n, .clock n', s, s' => ∀ t, Alike Q (n t) (n' t) s s'
  | .select n, .select n', s, s' => Alike Q (n s.view) (n' s'.view) s s'
  | .forUpdate _ n, .forUpdate _ n', s, s' => Alike Q (n s.view) (n' s'.view) s s'
  | .write stmt n, .write stmt' n', s, s' => ∀ e,
      (stmt s.view).any (Engine.violates s.view e) = (stmt' s'.view).any (Engine.violates s'.view e) ∧
      ((stmt s.view).any (Engine.violates s.view e) = true →
        Alike Q (n e s.view false) (n' e s'.view false) s s') ∧
      ((stmt s.view).any (Engine.violates s.view e) = false →
        Alike Q (n e s.view true) (n' e s'.view true)
          ⟨s.committed, applyAll ((stmt s.view).map (e, ·)) s.view⟩
          ⟨s'.committed, applyAll ((stmt' s'.view).map (e, ·)) s'.view⟩)
  | _, _, _, _ => False

namespace Prog

/-- What is followed side by side is what the two runs do. -/
theorem Alike.exec (draw : ℕ → ℕ) {Q : Post₂ D ε α β} {p : Prog D K W ε α} {p' : Prog D K W ε β}
    (w w' : Pending W) (σ σ' : World D) (h : Alike Q p p' ⟨σ.db, σ.view w⟩ ⟨σ'.db, σ'.view w'⟩)
    (hnow : σ.now = σ'.now) :
    ∃ v v', Q (p.exec draw w σ).1 (p'.exec draw w' σ').1 ⟨(p.exec draw w σ).2.db, v⟩
        ⟨(p'.exec draw w' σ').2.db, v'⟩ ∧
      (p.exec draw w σ).2.now = (p'.exec draw w' σ').2.now := by
  have htick : ∀ {σ σ' : World D}, σ.now = σ'.now → σ.now + 1 = σ'.now + 1 :=
    fun h => congrArg (· + 1) h
  induction p generalizing p' w w' σ σ' with
  | ret r =>
    cases p' with
    | ret r' => exact ⟨_, _, h, hnow⟩
    | _ => exact h.elim
  | commit n ih =>
    cases p' with
    | commit n' => exact ih [] [] (σ.commit w) (σ'.commit w') h (htick hnow)
    | _ => exact h.elim
  | rollback n ih =>
    cases p' with
    | rollback n' => exact ih [] [] σ.tick σ'.tick h (htick hnow)
    | _ => exact h.elim
  | clock n ih =>
    cases p' with
    | clock n' =>
      simp only [Prog.exec, hnow]
      exact ih _ w w' σ.tick σ'.tick (h _) (htick hnow)
    | _ => exact h.elim
  | select n ih =>
    cases p' with
    | select n' => exact ih _ w w' σ.tick σ'.tick h (htick hnow)
    | _ => exact h.elim
  | forUpdate rows n ih =>
    cases p' with
    | forUpdate rows' n' => exact ih _ w w' σ.tick σ'.tick h (htick hnow)
    | _ => exact h.elim
  | write stmt n ih =>
    cases p' with
    | write stmt' n' =>
      obtain ⟨hv, hf, ht⟩ := h ⟨σ'.now, draw σ'.now⟩
      simp only [Prog.exec, hnow]
      rw [← hv]
      split_ifs with hviolates
      · exact ih _ _ _ w w' σ.tick σ'.tick (hf hviolates) (htick hnow)
      · refine ih _ _ _ _ _ σ.tick σ'.tick ?_ (htick hnow)
        simp only [World.view, World.tick_db, applyAll_append]
        exact ht (by simpa using hviolates)
    | _ => exact h.elim

/-- What each outcome goes on with is followed side by side as well. -/
theorem Alike.andThen {Q : Post₂ D ε α β} {Q' : Post₂ D ε γ δ} {p : Prog D K W ε α}
    {p' : Prog D K W ε β} {f : Except ε α → Prog D K W ε γ} {f' : Except ε β → Prog D K W ε δ}
    {s s' : Stand D} (h : Alike Q p p' s s')
    (hf : ∀ r r' s s', Q r r' s s' → Alike Q' (f r) (f' r') s s') :
    Alike Q' (p.andThen f) (p'.andThen f') s s' := by
  induction p generalizing p' s s' with
  | ret r =>
    cases p' with
    | ret r' => exact hf r r' s s' h
    | _ => exact h.elim
  | commit n ih =>
    cases p' with
    | commit n' => exact ih h
    | _ => exact h.elim
  | rollback n ih =>
    cases p' with
    | rollback n' => exact ih h
    | _ => exact h.elim
  | clock n ih =>
    cases p' with
    | clock n' => exact fun t => ih t (h t)
    | _ => exact h.elim
  | select n ih =>
    cases p' with
    | select n' => exact ih _ h
    | _ => exact h.elim
  | forUpdate rows n ih =>
    cases p' with
    | forUpdate rows' n' => exact ih _ h
    | _ => exact h.elim
  | write stmt n ih =>
    cases p' with
    | write stmt' n' =>
      intro e
      obtain ⟨hv, hviolated, hwritten⟩ := h e
      exact ⟨hv, fun hv => ih _ _ _ (hviolated hv), fun hv => ih _ _ _ (hwritten hv)⟩
    | _ => exact h.elim

theorem alike_andThen {Q : Post₂ D ε γ δ} {p : Prog D K W ε α} {p' : Prog D K W ε β}
    {f : Except ε α → Prog D K W ε γ} {f' : Except ε β → Prog D K W ε δ} {s s' : Stand D}
    (h : Alike (fun r r' => Alike Q (f r) (f' r')) p p' s s') :
    Alike Q (p.andThen f) (p'.andThen f') s s' :=
  h.andThen fun _ _ _ _ h => h

/-! One rule for each way of building a program. -/

variable {R : D → D → Prop} {s s' : Stand D}

theorem alike_query_bind {Q : Post₂ D ε γ δ} {q : D → α} {q' : D → β} {f : α → Prog D K W ε γ}
    {f' : β → Prog D K W ε δ} (h : Alike Q (f (q s.view)) (f' (q' s'.view)) s s') :
    Alike Q (query q >>= f) (query q' >>= f') s s' := h

theorem alike_time_bind {Q : Post₂ D ε γ δ} {f : ℕ → Prog D K W ε γ} {f' : ℕ → Prog D K W ε δ}
    (h : ∀ t, Alike Q (f t) (f' t) s s') : Alike Q (time >>= f) (time >>= f') s s' := h

theorem alike_raiseIf_bind {Q : Post₂ D ε γ δ} {c c' : Prop} [Decidable c] [Decidable c'] {e : ε}
    {f : Unit → Prog D K W ε γ} {f' : Unit → Prog D K W ε δ} (hc : c ↔ c')
    (herror : Q (.error e) (.error e) s s') (h : ¬ c → Alike Q (f ()) (f' ()) s s') :
    Alike Q (raiseIf c e >>= f) (raiseIf c' e >>= f') s s' := by
  by_cases hp : c
  · rw [raiseIf, raiseIf, if_pos hp, if_pos (hc.mp hp)]
    exact herror
  · rw [raiseIf, raiseIf, if_neg hp, if_neg (hc.not.mp hp)]
    exact h hp

theorem alike_runIf_bind {Q : Post₂ D ε γ δ} {c c' : Prop} [Decidable c] [Decidable c']
    {p p' : Prog D K W ε Unit} {f : Unit → Prog D K W ε γ} {f' : Unit → Prog D K W ε δ}
    (hc : c ↔ c') (hrun : c → Alike Q (p >>= f) (p' >>= f') s s')
    (hskip : ¬ c → Alike Q (f ()) (f' ()) s s') :
    Alike Q (runIf c p >>= f) (runIf c' p' >>= f') s s' := by
  by_cases hp : c
  · rw [runIf, runIf, if_pos hp, if_pos (hc.mp hp)]
    exact hrun hp
  · rw [runIf, runIf, if_neg hp, if_neg (hc.not.mp hp)]
    exact hskip hp

/-- A statement that writes one row or more: a violated constraint, or the change. -/
theorem alike_execute {Q : Post₂ D ε α β} {stmt stmt' : D → List W} {integrity : ε}
    {out : Env → D → α} {out' : Env → D → β}
    (hv : ∀ e, (stmt s.view).any (Engine.violates s.view e) =
      (stmt' s'.view).any (Engine.violates s'.view e))
    (herror : Q (.error integrity) (.error integrity) s s')
    (h : ∀ e, (stmt s.view).any (Engine.violates s.view e) = false →
      Q (.ok (out e s.view)) (.ok (out' e s'.view))
        ⟨s.committed, applyAll ((stmt s.view).map (e, ·)) s.view⟩
        ⟨s'.committed, applyAll ((stmt' s'.view).map (e, ·)) s'.view⟩) :
    Alike Q (execute stmt integrity out : Prog D K W ε α) (execute stmt' integrity out') s s' :=
  fun e => ⟨hv e, fun _ => herror, h e⟩

variable {E : α → β → D → D → Prop} {E' : γ → δ → D → D → Prop}

/-- After a part that is proved to end alike. -/
theorem Alike.bind_ends {Q : Post₂ D ε γ δ} {p : Prog D K W ε α} {p' : Prog D K W ε β}
    {f : α → Prog D K W ε γ} {f' : β → Prog D K W ε δ} (h : Alike (Ends R E) p p' s s')
    (herror : ∀ e d d', R d d' → Q (.error e) (.error e) (.idle d) (.idle d'))
    (hf : ∀ a b d d', R d d' → E a b d d' → Alike Q (f a) (f' b) (.idle d) (.idle d')) :
    Alike Q (p >>= f) (p' >>= f') s s' := by
  refine h.andThen ?_
  rintro r r' _ _ ⟨d, d', rfl, rfl, hR, hr⟩
  cases r <;> cases r'
  · obtain rfl := hr
    exact herror _ _ _ hR
  · exact hr.elim
  · exact hr.elim
  · exact hf _ _ _ _ hR hr

theorem Alike.bind {p : Prog D K W ε α} {p' : Prog D K W ε β} {f : α → Prog D K W ε γ}
    {f' : β → Prog D K W ε δ} (h : Alike (Ends R E) p p' s s')
    (hf : ∀ a b d d', R d d' → E a b d d' → Alike (Ends R E') (f a) (f' b) (.idle d) (.idle d')) :
    Alike (Ends R E') (p >>= f) (p' >>= f') s s' :=
  h.bind_ends (fun _ d d' hR => ⟨d, d', rfl, rfl, hR, rfl⟩) hf

theorem Alike.handle {p : Prog D K W ε α} {p' : Prog D K W ε β} {f : ε → Prog D K W ε α}
    {f' : ε → Prog D K W ε β} (h : Alike (Ends R E) p p' s s')
    (hf : ∀ e d d', R d d' → Alike (Ends R E) (f e) (f' e) (.idle d) (.idle d')) :
    Alike (Ends R E) (p.handle f) (p'.handle f') s s' := by
  refine h.andThen ?_
  rintro r r' _ _ ⟨d, d', rfl, rfl, hR, hr⟩
  cases r <;> cases r'
  · obtain rfl := hr
    exact hf _ _ _ hR
  · exact hr.elim
  · exact hr.elim
  · exact ⟨d, d', rfl, rfl, hR, hr⟩

theorem Alike.atomic {p : Prog D K W ε α} {p' : Prog D K W ε β}
    (h : Alike (EndsInside R E) p p' s s') : Alike (Ends R E) p.atomic p'.atomic s s' := by
  refine h.andThen ?_
  rintro r r' s s' hr
  cases r <;> cases r'
  · exact ⟨_, _, rfl, rfl, hr⟩
  · exact hr.elim
  · exact hr.elim
  · exact ⟨_, _, rfl, rfl, hr⟩

end Prog

/-! Requests one after another. -/

variable {Req : Type} {A : Req → Type} (prog : (r : Req) → Prog D K W ε (A r)) (draw : ℕ → ℕ)

/-- The requests, each served alone after the one before, with what they are answered. -/
def serveAll : List Req → World D → List (Σ r, Except ε (A r))
  | [], _ => []
  | r :: rs, σ => ⟨r, ((prog r).exec draw [] σ).1⟩ :: serveAll rs ((prog r).exec draw [] σ).2

/-- Each request meets `ok` in the database it comes to. -/
def ServedWhile (ok : D → Req → Prop) : List Req → World D → Prop
  | [], _ => True
  | r :: rs, σ => ok σ.db r ∧ ServedWhile ok rs ((prog r).exec draw [] σ).2

theorem servedWhile_true (rs : List Req) (σ : World D) :
    ServedWhile prog draw (fun _ _ => True) rs σ := by
  induction rs generalizing σ with
  | nil => trivial
  | cons r rs ih => exact ⟨trivial, ih _⟩

/-- Programs that end alike answer related databases alike, request after request. -/
theorem serveAll_eq {R : D → D → Prop} {ok : D → Req → Prop}
    (hprog : ∀ r d d', R d d' → ok d r →
      Prog.Alike (Ends R fun a b _ _ => a = b) (prog r) (prog r) (.idle d) (.idle d'))
    {rs : List Req} {σ σ' : World D} (hok : ServedWhile prog draw ok rs σ) (hdb : R σ.db σ'.db)
    (hnow : σ.now = σ'.now) : serveAll prog draw rs σ = serveAll prog draw rs σ' := by
  induction rs generalizing σ σ' with
  | nil => rfl
  | cons r rs ih =>
    obtain ⟨hr, hrs⟩ := hok
    obtain ⟨v, v', ⟨d, d', hd, hd', hR, hanswer⟩, hnow'⟩ :=
      (hprog r σ.db σ'.db hdb hr).exec draw [] [] σ σ' hnow
    obtain rfl : ((prog r).exec draw [] σ).2.db = d := congrArg Stand.committed hd
    obtain rfl : ((prog r).exec draw [] σ').2.db = d' := congrArg Stand.committed hd'
    rw [serveAll, serveAll, answers_eq.mp hanswer, ih hrs hR hnow']

end

end ReadCommitted
