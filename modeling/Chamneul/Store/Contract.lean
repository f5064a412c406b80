import Chamneul.Store.Schedule

/-! Reasoning about one program at a time. A rely says what the other sessions
may do between two statements of a session, and a duty what the session itself
commits and what holds of it at each of its statements. A program whose weakest
precondition holds under its rely keeps its duty in every schedule. -/

namespace ReadCommitted

variable {D K W ε α β : Type}

/-- What the sessions may assume of each other. `R L w` relates the worlds the
others can make of one while this session owns `L` and has `w` to commit. -/
abbrev Rely (D K W : Type) := Set K → Pending W → World D → World D → Prop

/-- What a session promises: `commit` of the changes it commits, and `stage` of
every statement it comes to, with the locks the statement asks for, given the
identifier it draws. -/
structure Duty (D K W : Type) where
  commit : Set K → Pending W → World D → Prop
  stage : Set K → Pending W → World D → (ℕ → List K) → Prop

/-- A postcondition, of the outcome, the locks and changes still held, and the world. -/
abbrev Post (D K W ε α : Type) := Except ε α → Set K → Pending W → World D → Prop

/-- A duty about commits alone. -/
def Duty.ofCommit (G : Set K → Pending W → World D → Prop) : Duty D K W := ⟨G, fun _ _ _ _ => True⟩

@[simp] theorem Duty.ofCommit_commit (G : Set K → Pending W → World D → Prop) :
    (Duty.ofCommit G).commit = G := rfl

@[simp] theorem Duty.ofCommit_stage (G : Set K → Pending W → World D → Prop) (L : Set K)
    (w : Pending W) (σ : World D) (ks : ℕ → List K) : (Duty.ofCommit G).stage L w σ ks ↔ True := Iff.rfl

section

variable [Engine D K W]

/-- The program meets its duty from here on, whatever the others do before each
of its statements, and ends in `Q`. -/
def wp (R : Rely D K W) (G : Duty D K W) :
    Prog D K W ε α → Set K → Pending W → World D → Post D K W ε α → Prop
  | .ret r, L, w, σ, Q => Q r L w σ
  | .commit n, L, w, σ, Q => ∀ σ', R L w σ σ' →
      G.stage L w σ' (fun _ => []) ∧ G.commit L w σ' ∧ wp R G n ∅ [] (σ'.commit w) Q
  | .rollback n, L, w, σ, Q => ∀ σ', R L w σ σ' →
      G.stage L w σ' (fun _ => []) ∧ wp R G n ∅ [] σ'.tick Q
  | .clock n, L, w, σ, Q => ∀ σ', R L w σ σ' →
      G.stage L w σ' (fun _ => []) ∧ wp R G (n σ'.now) L w σ'.tick Q
  | .select n, L, w, σ, Q => ∀ σ', R L w σ σ' →
      G.stage L w σ' (fun _ => []) ∧ wp R G (n (σ'.view w)) L w σ'.tick Q
  | .forUpdate rows n, L, w, σ, Q => ∀ σ', R L w σ σ' →
      G.stage L w σ' (fun _ => rows (σ'.view w)) ∧
      wp R G (n (σ'.view w)) (L ∪ {k | k ∈ rows (σ'.view w)}) w σ'.tick Q
  | .write stmt n, L, w, σ, Q => ∀ σ' uuid, R L w σ σ' →
      let e : Env := ⟨σ'.now, uuid⟩
      let v := σ'.view w
      G.stage L w σ' (fun uuid => (stmt v).flatMap (Engine.locks D ⟨σ'.now, uuid⟩)) ∧
      ((stmt v).any (Engine.violates v e) = true → wp R G (n e v false) L w σ'.tick Q) ∧
      ((stmt v).any (Engine.violates v e) = false →
        wp R G (n e v true) (L ∪ {k | k ∈ (stmt v).flatMap (Engine.locks D e)})
          (w ++ (stmt v).map (e, ·)) σ'.tick Q)

variable {R : Rely D K W} {G : Duty D K W}

theorem wp_mono {p : Prog D K W ε α} {L : Set K} {w : Pending W} {σ : World D}
    {Q Q' : Post D K W ε α} (hQ : ∀ r L w σ, Q r L w σ → Q' r L w σ)
    (h : wp R G p L w σ Q) : wp R G p L w σ Q' := by
  induction p generalizing L w σ with
  | ret r => exact hQ _ _ _ _ h
  | commit n ih => exact fun σ' hr => ⟨(h σ' hr).1, (h σ' hr).2.1, ih (h σ' hr).2.2⟩
  | rollback n ih => exact fun σ' hr => ⟨(h σ' hr).1, ih (h σ' hr).2⟩
  | clock n ih => exact fun σ' hr => ⟨(h σ' hr).1, ih _ (h σ' hr).2⟩
  | select n ih => exact fun σ' hr => ⟨(h σ' hr).1, ih _ (h σ' hr).2⟩
  | forUpdate rows n ih => exact fun σ' hr => ⟨(h σ' hr).1, ih _ (h σ' hr).2⟩
  | write stmt n ih =>
    intro σ' uuid hr
    obtain ⟨hw, hf, ht⟩ := h σ' uuid hr
    exact ⟨hw, fun hv => ih _ _ _ (hf hv), fun hv => ih _ _ _ (ht hv)⟩

/-- What is proved of the commits and what is proved of the stages hold together. -/
theorem wp_and {C : Set K → Pending W → World D → Prop}
    {T : Set K → Pending W → World D → (ℕ → List K) → Prop} {p : Prog D K W ε α} {L : Set K}
    {w : Pending W} {σ : World D} {Q Q' : Post D K W ε α} (h : wp R (Duty.ofCommit C) p L w σ Q)
    (h' : wp R ⟨fun _ _ _ => True, T⟩ p L w σ Q') :
    wp R ⟨C, T⟩ p L w σ fun r L w σ => Q r L w σ ∧ Q' r L w σ := by
  induction p generalizing L w σ with
  | ret r => exact ⟨h, h'⟩
  | commit n ih =>
    intro σ' hr
    exact ⟨(h' σ' hr).1, (h σ' hr).2.1, ih (h σ' hr).2.2 (h' σ' hr).2.2⟩
  | rollback n ih => exact fun σ' hr => ⟨(h' σ' hr).1, ih (h σ' hr).2 (h' σ' hr).2⟩
  | clock n ih => exact fun σ' hr => ⟨(h' σ' hr).1, ih _ (h σ' hr).2 (h' σ' hr).2⟩
  | select n ih => exact fun σ' hr => ⟨(h' σ' hr).1, ih _ (h σ' hr).2 (h' σ' hr).2⟩
  | forUpdate rows n ih => exact fun σ' hr => ⟨(h' σ' hr).1, ih _ (h σ' hr).2 (h' σ' hr).2⟩
  | write stmt n ih =>
    intro σ' uuid hr
    obtain ⟨-, hf, ht⟩ := h σ' uuid hr
    obtain ⟨hs, hf', ht'⟩ := h' σ' uuid hr
    exact ⟨hs, fun hv => ih _ _ _ (hf hv) (hf' hv), fun hv => ih _ _ _ (ht hv) (ht' hv)⟩

/-- Two things proved of the commits hold together. -/
theorem wp_and_commit {C C' : Set K → Pending W → World D → Prop} {p : Prog D K W ε α} {L : Set K}
    {w : Pending W} {σ : World D} {Q Q' : Post D K W ε α} (h : wp R (Duty.ofCommit C) p L w σ Q)
    (h' : wp R (Duty.ofCommit C') p L w σ Q') :
    wp R (Duty.ofCommit fun L w σ => C L w σ ∧ C' L w σ) p L w σ fun r L w σ =>
      Q r L w σ ∧ Q' r L w σ := by
  induction p generalizing L w σ with
  | ret r => exact ⟨h, h'⟩
  | commit n ih =>
    intro σ' hr
    exact ⟨trivial, ⟨(h σ' hr).2.1, (h' σ' hr).2.1⟩, ih (h σ' hr).2.2 (h' σ' hr).2.2⟩
  | rollback n ih => exact fun σ' hr => ⟨trivial, ih (h σ' hr).2 (h' σ' hr).2⟩
  | clock n ih => exact fun σ' hr => ⟨trivial, ih _ (h σ' hr).2 (h' σ' hr).2⟩
  | select n ih => exact fun σ' hr => ⟨trivial, ih _ (h σ' hr).2 (h' σ' hr).2⟩
  | forUpdate rows n ih => exact fun σ' hr => ⟨trivial, ih _ (h σ' hr).2 (h' σ' hr).2⟩
  | write stmt n ih =>
    intro σ' uuid hr
    obtain ⟨-, hf, ht⟩ := h σ' uuid hr
    obtain ⟨-, hf', ht'⟩ := h' σ' uuid hr
    exact ⟨trivial, fun hv => ih _ _ _ (hf hv) (hf' hv), fun hv => ih _ _ _ (ht hv) (ht' hv)⟩

/-- A stage that always holds says nothing. -/
theorem wp_trivial {T : Set K → Pending W → World D → (ℕ → List K) → Prop} (hT : ∀ L w σ ks, T L w σ ks)
    (p : Prog D K W ε α) (L : Set K) (w : Pending W) (σ : World D) :
    wp R ⟨fun _ _ _ => True, T⟩ p L w σ fun _ _ _ _ => True := by
  induction p generalizing L w σ with
  | ret r => trivial
  | commit n ih => exact fun σ' _ => ⟨hT _ _ _ _, trivial, ih _ _ _⟩
  | rollback n ih => exact fun σ' _ => ⟨hT _ _ _ _, ih _ _ _⟩
  | clock n ih => exact fun σ' _ => ⟨hT _ _ _ _, ih _ _ _ _⟩
  | select n ih => exact fun σ' _ => ⟨hT _ _ _ _, ih _ _ _ _⟩
  | forUpdate rows n ih => exact fun σ' _ => ⟨hT _ _ _ _, ih _ _ _ _⟩
  | write stmt n ih =>
    exact fun σ' uuid _ => ⟨hT _ _ _ _, fun _ => ih _ _ _ _ _ _, fun _ => ih _ _ _ _ _ _⟩

theorem wp_andThen (p : Prog D K W ε α) (f : Except ε α → Prog D K W ε β) (L : Set K)
    (w : Pending W) (σ : World D) (Q : Post D K W ε β) :
    wp R G (p.andThen f) L w σ Q ↔ wp R G p L w σ fun r L w σ => wp R G (f r) L w σ Q := by
  induction p generalizing L w σ with
  | ret r => rfl
  | commit n ih => simp only [Prog.andThen, wp, ih]
  | rollback n ih => simp only [Prog.andThen, wp, ih]
  | clock n ih => simp only [Prog.andThen, wp, ih]
  | select n ih => simp only [Prog.andThen, wp, ih]
  | forUpdate rows n ih => simp only [Prog.andThen, wp, ih]
  | write stmt n ih => simp only [Prog.andThen, wp, ih]

/-- The same, with the condition on the outcome worked out. -/
theorem wp_andThen_of_eq {p : Prog D K W ε α} {f : Except ε α → Prog D K W ε β} {L : Set K}
    {w : Pending W} {σ : World D} {Q : Post D K W ε β} {Q' : Post D K W ε α}
    (h : ∀ r L w σ, wp R G (f r) L w σ Q = Q' r L w σ) :
    wp R G (p.andThen f) L w σ Q ↔ wp R G p L w σ Q' := by
  rw [wp_andThen, show (fun r L w σ => wp R G (f r) L w σ Q) = Q' from
    funext fun r => funext fun L => funext fun w => funext fun σ => h r L w σ]

/-! The rules, one for each way a program is put together. -/

section

variable {L : Set K} {w : Pending W} {σ : World D}

@[simp] theorem wp_pure (a : α) (Q : Post D K W ε α) :
    wp R G (pure a : Prog D K W ε α) L w σ Q ↔ Q (.ok a) L w σ := Iff.rfl

@[simp] theorem wp_raise (e : ε) (Q : Post D K W ε α) :
    wp R G (Prog.raise e : Prog D K W ε α) L w σ Q ↔ Q (.error e) L w σ := Iff.rfl

theorem wp_bind (p : Prog D K W ε α) (f : α → Prog D K W ε β) (Q : Post D K W ε β) :
    wp R G (p >>= f) L w σ Q ↔ wp R G p L w σ fun r L w σ =>
      match r with
      | .ok a => wp R G (f a) L w σ Q
      | .error e => Q (.error e) L w σ :=
  wp_andThen_of_eq fun r _ _ _ => by cases r <;> rfl

theorem wp_atomic (p : Prog D K W ε α) (Q : Post D K W ε α) :
    wp R G p.atomic L w σ Q ↔ wp R G p L w σ fun r L w σ =>
      match r with
      | .ok a => ∀ σ', R L w σ σ' →
          G.stage L w σ' (fun _ => []) ∧ G.commit L w σ' ∧ Q (.ok a) ∅ [] (σ'.commit w)
      | .error e => ∀ σ', R L w σ σ' →
          G.stage L w σ' (fun _ => []) ∧ Q (.error e) ∅ [] σ'.tick :=
  wp_andThen_of_eq fun r _ _ _ => by cases r <;> rfl

theorem wp_handle (p : Prog D K W ε α) (h : ε → Prog D K W ε α) (Q : Post D K W ε α) :
    wp R G (p.handle h) L w σ Q ↔ wp R G p L w σ fun r L w σ =>
      match r with
      | .ok a => Q (.ok a) L w σ
      | .error e => wp R G (h e) L w σ Q :=
  wp_andThen_of_eq fun r _ _ _ => by cases r <;> rfl

theorem wp_raiseIf (c : Prop) [Decidable c] (e : ε) (Q : Post D K W ε Unit) :
    wp R G (Prog.raiseIf c e : Prog D K W ε Unit) L w σ Q ↔
      (c → Q (.error e) L w σ) ∧ (¬ c → Q (.ok ()) L w σ) := by
  unfold Prog.raiseIf
  split_ifs with hc <;> simp [hc]

theorem wp_runIf (c : Prop) [Decidable c] (p : Prog D K W ε Unit) (Q : Post D K W ε Unit) :
    wp R G (Prog.runIf c p) L w σ Q ↔
      (c → wp R G p L w σ Q) ∧ (¬ c → Q (.ok ()) L w σ) := by
  unfold Prog.runIf
  split_ifs with hc <;> simp [hc]

theorem wp_query (q : D → α) (Q : Post D K W ε α) :
    wp R G (Prog.query q : Prog D K W ε α) L w σ Q ↔ ∀ σ', R L w σ σ' →
      G.stage L w σ' (fun _ => []) ∧ Q (.ok (q (σ'.view w))) L w σ'.tick := Iff.rfl

theorem wp_time (Q : Post D K W ε ℕ) :
    wp R G (Prog.time : Prog D K W ε ℕ) L w σ Q ↔ ∀ σ', R L w σ σ' →
      G.stage L w σ' (fun _ => []) ∧ Q (.ok σ'.now) L w σ'.tick := Iff.rfl

theorem wp_queryForUpdate (rows : D → List K) (q : D → α) (Q : Post D K W ε α) :
    wp R G (Prog.queryForUpdate rows q : Prog D K W ε α) L w σ Q ↔
      ∀ σ', R L w σ σ' → G.stage L w σ' (fun _ => rows (σ'.view w)) ∧
        Q (.ok (q (σ'.view w))) (L ∪ {k | k ∈ rows (σ'.view w)}) w σ'.tick := Iff.rfl

theorem wp_execute (stmt : D → List W) (integrity : ε) (out : Env → D → α)
    (Q : Post D K W ε α) :
    wp R G (Prog.execute stmt integrity out : Prog D K W ε α) L w σ Q ↔
      ∀ σ' uuid, R L w σ σ' →
        G.stage L w σ' (fun uuid => (stmt (σ'.view w)).flatMap (Engine.locks D ⟨σ'.now, uuid⟩)) ∧
        ((stmt (σ'.view w)).any (Engine.violates (σ'.view w) ⟨σ'.now, uuid⟩) = true →
          Q (.error integrity) L w σ'.tick) ∧
        ((stmt (σ'.view w)).any (Engine.violates (σ'.view w) ⟨σ'.now, uuid⟩) = false →
          Q (.ok (out ⟨σ'.now, uuid⟩ (σ'.view w)))
            (L ∪ {k | k ∈ (stmt (σ'.view w)).flatMap (Engine.locks D ⟨σ'.now, uuid⟩)})
            (w ++ (stmt (σ'.view w)).map ((⟨σ'.now, uuid⟩ : Env), ·)) σ'.tick) := Iff.rfl

/-- The loop rule. `I acc xs` holds with `acc` collected and `xs` to go. -/
theorem wp_collect {γ : Type} {p : γ → Prog D K W ε (Option β)}
    {I : List β → List γ → Set K → Pending W → World D → Prop}
    {E : ε → Set K → Pending W → World D → Prop}
    (hp : ∀ acc x xs L w σ, I acc (x :: xs) L w σ → wp R G (p x) L w σ fun r L w σ =>
      match r with
      | .ok y => I (acc ++ y.toList) xs L w σ
      | .error e => E e L w σ)
    (acc : List β) {xs : List γ} (h : I acc xs L w σ) :
    wp R G (Prog.collect p xs) L w σ fun r L w σ =>
      match r with
      | .ok ys => I (acc ++ ys) [] L w σ
      | .error e => E e L w σ := by
  induction xs generalizing acc L w σ with
  | nil => simpa [Prog.collect] using h
  | cons x xs ih =>
    simp only [Prog.collect, wp_bind, wp_pure]
    refine wp_mono ?_ (hp acc x xs L w σ h)
    intro r L w σ hr
    cases r with
    | error e => exact hr
    | ok y =>
      refine wp_mono ?_ (ih _ hr)
      intro r L w σ hr
      cases r with
      | error e => exact hr
      | ok ys => simpa [List.append_assoc] using hr

end

end

/-! Programs together. -/

structure Rely.Lawful (R : Rely D K W) : Prop where
  refl : ∀ L w σ, R L w σ σ
  trans : ∀ L w σ σ' σ'', R L w σ σ' → R L w σ' σ'' → R L w σ σ''
  tick : ∀ L w σ, R L w σ σ.tick

/-- A postcondition the other sessions cannot spoil. -/
def Rely.Stable (R : Rely D K W) (Q : Post D K W ε α) : Prop :=
  ∀ r L w σ σ', Q r L w σ → R L w σ σ' → Q r L w σ'

variable [Engine D K W]

/-- What has been proved of the sessions still lies ahead of them. -/
theorem wp_rely {R : Rely D K W} {G : Duty D K W} (hR : R.Lawful) {p : Prog D K W ε α}
    {L : Set K} {w : Pending W} {σ σ₁ : World D} {Q : Post D K W ε α} (hQ : R.Stable Q)
    (h : wp R G p L w σ Q) (hr : R L w σ σ₁) : wp R G p L w σ₁ Q := by
  cases p with
  | ret r => exact hQ _ _ _ _ _ h hr
  | commit n => exact fun σ' hr' => h σ' (hR.trans _ _ _ _ _ hr hr')
  | rollback n => exact fun σ' hr' => h σ' (hR.trans _ _ _ _ _ hr hr')
  | clock n => exact fun σ' hr' => h σ' (hR.trans _ _ _ _ _ hr hr')
  | select n => exact fun σ' hr' => h σ' (hR.trans _ _ _ _ _ hr hr')
  | forUpdate rows n => exact fun σ' hr' => h σ' (hR.trans _ _ _ _ _ hr hr')
  | write stmt n => exact fun σ' uuid hr' => h σ' uuid (hR.trans _ _ _ _ _ hr hr')

end ReadCommitted
