import Chamneul.Proofs.AuthLocks

/-! What a password reset and a Google sign-in commit, whatever runs beside them. -/

namespace Chamneul.Auth

open ReadCommitted ReadCommitted.Prog

theorem wp_write {α : Type} {R : Rely Db Key Write} {C : Set Key → Pending Write → World Db → Prop}
    {L : Set Key} {w : Pending Write} {σ : World Db} (x : Write) (out : Env → Db → α)
    (Q : Post Db Key Write Failure α) :
    wp R (Duty.ofCommit C) (write x out) L w σ Q ↔ ∀ σ' e, e.now = σ'.now → R L w σ σ' →
      (violated (σ'.view w) e x ≠ none →
        Q (.error (.integrityError (violated (σ'.view w) e x))) L w σ'.tick) ∧
      (violated (σ'.view w) e x = none →
        Q (.ok (out e (σ'.view w))) (L ∪ {k | k ∈ locks e x}) (w ++ [(e, x)]) σ'.tick) := by
  have hviolates : ∀ db (e : Env), ([x].any (Engine.violates db e) = true ↔ violated db e x ≠ none) ∧
      ([x].any (Engine.violates db e) = false ↔ violated db e x = none) := by
    intro db e
    simp [Engine.violates, ← Option.isSome_iff_ne_none]
  constructor
  · rintro h σ' ⟨now, uuid⟩ rfl hr
    obtain ⟨-, hf, ht⟩ := h σ' uuid hr
    exact ⟨fun hv => hf ((hviolates _ _).1.mpr hv), fun hv => by
      simpa [wp, Engine.locks] using ht ((hviolates _ _).2.mpr hv)⟩
  · intro h σ' uuid hr
    obtain ⟨hf, ht⟩ := h σ' ⟨σ'.now, uuid⟩ rfl hr
    exact ⟨trivial, fun hv => hf ((hviolates _ _).1.mp hv), fun hv => by
      simpa [wp, Engine.locks] using ht ((hviolates _ _).2.mp hv)⟩

/-- What an accepted reset commits: the link was made for the row as it is, the password is set,
and the sessions that are deleted are the user's at some moment before. -/
structure ConfirmCommitted (drift : Db → Db → Prop) (uid : Option Id) (token : Option ResetToken)
    (newPassword : String) (w : Pending Write) (db : Db) : Prop where
  row : ∃ u t e e' db₁, uid = some u.id ∧ token = some t ∧ db.users.get? u.id = some u ∧
    t = makeToken u t.madeAt ∧ drift db₁ db ∧
    w = [(e, .updateUser u.id { password := some (some newPassword) }),
      (e', .deleteSessions (db₁.sessionKeysOf u.id))]

inductive LinkCommitted (drift : Db → Db → Prop) (googleSub : String) (w : Pending Write) (db : Db) :
    Prop
  | nothing (hw : w = [])
  | linked {u e e' e'' row db₁} (hu : db.users.get? u.id = some u) (hactive : u.isActive = true)
      (hsub : row.googleSub = googleSub) (huser : row.user = u.id) (hdrift : drift db₁ db)
      (hw : w = [(e, .insertIdentity row), (e', .updateUser u.id { password := some none }),
        (e'', .deleteSessions (db₁.sessionKeysOf u.id))])
  | created {e e' new row} (hsub : row.googleSub = googleSub) (huser : row.user = e.uuid)
      (hw : w = [(e, .insertUser new), (e', .insertIdentity row)])

/-- What a sign-up or a log-in commits: the account, `last_login`, or a session with the password
of the row that was read. -/
inductive OpenCommitted (drift : Db → Db → Prop) (w : Pending Write) (db : Db) : Prop
  | account {e new} (hw : w = [(e, .insertUser new)])
  | lastLogin {e id} (hw : w = [(e, .updateUser id { lastLogin := true, autoNow := false })])
  | session {e e' u db₁ db₂} (hu : db₁.users.get? u.id = some u) (hread : drift db₁ db₂)
      (hdrift : drift (apply e' (.updateUser u.id { lastLogin := true, autoNow := false }) db₂) db)
      (hw : w = [(e, .insertSession { user := u.id, hash := u.password })])

def Committed (drift : Db → Db → Prop) : Call → Pending Write → Db → Prop
  | .signup .. | .login .. => OpenCommitted drift
  | .confirmPasswordReset uid token newPassword => ConfirmCommitted drift uid token newPassword
  | .linkOrCreateGoogleUser googleSub _ _ _ => LinkCommitted drift googleSub
  | _ => fun _ _ => True

abbrev commits (drift : Db → Db → Prop) (call : Call) : Duty Db Key Write :=
  Duty.ofCommit fun _ w σ => Committed drift call w σ.db

/-- No fact over several rows is owned by a lock. -/
abbrev ownsNothing : Key → Db → Db → Prop := fun _ _ _ => True

section

variable {R : Rely Db Key Write} {drift : Db → Db → Prop} {L : Set Key} {w : Pending Write}
  {σ σ' : World Db}

/-- A user whose row is locked is as it was. -/
theorem locked_user (hR : R.Locks ownsNothing drift) (id : Id) (h : R L w σ σ')
    (hk : Key.user id ∈ L) : σ'.db.users.get? id = σ.db.users.get? id := by
  have hkeep : keeps (.user id) σ.db σ'.db := hR.keeps h hk
  exact hkeep

theorem drift_of_tick (hR : R.Locks ownsNothing drift) (h : R L w σ.tick σ') : drift σ.db σ'.db :=
  (hR.drift h : drift σ.tick.db σ'.db)

theorem wp_resetAllowed {C : Set Key → Pending Write → World Db → Prop} (hR : R.Locks ownsNothing drift)
    {user : User} {Q : Post Db Key Write Failure Bool}
    (h : ∀ allowed σ', R L w σ σ' → Q (.ok allowed) L w σ') :
    wp R (Duty.ofCommit C) (resetAllowed user) L w σ Q := by
  unfold resetAllowed
  split
  · exact h true σ (hR.lawful.refl _ _ _)
  · exact fun σ' hr => ⟨trivial, h _ _ (hR.lawful.trans _ _ _ _ _ hr (hR.lawful.tick _ _ _))⟩

/-- The purge deletes the sessions that the user had at some moment before the commit. -/
theorem wp_purgeSessionsOf {C : Set Key → Pending Write → World Db → Prop} (hR : R.Locks ownsNothing drift)
    {user : Id} {Q : Post Db Key Write Failure Unit}
    (h : ∀ e σ₁ σ₂, R L w σ σ₁ → R L w σ₁ σ₂ → Q (.ok ()) (L ∪ {k | k ∈ locks e
      (.deleteSessions ((σ₁.view w).sessionKeysOf user))})
      (w ++ [(e, .deleteSessions ((σ₁.view w).sessionKeysOf user))]) σ₂.tick) :
    wp R (Duty.ofCommit C) (purgeSessionsOf user) L w σ Q := by
  simp only [purgeSessionsOf, wp_bind, wp_query, wp_write, Duty.ofCommit_stage, true_and]
  intro σ₁ h₁ σ₂ e _ h₂
  refine ⟨fun hv => absurd rfl hv, fun _ => ?_⟩
  exact h e σ₁ σ₂ h₁ (hR.lawful.trans _ _ _ _ _ (hR.lawful.tick _ _ _) h₂)

/-- What `check_token` accepts. -/
theorem checkToken_eq_true {S : Settings} {user : User} {token : Option ResetToken} {now : Time}
    (h : checkToken S user token now = true) : ∃ t, token = some t ∧ t = makeToken user t.madeAt := by
  obtain ⟨t, rfl, ht⟩ := (Option.any_eq_true _ _).mp h
  exact ⟨t, rfl, (of_decide_eq_true ht).1⟩

variable (hR : R.Locks ownsNothing drift)

include hR in
theorem confirmPasswordReset_spec (S : Settings) (uid : Option Id) (token : Option ResetToken)
    (newPassword : String) (σ : World Db) :
    wp R (commits drift (.confirmPasswordReset uid token newPassword))
      (confirmPasswordReset S uid token newPassword) ∅ [] σ fun _ _ _ _ => True := by
  simp only [confirmPasswordReset, wp_atomic, wp_bind, wp_queryForUpdate, Duty.ofCommit_stage,
    true_and, World.view_nil]
  intro σ₁ h₁
  cases huser : (uid.bind σ₁.db.users.get?).filter User.isActive with
  | none => simp
  | some u =>
    obtain ⟨hget, -⟩ := Option.filter_eq_some_iff.mp huser
    obtain ⟨id, rfl, hid⟩ := Option.bind_eq_some_iff.mp hget
    obtain rfl : u.id = id := (Table.get?_eq_some.mp hid).2
    simp only [wp_bind]
    refine wp_resetAllowed hR fun allowed σ₂ h₂ => ?_
    simp only [wp_raiseIf, wp_time, wp_write, Duty.ofCommit_stage, true_and, implies_true, and_true]
    intro _ σ₃ h₃ hcheck _ σ₄ e _ h₄ _
    refine wp_purgeSessionsOf hR fun e' σ₅ σ₆ h₅ h₆ => ?_
    intro σ₇ h₇
    obtain ⟨t, rfl, ht⟩ := checkToken_eq_true (by simpa using hcheck)
    -- The row is locked since it was read.
    have hrow : σ₇.db.users.get? u.id = some u := by
      rw [locked_user hR u.id h₇ (by simp), World.tick_db, locked_user hR u.id h₆ (by simp),
        locked_user hR u.id h₅ (by simp), World.tick_db, locked_user hR u.id h₄ (by simp),
        World.tick_db, locked_user hR u.id h₃ (by simp), locked_user hR u.id h₂ (by simp)]
      exact hid
    exact ⟨u, t, e, e', σ₅.db, rfl, rfl, hrow, ht, hR.drift_trans (hR.drift h₆) (drift_of_tick hR h₇), rfl⟩

include hR in
theorem linkExisting_spec {C : Set Key → Pending Write → World Db → Prop} (googleSub email : String)
    (hC : ∀ L w σ, LinkCommitted drift googleSub w σ.db → C L w σ) (σ : World Db)
    {Q : Post Db Key Write Failure (Option User)} (hQ : ∀ r σ, Q r ∅ [] σ) :
    wp R (Duty.ofCommit C) (linkExisting googleSub email) ∅ [] σ Q := by
  simp only [linkExisting, wp_atomic, wp_bind, wp_queryForUpdate, Duty.ofCommit_stage, true_and,
    World.view_nil]
  intro σ₁ h₁
  cases hu : σ₁.db.userByEmail email with
  | none => exact fun σ₂ _ => ⟨hC _ _ _ (.nothing rfl), hQ _ _⟩
  | some u =>
    cases hactive : u.isActive with
    | false =>
      simp only [hactive, Bool.false_eq_true, if_false]
      exact fun σ₂ _ => ⟨hC _ _ _ (.nothing rfl), hQ _ _⟩
    | true =>
      simp only [hactive, if_true, wp_bind, wp_query, wp_raiseIf, wp_write, Duty.ofCommit_stage,
        true_and, hQ, implies_true, and_true]
      intro σ₂ h₂ _ σ₃ e _ h₃ _ σ₄ e' _ h₄ _
      refine wp_purgeSessionsOf hR fun e'' σ₅ σ₆ h₅ h₆ => ?_
      intro σ₇ h₇
      have hrow : σ₇.db.users.get? u.id = some u := by
        rw [locked_user hR u.id h₇ (by simp), World.tick_db, locked_user hR u.id h₆ (by simp),
          locked_user hR u.id h₅ (by simp), World.tick_db, locked_user hR u.id h₄ (by simp),
          World.tick_db, locked_user hR u.id h₃ (by simp), World.tick_db,
          locked_user hR u.id h₂ (by simp)]
        exact Table.mem_iff_get?.mp (List.mem_of_find?_eq_some hu)
      have hdrift : drift σ₅.db σ₇.db :=
        hR.drift_trans (hR.drift h₆) (drift_of_tick hR h₇)
      exact hC _ _ _ (.linked hrow hactive rfl rfl hdrift rfl)

theorem createLinked_spec {C : Set Key → Pending Write → World Db → Prop} (S : Settings)
    (email googleSub nickname : String)
    (hC : ∀ L w σ, LinkCommitted drift googleSub w σ.db → C L w σ) (σ : World Db)
    {Q : Post Db Key Write Failure User} (hQ : ∀ r σ, Q r ∅ [] σ) :
    wp R (Duty.ofCommit C) (createLinked S email googleSub nickname) ∅ [] σ Q := by
  simp only [createLinked, createUser, createUserWith, wp_atomic, wp_bind, wp_raiseIf, wp_write,
    wp_pure, Duty.ofCommit_stage, true_and, hQ, implies_true, and_true]
  intro _ _ σ₁ e _ h₁ _ σ₂ e' _ h₂ _ σ₃ h₃
  exact hC _ _ _ (.created rfl rfl rfl)

theorem createWithNickname_spec {C : Set Key → Pending Write → World Db → Prop} (S : Settings)
    (email googleSub : String) (hC : ∀ L w σ, LinkCommitted drift googleSub w σ.db → C L w σ)
    {Q : Post Db Key Write Failure User} (hQ : ∀ r σ, Q r ∅ [] σ) (candidates : List String)
    (lastError : Failure) (σ : World Db) :
    wp R (Duty.ofCommit C) (createWithNickname S email googleSub candidates lastError) ∅ [] σ Q := by
  induction candidates generalizing lastError σ with
  | nil => exact hQ _ _
  | cons nickname candidates ih =>
    rw [createWithNickname, wp_handle]
    refine createLinked_spec S email googleSub nickname hC σ fun r σ => ?_
    cases r with
    | ok user => exact hQ _ _
    | error failure => cases failure <;> first | exact ih _ _ | exact hQ _ _

include hR in
theorem linkOrCreateGoogleUser_spec (S : Settings) (googleSub email name : String)
    (draws : NicknameDraws) (σ : World Db) :
    wp R (commits drift (.linkOrCreateGoogleUser googleSub email name draws))
      (linkOrCreateGoogleUser S googleSub email name draws) ∅ [] σ fun _ _ _ _ => True := by
  simp only [linkOrCreateGoogleUser, wp_bind, wp_query, Duty.ofCommit_stage, true_and, World.view_nil]
  intro σ₁ h₁
  cases hknown : σ₁.db.linkedUser googleSub with
  | some user => trivial
  | none =>
    dsimp only
    rw [wp_bind]
    refine linkExisting_spec hR googleSub _ (fun L w σ h => h) σ₁.tick fun r σ => ?_
    cases r with
    | error failure => trivial
    | ok existing =>
      cases existing with
      | some user => trivial
      | none => exact createWithNickname_spec S _ googleSub (fun L w σ h => h) (fun r σ => trivial) _ _ σ

include hR in
theorem djangoLogin_spec {C : Set Key → Pending Write → World Db → Prop}
    (hC : ∀ L w σ, OpenCommitted drift w σ.db → C L w σ) {u : User} {σ : World Db}
    (hu : σ.db.users.get? u.id = some u) {Q : Post Db Key Write Failure User}
    (hQ : ∀ r L w σ, Q r L w σ) : wp R (Duty.ofCommit C) (djangoLogin u) ∅ [] σ Q := by
  simp only [djangoLogin, wp_bind, wp_atomic, wp_write, wp_pure, Duty.ofCommit_stage, true_and, hQ,
    implies_true, and_true]
  intro σ₁ e' _ h₁ _ σ₂ h₂
  refine ⟨hC _ _ _ (.lastLogin rfl), fun σ₃ e _ h₃ _ σ₄ h₄ => hC _ _ _ ?_⟩
  exact .session hu (hR.drift_trans (hR.drift h₁) (drift_of_tick hR h₂))
    (hR.drift_trans (hR.drift h₃) (drift_of_tick hR h₄)) rfl

include hR in
theorem signup_spec (S : Settings) (email nickname password : String) (σ : World Db) :
    wp R (commits drift (.signup email nickname password)) (signup S email nickname password) ∅ [] σ
      fun _ _ _ _ => True := by
  simp only [signup, createUser, createUserWith, wp_bind, wp_query, wp_raiseIf, wp_handle, wp_atomic,
    wp_write, wp_raise, Duty.ofCommit_stage, true_and, implies_true]
  intro σ₁ _ _ σ₂ _ _ _ _ _ σ₃ e _ _ hfree σ₄ h₄
  refine ⟨.account rfl, djangoLogin_spec hR (fun _ _ _ h => h) ?_ fun _ _ _ _ => trivial⟩
  -- The key is locked since it was found free.
  have hkey : σ₄.db.users.get? e.uuid = none := by
    rw [locked_user hR e.uuid h₄ (by simp [locks]), World.tick_db]
    exact (insertUser_accepted.mp hfree).1
  exact (Table.get?_insert _ _ _ hkey).trans (if_pos rfl)

include hR in
theorem login_spec (S : Settings) (email password : String) (σ : World Db) :
    wp R (commits drift (.login email password)) (login S email password) ∅ [] σ
      fun _ _ _ _ => True := by
  simp only [login, wp_bind, wp_query, Duty.ofCommit_stage, true_and, World.view_nil]
  intro σ₁ h₁
  cases huser : (σ₁.db.userByEmail (S.text.canonicalEmail email)).filter fun u =>
      u.password.check password && u.isActive with
  | none => trivial
  | some u =>
    obtain ⟨hfind, -⟩ := Option.filter_eq_some_iff.mp huser
    have hu : σ₁.tick.db.users.get? u.id = some u :=
      Table.mem_iff_get?.mp (List.mem_of_find?_eq_some hfind)
    exact djangoLogin_spec hR (fun _ _ _ h => h) hu fun _ _ _ _ => trivial

end

/-- Every call commits what `Committed` says of it, and relies on its locks alone. -/
theorem auth_discipline (S : Settings) :
    Discipline (system S) ownsNothing commits fun _ _ _ _ _ => True where
  refl _ _ := trivial
  trans _ _ := trivial
  still _ _ _ _ _ _ h := h
  frame _ _ := trivial
  program hR call σ := by
    cases call with
    | confirmPasswordReset uid token newPassword =>
      exact confirmPasswordReset_spec hR S uid token newPassword σ
    | linkOrCreateGoogleUser googleSub email name draws =>
      exact linkOrCreateGoogleUser_spec hR S googleSub email name draws σ
    | signup email nickname password => exact signup_spec hR S email nickname password σ
    | login email password => exact login_spec hR S email password σ
    | _ => exact wp_trivial (fun _ _ _ _ => trivial) _ _ _ _

end Chamneul.Auth
