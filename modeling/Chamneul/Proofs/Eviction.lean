import Chamneul.Proofs.ResetLinks

/-! Linking a Google account to an address evicts whoever had it. The link replaces the password
under the lock of the row, so nothing that rests on an older one, be it a session, a log-in under
way or a reset link, is good afterwards. -/

namespace Chamneul.Auth

open ReadCommitted ReadCommitted.Prog

def NotNewer (db : Db) (user : Id) (password : PasswordHash) : Prop :=
  ∃ u, db.users.get? user = some u ∧ password.salt ≤ u.password.salt

theorem NotNewer.move {db db' : Db} {user : Id} {password : PasswordHash} (h : NotNewer db user password)
    (hm : PasswordsMove db db') : NotNewer db' user password := by
  obtain ⟨u, hu, hle⟩ := h
  obtain ⟨v, hv, huv⟩ := hm user u hu
  refine ⟨v, hv, ?_⟩
  rcases huv with huv | huv
  · rw [huv]
    exact hle
  · exact (hle.trans_lt huv).le

def SessionsNotNewer (db : Db) : Prop := ∀ s ∈ db.sessions, NotNewer db s.user s.hash

/-- Writing `last_login` leaves the password as it is. -/
theorem notNewer_lastLogin {e : Env} {db : Db} {id user : Id} {password : PasswordHash} :
    NotNewer (apply e (.updateUser id { lastLogin := true, autoNow := false }) db) user password ↔
      NotNewer db user password := by
  simp only [NotNewer, get?_updateUser]
  split_ifs with hid
  · simp [UserSet.apply]
  · rfl

section

variable {S : Settings} {ok : Config (system S) → Event (system S) → Prop} {σ₀ : World Db}
  {c c' : Config (system S)} {e : Event (system S)}

theorem holds_moving (h₀ : PastSalts σ₀) (h : Config.Reaches ok (Config.idle σ₀) c) :
    Sound (Rely.drifting ownsNothing PasswordsMove) (commits PasswordsMove)
      (fun _ _ _ _ _ => True) c :=
  (auth_discipline S).holds_drifting passwordsMove_refl PasswordsMove.trans
    (fun hr hslot _ => passwordsMove_commit h₀ hr hslot) h

theorem verified_moving : Verified (system S) (Rely.drifting ownsNothing PasswordsMove)
    (commits PasswordsMove) (fun _ _ _ _ _ => True) :=
  (auth_discipline S).verified_drifting passwordsMove_refl PasswordsMove.trans

/-- A session that is opened carries a password its user had. -/
theorem notNewer_of_openCommitted {w : Pending Write} {db : Db} (h : OpenCommitted PasswordsMove w db)
    {e : Env} {row : SessionRow} (hrow : (e, Write.insertSession row) ∈ w) :
    NotNewer db row.user row.hash := by
  cases h with
  | account hw | lastLogin hw => simp [hw] at hrow
  | @session _ _ u _ _ hu hread hdrift hw =>
    rw [hw, List.mem_singleton, Prod.mk.injEq, Write.insertSession.injEq] at hrow
    rw [hrow.2]
    have hold : NotNewer _ u.id u.password := ⟨u, hu, le_rfl⟩
    exact (notNewer_lastLogin.mpr (hold.move hread)).move hdrift

theorem sessionsNotNewer_reaches (h₀ : PastSalts σ₀) (hs₀ : SessionsNotNewer σ₀.db)
    (h : Config.Reaches ok (Config.idle σ₀) c) : SessionsNotNewer c.world.db := by
  refine h.invariant (I := fun c => SessionsNotNewer c.world.db) hs₀ ?_
  intro c e c' hr hold _ hs s hmem
  have hmove := passwordsMove_step h₀ hr hs
  refine NotNewer.move ?_ hmove
  rcases Config.step_world hs with hw | ⟨t, uuid, s₁, n, -, hslot, hp, hw⟩
  · rw [hw] at hmem
    exact hold s hmem
  · rw [hw] at hmem
    obtain hmem | ⟨⟨e₁, _⟩, hrow, row, rfl, rfl⟩ := session_applyAll hmem
    · exact hold s hmem
    · have hcommit : Committed PasswordsMove s₁.call s₁.writes c.world.db :=
        Sound.commit verified_moving (holds_moving h₀ hr) hslot hp
      obtain ⟨ws, ⟨x, rfl, hissues⟩, hx⟩ := (hr.writes (program_writes S) hslot).2 _ hrow
      obtain rfl := List.mem_singleton.mp hx
      obtain ⟨_, _, _, hcall⟩ | ⟨_, _, hcall⟩ := call_of_insertSession hissues <;>
      · rw [hcall] at hcommit
        have hnew : NotNewer c.world.db row.user row.hash := notNewer_of_openCommitted hcommit hrow
        exact hnew

/-- A log-in or a sign-up that has read its user and is about to open a session. -/
inductive LoggingIn (u : User) : ReadCommitted.Session (system S) → Prop
  | signup {email nickname password} :
      LoggingIn u ⟨.signup email nickname password, djangoLogin u, []⟩
  | login {email password} : LoggingIn u ⟨.login email password, djangoLogin u, []⟩

/-- What `login` is about to write tells what is stored. -/
theorem notNewer_of_wp {R : Rely Db Key Write} (hR : R.Locks ownsNothing PasswordsMove) {L : Set Key}
    {σ : World Db} {u : User} {Q : Post Db Key Write Failure User}
    (h : wp R (Duty.ofCommit fun _ w σ => OpenCommitted PasswordsMove w σ.db) (djangoLogin u) L [] σ Q) :
    NotNewer σ.db u.id u.password := by
  simp only [djangoLogin, wp_bind, wp_atomic, wp_write, Duty.ofCommit_stage, true_and] at h
  have hrefl := hR.lawful.refl
  obtain ⟨-, h⟩ := (h σ ⟨σ.now, 0⟩ rfl (hrefl _ _ _)).2 rfl _ (hrefl _ _ _)
  obtain ⟨key, hkey⟩ := σ.db.sessions.exists_free
  obtain ⟨-, h⟩ := h _ ⟨_, key⟩ rfl (hrefl _ _ _)
  obtain ⟨hcommit, -⟩ := h (by
    change (if (σ.db.sessions.get? key).isSome then some Constraint.sessionPkey else none) = none
    rw [hkey]
    rfl) _ (hrefl _ _ _)
  have hnew := notNewer_of_openCommitted hcommit List.mem_cons_self
  exact notNewer_lastLogin.mp hnew

/-- The password that a log-in has read was stored. -/
theorem LoggingIn.notNewer (h₀ : PastSalts σ₀) (h : Config.Reaches ok (Config.idle σ₀) c) {t : ℕ}
    {s : ReadCommitted.Session (system S)} (hs : c.slot t = some s) {u : User} (hu : LoggingIn u s) :
    NotNewer c.world.db u.id u.password := by
  have hR : (Rely.drifting ownsNothing PasswordsMove : Rely Db Key Write).Locks ownsNothing
      PasswordsMove :=
    Rely.drifting_locks (auth_discipline S).refl (auth_discipline S).trans passwordsMove_refl
      PasswordsMove.trans
  have hsafe := (holds_moving h₀ h).safe t s hs
  cases hu with
  | signup | login => exact notNewer_of_wp hR hsafe

/-- The session it opens carries the password it has read. -/
theorem LoggingIn.opens {t : ℕ} {s : ReadCommitted.Session (system S)} (hs : c.slot t = some s)
    {u : User} (hu : LoggingIn u s) {c₁ c₂ : Config (system S)}
    (h : Config.Reaches (fun _ e => ∀ call, e ≠ .start t call) c c₁) (hstep : c₁.step e = some c₂)
    (he : e.session = t) {r : SessionRow} (hr : r ∈ c₂.world.db.sessions)
    (hnew : r ∉ c₁.world.db.sessions) : r.user = u.id ∧ r.hash = u.password := by
  rcases Config.step_world hstep with hw | ⟨t', uuid, s', n, rfl, hslot, -, hw⟩
  · rw [hw] at hr
    exact absurd hr hnew
  · obtain rfl : t' = t := he
    rw [hw] at hr
    obtain hr | ⟨⟨e, _⟩, hrow, row, rfl, rfl⟩ := session_applyAll hr
    · exact absurd hr hnew
    have hwrites : s.prog.Writes (fun ws => ∀ row, .insertSession row ∈ ws →
        row = { user := u.id, hash := u.password }) ∧ s.writes = [] := by
      cases hu with
      | signup | login =>
        refine ⟨?_, rfl⟩
        exact (writes_write.mpr (by simp)).atomic.bind fun _ =>
          (writes_write.mpr (by simp)).atomic.bind fun _ => trivial
    obtain ⟨ws, hws, hx⟩ := (h.writes_on hs hwrites.1 (by simp [hwrites.2]) hslot).2 _ hrow
    rw [hws row hx]
    exact ⟨rfl, rfl⟩

/-! The passwords set after a point in time. -/

/-- The password of `user` is unusable or set at time `n` or later, and so are those on the way. -/
structure Renewed (user : Id) (n : Time) (c : Config (system S)) : Prop where
  now : n ≤ c.world.now
  pending : ∀ t s, c.slot t = some s → ∀ p ∈ s.writes, p.2.SetsPassword user → n ≤ p.1.now
  stored : ∃ u, c.world.db.users.get? user = some u ∧ (u.password.raw = none ∨ n ≤ u.password.salt)

theorem Renewed.step {user : Id} {n : Time} (h : Renewed user n c) (hs : c.step e = some c') :
    Renewed user n c' where
  now := by
    rw [Config.step_now hs]
    exact Nat.le_succ_of_le h.now
  pending := by
    intro t s hslot p hp hset
    rcases Config.step_writes hs hslot hp with ⟨s₀, hs₀, hp⟩ | hnow
    · exact h.pending t s₀ hs₀ p hp hset
    · rw [hnow]
      exact h.now
  stored := by
    obtain ⟨u, hu, hold⟩ := h.stored
    rcases Config.step_world hs with hw | ⟨t, uuid, s, m, -, hslot, -, hw⟩
    · rw [hw]
      exact ⟨u, hu, hold⟩
    · obtain ⟨v, hv, hpass⟩ := password_applyAll (w := s.writes) hu
      refine ⟨v, by rw [hw]; exact hv, ?_⟩
      rcases hpass with hpass | ⟨p, hp, hset, hsalt⟩
      · rw [hpass]
        exact hold
      · rw [hsalt]
        exact Or.inr (h.pending t s hslot p hp hset)

theorem Renewed.reaches {user : Id} {n : Time} (h : Renewed user n c) (hr : Config.Reaches ok c c') :
    Renewed user n c' :=
  hr.invariant h fun _ _ _ _ hi _ hs => hi.step hs

/-- The link holds the row of its user, so nobody has a password for it on the way. -/
theorem renewed_of_link (h : Config.Reaches ok (Config.idle σ₀) c) (hs : c.step e = some c') {v : User}
    (hv : c.world.db.users.get? v.id = some v) {i : GoogleIdentity} (hi : i ∈ c'.world.db.identities)
    (hnew : i ∉ c.world.db.identities) (hiv : i.user = v.id) : Renewed v.id c'.world.now c' := by
  have htidy := (Config.Tidy.idle σ₀).reaches h
  obtain ⟨t, uuid, s, n, e₁, e₂, e₃, row, keys, rfl, hslot, hp, hw, hwrites⟩ :=
    link_commit h hs hv hi hnew hiv
  have hdisables : (e₂, Write.updateUser v.id { password := some none }) ∈ s.writes := by simp [hwrites]
  refine ⟨le_rfl, fun t' s' hslot' p hp' hset => ?_, ?_⟩
  · have hself : t' = t := by
      by_contra hne
      obtain hold | ⟨he, -⟩ | ⟨_, _, he, -⟩ := Config.step_slot hs hslot'
      · have huser : Key.user v.id ∈ locks p.1 p.2 := by
          obtain ⟨e, x⟩ := p
          cases x with
          | updateUser id set =>
            obtain ⟨rfl, -⟩ := hset
            exact List.mem_cons_self
          | _ => exact hset.elim
        refine hne (Config.owner_unique (htidy.locked t' s' hold p hp' _ huser) ?_)
        exact htidy.locked t s hslot _ hdisables _ List.mem_cons_self
      · cases he
      · cases he
        exact hne rfl
    obtain ⟨-, hslot₁⟩ := (Config.turn_of_run hslot hs).of_commit hp
    rw [hself] at hslot'
    obtain rfl := Option.some.inj (hslot₁.symm.trans hslot')
    cases hp'
  · rw [hw, World.commit_db, hwrites]
    refine ⟨UserSet.apply e₂ { password := some none } v, ?_, Or.inl rfl⟩
    rw [get?_linked, if_pos rfl, hv]
    rfl

/-- A session with an older password than its user has is not accepted. -/
theorem sessionUser_eq_none {db : Db} {r : SessionRow} (hr : r ∈ db.sessions) {u : User}
    (hu : db.users.get? r.user = some u) (hold : r.hash.salt < u.password.salt) :
    db.sessionUser r.key = none := by
  have hne : r.hash ≠ u.password := by
    rintro heq
    rw [heq] at hold
    exact lt_irrefl _ hold
  have hget : db.sessions.get? r.key = some r := Table.mem_iff_get?.mp hr
  simp [Db.sessionUser, hget, hu, hne]

/-- What was not newer before the link is older than what is stored after it. -/
theorem older_of_link (h₀ : PastSalts σ₀) {c₁ c₂ c₃ c₄ : Config (system S)} {v : User}
    (h₁ : Config.Reachable (Config.idle σ₀) c₁) (h₁₂ : Config.Reachable c₁ c₂)
    (hs : c₂.step e = some c₃) (hv : c₂.world.db.users.get? v.id = some v) {i : GoogleIdentity}
    (hi : i ∈ c₃.world.db.identities) (hnew : i ∉ c₂.world.db.identities) (hiv : i.user = v.id)
    (h₄ : Config.Reachable c₃ c₄) {password : PasswordHash}
    (hold : NotNewer c₁.world.db v.id password) :
    ∃ u, c₄.world.db.users.get? v.id = some u ∧ password.salt < u.password.salt := by
  have h₂ := h₁.trans h₁₂
  obtain ⟨v', hv', hle⟩ := hold.move (passwordsMove_reaches h₀ h₁ h₁₂)
  obtain rfl := Option.some.inj (hv.symm.trans hv')
  obtain ⟨x, hx, hlt⟩ := linked_step h₀ h₂ hs hv hi hnew hiv
  obtain ⟨u, hu, hle'⟩ := NotNewer.move ⟨x, hx, le_rfl⟩
    (passwordsMove_reaches h₀ (h₂.step trivial hs) h₄)
  exact ⟨u, hu, hle.trans_lt (hlt.trans_le hle')⟩

end

/-- In every state after a Google account has been linked to user `v`, only a password set since
then is accepted, no session is that was opened before, no session that is opened for a log-in or a
sign-up that had read its user before, and no reset link made before. -/
theorem google_link_evicts (S : Settings) {σ₀ : World Db} (h₀ : PastSalts σ₀)
    (hs₀ : SessionsNotNewer σ₀.db) {c₂ c₃ c₄ : Config (system S)} {e : Event (system S)} {v : User}
    (h₂ : Config.Reachable (Config.idle σ₀) c₂) (hv : v ∈ c₂.world.db.users)
    (hs : c₂.step e = some c₃)
    (hlink : ∃ i ∈ c₃.world.db.identities, i ∉ c₂.world.db.identities ∧ i.user = v.id)
    (h₄ : Config.Reachable c₃ c₄) :
    (∀ u raw, c₄.world.db.users.get? v.id = some u → u.password.check raw = true →
      c₃.world.now ≤ u.password.salt) ∧
    ∀ c₁, Config.Reachable (Config.idle σ₀) c₁ → Config.Reachable c₁ c₂ →
      (∀ r ∈ c₁.world.db.sessions, r.user = v.id → r ∈ c₄.world.db.sessions →
        c₄.world.db.sessionUser r.key = none) ∧
      (∀ t s u c c' e' r, c₁.slot t = some s → LoggingIn u s →
        Config.Reaches (fun _ e => ∀ call, e ≠ .start t call) c₁ c → c.step e' = some c' →
        e'.session = t → r ∈ c'.world.db.sessions → r ∉ c.world.db.sessions → r.user = v.id →
        r ∈ c₄.world.db.sessions → c₄.world.db.sessionUser r.key = none) ∧
      ∀ u ∈ c₁.world.db.users, u.id = v.id → ∀ madeAt as,
        Config.Answers (fun _ _ => True) c₃ c₄ as → as.countP (accepts (makeToken u madeAt)) = 0 := by
  have hget : c₂.world.db.users.get? v.id = some v := Table.mem_iff_get?.mp hv
  obtain ⟨i, hi, hnew, hiv⟩ := hlink
  refine ⟨fun u raw hu hcheck => ?_, fun c₁ h₁ h₁₂ => ⟨?_, ?_, ?_⟩⟩
  · obtain ⟨u', hu', hraw | hle⟩ := ((renewed_of_link h₂ hs hget hi hnew hiv).reaches h₄).stored
    · obtain rfl := Option.some.inj (hu.symm.trans hu')
      simp [PasswordHash.check, hraw] at hcheck
    · obtain rfl := Option.some.inj (hu.symm.trans hu')
      exact hle
  · intro r hr hrv hr₄
    have hold := sessionsNotNewer_reaches h₀ hs₀ h₁ r hr
    rw [hrv] at hold
    obtain ⟨u, hu, hlt⟩ := older_of_link h₀ h₁ h₁₂ hs hget hi hnew hiv h₄ hold
    exact sessionUser_eq_none hr₄ (hrv ▸ hu) hlt
  · intro t s u c c' e' r hslot hu hr hstep he' hr' hrnew hrv hr₄
    obtain ⟨hid, hhash⟩ := hu.opens hslot hr hstep he' hr' hrnew
    have hold := hu.notNewer h₀ h₁ hslot
    rw [← hid, hrv, ← hhash] at hold
    obtain ⟨x, hx, hlt⟩ := older_of_link h₀ h₁ h₁₂ hs hget hi hnew hiv h₄ hold
    exact sessionUser_eq_none hr₄ (hrv ▸ hx) hlt
  · intro u hu hid madeAt as has
    refine earlier_link_refused h₀ h₁ hu h₁₂ trivial hs (Or.inr ⟨i, hi, hnew, ?_⟩) madeAt has
    rw [hid]
    exact hiv

/-- A log-in with the old password reads the row. -/
def readsRow : List (Event (system asciiSettings)) := [.start 1 (.login "a@x" "old"), .run 1 0]

/-- A Google account with the same address signs in, up to its commit. -/
def linking : List (Event (system asciiSettings)) :=
  .start 0 (.linkOrCreateGoogleUser "sub" "a@x" "" zeroDraws) :: List.replicate 7 (.run 0 0)

def opening : List (Event (system asciiSettings)) := [.run 1 0, .run 1 0, .run 1 9]

/-- The states of that run: the row is read, the link is about to commit and has committed, the
session is about to be opened and is open. -/
def rowRead : Config (system asciiSettings) := (Config.idle oneUser).after readsRow
def toLink : Config (system asciiSettings) := rowRead.after linking
def linkedOnce : Config (system asciiSettings) := toLink.after [.run 0 0]
def toOpen : Config (system asciiSettings) := linkedOnce.after opening
def openedLate : Config (system asciiSettings) := toOpen.after [.run 1 0]

def lateSession : SessionRow := { key := 9, user := 1, hash := ⟨some "old", 0⟩ }

def squatter : User := { id := 1, email := "a@x", nickname := "n", password := ⟨some "old", 0⟩ }

theorem sessionsNotNewer_oneUser : SessionsNotNewer oneUser.db :=
  Table.forall_mem_insert (fun s hs => absurd hs (Table.not_mem_empty s)) ⟨squatter, rfl, le_rfl⟩

def goesOn (_ : Config (system asciiSettings)) : Event (system asciiSettings) → Bool
  | .start t _ => decide (t ≠ 1)
  | _ => true

theorem goesOn_reaches {c : Config (system asciiSettings)} {es : List (Event (system asciiSettings))}
    (h : c.passes goesOn es = true) :
    Config.Reaches (fun _ e => ∀ call, e ≠ .start 1 call) c (c.after es) := by
  refine Config.reaches_after (fun c e he call => ?_) h
  rintro rfl
  cases he

theorem google_link_evicts_lateSession :
    lateSession ∈ openedLate.world.db.sessions ∧ openedLate.world.db.sessionUser 9 = none := by
  have hopen : lateSession ∈ openedLate.world.db.sessions := Table.mem_iff_get?.mpr rfl
  have hclosed : lateSession ∉ toOpen.world.db.sessions := fun h => by cases Table.mem_iff_get?.mp h
  have h₁ : Config.Reachable (Config.idle oneUser) rowRead := Config.reachable_after _ _
  have h₁₂ : Config.Reachable rowRead toLink := Config.reachable_after _ _
  have h₃ : Config.Reachable linkedOnce toOpen := Config.reachable_after _ _
  have h₄ : Config.Reachable toOpen openedLate := Config.reachable_after _ _
  have hgoes : Config.Reaches (fun _ e => ∀ call, e ≠ .start 1 call) rowRead toOpen :=
    ((goesOn_reaches (by decide)).trans (goesOn_reaches (by decide))).trans (goesOn_reaches (by decide))
  have hsquatter : squatter ∈ toLink.world.db.users := Table.mem_iff_get?.mpr rfl
  have hcommit : toLink.step (.run 0 0) = some linkedOnce := rfl
  have hlink : ∃ i ∈ linkedOnce.world.db.identities, i ∉ toLink.world.db.identities ∧
      i.user = squatter.id := by
    refine ⟨{ id := 0, user := 1, googleSub := "sub", email := "a@x", createdAt := 7 }, ?_, ?_, rfl⟩
    · exact Table.mem_iff_get?.mpr rfl
    · exact fun h => by cases Table.mem_iff_get?.mp h
  have hevicts := google_link_evicts asciiSettings pastSalts_oneUser sessionsNotNewer_oneUser
    (h₁.trans h₁₂) hsquatter hcommit hlink (h₃.trans h₄)
  refine ⟨hopen, ?_⟩
  exact (hevicts.2 rowRead h₁ h₁₂).2.1 1 ⟨.login "a@x" "old", djangoLogin squatter, []⟩ squatter
    toOpen openedLate (.run 1 0) lateSession rfl .login hgoes rfl rfl hopen hclosed rfl hopen

end Chamneul.Auth
