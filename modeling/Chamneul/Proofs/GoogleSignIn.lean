import Chamneul.Proofs.Addresses

/-! Google sign-in, one call at a time. Which of the five outcomes a call has is decided by what
is stored for the Google account and for the address, and each says of every row what becomes of
it. -/

namespace Chamneul.Auth

open ReadCommitted ReadCommitted.Prog

/-- `user` is linked to the Google account `googleSub`: one new identity, an unusable password,
and none of its sessions. `user'` is what is stored of it then. -/
structure LinksExisting (googleSub : String) (user user' : User) (db db' : Db) : Prop where
  identity : ∃ i, i ∉ db.identities ∧ i.user = user.id ∧ i.googleSub = googleSub ∧
    ∀ j, j ∈ db'.identities ↔ j ∈ db.identities ∨ j = i
  stored : db'.users.get? user.id = some user'
  password : user'.password.raw = none
  columns : user' = { user with password := user'.password, updatedAt := user'.updatedAt }
  others : ∀ id, id ≠ user.id → db'.users.get? id = db.users.get? id
  sessions : ∀ s, s ∈ db'.sessions ↔ s ∈ db.sessions ∧ s.user ≠ user.id
  userRoles : db'.userRoles = db.userRoles

structure CreatesLinked (googleSub email : String) (user : User) (db db' : Db) : Prop where
  new : ∀ u ∈ db.users, u.id ≠ user.id
  users : ∀ u, u ∈ db'.users ↔ u ∈ db.users ∨ u = user
  email : user.email = email
  password : user.password.raw = none
  identity : ∃ i, i ∉ db.identities ∧ i.user = user.id ∧ i.googleSub = googleSub ∧
    ∀ j, j ∈ db'.identities ↔ j ∈ db.identities ∨ j = i
  sessions : db'.sessions = db.sessions
  userRoles : db'.userRoles = db.userRoles

theorem identity_inserted {db : Db} {e : Env} (row : GoogleIdentity)
    (h : db.identities.get? e.uuid = none) :
    ∃ i, i ∉ db.identities ∧ i.user = row.user ∧ i.googleSub = row.googleSub ∧
      ∀ j, j ∈ db.identities.insert (row.saved e) ↔ j ∈ db.identities ∨ j = i :=
  ⟨row.saved e, fun hi => Table.get?_eq_none.mp h _ hi rfl, rfl, rfl, fun _ => Table.mem_insert h⟩

/-- What the three changes of a link make of the database. -/
theorem linksExisting_applyAll {db : Db} {e₁ e₂ e₃ : Env} {user : User} {googleSub email : String}
    (hfree : db.identities.get? e₁.uuid = none) (hu : db.users.get? user.id = some user) :
    LinksExisting googleSub user (UserSet.apply e₂ { password := some none } user) db
      (applyAll [(e₁, .insertIdentity { user := user.id, googleSub := googleSub, email := email }),
        (e₂, .updateUser user.id { password := some none }),
        (e₃, .deleteSessions (db.sessionKeysOf user.id))] db) where
  identity := identity_inserted { user := user.id, googleSub := googleSub, email := email } hfree
  stored := by
    rw [get?_linked, if_pos rfl, hu]
    rfl
  password := rfl
  columns := rfl
  others id hid := get?_linked.trans (if_neg hid)
  sessions s := by
    refine Table.mem_delete.trans (and_congr_right fun hs => ?_)
    simp only [decide_eq_false_iff_not]
    refine not_congr ⟨fun h => ?_, fun h => ?_⟩
    · obtain ⟨s', hs', huser, hkey⟩ := mem_sessionKeysOf.mp h
      rw [← db.sessions.eq_of_key hs' hs hkey]
      exact huser
    · exact mem_sessionKeysOf.mpr ⟨s, hs, h, rfl⟩
  userRoles := rfl

/-- What the two changes of a creation make of it. -/
theorem createsLinked_applyAll {db : Db} {e₁ e₂ : Env} (new : NewUser) {googleSub email : String}
    (hpassword : new.password = none) (hnew : db.users.get? e₁.uuid = none)
    (hfree : db.identities.get? e₂.uuid = none) :
    CreatesLinked googleSub new.email (new.saved e₁) db
      (applyAll [(e₁, .insertUser new), (e₂, .insertIdentity
        { user := e₁.uuid, googleSub := googleSub, email := email })] db) where
  new u hu := Table.get?_eq_none.mp hnew u hu
  users _ := Table.mem_insert hnew
  email := rfl
  password := hpassword
  identity := identity_inserted { user := e₁.uuid, googleSub := googleSub, email := email } hfree
  sessions := rfl
  userRoles := rfl

/-! The lookups. -/

section

variable {db : Db}

theorem linkedUser_eq_some (hdb : Constrained db) {i : GoogleIdentity} (hi : i ∈ db.identities) :
    ∃ u, db.users.get? i.user = some u ∧ db.linkedUser i.googleSub = some u := by
  obtain ⟨u, hu⟩ := hdb.owner i hi
  refine ⟨u, hu, ?_⟩
  have hfind : db.identities.rows.find? (fun j => decide (j.googleSub = i.googleSub)) = some i :=
    find?_eq_some_of_unique (fun j hj hsub => hdb.googleSub j hj i hi (by simpa using hsub)) hi (by simp)
  rw [Db.linkedUser, hfind]
  exact hu

theorem linkedUser_eq_none {googleSub : String} (h : ∀ i ∈ db.identities, i.googleSub ≠ googleSub) :
    db.linkedUser googleSub = none := by
  have hfind : db.identities.rows.find? (fun j => decide (j.googleSub = googleSub)) = none :=
    List.find?_eq_none.mpr fun i hi => by simpa using h i hi
  rw [Db.linkedUser, hfind]
  rfl

theorem isLinked_iff {user : Id} : db.isLinked user = true ↔ ∃ i ∈ db.identities, i.user = user := by
  simp [Db.isLinked, Table.any_iff]

end

/-! The pieces, each run alone. -/

section

variable {draw : ℕ → ℕ} {σ : World Db} {googleSub email : String} {user : User}

theorem linkExisting_none (h : σ.db.userByEmail email = none) :
    (linkExisting googleSub email).alone draw [] σ = (.ok none, [], σ.tick.commit []) := by
  refine alone_atomic_ok ?_
  simp only [alone_bind_ok (alone_queryForUpdate draw [] σ _ _), World.view_nil, h]
  rfl

theorem linkExisting_inactive (draw : ℕ → ℕ) (googleSub : String)
    (h : σ.db.userByEmail email = some user)
    (hactive : user.isActive = false) :
    (linkExisting googleSub email).alone draw [] σ = (.ok (some user), [], σ.tick.commit []) := by
  refine alone_atomic_ok ?_
  simp only [alone_bind_ok (alone_queryForUpdate draw [] σ _ _), World.view_nil, h, hactive]
  rfl

def alreadyLinked : Failure := .conflict "이 계정은 이미 다른 Google 계정과 연결되어 있습니다." none

theorem linkExisting_linked (draw : ℕ → ℕ) (googleSub : String)
    (h : σ.db.userByEmail email = some user)
    (hactive : user.isActive = true) (hlinked : σ.db.isLinked user.id = true) :
    ∃ σ', (linkExisting googleSub email).alone draw [] σ = (.error alreadyLinked, [], σ') ∧
      σ'.db = σ.db := by
  refine ⟨σ.tick.tick.tick, alone_atomic_error (?_ : _ = (_, [], σ.tick.tick)), rfl⟩
  simp only [alone_bind_ok (alone_queryForUpdate draw [] σ _ _), World.view_nil, h, hactive, if_true]
  rw [alone_bind_ok (alone_query draw [] σ.tick _)]
  exact alone_bind_error (alone_raiseIf_of hlinked _) _

/-- The link, where the drawn key is free. -/
theorem linkExisting_links (hdb : Constrained σ.db) (h : σ.db.userByEmail email = some user)
    (hactive : user.isActive = true) (hunlinked : ∀ i ∈ σ.db.identities, i.user ≠ user.id)
    (hsub : ∀ i ∈ σ.db.identities, i.googleSub ≠ googleSub)
    (hfree : ∀ n, σ.db.identities.get? (draw n) = none) :
    ∃ user' σ', (linkExisting googleSub email).alone draw [] σ = (.ok (some user'), [], σ') ∧
      LinksExisting googleSub user user' σ.db σ'.db := by
  have hget : σ.db.users.get? user.id = some user :=
    Table.mem_iff_get?.mp ((userByEmail_eq_some hdb).mp h).1
  have hpurge : ∀ {w : Pending Write} {σ₁ : World Db}, (purgeSessionsOf user.id).alone draw w σ₁ =
      (.ok (), w ++ [(⟨σ₁.tick.now, draw σ₁.tick.now⟩,
        .deleteSessions ((σ₁.view w).sessionKeysOf user.id))], σ₁.tick.tick) := by
    intro w σ₁
    exact (alone_bind_ok (alone_query draw w σ₁ _) _).trans (alone_write_ok rfl)
  have hidentity : violated (σ.tick.tick.view []) ⟨σ.tick.tick.now, draw σ.tick.tick.now⟩
      (.insertIdentity { user := user.id, googleSub := googleSub, email := email }) = none :=
    insertIdentity_accepted.mpr ⟨hfree _, hunlinked, hsub, user, hget⟩
  refine ⟨_, _, alone_atomic_ok (?_ : _ = (_, [(⟨σ.tick.tick.now, draw σ.tick.tick.now⟩,
    .insertIdentity { user := user.id, googleSub := googleSub, email := email }),
    (⟨σ.tick.tick.tick.now, draw σ.tick.tick.tick.now⟩, .updateUser user.id { password := some none }),
    (⟨σ.tick.tick.tick.tick.tick.now, draw σ.tick.tick.tick.tick.tick.now⟩,
      .deleteSessions (σ.db.sessionKeysOf user.id))], σ.tick.tick.tick.tick.tick.tick)),
    linksExisting_applyAll (hfree _) hget⟩
  simp only [alone_bind_ok (alone_queryForUpdate draw [] σ _ _), World.view_nil, h, hactive, if_true]
  rw [alone_bind_ok (alone_query draw [] σ.tick _),
    alone_bind_ok (alone_raiseIf_of_not (by simpa [isLinked_iff] using hunlinked) _),
    alone_bind_ok (alone_write_ok hidentity)]
  rw [alone_bind_ok (alone_write_ok rfl)]
  exact alone_bind_ok hpurge _

abbrev newUser (S : Settings) (email nickname : String) : NewUser :=
  { email := S.text.canonicalEmail email, nickname := nickname, password := none }

theorem createUser_alone (S : Settings) (draw : ℕ → ℕ) (σ : World Db) (email nickname : String) :
    (∃ failure σ', (createUser S email nickname none).alone draw [] σ = (.error failure, [], σ') ∧
      σ'.db = σ.db) ∨
    violated σ.db ⟨σ.now, draw σ.now⟩ (.insertUser (newUser S email nickname)) = none ∧
      (createUser S email nickname none).alone draw [] σ =
        (.ok ((newUser S email nickname).saved ⟨σ.now, draw σ.now⟩),
          [(⟨σ.now, draw σ.now⟩, .insertUser (newUser S email nickname))], σ.tick) := by
  unfold createUser createUserWith
  by_cases hemail : email = ""
  · refine Or.inl ⟨.valueError "email is required", σ, ?_, rfl⟩
    exact alone_bind_error (alone_raiseIf_of hemail _) _
  rw [alone_bind_ok (alone_raiseIf_of_not hemail _)]
  by_cases hnickname : nickname = ""
  · refine Or.inl ⟨.valueError "nickname is required", σ, ?_, rfl⟩
    exact alone_bind_error (alone_raiseIf_of hnickname _) _
  rw [alone_bind_ok (alone_raiseIf_of_not hnickname _)]
  cases hnew : violated σ.db ⟨σ.now, draw σ.now⟩ (.insertUser (newUser S email nickname)) with
  | some v => exact Or.inl ⟨.integrityError (some v), σ.tick, alone_write_error hnew, rfl⟩
  | none => exact Or.inr ⟨rfl, alone_write_ok hnew⟩

/-- One turn of the loop adds the account and its link, or nothing. -/
theorem createLinked_alone (S : Settings) (draw : ℕ → ℕ) (σ : World Db)
    (email googleSub nickname : String) :
    (∃ u σ', (createLinked S email googleSub nickname).alone draw [] σ = (.ok u, [], σ') ∧
      CreatesLinked googleSub (S.text.canonicalEmail email) u σ.db σ'.db) ∨
    ∃ failure σ', (createLinked S email googleSub nickname).alone draw [] σ =
      (.error failure, [], σ') ∧ σ'.db = σ.db := by
  obtain ⟨failure, σ₁, h, hdb⟩ | ⟨hnew, h⟩ :=
    createUser_alone S draw σ email nickname
  · exact Or.inr ⟨failure, σ₁.tick, alone_atomic_error (alone_bind_error h _), hdb⟩
  let e : Env := ⟨σ.now, draw σ.now⟩
  let row : GoogleIdentity := { user := e.uuid, googleSub := googleSub, email := email }
  cases hrow : violated (σ.tick.view [(e, .insertUser (newUser S email nickname))])
      ⟨σ.tick.now, draw σ.tick.now⟩ (.insertIdentity row) with
  | some v =>
    refine Or.inr ⟨.integrityError (some v), σ.tick.tick.tick, alone_atomic_error
      (?_ : _ = (_, [(e, .insertUser (newUser S email nickname))], σ.tick.tick)), rfl⟩
    rw [alone_bind_ok h]
    exact alone_bind_error (alone_write_error hrow) _
  | none =>
    refine Or.inl ⟨(newUser S email nickname).saved e, _, alone_atomic_ok (?_ : _ = (_,
      [(e, .insertUser (newUser S email nickname)),
        (⟨σ.tick.now, draw σ.tick.now⟩, .insertIdentity row)], σ.tick.tick)), ?_⟩
    · rw [alone_bind_ok h]
      exact alone_bind_ok (alone_write_ok hrow) _
    · exact createsLinked_applyAll (newUser S email nickname) rfl
        (insertUser_accepted.mp hnew).1 (insertIdentity_accepted.mp hrow).1

/-- The loop adds the account and its link once, or nothing. -/
theorem createWithNickname_alone (S : Settings) (draw : ℕ → ℕ) (σ : World Db)
    (email googleSub : String) (candidates : List String) (lastError : Failure) :
    (∃ u σ', (createWithNickname S email googleSub candidates lastError).alone draw [] σ =
      (.ok u, [], σ') ∧ CreatesLinked googleSub (S.text.canonicalEmail email) u σ.db σ'.db) ∨
    ∃ failure σ', (createWithNickname S email googleSub candidates lastError).alone draw [] σ =
      (.error failure, [], σ') ∧ σ'.db = σ.db := by
  induction candidates generalizing lastError σ with
  | nil => exact Or.inr ⟨lastError, σ, rfl, rfl⟩
  | cons nickname candidates ih =>
    unfold createWithNickname
    obtain ⟨u, σ₁, h, hcreates⟩ | ⟨failure, σ₁, h, hdb⟩ :=
      createLinked_alone S draw σ email googleSub nickname
    · exact Or.inl ⟨u, σ₁, alone_handle_ok h _, hcreates⟩
    · rw [alone_handle_error h]
      cases failure with
      | integrityError v => exact hdb ▸ ih σ₁ (.integrityError v)
      | _ => exact Or.inr ⟨_, σ₁, rfl, hdb⟩

end

/-! One call. -/

section

variable {S : Settings} {σ σ' : World Db} {googleSub email name : String} {draws : NicknameDraws}
  {draw : ℕ → ℕ} {r : Except Failure User}

/-- A Google account that is linked signs its user in. -/
theorem exec_known (hdb : Constrained σ.db) {i : GoogleIdentity} (hi : i ∈ σ.db.identities)
    (h : (linkOrCreateGoogleUser S i.googleSub email name draws).exec draw [] σ = (r, σ')) :
    ∃ u, σ.db.users.get? i.user = some u ∧ r = .ok u ∧ σ'.db = σ.db := by
  obtain ⟨u, hu, hlinked⟩ := linkedUser_eq_some hdb hi
  have hrun : (linkOrCreateGoogleUser S i.googleSub email name draws).alone draw [] σ =
      (.ok u, [], σ.tick) := by
    unfold linkOrCreateGoogleUser
    rw [alone_bind_ok (alone_query draw [] σ _), World.view_nil, hlinked]
    rfl
  obtain ⟨rfl, rfl⟩ := Prod.mk.inj ((exec_of_alone hrun).symm.trans h)
  exact ⟨u, hu, rfl, rfl⟩

variable (hsub : ∀ i ∈ σ.db.identities, i.googleSub ≠ googleSub)
  (h : (linkOrCreateGoogleUser S googleSub email name draws).exec draw [] σ = (r, σ'))

include hsub h

/-- What the transaction returns or raises, the call does. -/
theorem exec_existing (existing : Except Failure User) {σ₁ : World Db}
    (hrun : (linkExisting googleSub (S.text.canonicalEmail email)).alone draw [] σ.tick =
      (existing.map some, [], σ₁)) : r = existing ∧ σ' = σ₁ := by
  have hnone : σ.db.linkedUser googleSub = none := linkedUser_eq_none hsub
  unfold linkOrCreateGoogleUser at h
  rw [exec_eq_alone, alone_bind_ok (alone_query draw [] σ _), World.view_nil, hnone] at h
  cases existing with
  | ok u =>
    rw [alone_bind_ok hrun] at h
    exact (Prod.mk.inj h).imp Eq.symm Eq.symm
  | error f =>
    rw [alone_bind_error hrun] at h
    exact (Prod.mk.inj h).imp Eq.symm Eq.symm

/-- If it finds nobody, the loop is the call. -/
theorem exec_nobody (hnobody : ∀ u ∈ σ.db.users, u.email ≠ S.text.canonicalEmail email) :
    (∃ u, r = .ok u ∧ CreatesLinked googleSub (S.text.canonicalEmail email) u σ.db σ'.db) ∨
      (∃ f, r = .error f) ∧ σ'.db = σ.db := by
  have hnone : σ.db.linkedUser googleSub = none := linkedUser_eq_none hsub
  have hfind : σ.tick.db.userByEmail (S.text.canonicalEmail email) = none :=
    List.find?_eq_none.mpr fun u hu => by simpa using hnobody u hu
  unfold linkOrCreateGoogleUser at h
  rw [exec_eq_alone, alone_bind_ok (alone_query draw [] σ _), World.view_nil, hnone] at h
  rw [alone_bind_ok (linkExisting_none hfind)] at h
  have hloop := createWithNickname_alone S draw (σ.tick.tick.commit []) (S.text.canonicalEmail email)
    googleSub (draws.candidates (deriveNicknameBase name (S.text.canonicalEmail email)))
    (.integrityError none)
  rw [canonicalEmail_canonicalEmail] at hloop
  obtain ⟨u, σ₁, hrun, hcreates⟩ | ⟨f, σ₁, hrun, hdb⟩ := hloop
  · rw [hrun] at h
    obtain ⟨rfl, rfl⟩ := Prod.mk.inj h
    exact Or.inl ⟨u, rfl, hcreates⟩
  · rw [hrun] at h
    obtain ⟨rfl, rfl⟩ := Prod.mk.inj h
    exact Or.inr ⟨⟨f, rfl⟩, hdb⟩

end

/-! Many calls. -/

/-- A linked account stays linked, to the same user. -/
theorem identity_serial {S : Settings} {ok : Db → Call → Prop} {σ σ' : World Db}
    (h : Serial (system S) ok σ σ') {i : GoogleIdentity} (hi : i ∈ σ.db.identities) :
    i ∈ σ'.db.identities := by
  refine h.keeps (P := fun call => Statement S call) (I := fun db => i ∈ db.identities)
    (fun _ call _ => program_writes S call) ?_ hi
  rintro call e db _ hdb ⟨x, rfl, -⟩ -
  cases x with
  | insertIdentity row => exact Table.mem_insert_of_mem hdb
  | _ => exact hdb

/-- After any sequence of calls, Google sign-in has one of five outcomes, and every sequence of
calls leaves a linked Google account with its user, a user with one Google account at most, and a
canonical address with one user at most. -/
theorem google_sign_in_resolves (S : Settings) {σ₀ σ : World Db} (h₀ : Folded S.text σ₀.db)
    (h : Serial (system S) (fun _ call => TypedFolded S call) σ₀ σ) :
    (∀ googleSub email name draws draw r σ',
      (linkOrCreateGoogleUser S googleSub email name draws).exec draw [] σ = (r, σ') →
      (∀ i ∈ σ.db.identities, i.googleSub = googleSub →
        ∃ u, σ.db.users.get? i.user = some u ∧ r = .ok u ∧ σ'.db = σ.db) ∧
      ((∀ i ∈ σ.db.identities, i.googleSub ≠ googleSub) →
        (∀ u ∈ σ.db.users, u.email = S.text.canonicalEmail email →
          (u.isActive = false → r = .ok u ∧ σ'.db = σ.db) ∧
          (u.isActive = true → (∃ i ∈ σ.db.identities, i.user = u.id) →
            r = .error alreadyLinked ∧ σ'.db = σ.db) ∧
          (u.isActive = true → (∀ i ∈ σ.db.identities, i.user ≠ u.id) →
            (∀ n, σ.db.identities.get? (draw n) = none) →
            ∃ u', r = .ok u' ∧ LinksExisting googleSub u u' σ.db σ'.db)) ∧
        ((∀ u ∈ σ.db.users, u.email ≠ S.text.canonicalEmail email) →
          (∃ u, r = .ok u ∧
            CreatesLinked googleSub (S.text.canonicalEmail email) u σ.db σ'.db) ∨
          (∃ f, r = .error f) ∧ σ'.db = σ.db))) ∧
    (∀ σ', Serial (system S) (fun _ call => TypedFolded S call) σ σ' → ∀ googleSub u,
      σ.db.linkedUser googleSub = some u →
        ∃ u', σ'.db.linkedUser googleSub = some u' ∧ u'.id = u.id) ∧
    (∀ i ∈ σ.db.identities, ∀ j ∈ σ.db.identities, i.user = j.user → i = j) ∧
    ∀ u ∈ σ.db.users, ∀ v ∈ σ.db.users,
      S.text.canonicalEmail u.email = S.text.canonicalEmail v.email → u = v := by
  have hσ := folded_serial h₀ h
  have hdb := hσ.toConstrained
  refine ⟨?_, ?_, hdb.identityUser, ?_⟩
  · intro googleSub email name draws draw r σ' hrun
    refine ⟨?_, fun hsub => ⟨fun u hu hemail => ?_, exec_nobody hsub hrun⟩⟩
    · rintro i hi rfl
      exact exec_known hdb hi hrun
    have hfind : σ.tick.db.userByEmail (S.text.canonicalEmail email) = some u :=
      (userByEmail_eq_some hdb).mpr ⟨hu, hemail⟩
    refine ⟨fun hactive => ?_, fun hactive hlinked => ?_, fun hactive hunlinked hfree => ?_⟩
    · obtain ⟨rfl, rfl⟩ := exec_existing hsub hrun (.ok u)
        (linkExisting_inactive draw googleSub hfind hactive)
      exact ⟨rfl, rfl⟩
    · obtain ⟨σ₁, hexec, hsame⟩ := linkExisting_linked draw googleSub hfind hactive
        (isLinked_iff.mpr hlinked)
      obtain ⟨rfl, rfl⟩ := exec_existing hsub hrun (.error alreadyLinked) hexec
      exact ⟨rfl, hsame⟩
    · obtain ⟨u', σ₁, hexec, hlinks⟩ := linkExisting_links (σ := σ.tick) hdb hfind hactive hunlinked
        hsub hfree
      obtain ⟨rfl, rfl⟩ := exec_existing hsub hrun (.ok u') hexec
      exact ⟨u', rfl, hlinks⟩
  · intro σ' hlater googleSub u hu
    obtain ⟨i, hfind, hget⟩ := Option.bind_eq_some_iff.mp hu
    have hi : i ∈ σ.db.identities := List.mem_of_find?_eq_some hfind
    obtain rfl : i.googleSub = googleSub := by simpa using List.find?_some hfind
    obtain ⟨u', hu', hlinked⟩ := linkedUser_eq_some (folded_serial hσ hlater).toConstrained
      (identity_serial hlater hi)
    refine ⟨u', hlinked, ?_⟩
    exact (Table.get?_eq_some.mp hu').2.trans (Table.get?_eq_some.mp hget).2.symm
  · intro u hu v hv huv
    rw [hσ.canonical u hu, hσ.canonical v hv] at huv
    exact hdb.email u hu v hv huv

def kimTwice : List Call :=
  [.signup "Kim@Example.COM" "kim" "secret",
    .linkOrCreateGoogleUser "sub" "kim@example.com" "Kim" zeroDraws]

/-- After that the Google account signs Kim in under any address. -/
theorem google_sign_in_resolves_kimTwice :
    let σ := (system asciiSettings).serve id kimTwice ⟨{}, 0⟩
    let r := (linkOrCreateGoogleUser asciiSettings "sub" "other@x" "" zeroDraws).exec id [] σ
    (∃ u, r.1 = .ok u) ∧ r.2.db = σ.db := by
  intro σ r
  have hrun : Serial (system asciiSettings) (fun _ call => TypedFolded asciiSettings call) ⟨{}, 0⟩ σ :=
    Serial.refl.serve id fun _ call hcall => by
      simp only [kimTwice, List.mem_cons, List.not_mem_nil, or_false] at hcall
      obtain rfl | rfl := hcall <;> trivial
  have hresolves := (google_sign_in_resolves asciiSettings (folded_empty _) hrun).1 "sub" "other@x" ""
    zeroDraws id r.1 r.2 Prod.mk.eta.symm
  have hrows : σ.db.identities.rows =
      [{ id := 11, user := 2, googleSub := "sub", email := "kim@example.com", createdAt := 11 }] := by
    decide +kernel
  obtain ⟨u, -, hr, hdb⟩ := hresolves.1 _ (by rw [Table.mem_def, hrows]; exact List.mem_cons_self) rfl
  exact ⟨⟨u, hr⟩, hdb⟩

end Chamneul.Auth
