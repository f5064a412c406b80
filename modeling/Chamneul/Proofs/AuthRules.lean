import Chamneul.Spec.AuthServices
import Chamneul.Store.Alone
import Chamneul.Store.Writes

/-! The rules for the one writing statement the account services have, and what each call may
write. -/

namespace Chamneul.Auth

open ReadCommitted ReadCommitted.Prog

def asciiSettings : Settings := ⟨Unicode.ascii, fun _ _ => [], 1800⟩

def zeroDraws : NicknameDraws := ⟨fun _ => 0, "0"⟩

section

variable {α β : Type}

theorem quiet_write (x : Write) (out : Env → Db → α) : (write x out).Quiet := by
  intro e db ok
  cases ok <;> trivial

@[simp] theorem writes_write {P : List Write → Prop} {x : Write} {out : Env → Db → α} :
    (write x out).Writes P ↔ P [x] := by
  refine ⟨fun h => h.1 {}, fun h => ⟨fun _ => h, fun e v ok => ?_⟩⟩
  cases ok <;> trivial

section

variable {draw : ℕ → ℕ} {w : Pending Write} {σ : World Db} {x : Write} {out : Env → Db → α}

theorem alone_write_ok (h : violated (σ.view w) ⟨σ.now, draw σ.now⟩ x = none) :
    (write x out).alone draw w σ = (.ok (out ⟨σ.now, draw σ.now⟩ (σ.view w)),
      w ++ [(⟨σ.now, draw σ.now⟩, x)], σ.tick) := by
  simp [write, alone, Engine.violates, h]

theorem alone_write_error {v : Constraint} (h : violated (σ.view w) ⟨σ.now, draw σ.now⟩ x = some v) :
    (write x out).alone draw w σ = (.error (.integrityError (some v)), w, σ.tick) := by
  simp [write, alone, Engine.violates, h]

end

/-- What follows a read runs on an answer of that read. -/
theorem writes_queryForUpdate_bind {P : List Write → Prop} {rows : Db → List Key} {q : Db → α}
    {f : α → AuthService β} :
    (queryForUpdate rows q >>= f).Writes P ↔ ∀ db, (f (q db)).Writes P := Iff.rfl

theorem writes_query_bind {P : List Write → Prop} {q : Db → α} {f : α → AuthService β} :
    (query q >>= f).Writes P ↔ ∀ db, (f (q db)).Writes P := Iff.rfl

theorem writes_getUserForUpdate_bind {P : List Write → Prop} {id : Id} {f : User → AuthService β}
    (h : ∀ user, user.id = id → (f user).Writes P) : (getUserForUpdate id >>= f).Writes P := by
  intro db
  cases hu : db.users.get? id with
  | none =>
    simp only [hu]
    trivial
  | some user =>
    simp only [hu]
    exact h user (Table.get?_eq_some.mp hu).2

end

inductive Opens : Write → Prop
  | lastLogin (id) : Opens (.updateUser id { lastLogin := true, autoNow := false })
  | session (row) : Opens (.insertSession row)

inductive Issues (S : Settings) : Call → Write → Prop
  | signup {email nickname password} : Issues S (.signup email nickname password)
      (.insertUser { email := S.text.canonicalEmail email, nickname := nickname
                     password := some password })
  | signupOpens {email nickname password x} :
      Opens x → Issues S (.signup email nickname password) x
  | login {email password x} : Opens x → Issues S (.login email password) x
  | updateProfile {user data} :
      Issues S (.updateProfile user data) (.updateUser user (ProfileData.toSet data))
  | confirm {id token newPassword} : Issues S (.confirmPasswordReset (some id) token newPassword)
      (.updateUser id { password := some (some newPassword) })
  | confirmPurges {uid token newPassword keys} :
      Issues S (.confirmPasswordReset uid token newPassword) (.deleteSessions keys)
  | linkCreates {googleSub email name draws nickname} :
      Issues S (.linkOrCreateGoogleUser googleSub email name draws)
        (.insertUser { email := S.text.canonicalEmail email, nickname := nickname, password := none })
  | links {googleSub email name draws user} :
      Issues S (.linkOrCreateGoogleUser googleSub email name draws)
        (.insertIdentity { user := user, googleSub := googleSub, email := S.text.canonicalEmail email })
  | linkDisables {googleSub email name draws id} :
      Issues S (.linkOrCreateGoogleUser googleSub email name draws)
        (.updateUser id { password := some none })
  | linkPurges {googleSub email name draws keys} :
      Issues S (.linkOrCreateGoogleUser googleSub email name draws) (.deleteSessions keys)
  | createUser {email nickname password} : Issues S (.createUser email nickname password)
      (.insertUser { email := S.text.canonicalEmail email, nickname := nickname, password := password })
  | createSuperuser {email nickname password isStaff isSuperuser} :
      Issues S (.createSuperuser email nickname password isStaff isSuperuser)
        (.insertUser { email := S.text.canonicalEmail email, nickname := nickname
                       password := password, isStaff := isStaff, isSuperuser := isSuperuser })
  | createSuperuserRole {email nickname password isStaff isSuperuser row} :
      Issues S (.createSuperuser email nickname password isStaff isSuperuser) (.insertUserRole row)
  | adminAddUser {typed nickname password} : Issues S (.adminAddUser typed nickname password)
      (.insertUser { email := cleanedEmail S typed, nickname := nickname, password := some password })
  | adminChangeUser {id form loaded} : Issues S (.adminChangeUser id form)
      (.updateUser id (form.toSet loaded (cleanedEmail S form.email)))

/-- Only Google sign-in links accounts. -/
theorem call_of_insertIdentity {S : Settings} {call : Call} {row : GoogleIdentity}
    (h : Issues S call (.insertIdentity row)) :
    ∃ email name draws, call = .linkOrCreateGoogleUser row.googleSub email name draws := by
  cases h with
  | links => exact ⟨_, _, _, rfl⟩
  | signupOpens h | login h => cases h

/-- Only sign-up and log-in open sessions. -/
theorem call_of_insertSession {S : Settings} {call : Call} {row : SessionRow}
    (h : Issues S call (.insertSession row)) :
    (∃ email nickname password, call = .signup email nickname password) ∨
      ∃ email password, call = .login email password := by
  cases h with
  | signupOpens h => exact Or.inl ⟨_, _, _, rfl⟩
  | login h => exact Or.inr ⟨_, _, rfl⟩

/-- One change a statement, and one the call may make. -/
def Statement (S : Settings) (call : Call) (ws : List Write) : Prop := ∃ x, ws = [x] ∧ Issues S call x

theorem statement_singleton {S : Settings} {call : Call} {x : Write} :
    Statement S call [x] ↔ Issues S call x := by
  simp [Statement]

section

variable {S : Settings} {P : List Write → Prop}

theorem writes_createUserWith {email nickname : String} {password : Option String}
    {isStaff isSuperuser : Bool}
    (h : P [.insertUser { email := S.text.canonicalEmail email, nickname := nickname
                          password := password, isStaff := isStaff, isSuperuser := isSuperuser }]) :
    (createUserWith S email nickname password isStaff isSuperuser).Writes P :=
  (writes_raiseIf _ _).bind fun _ => (writes_raiseIf _ _).bind fun _ => writes_write.mpr h

theorem writes_djangoLogin {user : User} (h : ∀ x, Opens x → P [x]) : (djangoLogin user).Writes P :=
  (writes_write.mpr (h _ (.lastLogin _))).atomic.bind fun _ =>
    (writes_write.mpr (h _ (.session _))).atomic.bind fun _ => trivial

theorem writes_purgeSessionsOf {user : Id} (h : ∀ keys, P [.deleteSessions keys]) :
    (purgeSessionsOf user).Writes P :=
  writes_query_bind.mpr fun _ => writes_write.mpr (h _)

theorem writes_createWithNickname {email googleSub : String} {candidates : List String}
    {lastError : Failure} (h : ∀ nickname, (createLinked S email googleSub nickname).Writes P) :
    (createWithNickname S email googleSub candidates lastError).Writes P := by
  induction candidates generalizing lastError with
  | nil => trivial
  | cons nickname candidates ih =>
    refine (h nickname).handle fun failure => ?_
    split
    · exact ih
    · trivial

theorem writes_uniqueErrors {self : Option Id} {email nickname : String} :
    (uniqueErrors self email nickname).Writes P :=
  (writes_query _).bind fun _ => (writes_query _).bind fun _ => trivial

theorem writes_resetAllowed (user : User) : (resetAllowed user).Writes P := by
  unfold resetAllowed
  split
  · trivial
  · exact writes_query _

end

/-- A call writes what it may. -/
theorem program_writes (S : Settings) (call : Call) :
    (program S call).Writes (Statement S call) := by
  cases call with
  | signup email nickname password =>
    refine (writes_query _).bind fun _ => (writes_raiseIf _ _).bind fun _ => (writes_query _).bind
      fun _ => (writes_raiseIf _ _).bind fun _ => (writes_raiseIf _ _).bind fun _ => ?_
    refine Writes.bind ?_ fun _ => writes_djangoLogin fun x hx => statement_singleton.mpr (.signupOpens hx)
    refine (writes_createUserWith (statement_singleton.mpr .signup)).atomic.handle fun failure => ?_
    split <;> trivial
  | login email password =>
    refine (writes_query _).bind fun user => ?_
    split
    · trivial
    · exact writes_djangoLogin fun x hx => statement_singleton.mpr (.login hx)
  | updateProfile user data =>
    refine Writes.atomic (writes_getUserForUpdate_bind fun locked hid => ?_)
    refine (writes_write.mpr ?_).handle fun failure => by split <;> trivial
    rw [hid]
    exact statement_singleton.mpr .updateProfile
  | requestPasswordReset email =>
    refine (writes_query _).bind fun user => ?_
    split
    · trivial
    · refine (writes_resetAllowed _).bind fun allowed => ?_
      split
      · exact writes_time.bind fun _ => trivial
      · trivial
  | confirmPasswordReset uid token newPassword =>
    refine Writes.atomic (writes_queryForUpdate_bind.mpr fun db => ?_)
    cases huser : (uid.bind db.users.get?).filter User.isActive with
    | none => trivial
    | some user =>
      obtain ⟨hget, -⟩ := Option.filter_eq_some_iff.mp huser
      obtain ⟨id, rfl, hid⟩ := Option.bind_eq_some_iff.mp hget
      obtain rfl : user.id = id := (Table.get?_eq_some.mp hid).2
      refine (writes_resetAllowed _).bind fun _ => (writes_raiseIf _ _).bind fun _ => writes_time.bind
        fun _ => (writes_raiseIf _ _).bind fun _ => (writes_raiseIf _ _).bind fun _ => ?_
      refine (writes_write.mpr (statement_singleton.mpr .confirm)).bind fun _ => ?_
      exact (writes_purgeSessionsOf fun _ => statement_singleton.mpr .confirmPurges).bind fun _ => trivial
  | linkOrCreateGoogleUser googleSub email name draws =>
    refine (writes_query _).bind fun known => ?_
    split
    · trivial
    · refine Writes.bind ?_ fun existing => ?_
      · refine ((writes_queryForUpdate _ _).bind fun existing => ?_).atomic
        split
        · trivial
        · split
          · refine (writes_query _).bind fun _ => (writes_raiseIf _ _).bind fun _ => ?_
            refine (writes_write.mpr (statement_singleton.mpr .links)).bind fun _ => ?_
            refine (writes_write.mpr (statement_singleton.mpr .linkDisables)).bind fun _ => ?_
            exact (writes_purgeSessionsOf fun _ => statement_singleton.mpr .linkPurges).bind fun _ =>
              trivial
          · trivial
      · split
        · trivial
        · refine writes_createWithNickname fun nickname => Writes.atomic ?_
          refine Writes.bind (writes_createUserWith ?_) fun _ => ?_
          · rw [canonicalEmail_canonicalEmail]
            exact statement_singleton.mpr .linkCreates
          · exact (writes_write.mpr (statement_singleton.mpr .links)).bind fun _ => trivial
  | createUser email nickname password =>
    exact (writes_createUserWith (statement_singleton.mpr .createUser)).atomic
  | createSuperuser email nickname password isStaff isSuperuser =>
    refine (writes_raiseIf _ _).bind fun _ => (writes_raiseIf _ _).bind fun _ => Writes.atomic ?_
    exact (writes_createUserWith (statement_singleton.mpr .createSuperuser)).bind fun _ =>
      (writes_write.mpr (statement_singleton.mpr .createSuperuserRole)).bind fun _ => trivial
  | adminAddUser typed nickname password =>
    refine (writes_uniqueErrors.bind fun _ => (writes_raiseIf _ _).bind fun _ => ?_).atomic
    exact writes_write.mpr (statement_singleton.mpr .adminAddUser)
  | adminChangeUser id form =>
    refine ((writes_query _).bind fun loaded => ?_).atomic
    split
    · trivial
    · refine writes_uniqueErrors.bind fun _ => (writes_raiseIf _ _).bind fun _ => ?_
      exact writes_write.mpr (statement_singleton.mpr .adminChangeUser)

end Chamneul.Auth
