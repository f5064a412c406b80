import Chamneul.Spec.Email
import Chamneul.Spec.AuthDatabase
import Chamneul.Store.Schedule

/-! Sign-up, log-in, the profile, the password reset, Google sign-in and the admin forms for
users, each statement by statement, and the system of these calls. -/

namespace Chamneul.Auth

open ReadCommitted ReadCommitted.Prog

/-- What the settings and Django decide. `passwordErrors` is `validate_password`, which looks at
no attribute of the user but the address. -/
structure Settings where
  text : Unicode
  passwordErrors : Option String → String → List String
  passwordResetTimeout : ℕ

namespace Db

/-- `User.objects.filter(email=email).first()`. -/
def userByEmail (db : Db) (email : String) : Option User :=
  db.users.rows.find? fun u => decide (u.email = email)

/-- `User.objects.filter(email=email, is_active=True).first()`. -/
def activeUserByEmail (db : Db) (email : String) : Option User :=
  db.users.rows.find? fun u => decide (u.email = email) && u.isActive

/-- `GoogleIdentity.objects.filter(google_sub=google_sub).select_related("user").first()`. -/
def linkedUser (db : Db) (googleSub : String) : Option User :=
  (db.identities.rows.find? fun i => decide (i.googleSub = googleSub)).bind fun i =>
    db.users.get? i.user

/-- `GoogleIdentity.objects.filter(user=user).exists()`. -/
def isLinked (db : Db) (user : Id) : Bool := db.identities.any fun i => decide (i.user = user)

/-- The keys of the sessions of `user`. -/
def sessionKeysOf (db : Db) (user : Id) : List Id :=
  (db.sessions.rows.filter fun s => decide (s.user = user)).map SessionRow.key

/-- `get_user`: whom a request with this session is served as. -/
def sessionUser (db : Db) (key : Id) : Option User :=
  (db.sessions.get? key).bind fun s =>
    (db.users.get? s.user).filter fun u => u.isActive && decide (s.hash = u.password)

end Db

section

variable (S : Settings)

/-! `accounts.managers`. -/

/-- `_create_user`. -/
def createUserWith (email nickname : String) (password : Option String)
    (isStaff isSuperuser : Bool) : AuthService User := do
  raiseIf (email = "") (.valueError "email is required")
  raiseIf (nickname = "") (.valueError "nickname is required")
  let user : NewUser :=
    { email := S.text.canonicalEmail email, nickname := nickname, password := password
      isStaff := isStaff, isSuperuser := isSuperuser }
  write (.insertUser user) fun e _ => user.saved e

def createUser (email nickname : String) (password : Option String) : AuthService User :=
  createUserWith S email nickname password false false

def createSuperuser (email nickname : String) (password : Option String)
    (isStaff isSuperuser : Bool) : AuthService User := do
  raiseIf (isStaff = false) (.valueError "superuser must have is_staff=True")
  raiseIf (isSuperuser = false) (.valueError "superuser must have is_superuser=True")
  atomic do
    let user ← createUserWith S email nickname password isStaff isSuperuser
    write (.insertUserRole { user := user.id, role := .admin }) fun _ _ => ()
    pure user

/-! Sign-up and log-in. -/

/-- `django.contrib.auth.login`: the session is given the hash of the instance in hand, and is
saved after the `user_logged_in` handler has written `last_login`. -/
def djangoLogin (user : User) : AuthService User := do
  atomic (write (.updateUser user.id { lastLogin := true, autoNow := false }) fun _ _ => ())
  atomic (write (.insertSession { user := user.id, hash := user.password }) fun _ _ => ())
  pure user

/-- `_signup_conflict`. -/
def signupConflict : Option Constraint → Failure
  | some .userNickname => .conflict "이미 사용 중인 닉네임입니다." (some "NICKNAME_TAKEN")
  | some .userEmail => .conflict "이미 가입된 이메일입니다." (some "EMAIL_TAKEN")
  | _ => .conflict "이미 가입된 이메일 또는 닉네임입니다." none

/-- #2, the serializer and the view. -/
def signup (email nickname password : String) : AuthService User := do
  let emailTaken ← query fun db => (db.userByEmail (S.text.canonicalEmail email)).isSome
  raiseIf (emailTaken = true) (.conflict "이미 가입된 이메일입니다." (some "EMAIL_TAKEN"))
  let nicknameTaken ← query fun db => db.users.any fun u => decide (u.nickname = nickname)
  raiseIf (nicknameTaken = true) (.conflict "이미 사용 중인 닉네임입니다." (some "NICKNAME_TAKEN"))
  let errors := S.passwordErrors none password
  raiseIf (errors ≠ []) (.validationError [("password", errors)])
  let user ← handle (atomic (createUser S email nickname (some password))) fun failure =>
    match failure with
    | .integrityError constraint => raise (signupConflict constraint)
    | failure => raise failure
  djangoLogin user

/-- #3, the serializer and the view. -/
def login (email password : String) : AuthService User := do
  let user ← query fun db => (db.userByEmail (S.text.canonicalEmail email)).filter fun u =>
    u.password.check password && u.isActive
  match user with
  | none => raise (.authenticationFailed "이메일 또는 비밀번호가 올바르지 않습니다.")
  | some user => djangoLogin user

/-! `accounts.services`. -/

def ProfileData.toSet (data : Service.ProfileData) : UserSet :=
  { nickname := data.nickname, job := data.job, interest := data.interest
    profileImageUrl := data.profileImageUrl }

/-- `User.objects.select_for_update(of=("self",)).get(pk=pk)`. -/
def getUserForUpdate (id : Id) : AuthService User := do
  let found ← queryForUpdate (fun db => (db.users.get? id).toList.map fun u => .user u.id)
    fun db => db.users.get? id
  match found with
  | none => raise .doesNotExist
  | some user => pure user

def updateProfile (user : Id) (data : Service.ProfileData) : AuthService User :=
  atomic do
    let locked ← getUserForUpdate user
    let set := ProfileData.toSet data
    handle (write (.updateUser locked.id set) fun e _ => set.apply e locked) fun failure =>
      match failure with
      | .integrityError _ => raise (.conflict "이미 사용 중인 닉네임입니다." none)
      | failure => raise failure

/-- A text with each run of whitespace replaced by one space; `inRun` inside of one. -/
def collapse (inRun : Bool) : List Char → List Char
  | [] => []
  | c :: cs =>
    if isSpace c then (if inRun then collapse true cs else ' ' :: collapse true cs)
    else c :: collapse false cs

/-- `_derive_nickname_base`. -/
def deriveNicknameBase (name email : String) : String :=
  let localPart := String.ofList (email.toList.takeWhile (· ≠ '@'))
  let cleaned := [name, localPart, "user"].map fun candidate =>
    String.ofList ((collapse false (strip candidate).toList).take 15)
  (cleaned.find? fun c => decide (2 ≤ c.length)).getD "user"

/-- What `_create_with_nickname` draws: five numbers below 10000 and the first eight digits of
a UUID. -/
structure NicknameDraws where
  suffixes : Fin 5 → Fin 10000
  hex : String

def NicknameDraws.candidates (draws : NicknameDraws) (base : String) : List String :=
  base :: (List.ofFn fun i => base ++ "_" ++
    String.ofList ((toString (draws.suffixes i).val).toList.leftpad 4 '0')) ++ ["user_" ++ draws.hex]

/-- One turn of the loop of `_create_with_nickname`. -/
def createLinked (email googleSub nickname : String) : AuthService User :=
  atomic do
    let user ← createUser S email nickname none
    write (.insertIdentity { user := user.id, googleSub := googleSub, email := email }) fun _ _ => ()
    pure user

/-- `_create_with_nickname`, from a candidate on. -/
def createWithNickname (email googleSub : String) : List String → Failure → AuthService User
  | [], lastError => raise lastError
  | nickname :: candidates, _ =>
    handle (createLinked S email googleSub nickname) fun failure =>
      match failure with
      | .integrityError constraint =>
        createWithNickname email googleSub candidates (.integrityError constraint)
      | failure => raise failure

/-- `_purge_sessions_of`. -/
def purgeSessionsOf (user : Id) : AuthService Unit := do
  let stale ← query fun db => db.sessionKeysOf user
  write (.deleteSessions stale) fun _ _ => ()

/-- The transaction of `link_or_create_google_user`. -/
def linkExisting (googleSub email : String) : AuthService (Option User) :=
  atomic do
    let existing ← queryForUpdate (fun db => (db.userByEmail email).toList.map fun u => .user u.id)
      fun db => db.userByEmail email
    match existing with
    | none => pure none
    | some existing =>
      if existing.isActive then do
        let linked ← query fun db => db.isLinked existing.id
        raiseIf (linked = true) (.conflict "이 계정은 이미 다른 Google 계정과 연결되어 있습니다." none)
        write (.insertIdentity { user := existing.id, googleSub := googleSub, email := email })
          fun _ _ => ()
        let set : UserSet := { password := some none }
        let existing ← write (.updateUser existing.id set) fun e _ => set.apply e existing
        purgeSessionsOf existing.id
        pure (some existing)
      else pure (some existing)

def linkOrCreateGoogleUser (googleSub email name : String) (draws : NicknameDraws) :
    AuthService User := do
  let email := S.text.canonicalEmail email
  let known ← query fun db => db.linkedUser googleSub
  match known with
  | some user => pure user
  | none =>
    let existing ← linkExisting googleSub email
    match existing with
    | some user => pure user
    | none =>
      -- `last_error` starts as `None`, but there always is a candidate.
      createWithNickname S email googleSub (draws.candidates (deriveNicknameBase name email))
        (.integrityError none)

/-- `_reset_allowed`. -/
def resetAllowed (user : User) : AuthService Bool :=
  if user.password.isUsable then pure true else query fun db => db.isLinked user.id

/-- What `default_token_generator` digests into a token. -/
structure ResetToken where
  user : Id
  password : PasswordHash
  lastLogin : Option Time
  email : String
  madeAt : Time
  deriving DecidableEq

def makeToken (user : User) (now : Time) : ResetToken :=
  { user := user.id, password := user.password, lastLogin := user.lastLogin, email := user.email
    madeAt := now }

/-- `check_token`; `none` is a text that is no token of anybody. -/
def checkToken (user : User) (token : Option ResetToken) (now : Time) : Bool :=
  token.any fun t => decide (t = makeToken user t.madeAt ∧ now - t.madeAt ≤ S.passwordResetTimeout)

/-- The mail with the link: `uid` and `token`. -/
structure ResetMail where
  recipient : String
  uid : Id
  token : ResetToken
  deriving DecidableEq

/-- #45, with the mail that goes out. -/
def requestPasswordReset (email : String) : AuthService (Option ResetMail) := do
  let user ← query fun db => db.activeUserByEmail (S.text.canonicalEmail email)
  match user with
  | none => pure none
  | some user =>
    let allowed ← resetAllowed user
    if allowed then do
      let now ← time
      pure (some { recipient := user.email, uid := user.id, token := makeToken user now })
    else pure none

/-- `{"token": [_INVALID_RESET_LINK]}`. -/
def invalidResetLink : Failure :=
  .validationError
    [("token", ["링크가 만료됐거나 올바르지 않습니다. 비밀번호 재설정을 다시 요청해 주세요."])]

/-- #46. `uid` is decoded, `none` where that fails. -/
def confirmPasswordReset (uid : Option Id) (token : Option ResetToken) (newPassword : String) :
    AuthService User :=
  atomic do
    let eligible := fun db : Db => (uid.bind db.users.get?).filter User.isActive
    let user ← queryForUpdate (fun db => (eligible db).toList.map fun u => .user u.id) eligible
    match user with
    | none => raise invalidResetLink
    | some user =>
      let allowed ← resetAllowed user
      raiseIf (allowed = false) invalidResetLink
      let now ← time
      raiseIf (checkToken S user token now = false) invalidResetLink
      let errors := S.passwordErrors (some user.email) newPassword
      raiseIf (errors ≠ []) (.validationError [("new_password", errors)])
      let set : UserSet := { password := some (some newPassword) }
      let user ← write (.updateUser user.id set) fun e _ => set.apply e user
      purgeSessionsOf user.id
      pure user

/-! `accounts.admin`. -/

/-- What a form makes of a typed address: the field strips it, `AbstractBaseUser.clean`
normalizes it. -/
def cleanedEmail (typed : String) : String := S.text.nfkc (strip typed)

/-- `validate_unique` of the instance with key `self`. -/
def uniqueErrors (self : Option Id) (email nickname : String) :
    AuthService (List (String × List String)) := do
  let emailTaken ← query fun db => db.users.any fun u => decide (some u.id ≠ self ∧ u.email = email)
  let nicknameTaken ← query fun db =>
    db.users.any fun u => decide (some u.id ≠ self ∧ u.nickname = nickname)
  pure ((if emailTaken then [("email", ["User with this Email already exists."])] else []) ++
    if nicknameTaken then [("nickname", ["User with this Nickname already exists."])] else [])

/-- The add form; `UserCreationForm`. -/
def adminAddUser (typed nickname password : String) : AuthService User :=
  atomic do
    let email := cleanedEmail S typed
    let errors ← uniqueErrors none email nickname
    let passwordErrors := S.passwordErrors (some email) password
    raiseIf (errors ≠ [] ∨ passwordErrors ≠ []) (.validationError (errors ++
      if passwordErrors = [] then [] else [("password2", passwordErrors)]))
    let user : NewUser := { email := email, nickname := nickname, password := some password }
    write (.insertUser user) fun e _ => user.saved e

/-- The fields of the change form that it saves; the password is shown and not edited. -/
structure UserForm where
  email : String
  nickname : String
  activeRole : ActiveRole
  job : String
  interest : String
  profileImageUrl : String
  isActive : Bool
  isStaff : Bool
  isSuperuser : Bool

/-- A guarded column is saved if it is not what was loaded. -/
def guarded {α : Type} [DecidableEq α] (loaded new : α) : Option α :=
  if new = loaded then none else some new

/-- `save()` of the loaded instance with the form's values. -/
def UserForm.toSet (form : UserForm) (loaded : User) (email : String) : UserSet :=
  { email := guarded loaded.email email, nickname := some form.nickname
    activeRole := guarded loaded.activeRole form.activeRole
    isActive := guarded loaded.isActive form.isActive
    isStaff := guarded loaded.isStaff form.isStaff
    isSuperuser := guarded loaded.isSuperuser form.isSuperuser
    job := some form.job, interest := some form.interest
    profileImageUrl := some form.profileImageUrl }

/-- The change form; `UserChangeForm`. -/
def adminChangeUser (id : Id) (form : UserForm) : AuthService User :=
  atomic do
    let loaded ← query fun db => db.users.get? id
    match loaded with
    | none => raise .doesNotExist
    | some loaded =>
      let email := cleanedEmail S form.email
      let errors ← uniqueErrors (some id) email form.nickname
      raiseIf (errors ≠ []) (.validationError errors)
      let set := form.toSet loaded email
      write (.updateUser id set) fun e _ => set.apply e loaded

end

/-! The system. -/

inductive Call
  | signup (email nickname password : String)
  | login (email password : String)
  | updateProfile (user : Id) (data : Service.ProfileData)
  | requestPasswordReset (email : String)
  | confirmPasswordReset (uid : Option Id) (token : Option ResetToken) (newPassword : String)
  | linkOrCreateGoogleUser (googleSub email name : String) (draws : NicknameDraws)
  | createUser (email nickname : String) (password : Option String)
  | createSuperuser (email nickname : String) (password : Option String) (isStaff isSuperuser : Bool)
  | adminAddUser (typed nickname password : String)
  | adminChangeUser (id : Id) (form : UserForm)

def Call.Res : Call → Type
  | .requestPasswordReset .. => Option ResetMail
  | _ => User

def program (S : Settings) : (call : Call) → AuthService call.Res
  | .signup email nickname password => signup S email nickname password
  | .login email password => login S email password
  | .updateProfile user data => updateProfile user data
  | .requestPasswordReset email => requestPasswordReset S email
  | .confirmPasswordReset uid token newPassword => confirmPasswordReset S uid token newPassword
  | .linkOrCreateGoogleUser googleSub email name draws =>
    linkOrCreateGoogleUser S googleSub email name draws
  | .createUser email nickname password => atomic (createUser S email nickname password)
  | .createSuperuser email nickname password isStaff isSuperuser =>
    createSuperuser S email nickname password isStaff isSuperuser
  | .adminAddUser typed nickname password => adminAddUser S typed nickname password
  | .adminChangeUser id form => adminChangeUser S id form

abbrev system (S : Settings) : System Db Key Write Failure := ⟨Call, Call.Res, program S⟩

end Chamneul.Auth
