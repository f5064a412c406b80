import Chamneul.Spec.Accounts

/-! The tables that say who can log in: users with their credentials, the Google accounts linked
to them, and the session store, with the changes made to them and what PostgreSQL locks for
each. -/

namespace Chamneul.Auth

open ReadCommitted

/-- The stored form of a password, `raw = none` for an unusable one. `salt` is the time it was
set at, so that no two settings of a password are stored alike. -/
structure PasswordHash where
  raw : Option String
  salt : Time
  deriving DecidableEq

/-- `has_usable_password`. -/
def PasswordHash.isUsable (h : PasswordHash) : Bool := h.raw.isSome

/-- `check_password`. -/
def PasswordHash.check (h : PasswordHash) (raw : String) : Bool := decide (h.raw = some raw)

structure User where
  id : Id
  email : String
  nickname : String
  password : PasswordHash
  lastLogin : Option Time := none
  activeRole : ActiveRole := .user
  isActive : Bool := true
  isStaff : Bool := false
  isSuperuser : Bool := false
  job : String := ""
  interest : String := ""
  profileImageUrl : String := ""
  createdAt : Time := 0
  updatedAt : Time := 0
  deriving DecidableEq

instance : Keyed User Id := ⟨User.id⟩

@[simp] theorem User.key_eq (r : User) : Keyed.key r = r.id := rfl

structure GoogleIdentity where
  id : Id := 0
  user : Id
  googleSub : String
  email : String
  createdAt : Time := 0
  deriving DecidableEq

instance : Keyed GoogleIdentity Id := ⟨GoogleIdentity.id⟩

@[simp] theorem GoogleIdentity.key_eq (r : GoogleIdentity) : Keyed.key r = r.id := rfl

def GoogleIdentity.saved (e : Env) (r : GoogleIdentity) : GoogleIdentity :=
  { r with id := e.uuid, createdAt := e.now }

/-- A row of the session store, decoded: `_auth_user_id` and `_auth_user_hash`, which is a digest
of the password hash. -/
structure SessionRow where
  key : Id := 0
  user : Id
  hash : PasswordHash
  deriving DecidableEq

instance : Keyed SessionRow Id := ⟨SessionRow.key⟩

@[simp] theorem SessionRow.key_eq (r : SessionRow) : Keyed.key r = r.key := rfl

def SessionRow.saved (e : Env) (r : SessionRow) : SessionRow := { r with key := e.uuid }

structure Db where
  users : Table User := .empty
  identities : Table GoogleIdentity := .empty
  sessions : Table SessionRow := .empty
  userRoles : Table UserRole := .empty

inductive Key
  | user (id : Id)
  | email (address : String)
  | nickname (name : String)
  | identity (id : Id)
  | identityUser (user : Id)
  | googleSub (sub : String)
  | session (key : Id)
  | userRole (id : Id)
  | userRoleEntry (user : Id) (role : Role)
  deriving DecidableEq

/-- A user as it is constructed, with the password that is about to be set. -/
structure NewUser where
  email : String
  nickname : String
  password : Option String
  isStaff : Bool := false
  isSuperuser : Bool := false

def NewUser.saved (e : Env) (r : NewUser) : User :=
  { id := e.uuid, email := r.email, nickname := r.nickname, password := ⟨r.password, e.now⟩
    isStaff := r.isStaff, isSuperuser := r.isSuperuser, createdAt := e.now, updatedAt := e.now }

/-- The columns an `UPDATE` sets; `none` or `false` leaves a column out of `update_fields`. -/
structure UserSet where
  email : Option String := none
  nickname : Option String := none
  /-- `set_password` and `set_unusable_password`. -/
  password : Option (Option String) := none
  lastLogin : Bool := false
  activeRole : Option ActiveRole := none
  isActive : Option Bool := none
  isStaff : Option Bool := none
  isSuperuser : Option Bool := none
  job : Option String := none
  interest : Option String := none
  profileImageUrl : Option String := none
  /-- `updated_at`, filled in by `auto_now`. -/
  autoNow : Bool := true

def UserSet.apply (e : Env) (s : UserSet) (u : User) : User :=
  { u with
    email := s.email.getD u.email
    nickname := s.nickname.getD u.nickname
    password := s.password.elim u.password fun raw => ⟨raw, e.now⟩
    lastLogin := if s.lastLogin then some e.now else u.lastLogin
    activeRole := s.activeRole.getD u.activeRole
    isActive := s.isActive.getD u.isActive
    isStaff := s.isStaff.getD u.isStaff
    isSuperuser := s.isSuperuser.getD u.isSuperuser
    job := s.job.getD u.job
    interest := s.interest.getD u.interest
    profileImageUrl := s.profileImageUrl.getD u.profileImageUrl
    updatedAt := if s.autoNow then e.now else u.updatedAt }

theorem UserSet.key_apply (e : Env) (s : UserSet) (u : User) :
    Keyed.key (s.apply e u) = Keyed.key u := rfl

inductive Write
  | insertUser (row : NewUser)
  | updateUser (id : Id) (set : UserSet)
  | insertIdentity (row : GoogleIdentity)
  | insertSession (row : SessionRow)
  /-- `Session.objects.filter(session_key__in=keys).delete()`. -/
  | deleteSessions (keys : List Id)
  | insertUserRole (row : UserRole)

def apply (e : Env) : Write → Db → Db
  | .insertUser r, db => { db with users := db.users.insert (r.saved e) }
  | .updateUser id s, db => { db with users := db.users.update id (s.apply e) (s.key_apply e) }
  | .insertIdentity r, db => { db with identities := db.identities.insert (r.saved e) }
  | .insertSession r, db => { db with sessions := db.sessions.insert (r.saved e) }
  | .deleteSessions keys, db =>
    { db with sessions := db.sessions.delete fun s => decide (s.key ∈ keys) }
  | .insertUserRole r, db => { db with userRoles := db.userRoles.insert (r.saved e) }

/-- The constraints, by the columns they are named after. -/
inductive Constraint
  | userPkey | userEmail | userNickname
  | identityPkey | identityUser | identityGoogleSub | identityUserFk
  | sessionPkey
  | userRolePkey | userRoleUnique | userRoleUserFk
  deriving DecidableEq

/-- The constraint a change violates: the unique indexes in their order, then the foreign key. -/
def violated (db : Db) (e : Env) : Write → Option Constraint
  | .insertUser r =>
    if (db.users.get? e.uuid).isSome then some .userPkey
    else if db.users.any fun u => decide (u.email = r.email) then some .userEmail
    else if db.users.any fun u => decide (u.nickname = r.nickname) then some .userNickname
    else none
  | .updateUser id s =>
    if s.email.any fun a => db.users.any fun u => decide (u.id ≠ id ∧ u.email = a) then
      some .userEmail
    else if s.nickname.any fun n => db.users.any fun u => decide (u.id ≠ id ∧ u.nickname = n) then
      some .userNickname
    else none
  | .insertIdentity r =>
    if (db.identities.get? e.uuid).isSome then some .identityPkey
    else if db.identities.any fun i => decide (i.user = r.user) then some .identityUser
    else if db.identities.any fun i => decide (i.googleSub = r.googleSub) then
      some .identityGoogleSub
    else if (db.users.get? r.user).isNone then some .identityUserFk
    else none
  | .insertSession _ => if (db.sessions.get? e.uuid).isSome then some .sessionPkey else none
  | .deleteSessions _ => none
  | .insertUserRole r =>
    if db.userRoles.any fun x => decide (x.id = e.uuid) then some .userRolePkey
    else if (db.userRoles.get? (r.user, r.role)).isSome then some .userRoleUnique
    else if (db.users.get? r.user).isNone then some .userRoleUserFk
    else none

/-- The row a change writes, and the unique entries it adds. -/
def locks (e : Env) : Write → List Key
  | .insertUser r => [.user e.uuid, .email r.email, .nickname r.nickname]
  | .updateUser id s => .user id :: s.email.toList.map .email ++ s.nickname.toList.map .nickname
  | .insertIdentity r => [.identity e.uuid, .identityUser r.user, .googleSub r.googleSub]
  | .insertSession _ => [.session e.uuid]
  | .deleteSessions keys => keys.map .session
  | .insertUserRole r => [.userRole e.uuid, .userRoleEntry r.user r.role]

/-- The user that a new row names. -/
def Write.names : Write → List Key
  | .insertIdentity r => [.user r.user]
  | .insertUserRole r => [.user r.user]
  | _ => []

instance : Engine Db Key Write := ⟨apply, fun db e x => (violated db e x).isSome, locks, Write.names⟩

/-- The exceptions the account services raise or let through. -/
inductive Failure
  | conflict (detail : String) (reason : Option String)
  /-- The errors of a serializer or a form, field by field. -/
  | validationError (errors : List (String × List String))
  | authenticationFailed (detail : String)
  | valueError (detail : String)
  | doesNotExist
  | integrityError (constraint : Option Constraint)
  deriving DecidableEq

abbrev AuthService (α : Type) := Prog Db Key Write Failure α

/-- One `INSERT`, `UPDATE` or `DELETE`; an integrity error tells which constraint it is. -/
def write {α : Type} (x : Write) (out : Env → Db → α) : AuthService α :=
  .write (fun _ => [x]) fun e db ok =>
    if ok then .ret (.ok (out e db)) else .ret (.error (.integrityError (violated db e x)))

end Chamneul.Auth
