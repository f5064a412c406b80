import Chamneul.Spec.Database
import Mathlib.Data.List.Sort

/-! `accounts.services`: the active role, the profile, and granting and revoking
roles. -/

namespace Chamneul

open ReadCommitted ReadCommitted.Prog

namespace Db

/-- `UserRole.objects.filter(user=user, role=role).exists()`. -/
def hasRole (db : Db) (user : Id) (role : Role) : Bool := (db.userRoles.get? (user, role)).isSome

/-- `held_roles`: USER is implicit, ADVISOR and ADMIN are rows. -/
def heldRoles (db : Db) (user : Id) : List Role :=
  .user :: [Role.advisor, Role.admin].filter fun role => db.hasRole user role

/-- `user__is_active=True`. -/
def isActiveUser (db : Db) (user : Id) : Bool := (db.users.get? user).any (·.isActive)

/-- `UserRole.objects.filter(role=ADMIN, user__is_active=True).order_by("pk")`. -/
def activeAdminRoles (db : Db) : List UserRole :=
  (db.userRoles.rows.filter fun r => decide (r.role = .admin) && db.isActiveUser r.user).insertionSort
    fun r r' => r.id ≤ r'.id

end Db

namespace Service

/-- `_GRANTABLE_ROLES`. -/
def grantableRoles : List Role := [.advisor, .admin]

def getUserForUpdate (id : Id) : Service User := getForUpdate (.user id) fun db => db.users.get? id

/-- `User.objects.select_for_update(of=("self",)).get(pk=user.pk)`. -/
def getOwnRow (user : Id) : Service User :=
  lockOr .doesNotExist (.user user) fun db => db.users.get? user

def setActiveRole (user : Id) (target : ActiveRole) : Service Unit :=
  atomic do
    let locked ← getOwnRow user
    let roles ← query fun db => db.heldRoles locked.id
    raiseIf (target.toRole ∉ roles) (.permissionDenied "보유하지 않은 역할로는 전환할 수 없습니다.")
    write (.updateUser locked.id { activeRole := some target }) fun _ _ => ()

/-- `validated_data` of `UserUpdateSerializer`, all four fields optional. -/
structure ProfileData where
  nickname : Option String := none
  job : Option String := none
  interest : Option String := none
  profileImageUrl : Option String := none

def ProfileData.toSet (d : ProfileData) : UserSet :=
  { nickname := d.nickname, job := d.job, interest := d.interest
    profileImageUrl := d.profileImageUrl }

def updateProfile (user : Id) (data : ProfileData) : Service User :=
  atomic do
    let locked ← getOwnRow user
    handle (write (.updateUser locked.id data.toSet) fun e _ => data.toSet.apply e locked) fun _ =>
      raise (.conflict "이미 사용 중인 닉네임입니다." none)

def grantRole (targetUserId : Id) (role : Role) (actor : Id) (reason : String) :
    Service (User × RoleGrant) := do
  raiseIf (role ∉ grantableRoles) (.validationError "role" "부여할 수 없는 역할입니다.")
  atomic do
    let target ← getUserForUpdate targetUserId
    let held ← query fun db => db.hasRole target.id role
    raiseIf (held = true) (.conflict "이미 보유한 역할입니다." (some "ALREADY_HELD"))
    write (.insertUserRole { user := target.id, role := role }) fun _ _ => ()
    let event : RoleGrant :=
      { user := target.id, role := role, action := .grant, actedBy := actor, reason := reason }
    let grant ← write (.insertRoleGrant event) fun e _ => event.saved e
    pure (target, grant)

/-- One row of a `FOR UPDATE` over the join of `UserRole` and `User`: PostgreSQL
locks the role row, then the user row, and drops the row if it no longer
satisfies the query. -/
def lockAdminRole (row : UserRole) : Service (Option UserRole) := do
  let kept ← queryForUpdate (fun db => if row ∈ db.userRoles.rows then [.userRole row.id] else [])
    fun db => decide (row ∈ db.userRoles.rows)
  if kept then
    let active ← queryForUpdate
      (fun db => if (db.users.get? row.user).isSome then [.user row.user] else [])
      fun db => db.isActiveUser row.user
    pure (if active then some row else none)
  else pure none

/-- The rows are found first and then locked one by one. -/
def lockAdminRoles : Service (List UserRole) := do
  let rows ← query Db.activeAdminRoles
  collect lockAdminRole rows

/-- The guards of an ADMIN revocation. -/
def guardAdmin (target actor : Id) : Service Unit := do
  raiseIf (target = actor)
    (.conflict "자기 자신의 ADMIN 역할은 회수할 수 없습니다." (some "SELF_REVOKE"))
  let adminRoles ← lockAdminRoles
  raiseIf (∀ row ∈ adminRoles, row.user ≠ target)
    (.conflict "보유하지 않은 역할입니다." (some "NOT_HELD"))
  raiseIf (adminRoles.length ≤ 1)
    (.conflict "마지막 관리자는 회수할 수 없습니다." (some "LAST_ADMIN"))

def revokeRole (targetUserId : Id) (role : Role) (actor : Id) (reason : String) :
    Service User := do
  raiseIf (role ∉ grantableRoles) (.validationError "role" "회수할 수 없는 역할입니다.")
  atomic do
    let target ← getUserForUpdate targetUserId
    runIf (role = .admin) (guardAdmin target.id actor)
    let deleted ← execute
      (fun db => (db.userRoles.get? (target.id, role)).toList.map .deleteUserRole) .integrityError
      fun _ db => db.hasRole target.id role
    raiseIf (deleted = false) (.conflict "보유하지 않은 역할입니다." (some "NOT_HELD"))
    write (.insertRoleGrant
      { user := target.id, role := role, action := .revoke, actedBy := actor, reason := reason })
      fun _ _ => ()
    if role = .advisor ∧ target.activeRole = .advisor then
      let demote : UserSet := { activeRole := some .user }
      write (.updateUser target.id demote) fun e _ => demote.apply e target
    else pure target

end Service

end Chamneul
