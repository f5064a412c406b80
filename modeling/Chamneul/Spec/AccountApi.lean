import Chamneul.Spec.ConcernViews
import Chamneul.Spec.ListApi

/-! `accounts.views` and `accounts.serializers`: a user's own profile and roles, and the admins'
grants and revocations. The user's email and `created_at`, which the identity card also shows, are
columns of the sign-in model. -/

namespace Chamneul

open ReadCommitted ReadCommitted.Prog Service

/-! #7, #8: the profile. -/

/-- `UserMeSerializer`. -/
structure UserMe where
  userId : Id
  nickname : String
  activeRole : ActiveRole
  roles : List Role

/-- GET (#7). -/
def UserMeView.get (user : Id) : Service (Response UserMe) :=
  isAuthenticated user fun account => do
    let roles ← query fun db => db.heldRoles user
    pure (.success 200 ⟨user, account.nickname, account.activeRole, roles⟩)

/-- A request to `UserUpdateSerializer`: what the field checks make of the nickname, if one is
sent, and of the other three fields. -/
structure UserUpdate where
  nickname : Validated (Option String)
  others : Validated ProfileData

/-- `validated_data`, or the errors of every field. -/
def UserUpdate.validated (u : UserUpdate) : Validated ProfileData :=
  match u.nickname, u.others with
  | .ok nickname, .ok others => .ok { others with nickname := nickname }
  | .error errors, .ok _ => .error errors
  | .ok _, .error errors => .error errors
  | .error errors, .error errors' => .error (errors ++ errors')

/-- `User.objects.filter(nickname=value).exclude(pk=self.instance.pk).exists()`. -/
def Db.nicknameTaken (db : Db) (user : Id) (nickname : String) : Bool :=
  db.users.any fun u => decide (u.id ≠ user ∧ u.nickname = nickname)

/-- `UserUpdateResultSerializer`. -/
structure UserUpdateResult where
  userId : Id
  nickname : String
  updatedAt : Time

def userUpdateResult (u : User) : UserUpdateResult := ⟨u.id, u.nickname, u.updatedAt⟩

/-- `serializer.is_valid()`. The nickname comes first among the fields, and `validate_nickname`
raises a conflict where a field error would wait for the others. -/
def UserUpdate.isValid (user : Id) (u : UserUpdate)
    (view : ProfileData → Service (Response UserUpdateResult)) : Service (Response UserUpdateResult) :=
  match u.nickname with
  | .ok (some nickname) => do
    let taken ← query fun db => db.nicknameTaken user nickname
    if taken then pure (fail 409 "이미 사용 중인 닉네임입니다." none)
    else Chamneul.isValid u.validated view
  | _ => Chamneul.isValid u.validated view

/-- PATCH (#8). -/
def UserMeView.patch (user : Id) (request : UserUpdate) : Service (Response UserUpdateResult) :=
  isAuthenticated user fun _ => request.isValid user fun data => respond "User" 200 do
    let updated ← updateProfile user data
    pure (userUpdateResult updated)

/-! #9, #10: the roles. -/

/-- `AdvisorApplication.objects.filter(applicant=user).order_by("-submitted_at").first()`. -/
def Db.latestApplication (db : Db) (user : Id) : Option AdvisorApplication :=
  (newestFirst AdvisorApplication.submittedAt
    (db.applications.rows.filter fun a => decide (a.applicant = user))).head?

/-- `advisor_status`: the status of the latest application, if it is one of `_ADVISOR_STATUSES`. -/
def Db.advisorStatus (db : Db) (user : Id) : String :=
  match db.latestApplication user with
  | none => "NONE"
  | some application =>
    if application.status = .withdrawn then "NONE" else application.status.value

/-- The answer of #9. -/
structure UserRoles where
  roles : List Role
  activeRole : ActiveRole
  advisorStatus : String

/-- GET (#9). -/
def UserRolesView.get (user : Id) : Service (Response UserRoles) :=
  isAuthenticated user fun account => do
    let roles ← query fun db => db.heldRoles user
    let status ← query fun db => db.advisorStatus user
    pure (.success 200 ⟨roles, account.activeRole, status⟩)

/-- The answer of #10. -/
structure ActiveRoleResult where
  userId : Id
  activeRole : ActiveRole
  roles : List Role

/-- PATCH (#10). -/
def ActiveRoleView.patch (user : Id) (request : Validated ActiveRole) :
    Service (Response ActiveRoleResult) :=
  isAuthenticated user fun _ => isValid request fun target => respond "User" 200 do
    setActiveRole user target
    let roles ← query fun db => db.heldRoles user
    pure ⟨user, target, roles⟩

/-! #42, #43: the admins' grants and revocations. -/

/-- A role that the choices of #42 and the URL converter of #43 let through. -/
abbrev GrantableRole := { role : Role // role ∈ grantableRoles }

/-- `validated_data` of `RoleGrantRequestSerializer`. -/
structure RoleGrantData where
  role : GrantableRole
  reason : String := ""

/-- The answer of #42. -/
structure RoleGrantResult where
  userId : Id
  roles : List Role
  grantedRole : Role
  grantedAt : Time
  grantedBy : Id

/-- POST (#42). -/
def AdminUserRolesView.post (admin userId : Id) (request : Validated RoleGrantData) :
    Service (Response RoleGrantResult) :=
  isAdmin admin <| isValid request fun data => respond "User" 201 do
    let (target, grant) ← grantRole userId data.role admin data.reason
    let roles ← query fun db => db.heldRoles target.id
    pure ⟨target.id, roles, grant.role, grant.actedAt, grant.actedBy⟩

/-- DELETE (#43), with the `reason` of the query string. -/
def AdminUserRoleDetailView.delete (admin userId : Id) (role : GrantableRole) (reason : String) :
    Service (Response Unit) :=
  isAdmin admin <| respond "User" 204 do
    let _ ← revokeRole userId role admin reason
    pure ()

end Chamneul
