import Chamneul.Store.Table
import Chamneul.Store.Program

/-! The models of the five apps: one structure a table, with the columns the
services read or write. `saved` fills in what Django sets when a row is inserted,
the drawn `id` and the `auto_now_add` columns. -/

namespace Chamneul

open ReadCommitted

abbrev Id := ℕ

abbrev Time := ℕ

/-! accounts -/

inductive ActiveRole
  | user | advisor
  deriving DecidableEq

inductive Role
  | user | advisor | admin
  deriving DecidableEq

def ActiveRole.toRole : ActiveRole → Role
  | .user => .user
  | .advisor => .advisor

inductive RoleGrantAction
  | grant | revoke
  deriving DecidableEq

structure User where
  id : Id
  nickname : String
  activeRole : ActiveRole := .user
  isActive : Bool := true
  isSuperuser : Bool := false
  job : String := ""
  interest : String := ""
  profileImageUrl : String := ""
  updatedAt : Time := 0
  deriving DecidableEq

instance : Keyed User Id := ⟨User.id⟩

@[simp] theorem User.key_eq (r : User) : Keyed.key r = r.id := rfl

/-- Unique in `(user, role)`; `id` is the primary key, which rows are locked by. -/
structure UserRole where
  id : Id := 0
  user : Id
  role : Role
  createdAt : Time := 0
  deriving DecidableEq

instance : Keyed UserRole (Id × Role) := ⟨fun r => (r.user, r.role)⟩

@[simp] theorem UserRole.key_eq (r : UserRole) : Keyed.key r = (r.user, r.role) := rfl

def UserRole.saved (e : Env) (r : UserRole) : UserRole := { r with id := e.uuid, createdAt := e.now }

structure RoleGrant where
  id : Id := 0
  user : Id
  role : Role
  action : RoleGrantAction
  actedBy : Id
  actedAt : Time := 0
  reason : String
  deriving DecidableEq

instance : Keyed RoleGrant Id := ⟨RoleGrant.id⟩

@[simp] theorem RoleGrant.key_eq (r : RoleGrant) : Keyed.key r = r.id := rfl

def RoleGrant.saved (e : Env) (g : RoleGrant) : RoleGrant := { g with id := e.uuid, actedAt := e.now }

/-! advisors -/

inductive AdvisorApplicationStatus
  | pending | reviewing | approved | rejected | withdrawn
  deriving DecidableEq

def AdvisorApplicationStatus.value : AdvisorApplicationStatus → String
  | .pending => "PENDING"
  | .reviewing => "REVIEWING"
  | .approved => "APPROVED"
  | .rejected => "REJECTED"
  | .withdrawn => "WITHDRAWN"

/-- The condition of the partial unique index on `display_name`. -/
def AdvisorApplicationStatus.isActive : AdvisorApplicationStatus → Bool
  | .pending | .reviewing | .approved => true
  | .rejected | .withdrawn => false

structure AdvisorApplication where
  id : Id := 0
  applicant : Id
  displayName : String
  status : AdvisorApplicationStatus := .pending
  submittedAt : Time := 0
  reviewedAt : Option Time := none
  reviewedBy : Option Id := none
  rejectReason : String := ""
  deriving DecidableEq

instance : Keyed AdvisorApplication Id := ⟨AdvisorApplication.id⟩

@[simp] theorem AdvisorApplication.key_eq (r : AdvisorApplication) : Keyed.key r = r.id := rfl

def AdvisorApplication.saved (e : Env) (a : AdvisorApplication) : AdvisorApplication :=
  { a with id := e.uuid, submittedAt := e.now }

/-! concerns -/

inductive ConcernType
  | careerTransition | jobChange | burnout | startupFailure | leadership | relationship
  | lifeDirection | majorLifeDecision | educationChoice | relocation | financeMajorDecision
  deriving DecidableEq

inductive PreferredAdvisorLane
  | expert | senior | noPreference
  deriving DecidableEq

inductive ConcernStatus
  | submitted | assigned | answered | closed
  deriving DecidableEq

/-- The seven fields the author writes. -/
structure ConcernFields where
  concernSummary : String
  concernType : ConcernType
  concernTypeSecondary : List ConcernType := []
  preferredAdvisorLane : PreferredAdvisorLane := .noPreference
  decisionContext : String := ""
  displayAlias : String := ""
  isAnonymous : Bool := true
  deriving DecidableEq

structure Concern where
  id : Id := 0
  author : Id
  fields : ConcernFields
  status : ConcernStatus := .submitted
  deletedAt : Option Time := none
  createdAt : Time := 0
  updatedAt : Time := 0
  deriving DecidableEq

instance : Keyed Concern Id := ⟨Concern.id⟩

@[simp] theorem Concern.key_eq (r : Concern) : Keyed.key r = r.id := rfl

def Concern.saved (e : Env) (c : Concern) : Concern :=
  { c with id := e.uuid, createdAt := e.now, updatedAt := e.now }

inductive TriageDecision
  | suitable | needsMoreInfo | outOfScope
  deriving DecidableEq

inductive AssignmentPriority
  | low | normal | high
  deriving DecidableEq

structure Assignment where
  id : Id := 0
  concern : Id
  advisor : Id
  assignedBy : Id
  triageDecision : TriageDecision
  priority : AssignmentPriority := .normal
  isActive : Bool := true
  assignedAt : Time := 0
  deactivatedAt : Option Time := none
  deriving DecidableEq

instance : Keyed Assignment Id := ⟨Assignment.id⟩

@[simp] theorem Assignment.key_eq (r : Assignment) : Keyed.key r = r.id := rfl

def Assignment.saved (e : Env) (a : Assignment) : Assignment :=
  { a with id := e.uuid, assignedAt := e.now }

/-! advice -/

inductive AdviceStatus
  | pending | reviewing | approved | rejected | deleted
  deriving DecidableEq

def AdviceStatus.value : AdviceStatus → String
  | .pending => "PENDING"
  | .reviewing => "REVIEWING"
  | .approved => "APPROVED"
  | .rejected => "REJECTED"
  | .deleted => "DELETED"

/-- `_BODY_FIELDS`. -/
structure AdviceBody where
  directionalGuidance : String
  reflectiveQuestions : String := ""
  considerations : String := ""
  outOfScopeFlag : Bool := false
  deriving DecidableEq

structure Advice where
  id : Id := 0
  concern : Id
  advisor : Id
  body : AdviceBody
  isSubmitted : Bool := true
  status : AdviceStatus := .pending
  version : ℕ := 1
  createdAt : Time := 0
  updatedAt : Time := 0
  reviewedAt : Option Time := none
  reviewedBy : Option Id := none
  rejectReason : String := ""
  deriving DecidableEq

instance : Keyed Advice Id := ⟨Advice.id⟩

@[simp] theorem Advice.key_eq (r : Advice) : Keyed.key r = r.id := rfl

def Advice.saved (e : Env) (a : Advice) : Advice :=
  { a with id := e.uuid, createdAt := e.now, updatedAt := e.now }

/-- Unique in `(advice, version)`. -/
structure AdviceHistory where
  advice : Id
  version : ℕ
  body : AdviceBody
  editedBy : Id
  editedAt : Time := 0
  deriving DecidableEq

instance : Keyed AdviceHistory (Id × ℕ) := ⟨fun h => (h.advice, h.version)⟩

@[simp] theorem AdviceHistory.key_eq (h : AdviceHistory) : Keyed.key h = (h.advice, h.version) := rfl

def AdviceHistory.saved (e : Env) (h : AdviceHistory) : AdviceHistory := { h with editedAt := e.now }

inductive FeedbackStatus
  | submitted | reviewed | archived
  deriving DecidableEq

def FeedbackStatus.value : FeedbackStatus → String
  | .submitted => "SUBMITTED"
  | .reviewed => "REVIEWED"
  | .archived => "ARCHIVED"

/-- `advice` is one to one. -/
structure Feedback where
  id : Id := 0
  advice : Id
  author : Id
  score : ℕ
  content : String := ""
  status : FeedbackStatus := .submitted
  memo : String := ""
  reviewedAt : Option Time := none
  reviewedBy : Option Id := none
  createdAt : Time := 0
  deriving DecidableEq

instance : Keyed Feedback Id := ⟨Feedback.id⟩

@[simp] theorem Feedback.key_eq (r : Feedback) : Keyed.key r = r.id := rfl

def Feedback.saved (e : Env) (f : Feedback) : Feedback := { f with id := e.uuid, createdAt := e.now }

/-! notifications -/

inductive NotificationType
  | adviceApproved | adviceRejected | advisorApplicationApproved | advisorApplicationRejected
  | assignmentCreated
  deriving DecidableEq

structure Notification where
  id : Id := 0
  recipient : Id
  type : NotificationType
  title : String
  message : String
  targetUrl : String
  actorUser : Option Id
  payload : List (String × Id)
  isRead : Bool := false
  readAt : Option Time := none
  createdAt : Time := 0
  deriving DecidableEq

instance : Keyed Notification Id := ⟨Notification.id⟩

@[simp] theorem Notification.key_eq (r : Notification) : Keyed.key r = r.id := rfl

def Notification.saved (e : Env) (n : Notification) : Notification :=
  { n with id := e.uuid, createdAt := e.now }

/-! What a service raises -/

/-- `common.exceptions`, and the exceptions of Django and DRF the services raise or catch. -/
inductive APIException
  | conflict (detail : String) (reason : Option String)
  | unprocessableEntity (detail : String)
  | preconditionFailed (detail : String)
  | permissionDenied (detail : String)
  | validationError (field detail : String)
  | notFound
  | doesNotExist
  | multipleObjectsReturned
  | integrityError
  deriving DecidableEq

/-- Python's `str.isspace` on one character. -/
def isSpace (c : Char) : Bool :=
  let n := c.toNat
  (9 ≤ n && n ≤ 13) || (28 ≤ n && n ≤ 32) || n == 0x85 || n == 0xA0 || n == 0x1680 ||
    (0x2000 ≤ n && n ≤ 0x200A) || n == 0x2028 || n == 0x2029 || n == 0x202F || n == 0x205F ||
    n == 0x3000

/-- Python's `str.strip()`. -/
def strip (s : String) : String :=
  String.ofList ((s.toList.dropWhile isSpace).reverse.dropWhile isSpace).reverse

end Chamneul
