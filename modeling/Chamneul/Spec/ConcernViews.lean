import Chamneul.Spec.Concerns

/-! The reads of `concerns.services`: the owner's concerns, and an advisor's queue.
Each is one query of the committed rows. A join follows a foreign key, so it reaches
soft-deleted concerns. -/

namespace Chamneul

/-- `order_by` on a time, newest first; what was made at one time keeps its order. -/
def newestFirst {α : Type} (time : α → Time) (rows : List α) : List α :=
  rows.insertionSort fun a b => time b ≤ time a

/-- `order_by` on a time, oldest first. -/
def oldestFirst {α : Type} (time : α → Time) (rows : List α) : List α :=
  rows.insertionSort fun a b => time a ≤ time b

/-- `distinct(key)` on sorted rows: the first row of each key. -/
def distinctOn {α κ : Type} [DecidableEq κ] (key : α → κ) : List α → List α
  | [] => []
  | a :: rows => a :: (distinctOn key rows).filter fun b => decide (key b ≠ key a)

/-- `get_object_or_404` on the rows its query finds. -/
def getObjectOr404 {α : Type} : List α → Except APIException α
  | [] => .error .notFound
  | [a] => .ok a
  | _ => .error .multipleObjectsReturned

namespace Db

/-- `display_names_by_advisor`, as the items of the dict. -/
def displayNamesByAdvisor (db : Db) (advisorIds : List Id) : List (Id × String) :=
  let approved := db.applications.rows.filter fun a =>
    decide (a.applicant ∈ advisorIds ∧ a.status = .approved)
  let sorted := (newestFirst AdvisorApplication.submittedAt approved).insertionSort
    fun a b => a.applicant ≤ b.applicant
  (distinctOn AdvisorApplication.applicant sorted).map fun a => (a.applicant, a.displayName)

/-- The nickname behind a foreign key. -/
def nickname (db : Db) (user : Id) : String := ((db.users.get? user).map (·.nickname)).getD ""

/-- `display_names.get(advisor_id, advisor.nickname)`. -/
def displayName (db : Db) (names : List (Id × String)) (advisor : Id) : String :=
  (names.lookup advisor).getD (db.nickname advisor)

/-! The owner's side. -/

/-- `Exists(Advice.objects.filter(concern=…, status=APPROVED))`. -/
def hasApprovedAdvice (db : Db) (concern : Id) : Bool :=
  db.advices.any fun a => decide (a.concern = concern ∧ a.status = .approved)

/-- Each concern with its `has_approved_advice`. -/
def listMyConcerns (db : Db) (user : Id) : List (Concern × Bool) :=
  (newestFirst Concern.createdAt (db.concerns.rows.filter fun c =>
    decide (c.author = user) && c.deletedAt.isNone)).map fun c => (c, db.hasApprovedAdvice c.id)

def getOwnConcern (db : Db) (user concernId : Id) : Except APIException Concern :=
  getObjectOr404 ((db.liveConcern? concernId).filter fun c => decide (c.author = user)).toList

structure ApprovedAdvice where
  adviceId : Id
  advisorDisplayName : String
  createdAt : Time
  deriving DecidableEq

def approvedAdvices (db : Db) (concern : Id) : List Advice :=
  oldestFirst Advice.createdAt (db.advices.rows.filter fun a =>
    decide (a.concern = concern ∧ a.status = .approved))

def approvedAdvicesViewData (db : Db) (concern : Id) : List ApprovedAdvice :=
  let advices := db.approvedAdvices concern
  let names := db.displayNamesByAdvisor (advices.map Advice.advisor)
  advices.map fun a => ⟨a.id, db.displayName names a.advisor, a.createdAt⟩

/-! The advisor's side. -/

/-- The advisor's advices on the concern that are not deleted, newest first. -/
def ownAdvices (db : Db) (concern advisor : Id) : List Advice :=
  newestFirst Advice.createdAt (db.advices.rows.filter fun a =>
    decide (a.concern = concern ∧ a.advisor = advisor ∧ a.status ≠ .deleted))

/-- A row of the queue: the assignment, the concern it joins, and `advice_status`. -/
structure AssignedConcern where
  assignment : Assignment
  concern : Concern
  adviceStatus : Option AdviceStatus
  deriving DecidableEq

def listAssignedConcerns (db : Db) (advisor : Id) : List AssignedConcern :=
  (newestFirst Assignment.assignedAt (db.assignments.rows.filter fun a =>
    decide (a.advisor = advisor) && a.isActive)).filterMap fun a =>
      (db.concerns.get? a.concern).map fun c =>
        ⟨a, c, (db.ownAdvices a.concern advisor).head?.map (·.status)⟩

def getAssignedConcern (db : Db) (advisor concernId : Id) :
    Except APIException (Concern × Assignment) :=
  getObjectOr404 ((db.assignments.rows.filter fun a =>
    decide (a.advisor = advisor ∧ a.concern = concernId) && a.isActive).filterMap fun a =>
      ((db.concerns.get? a.concern).filter fun c => c.deletedAt.isNone).map fun c => (c, a))

def requesterDisplayName (db : Db) (concern : Concern) : String :=
  if concern.fields.displayAlias ≠ "" then concern.fields.displayAlias
  else if concern.fields.isAnonymous then "익명의 요청자"
  else db.nickname concern.author

structure MyAdvice where
  adviceId : Id
  status : AdviceStatus
  version : ℕ
  isSubmitted : Bool
  deriving DecidableEq

def myAdviceViewData (db : Db) (concern advisor : Id) : Option MyAdvice :=
  (db.ownAdvices concern advisor).head?.map fun a => ⟨a.id, a.status, a.version, a.isSubmitted⟩

structure AssignedConcernDetail where
  concernId : Id
  concernSummary : String
  concernType : ConcernType
  concernTypeSecondary : List ConcernType
  decisionContext : String
  isAnonymous : Bool
  requesterDisplayName : String
  assignedAt : Time
  assignmentId : Id
  myAdvice : Option MyAdvice
  deriving DecidableEq

def assignedConcernDetailViewData (db : Db) (concern : Concern) (assignment : Assignment)
    (advisor : Id) : AssignedConcernDetail where
  concernId := concern.id
  concernSummary := concern.fields.concernSummary
  concernType := concern.fields.concernType
  concernTypeSecondary := concern.fields.concernTypeSecondary
  decisionContext := concern.fields.decisionContext
  isAnonymous := concern.fields.isAnonymous
  requesterDisplayName := db.requesterDisplayName concern
  assignedAt := assignment.assignedAt
  assignmentId := assignment.id
  myAdvice := db.myAdviceViewData concern.id advisor

/-! The admin's side, whatever the state of the rows. -/

def getConcernForAdmin (db : Db) (concernId : Id) : Except APIException Concern :=
  getObjectOr404 (db.concerns.get? concernId).toList

structure AdminAssignment where
  assignmentId : Id
  advisorUserId : Id
  advisorDisplayName : String
  assignedAt : Time
  assignedBy : Id
  isActive : Bool
  deriving DecidableEq

structure AdminAdvice where
  adviceId : Id
  advisorUserId : Id
  status : AdviceStatus
  version : ℕ
  createdAt : Time
  deriving DecidableEq

structure AdminConcernDetail where
  concernId : Id
  authorUserId : Id
  fields : ConcernFields
  status : ConcernStatus
  isDeleted : Bool
  createdAt : Time
  updatedAt : Time
  assignments : List AdminAssignment
  advices : List AdminAdvice
  deriving DecidableEq

def adminConcernDetailViewData (db : Db) (concern : Concern) : AdminConcernDetail :=
  let assignments := newestFirst Assignment.assignedAt
    (db.assignments.rows.filter fun a => decide (a.concern = concern.id))
  let advices := oldestFirst Advice.createdAt
    (db.advices.rows.filter fun a => decide (a.concern = concern.id))
  let names := db.displayNamesByAdvisor (assignments.map Assignment.advisor)
  { concernId := concern.id, authorUserId := concern.author, fields := concern.fields
    status := concern.status, isDeleted := concern.deletedAt.isSome, createdAt := concern.createdAt
    updatedAt := concern.updatedAt
    assignments := assignments.map fun a =>
      ⟨a.id, a.advisor, db.displayName names a.advisor, a.assignedAt, a.assignedBy, a.isActive⟩
    advices := advices.map fun a => ⟨a.id, a.advisor, a.status, a.version, a.createdAt⟩ }

end Db

end Chamneul
