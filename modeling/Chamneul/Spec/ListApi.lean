import Chamneul.Spec.AdviceApi
import Chamneul.Spec.ConcernApi

/-! The lists the admins page through, and the ratings a user has written. -/

namespace Chamneul

open ReadCommitted ReadCommitted.Prog Service

/-- `IsAdmin`, for the user of the session. -/
def isAdmin {β : Type} (user : Id) (view : Service (Response β)) : Service (Response β) :=
  isAuthenticated user fun account =>
    if account.isSuperuser then view
    else do
      let holds ← query fun db => db.hasRole user .admin
      if holds then view else pure (fail 403 "관리자 권한이 필요합니다." none)

/-! advisors -/

/-- `get_queryset` of `AdminAdvisorApplicationListView`. -/
def Db.advisorApplicationsForAdmin (db : Db) (status : Option String) : List AdvisorApplication :=
  (newestFirst AdvisorApplication.submittedAt db.applications.rows).filter fun a =>
    statusMatches status a.status.value

/-- `AdvisorApplicationAdminListSerializer`. -/
structure AdvisorApplicationAdminItem where
  applicationId : Id
  applicantUserId : Id
  displayName : String
  status : AdvisorApplicationStatus
  submittedAt : Time

def advisorApplicationAdminItem (a : AdvisorApplication) : AdvisorApplicationAdminItem :=
  ⟨a.id, a.applicant, a.displayName, a.status, a.submittedAt⟩

/-- GET (#13). -/
def AdminAdvisorApplicationListView.get (user : Id) (status : Option String) (page : PageQuery) :
    Service (Response (Page AdvisorApplicationAdminItem)) :=
  isAdmin user <| query fun db =>
    paginated page (db.advisorApplicationsForAdmin status) (List.map advisorApplicationAdminItem)

/-! concerns -/

/-- Each concern with its `assignment_count`. -/
def Db.listConcernsForAdmin (db : Db) (includeDeleted : Bool) : List (Concern × ℕ) :=
  (newestFirst Concern.createdAt (db.concerns.rows.filter fun c =>
    includeDeleted || c.deletedAt.isNone)).map fun c =>
      (c, (db.assignments.rows.filter fun a => decide (a.concern = c.id) && a.isActive).length)

/-- `_TRUE_VALUES`. -/
def isTrueValue (s : String) : Bool := decide (s.toLower ∈ ["true", "1", "yes", "on"])

/-- The query parameters of #22. -/
structure AdminConcernQuery where
  includeDeleted : String := ""
  status : Option String := none
  keyword : Option String := none

def AdminConcernQuery.selects (icontains : String → String → Bool) (q : AdminConcernQuery)
    (c : Concern) : Bool :=
  statusMatches q.status c.status.value &&
    q.keyword.all fun k => decide (k = "") || icontains c.fields.concernSummary k

/-- `AdminConcernListSerializer`. -/
structure AdminConcernItem where
  concernId : Id
  authorUserId : Id
  concernSummary : String
  concernType : ConcernType
  status : ConcernStatus
  isDeleted : Bool
  createdAt : Time
  assignmentCount : ℕ

def adminConcernItem (row : Concern × ℕ) : AdminConcernItem where
  concernId := row.1.id
  authorUserId := row.1.author
  concernSummary := row.1.fields.concernSummary
  concernType := row.1.fields.concernType
  status := row.1.status
  isDeleted := row.1.deletedAt.isSome
  createdAt := row.1.createdAt
  assignmentCount := row.2

/-- GET (#22). -/
def AdminConcernListView.get (icontains : String → String → Bool) (user : Id)
    (filters : AdminConcernQuery) (page : PageQuery) : Service (Response (Page AdminConcernItem)) :=
  isAdmin user <| query fun db =>
    paginated page
      ((db.listConcernsForAdmin (isTrueValue filters.includeDeleted)).filter fun row =>
        filters.selects icontains row.1)
      (List.map adminConcernItem)

/-- GET (#23). -/
def AdminConcernDetailView.get (user concernId : Id) : Service (Response Db.AdminConcernDetail) :=
  isAdmin user <| respond "Concern" 200 do
    let concern ← read fun db => db.getConcernForAdmin concernId
    query fun db => db.adminConcernDetailViewData concern

/-! advice -/

/-- No draft and no advice of a deleted concern, and the pending ones unless another status
is asked for. -/
def Db.listAdvicesForAdminReview (db : Db) (status : Option AdviceStatus) : List Advice :=
  (newestFirst Advice.createdAt (db.advices.rows.filter fun a =>
    a.isSubmitted && (db.concerns.get? a.concern).any fun c => c.deletedAt.isNone)).filter fun a =>
      decide (a.status = status.getD .pending)

/-- `AdminAdviceListSerializer`. -/
structure AdminAdviceItem where
  adviceId : Id
  concernId : Id
  advisorUserId : Id
  status : AdviceStatus
  version : ℕ
  createdAt : Time
  updatedAt : Time

def adminAdviceItem (a : Advice) : AdminAdviceItem :=
  ⟨a.id, a.concern, a.advisor, a.status, a.version, a.createdAt, a.updatedAt⟩

/-- GET (#32). -/
def AdminAdviceListView.get (user : Id) (request : Validated (Option AdviceStatus))
    (page : PageQuery) : Service (Response (Page AdminAdviceItem)) :=
  isAdmin user <| isValid request fun status => query fun db =>
    paginated page (db.listAdvicesForAdminReview status) (List.map adminAdviceItem)

def Db.listFeedbacksWrittenBy (db : Db) (author : Id) : List Feedback :=
  newestFirst Feedback.createdAt (db.feedbacks.rows.filter fun f => decide (f.author = author))

/-- `MyFeedbackListSerializer`. -/
structure MyFeedbackItem where
  feedbackId : Id
  adviceId : Id
  score : ℕ
  content : String
  status : FeedbackStatus
  createdAt : Time

def myFeedbackItem (f : Feedback) : MyFeedbackItem :=
  ⟨f.id, f.advice, f.score, f.content, f.status, f.createdAt⟩

/-- GET (#35). -/
def MyFeedbackListView.get (user : Id) (page : PageQuery) :
    Service (Response (Page MyFeedbackItem)) :=
  isAuthenticated user fun _ => query fun db =>
    paginated page (db.listFeedbacksWrittenBy user) (List.map myFeedbackItem)

/-- `validated_data` of `AdminFeedbackQuerySerializer`. -/
structure AdminFeedbackQuery where
  status : Option FeedbackStatus := none
  scoreMin : Option ℕ := none
  scoreMax : Option ℕ := none

def AdminFeedbackQuery.selects (q : AdminFeedbackQuery) (f : Feedback) : Bool :=
  q.status.all (fun s => decide (f.status = s)) && q.scoreMin.all (fun n => decide (n ≤ f.score)) &&
    q.scoreMax.all fun n => decide (f.score ≤ n)

/-- Each rating with the advice it joins. -/
def Db.listFeedbacksForAdmin (db : Db) (filters : AdminFeedbackQuery) : List (Feedback × Advice) :=
  ((newestFirst Feedback.createdAt db.feedbacks.rows).filterMap fun f =>
    (db.advices.get? f.advice).map fun a => (f, a)).filter fun row => filters.selects row.1

/-- `AdminFeedbackListSerializer`. -/
structure AdminFeedbackItem where
  feedbackId : Id
  adviceId : Id
  advisorUserId : Id
  authorUserId : Id
  score : ℕ
  status : FeedbackStatus
  createdAt : Time

def adminFeedbackItem (row : Feedback × Advice) : AdminFeedbackItem :=
  ⟨row.1.id, row.1.advice, row.2.advisor, row.1.author, row.1.score, row.1.status, row.1.createdAt⟩

/-- GET (#36). -/
def AdminFeedbackListView.get (user : Id) (request : Validated AdminFeedbackQuery)
    (page : PageQuery) : Service (Response (Page AdminFeedbackItem)) :=
  isAdmin user <| isValid request fun filters => query fun db =>
    paginated page (db.listFeedbacksForAdmin filters) (List.map adminFeedbackItem)

end Chamneul
