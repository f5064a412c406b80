import Chamneul.Spec.Advisors
import Chamneul.Spec.AccountApi

/-! `advisors.views` and `advisors.serializers`: applying to be an advisor, and the review. Of the
form only the display name is stored in the model. -/

namespace Chamneul

open ReadCommitted ReadCommitted.Prog Service

/-- `AdvisorApplicationCreateResultSerializer`. -/
structure AdvisorApplicationCreateResult where
  applicationId : Id
  status : AdvisorApplicationStatus
  submittedAt : Time

def advisorApplicationCreateResult (a : AdvisorApplication) : AdvisorApplicationCreateResult :=
  ⟨a.id, a.status, a.submittedAt⟩

/-- POST (#11). -/
def AdvisorApplicationView.post (user : Id) (request : Validated String) :
    Service (Response AdvisorApplicationCreateResult) :=
  isAuthenticated user fun _ => isValid request fun displayName =>
    respond "AdvisorApplication" 201 do
      let application ← createApplication user displayName
      pure (advisorApplicationCreateResult application)

/-- `AdvisorApplicationMeSerializer`, or the `detail` the view writes itself. -/
inductive AdvisorApplicationMe
  | detail (text : String)
  | application (applicationId : Id) (displayName : String) (status : AdvisorApplicationStatus)
      (submittedAt : Time) (reviewedAt : Option Time) (rejectReason : String)

/-- GET (#12). The 404 is an answer of the view, not an exception. -/
def AdvisorApplicationMeView.get (user : Id) : Service (Response AdvisorApplicationMe) :=
  isAuthenticated user fun _ => query fun db =>
    match db.latestApplication user with
    | none => .success 404 (.detail "신청 이력이 없습니다.")
    | some a => .success 200
        (.application a.id a.displayName a.status a.submittedAt a.reviewedAt a.rejectReason)

/-- `AdvisorApplicationAdminDetailSerializer`, less the form. -/
structure AdvisorApplicationAdminDetail where
  applicationId : Id
  applicantUserId : Id
  displayName : String
  status : AdvisorApplicationStatus
  submittedAt : Time
  reviewedAt : Option Time
  reviewedBy : Option Id
  rejectReason : String

def advisorApplicationAdminDetail (a : AdvisorApplication) : AdvisorApplicationAdminDetail :=
  ⟨a.id, a.applicant, a.displayName, a.status, a.submittedAt, a.reviewedAt, a.reviewedBy,
    a.rejectReason⟩

/-- GET (#14). -/
def AdminAdvisorApplicationDetailView.get (admin applicationId : Id) :
    Service (Response AdvisorApplicationAdminDetail) :=
  isAdmin admin <| respond "AdvisorApplication" 200 do
    let application ← read fun db => getObjectOr404 (db.applications.get? applicationId).toList
    pure (advisorApplicationAdminDetail application)

/-- `validated_data` of `AdvisorApplicationReviewSerializer`. -/
structure AdvisorApplicationReview where
  status : AdvisorApplicationStatus
  choice : status ∈ [.reviewing, .approved, .rejected]
  rejectReason : String := ""

/-- The answer of #15. -/
structure AdvisorApplicationReviewResult where
  applicationId : Id
  status : AdvisorApplicationStatus
  reviewedAt : Option Time
  reviewedBy : Option Id

/-- PATCH (#15). -/
def AdminAdvisorApplicationDetailView.patch (admin applicationId : Id)
    (request : Validated AdvisorApplicationReview) :
    Service (Response AdvisorApplicationReviewResult) :=
  isAdmin admin <| isValid request fun data => respond "AdvisorApplication" 200 do
    let application ← reviewApplication applicationId admin data.status data.rejectReason
    pure ⟨application.id, application.status, application.reviewedAt, application.reviewedBy⟩

end Chamneul
