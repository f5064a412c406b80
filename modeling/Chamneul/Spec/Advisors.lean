import Chamneul.Spec.Accounts

/-! `advisors.services`: filing an application and reviewing it. -/

namespace Chamneul

open ReadCommitted ReadCommitted.Prog

/-- `_ALLOWED_TRANSITIONS`. -/
def AdvisorApplicationStatus.allowed : AdvisorApplicationStatus → List AdvisorApplicationStatus
  | .pending => [.reviewing]
  | .reviewing => [.approved, .rejected]
  | _ => []

/-- `blocking.exists()`: an application of the applicant that is in progress. An
approved one counts only while they hold ADVISOR. -/
def Db.blocks (db : Db) (applicant : Id) (holdsAdvisor : Bool) : Bool :=
  db.applications.any fun a => decide (a.applicant = applicant) && a.status.isActive &&
    (holdsAdvisor || decide (a.status ≠ .approved))

namespace Service

def createApplication (applicant : Id) (displayName : String) : Service AdvisorApplication := do
  let holdsAdvisor ← query fun db => db.hasRole applicant .advisor
  let blocking ← query fun db => db.blocks applicant holdsAdvisor
  raiseIf (blocking = true) (.conflict "이미 진행 중인 조언가 신청이 있습니다." none)
  let application : AdvisorApplication := { applicant := applicant, displayName := displayName }
  handle (atomic (write (.insertApplication application) fun e _ => application.saved e)) fun _ =>
    raise (.conflict "이미 사용 중인 활동명입니다." none)

/-- `UserRole.objects.get_or_create(user=applicant, role=ADVISOR)`. -/
def getOrCreateAdvisorRole (applicant : Id) : Service Unit := do
  let held ← query fun db => db.hasRole applicant .advisor
  if held then pure ()
  else
    handle (write (.insertUserRole { user := applicant, role := .advisor }) fun _ _ => ()) fun _ => do
      let held ← query fun db => db.hasRole applicant .advisor
      raiseIf (held = false) .integrityError

/-- The audit row of an approval. -/
def approvalGrant (applicant actor : Id) : RoleGrant :=
  { user := applicant, role := .advisor, action := .grant, actedBy := actor
    reason := "advisor application approved" }

def approvedNotification (application : AdvisorApplication) (actor : Id) : Notification :=
  { recipient := application.applicant
    type := .advisorApplicationApproved
    title := "조언가 신청이 승인되었습니다"
    message := "조언가 역할이 부여되었습니다. 역할 전환 후 활동할 수 있어요."
    targetUrl := "/api/v1/advisor-applications/me"
    actorUser := some actor
    payload := [("application_id", application.id)] }

def rejectedNotification (application : AdvisorApplication) (actor : Id) (rejectReason : String) :
    Notification :=
  { recipient := application.applicant
    type := .advisorApplicationRejected
    title := "조언가 신청이 반려되었습니다"
    message := rejectReason
    targetUrl := "/api/v1/advisor-applications/me"
    actorUser := some actor
    payload := [("application_id", application.id)] }

/-- The four columns `review_application` saves. -/
def reviewSet (application : AdvisorApplication) (actor : Id)
    (targetStatus : AdvisorApplicationStatus) (rejectReason : String) (reviewedAt : Time) :
    ApplicationSet :=
  { status := targetStatus
    reviewedBy := some actor
    reviewedAt := some reviewedAt
    rejectReason := if targetStatus = .rejected then rejectReason else application.rejectReason }

/-- The branch on the target status. The source's `else` is commented `REJECTED`. -/
def reviewEffects (application : AdvisorApplication) (actor : Id)
    (targetStatus : AdvisorApplicationStatus) (rejectReason : String) : Service Unit :=
  if targetStatus = .approved then do
    getOrCreateAdvisorRole application.applicant
    write (.insertRoleGrant (approvalGrant application.applicant actor)) fun _ _ => ()
    write (.insertNotification (approvedNotification application actor)) fun _ _ => ()
  else
    write (.insertNotification (rejectedNotification application actor rejectReason)) fun _ _ => ()

def reviewApplication (applicationId actor : Id) (targetStatus : AdvisorApplicationStatus)
    (rejectReason : String) : Service AdvisorApplication :=
  atomic do
    let application ← getForUpdate (.application applicationId) fun db =>
      db.applications.get? applicationId
    raiseIf (targetStatus ∉ application.status.allowed)
      (.conflict (application.status.value ++ " 상태에서 " ++ targetStatus.value ++
        "로 전이할 수 없습니다.") none)
    raiseIf (targetStatus = .rejected ∧ strip rejectReason = "")
      (.unprocessableEntity "반려 시 사유는 필수입니다.")
    let now ← time
    let set := reviewSet application actor targetStatus rejectReason now
    write (.updateApplication application.id set) fun _ _ => ()
    reviewEffects application actor targetStatus rejectReason
    pure (set.apply application)

end Service

end Chamneul
