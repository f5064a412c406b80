import Chamneul.Spec.Concerns

/-! `advice.services`: writing an advice, revising and withdrawing it, and its
review. -/

namespace Chamneul

open ReadCommitted ReadCommitted.Prog

/-- `validated_data` of `AdviceUpdateSerializer`, every field optional. -/
structure AdviceEdit where
  directionalGuidance : Option String := none
  reflectiveQuestions : Option String := none
  considerations : Option String := none
  outOfScopeFlag : Option Bool := none
  isSubmitted : Option Bool := none

def AdviceEdit.apply (d : AdviceEdit) (b : AdviceBody) : AdviceBody where
  directionalGuidance := d.directionalGuidance.getD b.directionalGuidance
  reflectiveQuestions := d.reflectiveQuestions.getD b.reflectiveQuestions
  considerations := d.considerations.getD b.considerations
  outOfScopeFlag := d.outOfScopeFlag.getD b.outOfScopeFlag

/-- Some sent body field differs from the stored one. -/
def AdviceEdit.changes (d : AdviceEdit) (b : AdviceBody) : Bool :=
  d.directionalGuidance.any (fun v => decide (b.directionalGuidance ≠ v)) ||
  d.reflectiveQuestions.any (fun v => decide (b.reflectiveQuestions ≠ v)) ||
  d.considerations.any (fun v => decide (b.considerations ≠ v)) ||
  d.outOfScopeFlag.any fun v => decide (b.outOfScopeFlag ≠ v)

inductive Decision
  | approved | rejected
  deriving DecidableEq

/-- `Assignment.objects.filter(concern=…, advisor=…, is_active=True).exists()`. -/
def Db.isAssigned (db : Db) (concern advisor : Id) : Bool :=
  db.assignments.any fun a => decide (a.concern = concern ∧ a.advisor = advisor) && a.isActive

namespace Service

/-- `_REVIEWABLE_STATUSES`. -/
def reviewableStatuses : List AdviceStatus := [.pending, .reviewing]

/-- `_EDITABLE_STATUSES`. -/
def editableStatuses : List AdviceStatus := [.pending, .reviewing]

/-- `_DELETABLE_STATUSES`. -/
def deletableStatuses : List AdviceStatus := [.pending, .reviewing, .rejected]

def createAdvice (concernId advisor : Id) (body : AdviceBody) (submit : Bool) : Service Advice := do
  let found ← query fun db => db.liveConcern? concernId
  let concern ← getOr404 found
  let assigned ← query fun db => db.isAssigned concern.id advisor
  raiseIf (assigned = false) (.permissionDenied "배정되지 않은 고민입니다.")
  let advice : Advice :=
    { concern := concern.id, advisor := advisor, body := body, isSubmitted := submit }
  handle (atomic (write (.insertAdvice advice) fun e _ => advice.saved e)) fun _ =>
    raise (.conflict "이미 이 고민에 작성한 조언이 있습니다." none)

/-- `_lock_own_advice`. -/
def lockOwnAdvice (adviceId actor : Id) (allowedStatuses : List AdviceStatus) : Service Advice := do
  let advice ← getForUpdate (.advice adviceId) fun db => db.advices.get? adviceId
  raiseIf (advice.advisor ≠ actor) (.permissionDenied "작성자만 수정할 수 있습니다.")
  raiseIf (advice.status ∉ allowedStatuses) (.conflict "현재 상태에서는 변경할 수 없습니다." none)
  pure advice

def updateAdvice (adviceId actor : Id) (data : AdviceEdit) : Service Advice :=
  atomic do
    let advice ← lockOwnAdvice adviceId actor editableStatuses
    runIf (data.changes advice.body = true)
      (write (.insertHistory
        { advice := advice.id, version := advice.version, body := advice.body, editedBy := actor })
        fun _ _ => ())
    let set : AdviceSet :=
      { body := some (data.apply advice.body)
        version := some (if data.changes advice.body then advice.version + 1 else advice.version)
        isSubmitted := some (data.isSubmitted.getD advice.isSubmitted)
        autoNow := true }
    write (.updateAdvice advice.id set) fun e _ => set.apply e advice

def deleteAdvice (adviceId actor : Id) : Service Unit :=
  atomic do
    let advice ← lockOwnAdvice adviceId actor deletableStatuses
    write (.updateAdvice advice.id { status := some .deleted }) fun _ _ => ()

def adviceApprovedNotification (advice : Advice) (concern : Concern) (actor : Id) : Notification :=
  { recipient := concern.author
    type := .adviceApproved
    title := "조언이 승인되었습니다"
    message := "회원님의 고민에 새로운 조언이 도착했습니다."
    targetUrl := "/api/v1/advices/" ++ toString advice.id
    actorUser := some actor
    payload := [("advice_id", advice.id), ("concern_id", concern.id)] }

def adviceRejectedNotification (advice : Advice) (concern : Concern) (actor : Id) (reason : String) :
    Notification :=
  { recipient := advice.advisor
    type := .adviceRejected
    title := "조언이 반려되었습니다"
    message := reason
    targetUrl := "/api/v1/advices/" ++ toString advice.id
    actorUser := some actor
    payload := [("advice_id", advice.id), ("concern_id", concern.id)] }

/-- The instance `review_advice` saves, whole. -/
def reviewed (advice : Advice) (actor : Id) (decision : Decision) (reason : String)
    (reviewedAt : Time) : Advice :=
  { advice with
    reviewedBy := some actor
    reviewedAt := some reviewedAt
    status := match decision with
      | .approved => .approved
      | .rejected => .rejected
    rejectReason := match decision with
      | .approved => advice.rejectReason
      | .rejected => reason }

/-- What a decision does beyond the advice. -/
def decisionEffects (advice : Advice) (concern : Concern) (actor : Id) (decision : Decision)
    (reason : String) : Service Unit :=
  match decision with
  | .approved => do
    runIf (concern.status = .assigned)
      (write (.updateConcern concern.id { status := some .answered }) fun _ _ => ())
    write (.insertNotification (adviceApprovedNotification advice concern actor)) fun _ _ => ()
  | .rejected =>
    write (.insertNotification (adviceRejectedNotification advice concern actor reason)) fun _ _ => ()

/-- The returned concern carries the status the instance was given. -/
def answered (concern : Concern) (decision : Decision) : Concern :=
  { concern with
    status := if decision = .approved ∧ concern.status = .assigned then .answered
      else concern.status }

def reviewAdvice (adviceId actor : Id) (decision : Decision) (reason : String)
    (expectedVersion : ℕ) : Service (Advice × Concern) :=
  atomic do
    let advice ← getForUpdate (.advice adviceId) fun db => db.advices.get? adviceId
    raiseIf (advice.isSubmitted = false) (.conflict "제출되지 않은 초안은 리뷰할 수 없습니다." none)
    raiseIf (advice.status ∉ reviewableStatuses)
      (.conflict (advice.status.value ++ " 상태의 조언은 리뷰할 수 없습니다.") none)
    raiseIf (advice.version ≠ expectedVersion)
      (.preconditionFailed "리소스가 조회 이후 변경되었습니다. 다시 조회 후 시도하세요.")
    raiseIf (decision = .rejected ∧ strip reason = "")
      (.unprocessableEntity "반려 시 사유는 필수입니다.")
    let found ← queryForUpdate
      (fun db => if (db.concerns.get? advice.concern).isSome then [.concern advice.concern] else [])
      fun db => db.concerns.get? advice.concern
    let concern ← getOr .doesNotExist found
    raiseIf (concern.deletedAt ≠ none) (.conflict "삭제된 고민의 조언은 리뷰할 수 없습니다." none)
    let now ← time
    let advice := reviewed advice actor decision reason now
    write (.saveAdvice advice) fun _ _ => ()
    decisionEffects advice concern actor decision reason
    pure (advice, answered concern decision)

end Service

end Chamneul
