import Chamneul.Spec.Accounts

/-! `concerns.services` and the three bulk actions of `concerns.admin`: writing,
editing and withdrawing a concern, assigning and unassigning advisors. -/

namespace Chamneul

open ReadCommitted ReadCommitted.Prog

namespace Db

/-- `Assignment.objects.filter(concern=concern).exists()`. -/
def everAssigned (db : Db) (concern : Id) : Bool :=
  db.assignments.any fun a => decide (a.concern = concern)

/-- `Assignment.objects.filter(concern=concern, is_active=True).exists()`. -/
def stillAssigned (db : Db) (concern : Id) : Bool :=
  db.assignments.any fun a => decide (a.concern = concern) && a.isActive

/-- The rows ticked in the admin's list, deleted ones included. -/
def selected (db : Db) (ids : List Id) : List Concern :=
  db.concerns.rows.filter fun c => decide (c.id ∈ ids)

/-- The rows of `Concern.objects`, the manager that hides soft-deleted ones. -/
def liveConcern? (db : Db) (id : Id) : Option Concern :=
  (db.concerns.get? id).filter fun c => c.deletedAt.isNone

end Db

/-- `validated_data` of `ConcernUpdateSerializer`, every field optional. -/
structure ConcernEdit where
  concernSummary : Option String := none
  concernType : Option ConcernType := none
  concernTypeSecondary : Option (List ConcernType) := none
  preferredAdvisorLane : Option PreferredAdvisorLane := none
  decisionContext : Option String := none
  displayAlias : Option String := none
  isAnonymous : Option Bool := none

def ConcernEdit.apply (d : ConcernEdit) (f : ConcernFields) : ConcernFields where
  concernSummary := d.concernSummary.getD f.concernSummary
  concernType := d.concernType.getD f.concernType
  concernTypeSecondary := d.concernTypeSecondary.getD f.concernTypeSecondary
  preferredAdvisorLane := d.preferredAdvisorLane.getD f.preferredAdvisorLane
  decisionContext := d.decisionContext.getD f.decisionContext
  displayAlias := d.displayAlias.getD f.displayAlias
  isAnonymous := d.isAnonymous.getD f.isAnonymous

/-- `validated_data` of `AssignmentCreateSerializer`. -/
structure AssignData where
  advisorUserId : Id
  triageDecision : TriageDecision
  priority : AssignmentPriority := .normal

namespace Service

def createConcern (author : Id) (fields : ConcernFields) : Service Concern :=
  let concern : Concern := { author := author, fields := fields }
  atomic (write (.insertConcern concern) fun e _ => concern.saved e)

/-- `get_own_concern_including_deleted`. -/
def getOwnConcernIncludingDeleted (user concernId : Id) : Service Concern := do
  let concern ← query fun db => (db.concerns.get? concernId).filter fun c => decide (c.author = user)
  getOr404 concern

def updateOwnConcern (user concernId : Id) (data : ConcernEdit) : Service Concern :=
  atomic do
    let concern ← getForUpdate (.concern concernId) fun db =>
      (db.liveConcern? concernId).filter fun c => decide (c.author = user)
    let everAssigned ← query fun db => db.everAssigned concern.id
    raiseIf (concern.status ≠ .submitted ∨ everAssigned = true)
      (.conflict "조언가에게 배정된 적이 있는 고민은 고칠 수 없습니다." (some "NOT_EDITABLE"))
    let set : ConcernSet := { fields := some (data.apply concern.fields), autoNow := true }
    write (.updateConcern concern.id set) fun e _ => set.apply e concern

/-- `soft_delete_concern`, on the row the view fetched. It takes no lock. -/
def softDeleteConcern (concern : Concern) : Service Unit := do
  raiseIf (concern.deletedAt ≠ none) (.conflict "이미 삭제된 고민입니다." none)
  let now ← time
  atomic (write (.updateConcern concern.id { deletedAt := some (some now) }) fun _ _ => ())

/-- `ConcernDetailView.delete`. -/
def deleteConcern (user concernId : Id) : Service Unit := do
  let concern ← getOwnConcernIncludingDeleted user concernId
  softDeleteConcern concern

def assignmentNotification (assignment : Assignment) (concern actor : Id) : Notification :=
  { recipient := assignment.advisor
    type := .assignmentCreated
    title := "새로운 고민이 배정되었습니다"
    message := "배정된 고민의 내용은 배정 상세에서 확인할 수 있습니다."
    targetUrl := "/api/v1/users/me/assigned-concerns/" ++ toString concern
    actorUser := some actor
    payload := [("concern_id", concern), ("assignment_id", assignment.id)] }

def assignAdvisor (concernId actor : Id) (data : AssignData) : Service (Assignment × Concern) := do
  let isAdvisor ← query fun db => db.hasRole data.advisorUserId .advisor
  raiseIf (isAdvisor = false) (.unprocessableEntity "조언가 역할을 보유한 사용자가 아닙니다.")
  atomic do
    let concern ← getForUpdate (.concern concernId) fun db => db.concerns.get? concernId
    raiseIf (concern.deletedAt ≠ none) (.conflict "삭제된 고민에는 배정할 수 없습니다." none)
    raiseIf (concern.status = .closed) (.conflict "종료된 고민에는 배정할 수 없습니다." none)
    let draft : Assignment :=
      { concern := concern.id, advisor := data.advisorUserId, assignedBy := actor
        triageDecision := data.triageDecision, priority := data.priority }
    let assignment ← handle (write (.insertAssignment draft) fun e _ => draft.saved e) fun _ =>
      raise (.conflict "이미 배정된 조언가입니다." none)
    runIf (concern.status = .submitted)
      (write (.updateConcern concern.id { status := some .assigned }) fun _ _ => ())
    write (.insertNotification (assignmentNotification assignment concern.id actor)) fun _ _ => ()
    pure (assignment, { concern with
      status := if concern.status = .submitted then .assigned else concern.status })

def unassignAdvisor (concernId assignmentId : Id) : Service Unit :=
  atomic do
    let concern ← getForUpdate (.concern concernId) fun db => db.concerns.get? concernId
    let found ← query fun db =>
      (db.assignments.get? assignmentId).filter fun a => decide (a.concern = concern.id)
    let assignment ← getOr404 found
    raiseIf (assignment.isActive = false) (.conflict "이미 해제된 배정입니다." none)
    let now ← time
    write (.deactivateAssignment assignment.id now) fun _ _ => ()
    let stillAssigned ← query fun db => db.stillAssigned concern.id
    runIf (stillAssigned = false ∧ concern.status = .assigned)
      (write (.updateConcern concern.id { status := some .submitted }) fun _ _ => ())

/-! An admin action is one `UPDATE … WHERE` over the selected rows: PostgreSQL
finds the matching rows first, then takes them one at a time, waiting for each
and checking it again. -/

/-- Update row `id` if it still satisfies `p`. -/
def updateWhere (p : Concern → Bool) (set : ConcernSet) (id : Id) : Service (Option Id) := do
  let updated ← execute
    (fun db => if (db.concerns.get? id).any p then [Write.updateConcern id set] else [])
    .integrityError fun _ db => (db.concerns.get? id).any p
  pure (if updated then some id else none)

/-- `queryset.filter(p).update(set)`: the number of rows updated. -/
def bulkUpdate (selected : List Id) (p : Concern → Bool) (set : ConcernSet) : Service ℕ :=
  atomic do
    let rows ← query fun db => (db.selected selected).filter p
    let updated ← collect (fun row => updateWhere p set row.id) rows
    pure updated.length

def closeSelected (selected : List Id) : Service String := do
  let now ← time
  let updated ← bulkUpdate selected (fun c => decide (c.status = .answered) && c.deletedAt.isNone)
    { status := some .closed, updatedAt := some now }
  let count ← query fun db => (db.selected selected).length
  let skipped := (count : ℤ) - updated
  pure (toString updated ++ "건 종료" ++
    if skipped ≠ 0 then " / " ++ toString skipped ++ "건 건너뜀 (ANSWERED가 아니거나 삭제된 고민)"
    else "")

def softDeleteSelected (selected : List Id) : Service String := do
  let now ← time
  let updated ← bulkUpdate selected (fun c => c.deletedAt.isNone) { deletedAt := some (some now) }
  pure (toString updated ++ "건 soft delete 처리")

def restoreSelected (selected : List Id) : Service String := do
  let updated ← bulkUpdate selected (fun c => c.deletedAt.isSome) { deletedAt := some none }
  pure (toString updated ++ "건 복구")

end Service

end Chamneul
