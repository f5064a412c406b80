import Chamneul.Spec.ConcernViews
import Chamneul.Spec.Http

/-! `concerns.views` and `concerns.serializers`: the owner's endpoints and the advisor's
queue. -/

namespace Chamneul

open ReadCommitted ReadCommitted.Prog Service

def ConcernStatus.value : ConcernStatus → String
  | .submitted => "SUBMITTED"
  | .assigned => "ASSIGNED"
  | .answered => "ANSWERED"
  | .closed => "CLOSED"

/-- `ConcernListSerializer`. -/
structure ConcernListItem where
  concernId : Id
  concernSummary : String
  concernType : ConcernType
  status : ConcernStatus
  hasApprovedAdvice : Bool
  createdAt : Time

def concernListItem (row : Concern × Bool) : ConcernListItem where
  concernId := row.1.id
  concernSummary := row.1.fields.concernSummary
  concernType := row.1.fields.concernType
  status := row.1.status
  hasApprovedAdvice := row.2
  createdAt := row.1.createdAt

/-- `ConcernDetailSerializer`. -/
structure ConcernDetail where
  concernId : Id
  concernSummary : String
  concernType : ConcernType
  concernTypeSecondary : List ConcernType
  preferredAdvisorLane : PreferredAdvisorLane
  decisionContext : String
  isAnonymous : Bool
  status : ConcernStatus
  createdAt : Time
  approvedAdvices : List Db.ApprovedAdvice

def concernDetail (db : Db) (concern : Concern) : ConcernDetail where
  concernId := concern.id
  concernSummary := concern.fields.concernSummary
  concernType := concern.fields.concernType
  concernTypeSecondary := concern.fields.concernTypeSecondary
  preferredAdvisorLane := concern.fields.preferredAdvisorLane
  decisionContext := concern.fields.decisionContext
  isAnonymous := concern.fields.isAnonymous
  status := concern.status
  createdAt := concern.createdAt
  approvedAdvices := db.approvedAdvicesViewData concern.id

/-- `AssignedConcernListSerializer`. -/
structure AssignedConcernItem where
  concernId : Id
  concernSummary : String
  concernType : ConcernType
  assignedAt : Time
  assignmentId : Id
  adviceStatus : Option AdviceStatus

def assignedConcernItem (row : Db.AssignedConcern) : AssignedConcernItem where
  concernId := row.assignment.concern
  concernSummary := row.concern.fields.concernSummary
  concernType := row.concern.fields.concernType
  assignedAt := row.assignment.assignedAt
  assignmentId := row.assignment.id
  adviceStatus := row.adviceStatus

/-- GET (#17). -/
def ConcernListCreateView.get (user : Id) (status : Option String) (page : PageQuery) :
    Service (Response (Page ConcernListItem)) :=
  isAuthenticated user fun _ => query fun db =>
    paginated page
      ((db.listMyConcerns user).filter fun row => statusMatches status row.1.status.value)
      (List.map concernListItem)

/-- `ConcernCreateResultSerializer`. -/
structure ConcernCreateResult where
  concernId : Id
  status : ConcernStatus
  message : String

def concernCreateResult (c : Concern) : ConcernCreateResult :=
  ⟨c.id, c.status, "고민이 등록되었습니다."⟩

/-- POST (#16). -/
def ConcernListCreateView.post (user : Id) (request : Validated ConcernFields) :
    Service (Response ConcernCreateResult) :=
  isAuthenticated user fun _ => isValid request fun fields => respond "Concern" 201 do
    let concern ← createConcern user fields
    pure (concernCreateResult concern)

/-- GET (#18). -/
def ConcernDetailView.get (user concernId : Id) : Service (Response ConcernDetail) :=
  isAuthenticated user fun _ => respond "Concern" 200 do
    let concern ← read fun db => db.getOwnConcern user concernId
    query fun db => concernDetail db concern

/-- PATCH (#47). -/
def ConcernDetailView.patch (user concernId : Id) (request : Validated ConcernEdit) :
    Service (Response ConcernDetail) :=
  isAuthenticated user fun _ => isValid request fun data => respond "Concern" 200 do
    let concern ← updateOwnConcern user concernId data
    query fun db => concernDetail db concern

/-- DELETE (#19). -/
def ConcernDetailView.delete (user concernId : Id) : Service (Response Unit) :=
  isAuthenticated user fun _ => respond "Concern" 204 (deleteConcern user concernId)

/-- GET (#20). -/
def AssignedConcernListView.get (advisor : Id) (status : Option String) (page : PageQuery) :
    Service (Response (Page AssignedConcernItem)) :=
  isAuthenticated advisor fun account => isActiveAdvisor account <| query fun db =>
    paginated page
      ((db.listAssignedConcerns advisor).filter fun row =>
        statusMatches status row.concern.status.value)
      (List.map assignedConcernItem)

/-- GET (#21). -/
def AssignedConcernDetailView.get (advisor concernId : Id) :
    Service (Response Db.AssignedConcernDetail) :=
  isAuthenticated advisor fun account => isActiveAdvisor account <| respond "Assignment" 200 do
    let (concern, assignment) ← read fun db => db.getAssignedConcern advisor concernId
    query fun db => db.assignedConcernDetailViewData concern assignment advisor

end Chamneul
