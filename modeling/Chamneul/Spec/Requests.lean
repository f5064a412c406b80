import Chamneul.Spec.AdviceApi
import Chamneul.Spec.ConcernApi
import Chamneul.Spec.NotificationApi

/-! The requests by which a concern's owner and an advisor see what the other side does. -/

namespace Chamneul

/-- The owner's endpoints. -/
inductive OwnerRequest
  /-- #17 -/
  | concerns (status : Option String) (page : PageQuery)
  /-- #18 -/
  | concern (concernId : Id)
  /-- #47 -/
  | editConcern (concernId : Id) (request : Validated ConcernEdit)
  /-- #26 -/
  | receivedAdvices (request : Validated ReceivedAdviceQuery) (page : PageQuery)
  /-- #27 -/
  | advice (adviceId : Id)
  /-- #34 -/
  | rate (adviceId : Id) (request : Validated FeedbackData)
  /-- #39 -/
  | notifications (request : Validated NotificationQuery) (page : PageQuery)

def OwnerRequest.Body : OwnerRequest → Type
  | .concerns .. => Page ConcernListItem
  | .concern .. => ConcernDetail
  | .editConcern .. => ConcernDetail
  | .receivedAdvices .. => Page ReceivedAdviceItem
  | .advice .. => AdviceDetail
  | .rate .. => FeedbackCreateResult
  | .notifications .. => NotificationPage

def ownerView (icontains : String → String → Bool) (user : Id) :
    (r : OwnerRequest) → Service (Response r.Body)
  | .concerns status page => ConcernListCreateView.get user status page
  | .concern concernId => ConcernDetailView.get user concernId
  | .editConcern concernId request => ConcernDetailView.patch user concernId request
  | .receivedAdvices request page => ReceivedAdviceListView.get icontains user request page
  | .advice adviceId => AdviceDetailView.get user adviceId
  | .rate adviceId request => FeedbackCreateView.post user adviceId request
  | .notifications request page => NotificationListView.get user request page

/-- The advisor's endpoints, and the advisor's own notifications. -/
inductive AdvisorRequest
  /-- #20 -/
  | assignedConcerns (status : Option String) (page : PageQuery)
  /-- #21 -/
  | assignedConcern (concernId : Id)
  /-- #27 -/
  | advice (adviceId : Id)
  /-- #28 -/
  | createAdvice (concernId : Id) (request : Validated AdviceCreateData)
  /-- #29 -/
  | updateAdvice (adviceId : Id) (request : Validated AdviceEdit)
  /-- #30 -/
  | deleteAdvice (adviceId : Id)
  /-- #31 -/
  | advicesWritten (request : Validated AdviceWrittenQuery) (page : PageQuery)
  /-- #39 -/
  | notifications (request : Validated NotificationQuery) (page : PageQuery)
  /-- #40 -/
  | notification (notificationId : Id)
  /-- #41 -/
  | readNotification (notificationId : Id)

def AdvisorRequest.Body : AdvisorRequest → Type
  | .assignedConcerns .. => Page AssignedConcernItem
  | .assignedConcern .. => Db.AssignedConcernDetail
  | .advice .. => AdviceDetail
  | .createAdvice .. => AdviceCreateResult
  | .updateAdvice .. => AdviceUpdateResult
  | .deleteAdvice .. => Unit
  | .advicesWritten .. => Page AdviceWrittenItem
  | .notifications .. => NotificationPage
  | .notification .. => NotificationDetail
  | .readNotification .. => NotificationReadResult

def advisorView (advisor : Id) : (r : AdvisorRequest) → Service (Response r.Body)
  | .assignedConcerns status page => AssignedConcernListView.get advisor status page
  | .assignedConcern concernId => AssignedConcernDetailView.get advisor concernId
  | .advice adviceId => AdviceDetailView.get advisor adviceId
  | .createAdvice concernId request => AdviceCreateView.post advisor concernId request
  | .updateAdvice adviceId request => AdviceDetailView.patch advisor adviceId request
  | .deleteAdvice adviceId => AdviceDetailView.delete advisor adviceId
  | .advicesWritten request page => AdvicesWrittenView.get advisor request page
  | .notifications request page => NotificationListView.get advisor request page
  | .notification notificationId => NotificationDetailView.get advisor notificationId
  | .readNotification notificationId => NotificationReadView.patch advisor notificationId

end Chamneul
