import Chamneul.Spec.AdminApi
import Chamneul.Spec.AdvisorApi
import Chamneul.Spec.NotificationApi
import Chamneul.Spec.System

/-! The API in front of the services: the requests of `config.urls` that need a session, each with
its view, and the three bulk actions of `concerns.admin`. -/

namespace Chamneul

open ReadCommitted

inductive Request
  /-- #7 -/
  | me
  /-- #8 -/
  | updateMe (request : UserUpdate)
  /-- #9 -/
  | roles
  /-- #10 -/
  | switchRole (request : Validated ActiveRole)
  /-- #11 -/
  | apply (request : Validated String)
  /-- #12 -/
  | myApplication
  /-- #13 -/
  | applications (status : Option String) (page : PageQuery)
  /-- #14 -/
  | application (applicationId : Id)
  /-- #15 -/
  | reviewApplication (applicationId : Id) (request : Validated AdvisorApplicationReview)
  /-- #16 -/
  | createConcern (request : Validated ConcernFields)
  /-- #17 -/
  | concerns (status : Option String) (page : PageQuery)
  /-- #18 -/
  | concern (concernId : Id)
  /-- #47 -/
  | editConcern (concernId : Id) (request : Validated ConcernEdit)
  /-- #19 -/
  | deleteConcern (concernId : Id)
  /-- #20 -/
  | assignedConcerns (status : Option String) (page : PageQuery)
  /-- #21 -/
  | assignedConcern (concernId : Id)
  /-- #22 -/
  | allConcerns (filters : AdminConcernQuery) (page : PageQuery)
  /-- #23 -/
  | anyConcern (concernId : Id)
  /-- #24 -/
  | assign (concernId : Id) (request : Validated AssignData)
  /-- #25 -/
  | unassign (concernId assignmentId : Id)
  /-- #26 -/
  | receivedAdvices (request : Validated ReceivedAdviceQuery) (page : PageQuery)
  /-- #27 -/
  | advice (adviceId : Id)
  /-- #28 -/
  | createAdvice (concernId : Id) (request : Validated AdviceCreateData)
  /-- #29 -/
  | updateAdvice (adviceId : Id) (request : Validated AdviceEdit)
  /-- #30 -/
  | deleteAdvice (adviceId : Id)
  /-- #31 -/
  | advicesWritten (request : Validated AdviceWrittenQuery) (page : PageQuery)
  /-- #32 -/
  | advices (request : Validated (Option AdviceStatus)) (page : PageQuery)
  /-- #33 -/
  | reviewAdvice (adviceId : Id) (request : Validated AdviceReviewData)
  /-- #34 -/
  | rate (adviceId : Id) (request : Validated FeedbackData)
  /-- #35 -/
  | myFeedbacks (page : PageQuery)
  /-- #36 -/
  | feedbacks (request : Validated AdminFeedbackQuery) (page : PageQuery)
  /-- #37 -/
  | feedback (feedbackId : Id)
  /-- #38 -/
  | transitionFeedback (feedbackId : Id) (request : Validated AdminFeedbackTransition)
  /-- #39 -/
  | notifications (request : Validated NotificationQuery) (page : PageQuery)
  /-- #40 -/
  | notification (notificationId : Id)
  /-- #41 -/
  | readNotification (notificationId : Id)
  /-- #42 -/
  | grantRole (userId : Id) (request : Validated RoleGrantData)
  /-- #43 -/
  | revokeRole (userId : Id) (role : GrantableRole) (reason : String)

def Request.Body : Request → Type
  | .me => UserMe
  | .updateMe .. => UserUpdateResult
  | .roles => UserRoles
  | .switchRole .. => ActiveRoleResult
  | .apply .. => AdvisorApplicationCreateResult
  | .myApplication => AdvisorApplicationMe
  | .applications .. => Page AdvisorApplicationAdminItem
  | .application .. => AdvisorApplicationAdminDetail
  | .reviewApplication .. => AdvisorApplicationReviewResult
  | .createConcern .. => ConcernCreateResult
  | .concerns .. => Page ConcernListItem
  | .concern .. => ConcernDetail
  | .editConcern .. => ConcernDetail
  | .deleteConcern .. => Unit
  | .assignedConcerns .. => Page AssignedConcernItem
  | .assignedConcern .. => Db.AssignedConcernDetail
  | .allConcerns .. => Page AdminConcernItem
  | .anyConcern .. => Db.AdminConcernDetail
  | .assign .. => AssignmentCreateResult
  | .unassign .. => Unit
  | .receivedAdvices .. => Page ReceivedAdviceItem
  | .advice .. => AdviceDetail
  | .createAdvice .. => AdviceCreateResult
  | .updateAdvice .. => AdviceUpdateResult
  | .deleteAdvice .. => Unit
  | .advicesWritten .. => Page AdviceWrittenItem
  | .advices .. => Page AdminAdviceItem
  | .reviewAdvice .. => AdviceReviewResult
  | .rate .. => FeedbackCreateResult
  | .myFeedbacks .. => Page MyFeedbackItem
  | .feedbacks .. => Page AdminFeedbackItem
  | .feedback .. => AdminFeedbackDetail
  | .transitionFeedback .. => AdminFeedbackTransitionResult
  | .notifications .. => NotificationPage
  | .notification .. => NotificationDetail
  | .readNotification .. => NotificationReadResult
  | .grantRole .. => RoleGrantResult
  | .revokeRole .. => Unit

/-- The view behind a request of `user`. `icontains` is the database's match of a keyword. -/
def view (icontains : String → String → Bool) (user : Id) : (r : Request) → Service (Response r.Body)
  | .me => UserMeView.get user
  | .updateMe request => UserMeView.patch user request
  | .roles => UserRolesView.get user
  | .switchRole request => ActiveRoleView.patch user request
  | .apply request => AdvisorApplicationView.post user request
  | .myApplication => AdvisorApplicationMeView.get user
  | .applications status page => AdminAdvisorApplicationListView.get user status page
  | .application applicationId => AdminAdvisorApplicationDetailView.get user applicationId
  | .reviewApplication applicationId request =>
    AdminAdvisorApplicationDetailView.patch user applicationId request
  | .createConcern request => ConcernListCreateView.post user request
  | .concerns status page => ConcernListCreateView.get user status page
  | .concern concernId => ConcernDetailView.get user concernId
  | .editConcern concernId request => ConcernDetailView.patch user concernId request
  | .deleteConcern concernId => ConcernDetailView.delete user concernId
  | .assignedConcerns status page => AssignedConcernListView.get user status page
  | .assignedConcern concernId => AssignedConcernDetailView.get user concernId
  | .allConcerns filters page => AdminConcernListView.get icontains user filters page
  | .anyConcern concernId => AdminConcernDetailView.get user concernId
  | .assign concernId request => AdminAssignmentCreateView.post user concernId request
  | .unassign concernId assignmentId => AdminAssignmentDetailView.delete user concernId assignmentId
  | .receivedAdvices request page => ReceivedAdviceListView.get icontains user request page
  | .advice adviceId => AdviceDetailView.get user adviceId
  | .createAdvice concernId request => AdviceCreateView.post user concernId request
  | .updateAdvice adviceId request => AdviceDetailView.patch user adviceId request
  | .deleteAdvice adviceId => AdviceDetailView.delete user adviceId
  | .advicesWritten request page => AdvicesWrittenView.get user request page
  | .advices request page => AdminAdviceListView.get user request page
  | .reviewAdvice adviceId request => AdminAdviceReviewView.patch user adviceId request
  | .rate adviceId request => FeedbackCreateView.post user adviceId request
  | .myFeedbacks page => MyFeedbackListView.get user page
  | .feedbacks request page => AdminFeedbackListView.get user request page
  | .feedback feedbackId => AdminFeedbackDetailView.get user feedbackId
  | .transitionFeedback feedbackId request => AdminFeedbackDetailView.patch user feedbackId request
  | .notifications request page => NotificationListView.get user request page
  | .notification notificationId => NotificationDetailView.get user notificationId
  | .readNotification notificationId => NotificationReadView.patch user notificationId
  | .grantRole userId request => AdminUserRolesView.post user userId request
  | .revokeRole userId role reason => AdminUserRoleDetailView.delete user userId role reason

/-- What reaches the server: a request with the user of its session, or an action a member of the
staff takes on the concerns ticked in the Django admin. -/
inductive Arrival
  | request (user : Id) (r : Request)
  | closeSelected (selected : List Id)
  | softDeleteSelected (selected : List Id)
  | restoreSelected (selected : List Id)

/-- An action answers with its `message_user`. -/
def Arrival.Res : Arrival → Type
  | .request _ r => Response r.Body
  | .closeSelected _ | .softDeleteSelected _ | .restoreSelected _ => String

def serve (icontains : String → String → Bool) : (a : Arrival) → Service a.Res
  | .request user r => view icontains user r
  | .closeSelected selected => Service.closeSelected selected
  | .softDeleteSelected selected => Service.softDeleteSelected selected
  | .restoreSelected selected => Service.restoreSelected selected

abbrev api (icontains : String → String → Bool) : System Db Key Write APIException :=
  ⟨Arrival, Arrival.Res, serve icontains⟩

end Chamneul
