import Chamneul.Spec.Advisors
import Chamneul.Spec.Advice
import Chamneul.Spec.Feedback
import Chamneul.Spec.Notifications
import Chamneul.Store.Schedule

/-! The system: the calls of the service layer that write accounts, applications,
concerns, advices, feedbacks and notifications, each an arbitrary session of the
database. -/

namespace Chamneul

open ReadCommitted

inductive Call
  | setActiveRole (user : Id) (target : ActiveRole)
  | updateProfile (user : Id) (data : Service.ProfileData)
  | grantRole (target : Id) (role : Role) (actor : Id) (reason : String)
  | revokeRole (target : Id) (role : Role) (actor : Id) (reason : String)
  | createApplication (applicant : Id) (displayName : String)
  | reviewApplication (application actor : Id) (target : AdvisorApplicationStatus) (reason : String)
  | createConcern (author : Id) (fields : ConcernFields)
  | updateOwnConcern (user concern : Id) (data : ConcernEdit)
  | deleteConcern (user concern : Id)
  | assignAdvisor (concern actor : Id) (data : AssignData)
  | unassignAdvisor (concern assignment : Id)
  | closeSelected (selected : List Id)
  | softDeleteSelected (selected : List Id)
  | restoreSelected (selected : List Id)
  | createAdvice (concern advisor : Id) (body : AdviceBody) (submit : Bool)
  | updateAdvice (advice actor : Id) (data : AdviceEdit)
  | deleteAdvice (advice actor : Id)
  | reviewAdvice (advice actor : Id) (decision : Decision) (reason : String) (expectedVersion : ℕ)
  | createFeedback (advice author : Id) (data : FeedbackData)
  | transitionFeedback (feedback actor : Id) (newStatus : FeedbackStatus) (memo : Option String)
  | markRead (user notification : Id)

def Call.Res : Call → Type
  | .setActiveRole .. => Unit
  | .updateProfile .. => User
  | .grantRole .. => User × RoleGrant
  | .revokeRole .. => User
  | .createApplication .. => AdvisorApplication
  | .reviewApplication .. => AdvisorApplication
  | .createConcern .. => Concern
  | .updateOwnConcern .. => Concern
  | .deleteConcern .. => Unit
  | .assignAdvisor .. => Assignment × Concern
  | .unassignAdvisor .. => Unit
  | .closeSelected .. => String
  | .softDeleteSelected .. => String
  | .restoreSelected .. => String
  | .createAdvice .. => Advice
  | .updateAdvice .. => Advice
  | .deleteAdvice .. => Unit
  | .reviewAdvice .. => Advice × Concern
  | .createFeedback .. => Feedback
  | .transitionFeedback .. => Feedback
  | .markRead .. => Notification

open Service in
def program : (call : Call) → Service call.Res
  | .setActiveRole user target => setActiveRole user target
  | .updateProfile user data => updateProfile user data
  | .grantRole target role actor reason => grantRole target role actor reason
  | .revokeRole target role actor reason => revokeRole target role actor reason
  | .createApplication applicant displayName => createApplication applicant displayName
  | .reviewApplication application actor target reason =>
    reviewApplication application actor target reason
  | .createConcern author fields => createConcern author fields
  | .updateOwnConcern user concern data => updateOwnConcern user concern data
  | .deleteConcern user concern => deleteConcern user concern
  | .assignAdvisor concern actor data => assignAdvisor concern actor data
  | .unassignAdvisor concern assignment => unassignAdvisor concern assignment
  | .closeSelected selected => closeSelected selected
  | .softDeleteSelected selected => softDeleteSelected selected
  | .restoreSelected selected => restoreSelected selected
  | .createAdvice concern advisor body submit => createAdvice concern advisor body submit
  | .updateAdvice advice actor data => updateAdvice advice actor data
  | .deleteAdvice advice actor => deleteAdvice advice actor
  | .reviewAdvice advice actor decision reason expectedVersion =>
    reviewAdvice advice actor decision reason expectedVersion
  | .createFeedback advice author data => createFeedback advice author data
  | .transitionFeedback feedback actor newStatus memo =>
    transitionFeedback feedback actor newStatus memo
  | .markRead user notification => markRead user notification

abbrev system : System Db Key Write APIException := ⟨Call, Call.Res, program⟩

end Chamneul
