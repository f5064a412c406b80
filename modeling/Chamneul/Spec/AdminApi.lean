import Chamneul.Spec.Feedback
import Chamneul.Spec.ListApi

/-! `concerns.views` and `advice.views`, the admins' side: assignments, the review of an advice and
the ratings. -/

namespace Chamneul

open ReadCommitted ReadCommitted.Prog Service

/-! concerns -/

/-- `AssignmentCreateResultSerializer`. -/
structure AssignmentCreateResult where
  assignmentId : Id
  concernId : Id
  advisorUserId : Id
  assignedBy : Id
  assignedAt : Time
  priority : AssignmentPriority
  concernStatus : ConcernStatus

def assignmentCreateResult (a : Assignment) (concernStatus : ConcernStatus) :
    AssignmentCreateResult :=
  ⟨a.id, a.concern, a.advisor, a.assignedBy, a.assignedAt, a.priority, concernStatus⟩

/-- POST (#24). -/
def AdminAssignmentCreateView.post (admin concernId : Id) (request : Validated AssignData) :
    Service (Response AssignmentCreateResult) :=
  isAdmin admin <| isValid request fun data => respond "Concern" 201 do
    let (assignment, concern) ← assignAdvisor concernId admin data
    pure (assignmentCreateResult assignment concern.status)

/-- DELETE (#25). -/
def AdminAssignmentDetailView.delete (admin concernId assignmentId : Id) :
    Service (Response Unit) :=
  isAdmin admin <| respond "Concern" 204 (unassignAdvisor concernId assignmentId)

/-! advice -/

/-- `validated_data` of `AdviceReviewSerializer`. -/
structure AdviceReviewData where
  decision : Decision
  reason : String := ""
  expectedVersion : ℕ
  min_value : 1 ≤ expectedVersion

/-- The answer of #33, with the fields of its `review`. -/
structure AdviceReviewResult where
  adviceId : Id
  status : AdviceStatus
  decision : Decision
  reviewedBy : Option Id
  reviewedAt : Option Time
  reason : String
  concernId : Id
  concernStatus : ConcernStatus
  version : ℕ

/-- PATCH (#33). -/
def AdminAdviceReviewView.patch (admin adviceId : Id) (request : Validated AdviceReviewData) :
    Service (Response AdviceReviewResult) :=
  isAdmin admin <| isValid request fun data => respond "Advice" 200 do
    let (advice, concern) ← reviewAdvice adviceId admin data.decision data.reason data.expectedVersion
    pure ⟨advice.id, advice.status, data.decision, advice.reviewedBy, advice.reviewedAt,
      advice.rejectReason, concern.id, concern.status, advice.version⟩

/-- A rating, with the advice and the author it joins. -/
def Db.getFeedbackForAdmin (db : Db) (feedbackId : Id) :
    Except APIException (Feedback × Advice × User) :=
  getObjectOr404 (do
    let feedback ← db.feedbacks.get? feedbackId
    let advice ← db.advices.get? feedback.advice
    let author ← db.users.get? feedback.author
    pure (feedback, advice, author)).toList

/-- `AdminFeedbackDetailSerializer`. -/
structure AdminFeedbackDetail where
  feedbackId : Id
  adviceId : Id
  advisorUserId : Id
  authorUserId : Id
  authorNickname : String
  score : ℕ
  content : String
  status : FeedbackStatus
  reviewedAt : Option Time
  reviewedBy : Option Id
  memo : String
  createdAt : Time

def adminFeedbackDetail (f : Feedback) (advice : Advice) (author : User) : AdminFeedbackDetail where
  feedbackId := f.id
  adviceId := f.advice
  advisorUserId := advice.advisor
  authorUserId := f.author
  authorNickname := author.nickname
  score := f.score
  content := f.content
  status := f.status
  reviewedAt := f.reviewedAt
  reviewedBy := f.reviewedBy
  memo := f.memo
  createdAt := f.createdAt

/-- GET (#37). -/
def AdminFeedbackDetailView.get (admin feedbackId : Id) : Service (Response AdminFeedbackDetail) :=
  isAdmin admin <| respond "Feedback" 200 do
    let (feedback, advice, author) ← read fun db => db.getFeedbackForAdmin feedbackId
    pure (adminFeedbackDetail feedback advice author)

/-- `validated_data` of `AdminFeedbackTransitionSerializer`. -/
structure AdminFeedbackTransition where
  status : FeedbackStatus
  memo : Option String := none

/-- `AdminFeedbackTransitionResultSerializer`. -/
structure AdminFeedbackTransitionResult where
  feedbackId : Id
  status : FeedbackStatus
  reviewedAt : Option Time
  reviewedBy : Option Id

/-- PATCH (#38). -/
def AdminFeedbackDetailView.patch (admin feedbackId : Id)
    (request : Validated AdminFeedbackTransition) :
    Service (Response AdminFeedbackTransitionResult) :=
  isAdmin admin <| isValid request fun data => respond "Feedback" 200 do
    let feedback ← transitionFeedback feedbackId admin data.status data.memo
    pure ⟨feedback.id, feedback.status, feedback.reviewedAt, feedback.reviewedBy⟩

end Chamneul
