import Chamneul.Spec.Concerns

/-! `advice.services`: a concern's owner rates an approved advice, and an admin
files the rating away. -/

namespace Chamneul

open ReadCommitted ReadCommitted.Prog

/-- `validated_data` of `FeedbackCreateSerializer`. -/
structure FeedbackData where
  score : ℕ
  content : String := ""

/-- `_ALLOWED_FEEDBACK_TRANSITIONS`. -/
def FeedbackStatus.allowed : FeedbackStatus → List FeedbackStatus
  | .submitted => [.reviewed]
  | .reviewed => [.archived]
  | .archived => []

/-- `Advice.objects.select_related("concern")`, one row by primary key: the join
reaches soft-deleted concerns. -/
def Db.adviceAndConcern? (db : Db) (id : Id) : Option (Advice × Concern) := do
  let advice ← db.advices.get? id
  let concern ← db.concerns.get? advice.concern
  pure (advice, concern)

namespace Service

def createFeedback (adviceId author : Id) (data : FeedbackData) : Service Feedback := do
  let found ← query fun db => db.adviceAndConcern? adviceId
  let (advice, concern) ← getOr404 found
  raiseIf (concern.author ≠ author)
    (.permissionDenied "본인 고민에 달린 조언에만 피드백할 수 있습니다.")
  raiseIf (concern.deletedAt ≠ none) (.permissionDenied "삭제된 고민의 조언에는 피드백할 수 없습니다.")
  raiseIf (advice.status ≠ .approved) (.permissionDenied "승인된 조언에만 피드백할 수 있습니다.")
  let feedback : Feedback :=
    { advice := advice.id, author := author, score := data.score, content := data.content }
  handle (atomic (write (.insertFeedback feedback) fun e _ => feedback.saved e)) fun _ =>
    raise (.conflict "이미 이 조언에 피드백을 작성했습니다." none)

/-- The columns `transition_feedback` saves. -/
def transitionSet (actor : Id) (newStatus : FeedbackStatus) (memo : Option String) (now : Time) :
    FeedbackSet :=
  { status := newStatus
    reviewed := if newStatus = .reviewed then some (actor, now) else none
    memo := memo }

/-- Read, checked and saved in autocommit: nothing is locked in between. -/
def transitionFeedback (feedbackId actor : Id) (newStatus : FeedbackStatus) (memo : Option String) :
    Service Feedback := do
  let found ← query fun db => db.feedbacks.get? feedbackId
  let feedback ← getOr404 found
  raiseIf (newStatus ∉ feedback.status.allowed)
    (.conflict (feedback.status.value ++ " 상태에서 " ++ newStatus.value ++ "로 전이할 수 없습니다.")
      none)
  let now ← time
  let set := transitionSet actor newStatus memo now
  atomic (write (.updateFeedback feedback.id set) fun _ _ => set.apply feedback)

end Service

end Chamneul
