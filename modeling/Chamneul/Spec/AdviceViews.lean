import Chamneul.Spec.ConcernViews
import Chamneul.Spec.Feedback

/-! The reads of `advice.services`: who may see an advice, and the two lists. -/

namespace Chamneul

/-- `VIEWER_AUTHOR`, `VIEWER_OWNER` and `VIEWER_ADMIN`. -/
inductive Viewer
  | author | owner | admin
  deriving DecidableEq

namespace Db

/-- `_is_admin`. -/
def isAdmin (db : Db) (user : Id) : Bool :=
  (db.users.get? user).any (·.isSuperuser) || db.hasRole user .admin

def getVisibleAdvice (db : Db) (adviceId user : Id) : Except APIException (Advice × Viewer) := do
  let (advice, concern) ← getObjectOr404 (db.adviceAndConcern? adviceId).toList
  if advice.advisor = user then pure (advice, .author)
  else if db.isAdmin user then pure (advice, .admin)
  else if concern.author = user ∧ advice.status = .approved ∧ concern.deletedAt = none then
    pure (advice, .owner)
  else throw (.permissionDenied "조회 권한이 없습니다.")

/-- A row of the inbox: the advice, the concern it joins, and `is_feedback_submitted`. -/
structure ReceivedAdvice where
  advice : Advice
  concern : Concern
  isFeedbackSubmitted : Bool
  deriving DecidableEq

def listReceivedAdvices (db : Db) (user : Id) : List ReceivedAdvice :=
  (newestFirst Advice.createdAt (db.advices.rows.filter fun a =>
    decide (a.status = .approved))).filterMap fun a =>
      ((db.concerns.get? a.concern).filter fun c =>
        decide (c.author = user) && c.deletedAt.isNone).map fun c =>
          ⟨a, c, db.feedbacks.any fun f => decide (f.advice = a.id)⟩

def listAdvicesWrittenBy (db : Db) (advisor : Id) : List Advice :=
  newestFirst Advice.createdAt (db.advices.rows.filter fun a => decide (a.advisor = advisor))

end Db

end Chamneul
