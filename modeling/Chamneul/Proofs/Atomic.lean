import Chamneul.Proofs.Disciplined
import Chamneul.Store.Outcomes

/-! Every service is one transaction: a call commits once and returns, or it raises. -/

namespace Chamneul

open ReadCommitted ReadCommitted.Prog Service

theorem quiet_getOr {α : Type} (absent : APIException) (found : Option α) :
    (getOr absent found).Quiet := by
  cases found <;> trivial

theorem quiet_write {α : Type} (x : Write) (out : Env → Db → α) : (Service.write x out).Quiet :=
  quiet_execute _ _ _

theorem quiet_lockOr {α : Type} {absent : APIException} (k : Key) (row : Db → Option α) :
    (lockOr absent k row).Quiet :=
  (quiet_queryForUpdate _ _).bind fun _ => quiet_getOr _ _

theorem quiet_lockAdminRoles : lockAdminRoles.Quiet := by
  refine (quiet_query _).bind fun _ => quiet_collect (fun row => ?_) _
  refine (quiet_queryForUpdate _ _).bind fun kept => ?_
  split
  · exact (quiet_queryForUpdate _ _).bind fun _ => quiet_pure _
  · exact quiet_pure _

theorem quiet_guardAdmin (target actor : Id) : (guardAdmin target actor).Quiet :=
  (quiet_raiseIf _ _).bind fun _ => quiet_lockAdminRoles.bind fun _ =>
    (quiet_raiseIf _ _).bind fun _ => quiet_raiseIf _ _

theorem quiet_reviewEffects (application : AdvisorApplication) (actor : Id)
    (target : AdvisorApplicationStatus) (reason : String) :
    (reviewEffects application actor target reason).Quiet := by
  have hrole : (getOrCreateAdvisorRole application.applicant).Quiet := by
    refine (quiet_query _).bind fun _ => ?_
    split
    · exact quiet_pure _
    · exact (quiet_write _ _).handle fun _ => (quiet_query _).bind fun _ => quiet_raiseIf _ _
  unfold reviewEffects
  split
  · exact hrole.bind fun _ => (quiet_write _ _).bind fun _ => quiet_write _ _
  · exact quiet_write _ _

theorem quiet_decisionEffects (advice : Advice) (concern : Concern) (actor : Id)
    (decision : Decision) (reason : String) :
    (decisionEffects advice concern actor decision reason).Quiet := by
  cases decision with
  | approved => exact (quiet_write _ _).runIf.bind fun _ => quiet_write _ _
  | rejected => exact quiet_write _ _

theorem quiet_lockOwnAdvice (id actor : Id) (allowed : List AdviceStatus) :
    (lockOwnAdvice id actor allowed).Quiet :=
  (quiet_lockOr _ _).bind fun _ => (quiet_raiseIf _ _).bind fun _ =>
    (quiet_raiseIf _ _).bind fun _ => quiet_pure _

theorem lands_bulkUpdate (selected : List Id) (p : Concern → Bool) (set : ConcernSet) :
    (bulkUpdate selected p set).Lands Returned := by
  refine Quiet.lands_atomic ((quiet_query _).bind fun _ => (quiet_collect (fun row => ?_) _).bind
    fun _ => quiet_pure _)
  exact (quiet_execute _ _ _).bind fun _ => quiet_pure _

/-- Every service has committed if it returns, and has not if it raises. -/
theorem program_lands (call : Call) : (program call).Lands Returned := by
  cases call with
  | setActiveRole user target =>
    exact Quiet.lands_atomic ((quiet_lockOr _ _).bind fun _ => (quiet_query _).bind fun _ =>
      (quiet_raiseIf _ _).bind fun _ => quiet_write _ _)
  | updateProfile user data =>
    exact Quiet.lands_atomic ((quiet_lockOr _ _).bind fun _ =>
      (quiet_write _ _).handle fun _ => quiet_raise _)
  | grantRole target role actor reason =>
    refine (quiet_raiseIf _ _).lands_bind fun _ => Quiet.lands_atomic ?_
    exact (quiet_lockOr _ _).bind fun _ => (quiet_query _).bind fun _ =>
      (quiet_raiseIf _ _).bind fun _ => (quiet_write _ _).bind fun _ =>
        (quiet_write _ _).bind fun _ => quiet_pure _
  | revokeRole target role actor reason =>
    refine (quiet_raiseIf _ _).lands_bind fun _ => Quiet.lands_atomic ?_
    refine (quiet_lockOr _ _).bind fun _ => (quiet_guardAdmin _ _).runIf.bind fun _ =>
      (quiet_execute _ _ _).bind fun _ => (quiet_raiseIf _ _).bind fun _ =>
        (quiet_write _ _).bind fun _ => ?_
    split_ifs
    · exact quiet_write _ _
    · exact quiet_pure _
  | createApplication applicant displayName =>
    refine (quiet_query _).lands_bind fun _ => (quiet_query _).lands_bind fun _ =>
      (quiet_raiseIf _ _).lands_bind fun _ => ?_
    exact (Quiet.lands_atomic (quiet_write _ _)).handle_raise
  | reviewApplication id actor target reason =>
    exact Quiet.lands_atomic ((quiet_lockOr _ _).bind fun _ => (quiet_raiseIf _ _).bind fun _ =>
      (quiet_raiseIf _ _).bind fun _ => quiet_time.bind fun _ => (quiet_write _ _).bind fun _ =>
        (quiet_reviewEffects _ _ _ _).bind fun _ => quiet_pure _)
  | createConcern author fields => exact Quiet.lands_atomic (quiet_write _ _)
  | updateOwnConcern user id data =>
    exact Quiet.lands_atomic ((quiet_lockOr _ _).bind fun _ => (quiet_query _).bind fun _ =>
      (quiet_raiseIf _ _).bind fun _ => quiet_write _ _)
  | deleteConcern user id =>
    refine ((quiet_query _).bind fun _ => quiet_getOr _ _).lands_bind fun _ =>
      (quiet_raiseIf _ _).lands_bind fun _ => quiet_time.lands_bind fun _ => ?_
    exact Quiet.lands_atomic (quiet_write _ _)
  | assignAdvisor id actor data =>
    refine (quiet_query _).lands_bind fun _ => (quiet_raiseIf _ _).lands_bind fun _ =>
      Quiet.lands_atomic ?_
    refine (quiet_lockOr _ _).bind fun _ => (quiet_raiseIf _ _).bind fun _ =>
      (quiet_raiseIf _ _).bind fun _ => ?_
    exact ((quiet_write _ _).handle fun _ => quiet_raise _).bind fun _ =>
      (quiet_write _ _).runIf.bind fun _ => (quiet_write _ _).bind fun _ => quiet_pure _
  | unassignAdvisor id assignmentId =>
    exact Quiet.lands_atomic ((quiet_lockOr _ _).bind fun _ => (quiet_query _).bind fun _ =>
      (quiet_getOr _ _).bind fun _ => (quiet_raiseIf _ _).bind fun _ => quiet_time.bind fun _ =>
        (quiet_write _ _).bind fun _ => (quiet_query _).bind fun _ => (quiet_write _ _).runIf)
  | closeSelected ids =>
    -- the count that is reported is read after the commit
    refine quiet_time.lands_bind fun _ => (lands_bulkUpdate _ _ _).bind fun _ => ?_
    exact fun _ => rfl
  | softDeleteSelected ids =>
    exact quiet_time.lands_bind fun _ => (lands_bulkUpdate _ _ _).bind fun _ => concludes_pure _
  | restoreSelected ids => exact (lands_bulkUpdate _ _ _).bind fun _ => concludes_pure _
  | createAdvice id advisor body submit =>
    refine (quiet_query _).lands_bind fun _ => (quiet_getOr _ _).lands_bind fun _ =>
      (quiet_query _).lands_bind fun _ => (quiet_raiseIf _ _).lands_bind fun _ => ?_
    exact (Quiet.lands_atomic (quiet_write _ _)).handle_raise
  | updateAdvice id actor data =>
    exact Quiet.lands_atomic ((quiet_lockOwnAdvice _ _ _).bind fun _ =>
      (quiet_write _ _).runIf.bind fun _ => quiet_write _ _)
  | deleteAdvice id actor =>
    exact Quiet.lands_atomic ((quiet_lockOwnAdvice _ _ _).bind fun _ => quiet_write _ _)
  | reviewAdvice id actor decision reason expectedVersion =>
    refine Quiet.lands_atomic ((quiet_lockOr _ _).bind fun _ => (quiet_raiseIf _ _).bind fun _ =>
      (quiet_raiseIf _ _).bind fun _ => (quiet_raiseIf _ _).bind fun _ =>
        (quiet_raiseIf _ _).bind fun _ => (quiet_queryForUpdate _ _).bind fun _ => ?_)
    exact (quiet_getOr _ _).bind fun _ => (quiet_raiseIf _ _).bind fun _ => quiet_time.bind fun _ =>
      (quiet_write _ _).bind fun _ => (quiet_decisionEffects _ _ _ _ _).bind fun _ => quiet_pure _
  | createFeedback id author data =>
    refine (quiet_query _).lands_bind fun _ => (quiet_getOr _ _).lands_bind fun _ =>
      (quiet_raiseIf _ _).lands_bind fun _ => (quiet_raiseIf _ _).lands_bind fun _ =>
        (quiet_raiseIf _ _).lands_bind fun _ => ?_
    exact (Quiet.lands_atomic (quiet_write _ _)).handle_raise
  | transitionFeedback id actor newStatus memo =>
    refine (quiet_query _).lands_bind fun _ => (quiet_getOr _ _).lands_bind fun _ =>
      (quiet_raiseIf _ _).lands_bind fun _ => quiet_time.lands_bind fun _ => ?_
    exact Quiet.lands_atomic (quiet_write _ _)
  | markRead user id =>
    refine Quiet.lands_atomic ((quiet_lockOr _ _).bind fun _ => ?_)
    split_ifs
    · exact quiet_pure _
    · exact quiet_time.bind fun _ => (quiet_write _ _).bind fun _ => quiet_pure _

/-- Every service is one transaction. -/
theorem program_once (call : Call) : (program call).Once := (program_lands call).once

end Chamneul
