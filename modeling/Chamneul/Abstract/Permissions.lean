import Chamneul.Spec.Api

/-! Who may do what: the standing each request asks for, the one call of the services it can lead
to, and the changes a user of that standing may make to a row. -/

namespace Chamneul

/-- The permission classes of a view; `staff` is the Django admin's own. -/
inductive Standing
  | member | advisor | admin | staff
  deriving DecidableEq

/-- `user` has the standing on rows `db`. Who is on the staff is not a matter of these tables. -/
def Standing.holds (db : Db) (user : Id) : Standing → Prop
  | .member => db.isActiveUser user = true
  | .advisor => ∃ account, db.users.get? user = some account ∧ account.isActive = true ∧
      account.activeRole = .advisor
  | .admin => db.isAdmin user = true
  | .staff => True

/-- The standing a service is meant for. -/
def Call.standing : Call → Standing
  | .setActiveRole .. | .updateProfile .. | .createApplication .. | .createConcern ..
  | .updateOwnConcern .. | .deleteConcern .. | .createFeedback .. | .markRead .. => .member
  | .createAdvice .. | .updateAdvice .. | .deleteAdvice .. => .advisor
  | .grantRole .. | .revokeRole .. | .reviewApplication .. | .assignAdvisor ..
  | .unassignAdvisor .. | .reviewAdvice .. | .transitionFeedback .. => .admin
  | .closeSelected .. | .softDeleteSelected .. | .restoreSelected .. => .staff

/-- The call is made in the name of `user`, if it names anybody. -/
def Call.madeBy (user : Id) : Call → Prop
  | .setActiveRole u _ | .updateProfile u _ | .createApplication u _ | .createConcern u _
  | .updateOwnConcern u _ _ | .deleteConcern u _ | .createFeedback _ u _ | .markRead u _
  | .createAdvice _ u _ _ | .updateAdvice _ u _ | .deleteAdvice _ u | .grantRole _ _ u _
  | .revokeRole _ _ u _ | .reviewApplication _ u _ _ | .assignAdvisor _ u _
  | .reviewAdvice _ u _ _ _ | .transitionFeedback _ u _ _ => u = user
  | .unassignAdvisor .. | .closeSelected .. | .softDeleteSelected .. | .restoreSelected .. => True

def Request.standing : Request → Standing
  | .me | .updateMe .. | .roles | .switchRole .. | .apply .. | .myApplication | .createConcern ..
  | .concerns .. | .concern .. | .editConcern .. | .deleteConcern .. | .receivedAdvices ..
  | .advice .. | .rate .. | .myFeedbacks .. | .notifications .. | .notification ..
  | .readNotification .. => .member
  | .assignedConcerns .. | .assignedConcern .. | .createAdvice .. | .updateAdvice ..
  | .deleteAdvice .. | .advicesWritten .. => .advisor
  | .applications .. | .application .. | .reviewApplication .. | .allConcerns .. | .anyConcern ..
  | .assign .. | .unassign .. | .advices .. | .reviewAdvice .. | .feedbacks .. | .feedback ..
  | .transitionFeedback .. | .grantRole .. | .revokeRole .. => .admin

/-- The call a request of `user` asks for, if it asks for one and its data are valid. -/
def Request.call? (user : Id) : Request → Option Call
  | .updateMe request => request.validated.toOption.map (.updateProfile user)
  | .switchRole request => request.toOption.map (.setActiveRole user)
  | .apply request => request.toOption.map (.createApplication user)
  | .reviewApplication id request =>
    request.toOption.map fun data => .reviewApplication id user data.status data.rejectReason
  | .createConcern request => request.toOption.map (.createConcern user)
  | .editConcern id request => request.toOption.map (.updateOwnConcern user id)
  | .deleteConcern id => some (.deleteConcern user id)
  | .assign id request => request.toOption.map (.assignAdvisor id user)
  | .unassign id assignmentId => some (.unassignAdvisor id assignmentId)
  | .createAdvice id request =>
    request.toOption.map fun data => .createAdvice id user data.body data.submit
  | .updateAdvice id request => request.toOption.map (.updateAdvice id user)
  | .deleteAdvice id => some (.deleteAdvice id user)
  | .reviewAdvice id request => request.toOption.map fun data =>
      .reviewAdvice id user data.decision data.reason data.expectedVersion
  | .rate id request => request.toOption.map (.createFeedback id user)
  | .transitionFeedback id request =>
    request.toOption.map fun data => .transitionFeedback id user data.status data.memo
  | .readNotification id => some (.markRead user id)
  | .grantRole id request => request.toOption.map fun data => .grantRole id data.role user data.reason
  | .revokeRole id role reason => some (.revokeRole id role user reason)
  | .me | .roles | .myApplication | .applications .. | .application .. | .concerns .. | .concern ..
  | .assignedConcerns .. | .assignedConcern .. | .allConcerns .. | .anyConcern ..
  | .receivedAdvices .. | .advice .. | .advicesWritten .. | .advices .. | .myFeedbacks ..
  | .feedbacks .. | .feedback .. | .notifications .. | .notification .. => none

/-- The rows let the arrival go on to `call`. -/
def Arrival.Admits : Arrival → Db → Call → Prop
  | .request user r, db, call => r.call? user = some call ∧ r.standing.holds db user
  | .closeSelected selected, _, call => call = .closeSelected selected
  | .softDeleteSelected selected, _, call => call = .softDeleteSelected selected
  | .restoreSelected selected, _, call => call = .restoreSelected selected

/-- A request asks for the standing of its call, in the name of its user. -/
theorem Request.standing_of_call? {user : Id} {r : Request} {call : Call}
    (h : r.call? user = some call) : call.standing = r.standing ∧ call.madeBy user := by
  have hmap : ∀ {α : Type} {request : Validated α} {f : α → Call},
      request.toOption.map f = some call → ∃ data, call = f data := by
    intro α request f hf
    obtain ⟨data, -, rfl⟩ := Option.map_eq_some_iff.mp hf
    exact ⟨data, rfl⟩
  cases r with
  | updateMe _ | switchRole _ | apply _ | reviewApplication _ _ | createConcern _ | editConcern _ _
  | assign _ _ | createAdvice _ _ | updateAdvice _ _ | reviewAdvice _ _ | rate _ _
  | transitionFeedback _ _ | grantRole _ _ =>
    obtain ⟨data, rfl⟩ := hmap h
    exact ⟨rfl, rfl⟩
  | deleteConcern _ | unassign _ _ | deleteAdvice _ | readNotification _ | revokeRole _ _ _ =>
    obtain rfl := Option.some.inj h
    first | exact ⟨rfl, rfl⟩ | exact ⟨rfl, trivial⟩
  | _ => cases h

/-- The changes a user of a standing may make, by the rows they are made to. -/
def Permits (user : Id) (standing : Standing) (db : Db) : Write → Prop
  | .updateUser id s =>
    standing = .member ∧ id = user ∧ (∀ role ∈ s.activeRole, role.toRole ∈ db.heldRoles user) ∨
      standing = .admin ∧ s.activeRole = some .user ∧ s.nickname = none ∧ s.job = none ∧
        s.interest = none ∧ s.profileImageUrl = none
  | .insertUserRole r => standing = .admin ∧ r.role ∈ Service.grantableRoles
  | .deleteUserRole r =>
    standing = .admin ∧ r ∈ db.userRoles ∧ r.role ∈ Service.grantableRoles ∧
      (r.role = .admin → r.user ≠ user)
  | .insertRoleGrant g => standing = .admin ∧ g.actedBy = user
  | .insertApplication a =>
    standing = .member ∧ a.applicant = user ∧ a.status = .pending ∧ a.reviewedBy = none
  | .updateApplication id s =>
    standing = .admin ∧ s.reviewedBy = some user ∧
      ∃ a, db.applications.get? id = some a ∧ s.status ∈ a.status.allowed
  | .insertConcern c => standing = .member ∧ c.author = user ∧ c.status = .submitted
  | .updateConcern id s =>
    standing = .member ∧ s.status = none ∧ (∃ c, db.concerns.get? id = some c ∧ c.author = user) ∨
      standing = .admin ∧ s.fields = none ∧ s.deletedAt = none
  | .insertAssignment a => standing = .admin ∧ a.assignedBy = user
  | .deactivateAssignment id _ => standing = .admin ∧ (db.assignments.get? id).any (·.isActive) = true
  | .insertAdvice a =>
    standing = .advisor ∧ a.advisor = user ∧ a.status = .pending ∧ a.reviewedBy = none
  | .updateAdvice id s =>
    standing = .advisor ∧ (∃ a, db.advices.get? id = some a ∧ a.advisor = user ∧ a.status ≠ .approved) ∧
      ∀ status ∈ s.status, status = .deleted
  | .saveAdvice r =>
    standing = .admin ∧ r.reviewedBy = some user ∧ ∃ a, db.advices.get? r.id = some a ∧
      r.body = a.body ∧ r.advisor = a.advisor ∧ r.concern = a.concern ∧ r.version = a.version ∧
      r.createdAt = a.createdAt
  | .insertHistory h => standing = .advisor ∧ h.editedBy = user ∧
      ∃ a, db.advices.get? h.advice = some a ∧ a.advisor = user
  | .insertFeedback f => standing = .member ∧ f.author = user ∧ f.reviewedBy = none ∧
      ∃ a c, db.advices.get? f.advice = some a ∧ a.status = .approved ∧
        db.concerns.get? a.concern = some c ∧ c.author = user
  | .updateFeedback _ s => standing = .admin ∧ ∀ r ∈ s.reviewed, r.1 = user
  | .insertNotification n => standing = .admin ∧ n.actorUser = some user
  | .readNotification id _ =>
    standing = .member ∧ ∃ n, db.notifications.get? id = some n ∧ n.recipient = user

/-- The changes an arrival may make. The staff's actions close concerns and hide or show them. -/
def Arrival.Permits : Arrival → Db → Write → Prop
  | .request user r, db, x => Chamneul.Permits user r.standing db x
  | _, _, x => ∃ id s, x = .updateConcern id s ∧ s.fields = none

end Chamneul
