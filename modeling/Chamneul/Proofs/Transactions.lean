import Chamneul.Proofs.Rules

/-! What each call commits: the guards as they stand on the committed rows, the
locks they stand under, and the changes. `drift` relates a database read without
a lock to the one the call commits on. -/

namespace Chamneul

open ReadCommitted ReadCommitted.Prog Service

/-- What a change made only where `c` holds has left pending. -/
inductive RanIf (c : Prop) (x : Write) : Pending Write → Prop
  | ran (e : Env) (hc : c) : RanIf c x [(e, x)]
  | skipped (hc : ¬ c) : RanIf c x []

theorem RanIf.eq_of_mem {c : Prop} {x : Write} {w : Pending Write} (h : RanIf c x w) {p : Env × Write}
    (hp : p ∈ w) : p.2 = x := by
  cases h with
  | ran e hc => rw [List.mem_singleton.mp hp]
  | skipped hc => cases hp

/-- What an approval has done about the applicant's role: found it held at some
earlier moment, or inserted it. -/
inductive RoleGiven (drift : Db → Db → Prop) (applicant : Id) (L : Set Key) (db : Db) :
    Pending Write → Prop
  | found (db₁ : Db) (hd : drift db₁ db) (hheld : db₁.hasRole applicant .advisor = true) :
      RoleGiven drift applicant L db []
  | created (e : Env) (hid : Key.userRole e.uuid ∈ L)
      (hentry : Key.userRoleEntry applicant .advisor ∈ L)
      (hfresh : db.FreshRole e.uuid applicant .advisor) :
      RoleGiven drift applicant L db [(e, .insertUserRole { user := applicant, role := .advisor })]

def BulkUpdate (p : Concern → Bool) (set : ConcernSet) (L : Set Key) (w : Pending Write) (db : Db) :
    Prop :=
  ∃ rows : List (Env × Id), w = rows.map (fun r => (r.1, Write.updateConcern r.2 set)) ∧
    (rows.map Prod.snd).Nodup ∧ ∀ r ∈ rows, Key.concern r.2 ∈ L ∧
      ∃ c, db.concerns.get? r.2 = some c ∧ p c = true

section

variable (drift : Db → Db → Prop) (L : Set Key) (w : Pending Write) (db : Db)

/-- What `call` commits on `db`, having locked `L`. -/
def Committed : Call → Prop
  | .setActiveRole user target => ∃ e, Key.user user ∈ L ∧ target.toRole ∈ db.heldRoles user ∧
      w = [(e, .updateUser user { activeRole := some target })]
  | .updateProfile user data => ∃ e, Key.user user ∈ L ∧ w = [(e, .updateUser user data.toSet)]
  | .grantRole target role actor reason => ∃ e₁ e₂, role ∈ grantableRoles ∧ Key.user target ∈ L ∧
      db.FreshRole e₁.uuid target role ∧ db.roleGrants.get? e₂.uuid = none ∧
      w = [(e₁, .insertUserRole { user := target, role := role }),
        (e₂, .insertRoleGrant
          { user := target, role := role, action := .grant, actedBy := actor, reason := reason })]
  | .revokeRole target role actor reason => ∃ e₁ e₂ user row, role ∈ grantableRoles ∧
      Key.user target ∈ L ∧ db.users.get? target = some user ∧
      db.userRoles.get? (target, role) = some row ∧ db.roleGrants.get? e₂.uuid = none ∧
      (role = .admin → target ≠ actor ∧
        ∃ x ≠ target, db.hasRole x .admin = true ∧ db.isActiveUser x = true) ∧
      ∃ demotion, w = [(e₁, .deleteUserRole row), (e₂, .insertRoleGrant
          { user := target, role := role, action := .revoke, actedBy := actor
            reason := reason })] ++ demotion ∧
        RanIf (role = .advisor ∧ user.activeRole = .advisor)
          (.updateUser target { activeRole := some .user }) demotion
  | .createApplication applicant displayName => ∃ e db₁ db₂, drift db₁ db ∧ drift db₂ db ∧
      db₂.blocks applicant (db₁.hasRole applicant .advisor) = false ∧
      db.applications.get? e.uuid = none ∧
      w = [(e, .insertApplication { applicant := applicant, displayName := displayName })]
  | .reviewApplication id actor target reason => ∃ row e₁ e₂ now effects,
      Key.application id ∈ L ∧ db.applications.get? id = some row ∧ target ∈ row.status.allowed ∧
      (target = .rejected → strip reason ≠ "") ∧ db.notifications.get? e₂.uuid = none ∧
      w = (e₁, .updateApplication id (reviewSet row actor target reason now)) :: effects ∧
      (target = .approved → ∃ e₃ role, RoleGiven drift row.applicant L db role ∧
        db.roleGrants.get? e₃.uuid = none ∧
        effects = role ++ [(e₃, .insertRoleGrant (approvalGrant row.applicant actor)),
          (e₂, .insertNotification (approvedNotification row actor))]) ∧
      (target ≠ .approved →
        effects = [(e₂, .insertNotification (rejectedNotification row actor reason))])
  | .createConcern author fields => ∃ e, db.concerns.get? e.uuid = none ∧
      w = [(e, .insertConcern { author := author, fields := fields })]
  | .updateOwnConcern user id data => ∃ e row, Key.concern id ∈ L ∧
      db.concerns.get? id = some row ∧ row.deletedAt = none ∧ row.author = user ∧
      row.status = .submitted ∧ db.everAssigned id = false ∧
      w = [(e, .updateConcern id { fields := some (data.apply row.fields), autoNow := true })]
  | .deleteConcern user id => ∃ e now db₁ row, drift db₁ db ∧ db₁.concerns.get? id = some row ∧
      row.author = user ∧ row.deletedAt = none ∧
      w = [(e, .updateConcern id { deletedAt := some (some now) })]
  | .assignAdvisor id actor data => ∃ e₁ e₂ row transition, Key.concern id ∈ L ∧
      db.concerns.get? id = some row ∧ row.deletedAt = none ∧ row.status ≠ .closed ∧
      (∃ db₁, drift db₁ db ∧ db₁.hasRole data.advisorUserId .advisor = true) ∧
      db.assignments.get? e₁.uuid = none ∧ db.notifications.get? e₂.uuid = none ∧
      (let draft : Assignment :=
        { concern := id, advisor := data.advisorUserId, assignedBy := actor
          triageDecision := data.triageDecision, priority := data.priority }
      w = [(e₁, .insertAssignment draft)] ++ transition ++
        [(e₂, .insertNotification (assignmentNotification (draft.saved e₁) id actor))]) ∧
      RanIf (row.status = .submitted) (.updateConcern id { status := some .assigned }) transition
  | .unassignAdvisor id assignmentId => ∃ e₁ now row assignment transition, Key.concern id ∈ L ∧
      db.concerns.get? id = some row ∧ db.assignments.get? assignmentId = some assignment ∧
      assignment.concern = id ∧ assignment.isActive = true ∧
      w = (e₁, .deactivateAssignment assignmentId now) :: transition ∧
      RanIf ((apply e₁ (.deactivateAssignment assignmentId now) db).stillAssigned id = false ∧
          row.status = .assigned)
        (.updateConcern id { status := some .submitted }) transition
  | .closeSelected _ => ∃ now, BulkUpdate
      (fun c => decide (c.status = .answered) && c.deletedAt.isNone)
      { status := some .closed, updatedAt := some now } L w db
  | .softDeleteSelected _ => ∃ now, BulkUpdate (fun c => c.deletedAt.isNone)
      { deletedAt := some (some now) } L w db
  | .restoreSelected _ => BulkUpdate (fun c => c.deletedAt.isSome) { deletedAt := some none } L w db
  | .createAdvice id advisor body submit => ∃ e db₁ db₂ row, drift db₁ db ∧ drift db₂ db ∧
      db₁.liveConcern? id = some row ∧ db₂.isAssigned id advisor = true ∧
      db.advices.get? e.uuid = none ∧
      w = [(e, .insertAdvice
        { concern := id, advisor := advisor, body := body, isSubmitted := submit })]
  | .updateAdvice id actor data => ∃ e row snapshot, Key.advice id ∈ L ∧
      db.advices.get? id = some row ∧ row.advisor = actor ∧ row.status ∈ editableStatuses ∧
      w = snapshot ++ [(e, .updateAdvice id
        { body := some (data.apply row.body)
          version := some (if data.changes row.body then row.version + 1 else row.version)
          isSubmitted := some (data.isSubmitted.getD row.isSubmitted)
          autoNow := true })] ∧
      (data.changes row.body = true → db.histories.get? (id, row.version) = none) ∧
      RanIf (data.changes row.body = true) (.insertHistory
        { advice := id, version := row.version, body := row.body, editedBy := actor }) snapshot
  | .deleteAdvice id actor => ∃ e row, Key.advice id ∈ L ∧ db.advices.get? id = some row ∧
      row.advisor = actor ∧ row.status ∈ deletableStatuses ∧
      w = [(e, .updateAdvice id { status := some .deleted })]
  | .reviewAdvice id actor decision reason expectedVersion => ∃ e₁ e₂ now row concern transition,
      Key.advice id ∈ L ∧ Key.concern row.concern ∈ L ∧ db.advices.get? id = some row ∧
      row.isSubmitted = true ∧ row.status ∈ reviewableStatuses ∧ row.version = expectedVersion ∧
      (decision = .rejected → strip reason ≠ "") ∧
      db.concerns.get? row.concern = some concern ∧ concern.deletedAt = none ∧
      db.notifications.get? e₂.uuid = none ∧
      (let saved := reviewed row actor decision reason now
      w = [(e₁, .saveAdvice saved)] ++ transition ++ [(e₂, .insertNotification
        (match decision with
          | .approved => adviceApprovedNotification saved concern actor
          | .rejected => adviceRejectedNotification saved concern actor reason))]) ∧
      RanIf (decision = .approved ∧ concern.status = .assigned)
        (.updateConcern row.concern { status := some .answered }) transition
  | .createFeedback id author data => ∃ e db₁ row concern, drift db₁ db ∧
      db₁.adviceAndConcern? id = some (row, concern) ∧ concern.author = author ∧
      concern.deletedAt = none ∧ row.status = .approved ∧ db.feedbacks.get? e.uuid = none ∧
      w = [(e, .insertFeedback
        { advice := id, author := author, score := data.score, content := data.content })]
  | .transitionFeedback id actor newStatus memo => ∃ e now db₁ row, drift db₁ db ∧
      db₁.feedbacks.get? id = some row ∧ newStatus ∈ row.status.allowed ∧ Key.feedback id ∈ L ∧
      w = [(e, .updateFeedback id (transitionSet actor newStatus memo now))]
  | .markRead user id => ∃ row, Key.notification id ∈ L ∧ db.notifications.get? id = some row ∧
      row.recipient = user ∧ ((row.isRead = true ∧ w = []) ∨
        (row.isRead = false ∧ ∃ e now, w = [(e, .readNotification id now)]))

end

abbrev commits (drift : Db → Db → Prop) (call : Call) : Duty Db Key Write :=
  Duty.ofCommit fun L w σ => Committed drift L w σ.db call

end Chamneul
