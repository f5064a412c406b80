import Chamneul.Spec.Models

/-! The database, the row-level changes the services make to it, and what
PostgreSQL locks for each. -/

namespace Chamneul

open ReadCommitted

structure Db where
  users : Table User := .empty
  userRoles : Table UserRole := .empty
  roleGrants : Table RoleGrant := .empty
  applications : Table AdvisorApplication := .empty
  concerns : Table Concern := .empty
  assignments : Table Assignment := .empty
  advices : Table Advice := .empty
  histories : Table AdviceHistory := .empty
  feedbacks : Table Feedback := .empty
  notifications : Table Notification := .empty

/-- A row, by its primary key, or an entry of a unique index. -/
inductive Key
  | user (id : Id)
  | nickname (name : String)
  | userRole (id : Id)
  | userRoleEntry (user : Id) (role : Role)
  | roleGrant (id : Id)
  | application (id : Id)
  | displayName (name : String)
  | concern (id : Id)
  | assignment (id : Id)
  | assignmentEntry (concern advisor : Id)
  | advice (id : Id)
  | adviceEntry (concern advisor : Id)
  | historyEntry (advice : Id) (version : ℕ)
  | feedback (id : Id)
  | feedbackEntry (advice : Id)
  | notification (id : Id)
  deriving DecidableEq

/-! The columns an `UPDATE` sets; `none` leaves a column out of `update_fields`. -/

/-- Every update of a user names `updated_at`. -/
structure UserSet where
  activeRole : Option ActiveRole := none
  nickname : Option String := none
  job : Option String := none
  interest : Option String := none
  profileImageUrl : Option String := none

def UserSet.apply (e : Env) (s : UserSet) (u : User) : User :=
  { u with
    activeRole := s.activeRole.getD u.activeRole
    nickname := s.nickname.getD u.nickname
    job := s.job.getD u.job
    interest := s.interest.getD u.interest
    profileImageUrl := s.profileImageUrl.getD u.profileImageUrl
    updatedAt := e.now }

theorem UserSet.key_apply (e : Env) (s : UserSet) (u : User) :
    Keyed.key (s.apply e u) = Keyed.key u := rfl

structure ApplicationSet where
  status : AdvisorApplicationStatus
  reviewedBy : Option Id
  reviewedAt : Option Time
  rejectReason : String

def ApplicationSet.apply (s : ApplicationSet) (a : AdvisorApplication) : AdvisorApplication :=
  { a with
    status := s.status, reviewedBy := s.reviewedBy, reviewedAt := s.reviewedAt
    rejectReason := s.rejectReason }

theorem ApplicationSet.key_apply (s : ApplicationSet) (a : AdvisorApplication) :
    Keyed.key (s.apply a) = Keyed.key a := rfl

structure ConcernSet where
  fields : Option ConcernFields := none
  status : Option ConcernStatus := none
  deletedAt : Option (Option Time) := none
  /-- A value given for `updated_at`. -/
  updatedAt : Option Time := none
  /-- `updated_at` in `update_fields`, filled in by `auto_now`. -/
  autoNow : Bool := false

def ConcernSet.apply (e : Env) (s : ConcernSet) (c : Concern) : Concern :=
  { c with
    fields := s.fields.getD c.fields
    status := s.status.getD c.status
    deletedAt := s.deletedAt.getD c.deletedAt
    updatedAt := if s.autoNow then e.now else s.updatedAt.getD c.updatedAt }

theorem ConcernSet.key_apply (e : Env) (s : ConcernSet) (c : Concern) :
    Keyed.key (s.apply e c) = Keyed.key c := rfl

structure AdviceSet where
  body : Option AdviceBody := none
  version : Option ℕ := none
  isSubmitted : Option Bool := none
  status : Option AdviceStatus := none
  autoNow : Bool := false

def AdviceSet.apply (e : Env) (s : AdviceSet) (a : Advice) : Advice :=
  { a with
    body := s.body.getD a.body
    version := s.version.getD a.version
    isSubmitted := s.isSubmitted.getD a.isSubmitted
    status := s.status.getD a.status
    updatedAt := if s.autoNow then e.now else a.updatedAt }

theorem AdviceSet.key_apply (e : Env) (s : AdviceSet) (a : Advice) :
    Keyed.key (s.apply e a) = Keyed.key a := rfl

structure FeedbackSet where
  status : FeedbackStatus
  /-- `reviewed_by` and `reviewed_at`, which are set together. -/
  reviewed : Option (Id × Time) := none
  memo : Option String := none

def FeedbackSet.apply (s : FeedbackSet) (f : Feedback) : Feedback :=
  { f with
    status := s.status
    reviewedBy := s.reviewed.elim f.reviewedBy fun r => some r.1
    reviewedAt := s.reviewed.elim f.reviewedAt fun r => some r.2
    memo := s.memo.getD f.memo }

theorem FeedbackSet.key_apply (s : FeedbackSet) (f : Feedback) :
    Keyed.key (s.apply f) = Keyed.key f := rfl

inductive Write
  | updateUser (id : Id) (set : UserSet)
  | insertUserRole (row : UserRole)
  | deleteUserRole (row : UserRole)
  | insertRoleGrant (row : RoleGrant)
  | insertApplication (row : AdvisorApplication)
  | updateApplication (id : Id) (set : ApplicationSet)
  | insertConcern (row : Concern)
  | updateConcern (id : Id) (set : ConcernSet)
  | insertAssignment (row : Assignment)
  /-- `is_active = False` and `deactivated_at`. -/
  | deactivateAssignment (id : Id) (deactivatedAt : Time)
  | insertAdvice (row : Advice)
  | updateAdvice (id : Id) (set : AdviceSet)
  /-- A `save()` without `update_fields`: every column, from the instance. -/
  | saveAdvice (row : Advice)
  | insertHistory (row : AdviceHistory)
  | insertFeedback (row : Feedback)
  | updateFeedback (id : Id) (set : FeedbackSet)
  | insertNotification (row : Notification)
  /-- `is_read = True` and `read_at`. -/
  | readNotification (id : Id) (readAt : Time)

def Assignment.deactivated (t : Time) (a : Assignment) : Assignment :=
  { a with isActive := false, deactivatedAt := some t }

theorem key_deactivated (t : Time) (a : Assignment) :
    Keyed.key (a.deactivated t) = Keyed.key a := rfl

def Advice.overwritten (e : Env) (a r : Advice) : Advice := { a with id := r.id, updatedAt := e.now }

theorem key_overwritten (e : Env) (a r : Advice) :
    Keyed.key (Advice.overwritten e a r) = Keyed.key r := rfl

def Notification.marked (t : Time) (n : Notification) : Notification :=
  { n with isRead := true, readAt := some t }

theorem key_marked (t : Time) (n : Notification) : Keyed.key (n.marked t) = Keyed.key n := rfl

def apply (e : Env) : Write → Db → Db
  | .updateUser id s, db => { db with users := db.users.update id (s.apply e) (s.key_apply e) }
  | .insertUserRole r, db => { db with userRoles := db.userRoles.insert (r.saved e) }
  | .deleteUserRole r, db =>
    { db with
      userRoles := db.userRoles.delete fun x =>
        decide (x.id = r.id ∧ x.user = r.user ∧ x.role = r.role) }
  | .insertRoleGrant g, db => { db with roleGrants := db.roleGrants.insert (g.saved e) }
  | .insertApplication a, db => { db with applications := db.applications.insert (a.saved e) }
  | .updateApplication id s, db =>
    { db with applications := db.applications.update id s.apply s.key_apply }
  | .insertConcern c, db => { db with concerns := db.concerns.insert (c.saved e) }
  | .updateConcern id s, db =>
    { db with concerns := db.concerns.update id (s.apply e) (s.key_apply e) }
  | .insertAssignment a, db => { db with assignments := db.assignments.insert (a.saved e) }
  | .deactivateAssignment id t, db =>
    { db with assignments := db.assignments.update id (Assignment.deactivated t) (key_deactivated t) }
  | .insertAdvice a, db => { db with advices := db.advices.insert (a.saved e) }
  | .updateAdvice id s, db =>
    { db with advices := db.advices.update id (s.apply e) (s.key_apply e) }
  | .saveAdvice a, db =>
    { db with advices := db.advices.update a.id (Advice.overwritten e a) (key_overwritten e a) }
  | .insertHistory h, db => { db with histories := db.histories.insert (h.saved e) }
  | .insertFeedback f, db => { db with feedbacks := db.feedbacks.insert (f.saved e) }
  | .updateFeedback id s, db =>
    { db with feedbacks := db.feedbacks.update id s.apply s.key_apply }
  | .insertNotification n, db => { db with notifications := db.notifications.insert (n.saved e) }
  | .readNotification id t, db =>
    { db with notifications := db.notifications.update id (Notification.marked t) (key_marked t) }

/-- The unique constraints, partial ones included. -/
def violates (db : Db) (e : Env) : Write → Bool
  | .updateUser id s =>
    match s.nickname with
    | none => false
    | some n => db.users.any fun u => decide (u.id ≠ id ∧ u.nickname = n)
  | .insertUserRole r =>
    (db.userRoles.get? (r.user, r.role)).isSome || db.userRoles.any fun r => decide (r.id = e.uuid)
  | .deleteUserRole _ => false
  | .insertRoleGrant _ => (db.roleGrants.get? e.uuid).isSome
  | .insertApplication a =>
    (db.applications.get? e.uuid).isSome || (a.status.isActive &&
      db.applications.any fun b => decide (b.displayName = a.displayName) && b.status.isActive)
  | .updateApplication id s =>
    match db.applications.get? id with
    | none => false
    | some a => s.status.isActive && db.applications.any fun b =>
        decide (b.id ≠ id ∧ b.displayName = a.displayName) && b.status.isActive
  | .insertConcern _ => (db.concerns.get? e.uuid).isSome
  | .updateConcern _ _ => false
  | .insertAssignment a =>
    (db.assignments.get? e.uuid).isSome || (a.isActive && db.assignments.any fun b =>
      decide (b.concern = a.concern ∧ b.advisor = a.advisor) && b.isActive)
  | .deactivateAssignment _ _ => false
  | .insertAdvice a =>
    (db.advices.get? e.uuid).isSome || (decide (a.status ≠ .deleted) && db.advices.any fun b =>
      decide (b.concern = a.concern ∧ b.advisor = a.advisor ∧ b.status ≠ .deleted))
  | .updateAdvice id s =>
    match db.advices.get? id, s.status with
    | some a, some t => decide (t ≠ .deleted) && db.advices.any fun b =>
        decide (b.id ≠ id ∧ b.concern = a.concern ∧ b.advisor = a.advisor ∧ b.status ≠ .deleted)
    | _, _ => false
  | .saveAdvice a => decide (a.status ≠ .deleted) && db.advices.any fun b =>
      decide (b.id ≠ a.id ∧ b.concern = a.concern ∧ b.advisor = a.advisor ∧ b.status ≠ .deleted)
  | .insertHistory h => (db.histories.get? (h.advice, h.version)).isSome
  | .insertFeedback f =>
    (db.feedbacks.get? e.uuid).isSome || db.feedbacks.any fun b => decide (b.advice = f.advice)
  | .updateFeedback _ _ => false
  | .insertNotification _ => (db.notifications.get? e.uuid).isSome
  | .readNotification _ _ => false

/-- The row a change writes, and the unique entry it adds or takes away. -/
def locks (e : Env) : Write → List Key
  | .updateUser id s => .user id :: s.nickname.toList.map .nickname
  | .insertUserRole r => [.userRole e.uuid, .userRoleEntry r.user r.role]
  | .deleteUserRole r => [.userRole r.id, .userRoleEntry r.user r.role]
  | .insertRoleGrant _ => [.roleGrant e.uuid]
  | .insertApplication a => [.application e.uuid, .displayName a.displayName]
  | .updateApplication id _ => [.application id]
  | .insertConcern _ => [.concern e.uuid]
  | .updateConcern id _ => [.concern id]
  | .insertAssignment a => [.assignment e.uuid, .assignmentEntry a.concern a.advisor]
  | .deactivateAssignment id _ => [.assignment id]
  | .insertAdvice a => [.advice e.uuid, .adviceEntry a.concern a.advisor]
  | .updateAdvice id _ => [.advice id]
  | .saveAdvice a => [.advice a.id]
  | .insertHistory h => [.historyEntry h.advice h.version]
  | .insertFeedback f => [.feedback e.uuid, .feedbackEntry f.advice]
  | .updateFeedback id _ => [.feedback id]
  | .insertNotification _ => [.notification e.uuid]
  | .readNotification id _ => [.notification id]

/-! The foreign keys of a row. -/

def UserRole.refs (r : UserRole) : List Key := [.user r.user]

def RoleGrant.refs (g : RoleGrant) : List Key := [.user g.user, .user g.actedBy]

def AdvisorApplication.refs (a : AdvisorApplication) : List Key :=
  .user a.applicant :: a.reviewedBy.toList.map .user

def Concern.refs (c : Concern) : List Key := [.user c.author]

def Assignment.refs (a : Assignment) : List Key :=
  [.concern a.concern, .user a.advisor, .user a.assignedBy]

def Advice.refs (a : Advice) : List Key :=
  .concern a.concern :: .user a.advisor :: a.reviewedBy.toList.map .user

def AdviceHistory.refs (h : AdviceHistory) : List Key := [.advice h.advice, .user h.editedBy]

def Feedback.refs (f : Feedback) : List Key :=
  .advice f.advice :: .user f.author :: f.reviewedBy.toList.map .user

def Notification.refs (n : Notification) : List Key :=
  .user n.recipient :: n.actorUser.toList.map .user

/-- The keys a change names anew, or perhaps: a full save of an advice writes its keys as well. The
constraints are deferred, so they are looked up `FOR KEY SHARE` at the commit. -/
def Write.names : Write → List Key
  | .insertUserRole r => r.refs
  | .insertRoleGrant g => g.refs
  | .insertApplication a => a.refs
  | .updateApplication _ s => s.reviewedBy.toList.map .user
  | .insertConcern c => c.refs
  | .insertAssignment a => a.refs
  | .insertAdvice a | .saveAdvice a => a.refs
  | .insertHistory h => h.refs
  | .insertFeedback f => f.refs
  | .updateFeedback _ s => s.reviewed.toList.map fun r => .user r.1
  | .insertNotification n => n.refs
  | .updateUser _ _ | .deleteUserRole _ | .updateConcern _ _ | .deactivateAssignment _ _
  | .updateAdvice _ _ | .readNotification _ _ => []

instance : Engine Db Key Write := ⟨apply, violates, locks, Write.names⟩

abbrev Service (α : Type) := Prog Db Key Write APIException α

namespace Service

open Prog

/-- The object, or the exception for its absence. -/
def getOr {α : Type} (absent : APIException) : Option α → Service α
  | some a => pure a
  | none => raise absent

/-- `get_object_or_404`. -/
abbrev getOr404 {α : Type} (found : Option α) : Service α := getOr .notFound found

/-- A row of a `select_for_update()` and its lock, or the exception for its absence. -/
def lockOr {α : Type} (absent : APIException) (k : Key) (row : Db → Option α) : Service α := do
  let found ← queryForUpdate (fun db => if (row db).isSome then [k] else []) row
  getOr absent found

/-- `get_object_or_404(….select_for_update(), …)`. -/
abbrev getForUpdate {α : Type} (k : Key) (row : Db → Option α) : Service α := lockOr .notFound k row

/-- One `INSERT` or `UPDATE`; the answer is read off the view it ran on. -/
def write {α : Type} (x : Write) (out : Env → Db → α) : Service α :=
  execute (fun _ => [x]) .integrityError out

end Service

end Chamneul
