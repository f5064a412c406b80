import Chamneul.Store.Discipline
import Chamneul.Spec.System

/-! What each lock protects: the row itself, which the engine guarantees, and the
facts over several rows that the services change only under it. -/

namespace Chamneul

open ReadCommitted ReadCommitted.Prog

/-- The databases that agree on the row or entry `k`. -/
def keeps : Key → Db → Db → Prop
  | .user id, db, db' => db'.users.get? id = db.users.get? id
  | .userRole id, db, db' => ∀ r : UserRole, r.id = id → (r ∈ db'.userRoles ↔ r ∈ db.userRoles)
  | .userRoleEntry u role, db, db' => db'.userRoles.get? (u, role) = db.userRoles.get? (u, role)
  | .roleGrant id, db, db' => db'.roleGrants.get? id = db.roleGrants.get? id
  | .application id, db, db' => db'.applications.get? id = db.applications.get? id
  | .concern id, db, db' => db'.concerns.get? id = db.concerns.get? id
  | .assignment id, db, db' => db'.assignments.get? id = db.assignments.get? id
  | .advice id, db, db' => db'.advices.get? id = db.advices.get? id
  | .historyEntry a v, db, db' => db'.histories.get? (a, v) = db.histories.get? (a, v)
  | .feedback id, db, db' => db'.feedbacks.get? id = db.feedbacks.get? id
  | .notification id, db, db' => db'.notifications.get? id = db.notifications.get? id
  | _, _, _ => True

theorem keeps_refl (k : Key) (db : Db) : keeps k db db := by
  cases k <;> simp [keeps]

theorem keeps_trans {k : Key} {db db' db'' : Db} (h : keeps k db db') (h' : keeps k db' db'') :
    keeps k db db'' := by
  cases k with
  | userRole id => exact fun r hr => (h' r hr).trans (h r hr)
  | nickname _ | displayName _ | assignmentEntry _ _ | adviceEntry _ _ | feedbackEntry _ => trivial
  | _ => exact Eq.trans h' h

/-- A change leaves alone every row and entry it does not lock. -/
theorem keeps_frame {k : Key} {e : Env} {w : Write} {db : Db} (h : k ∉ locks e w) :
    keeps k db (apply e w db) := by
  cases k with
  | user id =>
    cases w with
    | updateUser id' s =>
      have hne : id ≠ id' := by rintro rfl; simp [locks] at h
      simp [keeps, apply, Table.get?_update, hne]
    | _ => rfl
  | userRole id =>
    cases w with
    | insertUserRole r =>
      have hne : id ≠ e.uuid := by rintro rfl; simp [locks] at h
      intro x hx
      refine ⟨fun hm => ?_, fun hm => Table.mem_insert_of_mem hm⟩
      rcases Table.mem_of_mem_insert hm with hm | rfl
      · exact hm
      · exact absurd hx.symm hne
    | deleteUserRole r =>
      have hne : id ≠ r.id := by rintro rfl; simp [locks] at h
      intro x hx
      have : x.id ≠ r.id := by rw [hx]; exact hne
      simp [apply, Table.mem_delete, this]
    | _ => exact fun _ _ => Iff.rfl
  | userRoleEntry u role =>
    cases w with
    | insertUserRole r =>
      have hne : Keyed.key (r.saved e) ≠ (u, role) := by
        intro hk
        simp only [Keyed.key, UserRole.saved, Prod.mk.injEq] at hk
        simp [locks, hk.1, hk.2] at h
      exact Table.get?_insert_of_ne _ _ hne
    | deleteUserRole r =>
      simp only [keeps, apply, Table.get?_delete]
      cases hg : db.userRoles.get? (u, role) with
      | none => rfl
      | some x =>
        have hk := (Table.get?_eq_some.mp hg).2
        simp only [Keyed.key, Prod.mk.injEq] at hk
        have hne : ¬ (x.id = r.id ∧ x.user = r.user ∧ x.role = r.role) := by
          rintro ⟨-, hu, hr⟩
          simp [locks, ← hu, ← hr, hk.1, hk.2] at h
        simp only [Option.filter_some, hne, decide_false, Bool.not_false, if_true]
    | _ => rfl
  | roleGrant id =>
    cases w with
    | insertRoleGrant g =>
      have hne : e.uuid ≠ id := by rintro rfl; simp [locks] at h
      exact Table.get?_insert_of_ne _ _ hne
    | _ => rfl
  | application id =>
    cases w with
    | insertApplication a =>
      have hne : e.uuid ≠ id := by rintro rfl; simp [locks] at h
      exact Table.get?_insert_of_ne _ _ hne
    | updateApplication id' s =>
      have hne : id ≠ id' := by rintro rfl; simp [locks] at h
      simp [keeps, apply, Table.get?_update, hne]
    | _ => rfl
  | concern id =>
    cases w with
    | insertConcern a =>
      have hne : e.uuid ≠ id := by rintro rfl; simp [locks] at h
      exact Table.get?_insert_of_ne _ _ hne
    | updateConcern id' s =>
      have hne : id ≠ id' := by rintro rfl; simp [locks] at h
      simp [keeps, apply, Table.get?_update, hne]
    | _ => rfl
  | assignment id =>
    cases w with
    | insertAssignment a =>
      have hne : e.uuid ≠ id := by rintro rfl; simp [locks] at h
      exact Table.get?_insert_of_ne _ _ hne
    | deactivateAssignment id' t =>
      have hne : id ≠ id' := by rintro rfl; simp [locks] at h
      simp [keeps, apply, Table.get?_update, hne]
    | _ => rfl
  | advice id =>
    cases w with
    | insertAdvice a =>
      have hne : e.uuid ≠ id := by rintro rfl; simp [locks] at h
      exact Table.get?_insert_of_ne _ _ hne
    | updateAdvice id' s =>
      have hne : id ≠ id' := by rintro rfl; simp [locks] at h
      simp [keeps, apply, Table.get?_update, hne]
    | saveAdvice a =>
      have hne : id ≠ a.id := by rintro rfl; simp [locks] at h
      simp [keeps, apply, Table.get?_update, hne]
    | _ => rfl
  | historyEntry a v =>
    cases w with
    | insertHistory x =>
      have hne : Keyed.key (x.saved e) ≠ (a, v) := by
        intro hk
        simp only [Keyed.key, AdviceHistory.saved, Prod.mk.injEq] at hk
        simp [locks, hk.1, hk.2] at h
      exact Table.get?_insert_of_ne _ _ hne
    | _ => rfl
  | feedback id =>
    cases w with
    | insertFeedback f =>
      have hne : e.uuid ≠ id := by rintro rfl; simp [locks] at h
      exact Table.get?_insert_of_ne _ _ hne
    | updateFeedback id' s =>
      have hne : id ≠ id' := by rintro rfl; simp [locks] at h
      simp [keeps, apply, Table.get?_update, hne]
    | _ => rfl
  | notification id =>
    cases w with
    | insertNotification n =>
      have hne : e.uuid ≠ id := by rintro rfl; simp [locks] at h
      exact Table.get?_insert_of_ne _ _ hne
    | readNotification id' t =>
      have hne : id ≠ id' := by rintro rfl; simp [locks] at h
      simp [keeps, apply, Table.get?_update, hne]
    | _ => rfl
  | _ => trivial

instance : Guarded Db := ⟨keeps, keeps_refl, keeps_trans, keeps_frame⟩

/-- What the services change only under lock `k`. A user's roles are taken away,
and ADMIN is given, under the user; an assignment is made and ended under its
concern, and a history row written under its advice. -/
def owns : Key → Db → Db → Prop
  | .user u, db, db' =>
    (∀ role, db.hasRole u role = true → db'.hasRole u role = true) ∧
      (db'.hasRole u .admin = true → db.hasRole u .admin = true)
  | .concern c, db, db' =>
    ∀ a : Assignment, a.concern = c → (a ∈ db'.assignments ↔ a ∈ db.assignments)
  | .advice a, db, db' =>
    ∀ h : AdviceHistory, h.advice = a → (h ∈ db'.histories ↔ h ∈ db.histories)
  | _, _, _ => True

theorem owns_refl (k : Key) (db : Db) : owns k db db := by
  cases k <;> simp [owns]

theorem owns_trans {k : Key} {db db' db'' : Db} (h : owns k db db') (h' : owns k db' db'') :
    owns k db db'' := by
  cases k with
  | user u => exact ⟨fun role hr => h'.1 role (h.1 role hr), fun hr => h.2 (h'.2 hr)⟩
  | concern c => exact fun a ha => (h' a ha).trans (h a ha)
  | advice a => exact fun x hx => (h' x hx).trans (h x hx)
  | _ => trivial

end Chamneul
