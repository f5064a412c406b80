import Chamneul.Spec.Database

/-! The foreign keys. A commit looks up the rows that it names, but the engine of the model does not
ask whether they are there; that it need not is a result. -/

namespace Chamneul

open ReadCommitted

/-- Some row names the key. -/
inductive Refers (db : Db) (k : Key) : Prop
  | userRole (r : UserRole) (h : r ∈ db.userRoles) (hk : k ∈ r.refs)
  | roleGrant (g : RoleGrant) (h : g ∈ db.roleGrants) (hk : k ∈ g.refs)
  | application (a : AdvisorApplication) (h : a ∈ db.applications) (hk : k ∈ a.refs)
  | concern (c : Concern) (h : c ∈ db.concerns) (hk : k ∈ c.refs)
  | assignment (a : Assignment) (h : a ∈ db.assignments) (hk : k ∈ a.refs)
  | advice (a : Advice) (h : a ∈ db.advices) (hk : k ∈ a.refs)
  | history (x : AdviceHistory) (h : x ∈ db.histories) (hk : k ∈ x.refs)
  | feedback (f : Feedback) (h : f ∈ db.feedbacks) (hk : k ∈ f.refs)
  | notification (n : Notification) (h : n ∈ db.notifications) (hk : k ∈ n.refs)

/-- The row is there. -/
def Db.Has (db : Db) : Key → Prop
  | .user id => (db.users.get? id).isSome = true
  | .concern id => (db.concerns.get? id).isSome = true
  | .advice id => (db.advices.get? id).isSome = true
  | _ => False

/-- No foreign key dangles. -/
def Db.Intact (db : Db) : Prop := ∀ k, Refers db k → db.Has k

/-- A row that is there stays there. -/
theorem has_apply {e : Env} {x : Write} {db : Db} {k : Key} (h : db.Has k) : (apply e x db).Has k := by
  cases k with
  | user id =>
    cases x with
    | updateUser _ s => exact (Table.isSome_get?_update db.users _ _ _ (s.key_apply e)).trans h
    | _ => exact h
  | concern id =>
    cases x with
    | insertConcern _ => exact Table.isSome_get?_insert h
    | updateConcern _ s => exact (Table.isSome_get?_update db.concerns _ _ _ (s.key_apply e)).trans h
    | _ => exact h
  | advice id =>
    cases x with
    | insertAdvice _ => exact Table.isSome_get?_insert h
    | updateAdvice _ s => exact (Table.isSome_get?_update db.advices _ _ _ (s.key_apply e)).trans h
    | saveAdvice a => exact (Table.isSome_get?_update db.advices _ _ _ (key_overwritten e a)).trans h
    | _ => exact h
  | _ => exact h.elim

theorem has_applyAll {w : Pending Write} {db : Db} {k : Key} (h : db.Has k) : (applyAll w db).Has k :=
  holds_applyAll (I := fun db : Db => db.Has k) h fun _ _ _ hold => has_apply hold

/-- Nobody signs up here. -/
theorem has_user_apply {e : Env} {x : Write} {db : Db} {id : Id} (h : (apply e x db).Has (.user id)) :
    db.Has (.user id) := by
  cases x with
  | updateUser _ s => exact (Table.isSome_get?_update db.users _ _ _ (s.key_apply e)).symm.trans h
  | _ => exact h

theorem has_user_applyAll {w : Pending Write} {db : Db} {id : Id} (h : (applyAll w db).Has (.user id)) :
    db.Has (.user id) := by
  by_contra hnone
  refine holds_applyAll (I := fun db : Db => ¬ db.Has (.user id)) hnone (fun p _ db hdb hafter => ?_) h
  exact hdb (has_user_apply hafter)

end Chamneul
