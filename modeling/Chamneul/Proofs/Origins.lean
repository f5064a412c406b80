import Chamneul.Spec.Database

/-! Where the rows of each table come from after one change: they were there, or the change inserts
them, or it makes them of a row that was there. -/

namespace Chamneul

open ReadCommitted

section

variable {e : Env} {x : Write} {db : Db}

theorem user_origin {u : User} (h : u ∈ (apply e x db).users) : u ∈ db.users ∨
    ∃ id s, ∃ u₀ ∈ db.users, x = .updateUser id s ∧ u = s.apply e u₀ := by
  cases x with
  | updateUser id s =>
    obtain h | ⟨u₀, h₀, -, rfl⟩ := Table.of_mem_update (s.key_apply e) h
    · exact .inl h
    · exact .inr ⟨id, s, u₀, h₀, rfl, rfl⟩
  | _ => exact .inl h

theorem userRole_origin {r : UserRole} (h : r ∈ (apply e x db).userRoles) :
    r ∈ db.userRoles ∨ ∃ y, x = .insertUserRole y ∧ r = y.saved e := by
  cases x with
  | insertUserRole y => exact (Table.mem_of_mem_insert h).imp_right fun hr => ⟨y, rfl, hr⟩
  | deleteUserRole y => exact .inl (Table.mem_delete.mp h).1
  | _ => exact .inl h

theorem roleGrant_origin {g : RoleGrant} (h : g ∈ (apply e x db).roleGrants) :
    g ∈ db.roleGrants ∨ ∃ y, x = .insertRoleGrant y ∧ g = y.saved e := by
  cases x with
  | insertRoleGrant y => exact (Table.mem_of_mem_insert h).imp_right fun hg => ⟨y, rfl, hg⟩
  | _ => exact .inl h

theorem application_origin {a : AdvisorApplication} (h : a ∈ (apply e x db).applications) :
    a ∈ db.applications ∨ (∃ y, x = .insertApplication y ∧ a = y.saved e) ∨
      ∃ id s, ∃ a₀ ∈ db.applications, x = .updateApplication id s ∧ a = s.apply a₀ := by
  cases x with
  | insertApplication y =>
    exact (Table.mem_of_mem_insert h).imp_right fun ha => .inl ⟨y, rfl, ha⟩
  | updateApplication id s =>
    obtain h | ⟨a₀, h₀, -, rfl⟩ := Table.of_mem_update s.key_apply h
    · exact .inl h
    · exact .inr (.inr ⟨id, s, a₀, h₀, rfl, rfl⟩)
  | _ => exact .inl h

theorem concern_origin {c : Concern} (h : c ∈ (apply e x db).concerns) :
    c ∈ db.concerns ∨ (∃ y, x = .insertConcern y ∧ c = y.saved e) ∨
      ∃ id s, ∃ c₀ ∈ db.concerns, x = .updateConcern id s ∧ c = s.apply e c₀ := by
  cases x with
  | insertConcern y => exact (Table.mem_of_mem_insert h).imp_right fun hc => .inl ⟨y, rfl, hc⟩
  | updateConcern id s =>
    obtain h | ⟨c₀, h₀, -, rfl⟩ := Table.of_mem_update (s.key_apply e) h
    · exact .inl h
    · exact .inr (.inr ⟨id, s, c₀, h₀, rfl, rfl⟩)
  | _ => exact .inl h

theorem assignment_origin {a : Assignment} (h : a ∈ (apply e x db).assignments) :
    a ∈ db.assignments ∨ (∃ y, x = .insertAssignment y ∧ a = y.saved e) ∨
      ∃ id t, ∃ a₀ ∈ db.assignments, x = .deactivateAssignment id t ∧ a = a₀.deactivated t := by
  cases x with
  | insertAssignment y => exact (Table.mem_of_mem_insert h).imp_right fun ha => .inl ⟨y, rfl, ha⟩
  | deactivateAssignment id t =>
    obtain h | ⟨a₀, h₀, -, rfl⟩ := Table.of_mem_update (key_deactivated t) h
    · exact .inl h
    · exact .inr (.inr ⟨id, t, a₀, h₀, rfl, rfl⟩)
  | _ => exact .inl h

theorem advice_origin {a : Advice} (h : a ∈ (apply e x db).advices) :
    a ∈ db.advices ∨ (∃ y, x = .insertAdvice y ∧ a = y.saved e) ∨
      (∃ id s, ∃ a₀ ∈ db.advices, x = .updateAdvice id s ∧ a = s.apply e a₀) ∨
      ∃ y, ∃ a₀ ∈ db.advices, x = .saveAdvice y ∧ a = y.overwritten e a₀ := by
  cases x with
  | insertAdvice y => exact (Table.mem_of_mem_insert h).imp_right fun ha => .inl ⟨y, rfl, ha⟩
  | updateAdvice id s =>
    obtain h | ⟨a₀, h₀, -, rfl⟩ := Table.of_mem_update (s.key_apply e) h
    · exact .inl h
    · exact .inr (.inr (.inl ⟨id, s, a₀, h₀, rfl, rfl⟩))
  | saveAdvice y =>
    obtain h | ⟨a₀, h₀, -, rfl⟩ := Table.of_mem_update (key_overwritten e y) h
    · exact .inl h
    · exact .inr (.inr (.inr ⟨y, a₀, h₀, rfl, rfl⟩))
  | _ => exact .inl h

theorem history_origin {y : AdviceHistory} (h : y ∈ (apply e x db).histories) :
    y ∈ db.histories ∨ ∃ z, x = .insertHistory z ∧ y = z.saved e := by
  cases x with
  | insertHistory z => exact (Table.mem_of_mem_insert h).imp_right fun hy => ⟨z, rfl, hy⟩
  | _ => exact .inl h

theorem feedback_origin {f : Feedback} (h : f ∈ (apply e x db).feedbacks) :
    f ∈ db.feedbacks ∨ (∃ y, x = .insertFeedback y ∧ f = y.saved e) ∨
      ∃ id s, ∃ f₀ ∈ db.feedbacks, x = .updateFeedback id s ∧ f = s.apply f₀ := by
  cases x with
  | insertFeedback y => exact (Table.mem_of_mem_insert h).imp_right fun hf => .inl ⟨y, rfl, hf⟩
  | updateFeedback id s =>
    obtain h | ⟨f₀, h₀, -, rfl⟩ := Table.of_mem_update s.key_apply h
    · exact .inl h
    · exact .inr (.inr ⟨id, s, f₀, h₀, rfl, rfl⟩)
  | _ => exact .inl h

theorem notification_origin {n : Notification} (h : n ∈ (apply e x db).notifications) :
    n ∈ db.notifications ∨ (∃ y, x = .insertNotification y ∧ n = y.saved e) ∨
      ∃ id t, ∃ n₀ ∈ db.notifications, x = .readNotification id t ∧ n = n₀.marked t := by
  cases x with
  | insertNotification y => exact (Table.mem_of_mem_insert h).imp_right fun hn => .inl ⟨y, rfl, hn⟩
  | readNotification id t =>
    obtain h | ⟨n₀, h₀, -, rfl⟩ := Table.of_mem_update (key_marked t) h
    · exact .inl h
    · exact .inr (.inr ⟨id, t, n₀, h₀, rfl, rfl⟩)
  | _ => exact .inl h

end

end Chamneul
