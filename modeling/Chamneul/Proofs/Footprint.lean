import Chamneul.Proofs.Transactions

/-! Which tables a call writes. The others are as they were when it commits. -/

namespace Chamneul

open ReadCommitted ReadCommitted.Prog Service

inductive TableName
  | users | userRoles | roleGrants | applications | concerns | assignments | advices | histories
  | feedbacks | notifications
  deriving DecidableEq

def Write.table : Write → TableName
  | .updateUser _ _ => .users
  | .insertUserRole _ | .deleteUserRole _ => .userRoles
  | .insertRoleGrant _ => .roleGrants
  | .insertApplication _ | .updateApplication _ _ => .applications
  | .insertConcern _ | .updateConcern _ _ => .concerns
  | .insertAssignment _ | .deactivateAssignment _ _ => .assignments
  | .insertAdvice _ | .updateAdvice _ _ | .saveAdvice _ => .advices
  | .insertHistory _ => .histories
  | .insertFeedback _ | .updateFeedback _ _ => .feedbacks
  | .insertNotification _ | .readNotification _ _ => .notifications

def Call.tables : Call → List TableName
  | .setActiveRole .. | .updateProfile .. => [.users]
  | .grantRole .. => [.userRoles, .roleGrants]
  | .revokeRole .. => [.userRoles, .roleGrants, .users]
  | .createApplication .. => [.applications]
  | .reviewApplication .. => [.applications, .userRoles, .roleGrants, .notifications]
  | .createConcern .. | .updateOwnConcern .. | .deleteConcern .. => [.concerns]
  | .closeSelected .. | .softDeleteSelected .. | .restoreSelected .. => [.concerns]
  | .assignAdvisor .. => [.assignments, .concerns, .notifications]
  | .unassignAdvisor .. => [.assignments, .concerns]
  | .createAdvice .. | .deleteAdvice .. => [.advices]
  | .updateAdvice .. => [.advices, .histories]
  | .reviewAdvice .. => [.advices, .concerns, .notifications]
  | .createFeedback .. | .transitionFeedback .. => [.feedbacks]
  | .markRead .. => [.notifications]

def Same : TableName → Db → Db → Prop
  | .users, db, db' => db'.users = db.users
  | .userRoles, db, db' => db'.userRoles = db.userRoles
  | .roleGrants, db, db' => db'.roleGrants = db.roleGrants
  | .applications, db, db' => db'.applications = db.applications
  | .concerns, db, db' => db'.concerns = db.concerns
  | .assignments, db, db' => db'.assignments = db.assignments
  | .advices, db, db' => db'.advices = db.advices
  | .histories, db, db' => db'.histories = db.histories
  | .feedbacks, db, db' => db'.feedbacks = db.feedbacks
  | .notifications, db, db' => db'.notifications = db.notifications

theorem same_refl (t : TableName) (db : Db) : Same t db db := by
  cases t <;> rfl

theorem same_trans {t : TableName} {db db' db'' : Db} (h : Same t db db') (h' : Same t db' db'') :
    Same t db db'' := by
  cases t <;> exact Eq.trans h' h

theorem same_apply {t : TableName} {e : Env} {x : Write} {db : Db} (h : x.table ≠ t) :
    Same t db (apply e x db) := by
  cases x <;> cases t <;> first | rfl | exact absurd rfl h

theorem same_applyAll {t : TableName} {w : Pending Write} {db : Db} (h : ∀ p ∈ w, p.2.table ≠ t) :
    Same t db (applyAll w db) :=
  holds_applyAll (same_refl t db) fun p hp _ hold => same_trans hold (same_apply (h p hp))

/-- One change: a concern is still there, as it was or as its update made it. -/
theorem get?_concerns_apply (e : Env) (x : Write) {db : Db} {id : Id} {row : Concern}
    (h : db.concerns.get? id = some row) :
    (apply e x db).concerns.get? id = some row ∨
      ∃ s, x = .updateConcern id s ∧ (apply e x db).concerns.get? id = some (s.apply e row) := by
  cases x with
  | insertConcern r => exact Or.inl (Table.get?_insert_of_some h)
  | updateConcern k s =>
    rw [apply, Table.get?_update, h]
    split_ifs with hk
    · exact Or.inr ⟨s, by rw [hk], rfl⟩
    · exact Or.inl rfl
  | _ => exact Or.inl h

theorem RanIf.table {c : Prop} {x : Write} {w : Pending Write} (h : RanIf c x w) :
    ∀ p ∈ w, p.2.table = x.table := by
  cases h <;> simp

theorem BulkUpdate.table {p : Concern → Bool} {set : ConcernSet} {L : Set Key} {w : Pending Write}
    {db : Db} (h : BulkUpdate p set L w db) : ∀ q ∈ w, q.2.table = .concerns := by
  obtain ⟨rows, rfl, -, -⟩ := h
  intro q hq
  obtain ⟨r, -, rfl⟩ := List.mem_map.mp hq
  rfl

theorem table_of_committed {drift : Db → Db → Prop} {L : Set Key} {w : Pending Write} {db : Db}
    {call : Call} (h : Committed drift L w db call) : ∀ p ∈ w, p.2.table ∈ call.tables := by
  cases call with
  | setActiveRole user target =>
    obtain ⟨e, -, -, rfl⟩ := h
    simp [Write.table, Call.tables]
  | updateProfile user data =>
    obtain ⟨e, -, rfl⟩ := h
    simp [Write.table, Call.tables]
  | grantRole target role actor reason =>
    obtain ⟨e₁, e₂, -, -, -, -, rfl⟩ := h
    simp [Write.table, Call.tables]
  | revokeRole target role actor reason =>
    obtain ⟨e₁, e₂, user, row, -, -, -, -, -, -, demotion, rfl, hdem⟩ := h
    cases hdem <;> simp [Write.table, Call.tables]
  | createApplication applicant displayName =>
    obtain ⟨e, db₁, db₂, -, -, -, -, rfl⟩ := h
    simp [Write.table, Call.tables]
  | reviewApplication id actor target reason =>
    obtain ⟨row, e₁, e₂, now, effects, -, -, -, -, -, rfl, happ, hrej⟩ := h
    by_cases ht : target = .approved
    · obtain ⟨e₃, role, hrole, -, rfl⟩ := happ ht
      cases hrole <;> simp [Write.table, Call.tables]
    · rw [hrej ht]
      simp [Write.table, Call.tables]
  | createConcern author fields =>
    obtain ⟨e, -, rfl⟩ := h
    simp [Write.table, Call.tables]
  | updateOwnConcern user id data =>
    obtain ⟨e, row, -, -, -, -, -, -, rfl⟩ := h
    simp [Write.table, Call.tables]
  | deleteConcern user id =>
    obtain ⟨e, now, db₁, row, -, -, -, -, rfl⟩ := h
    simp [Write.table, Call.tables]
  | assignAdvisor id actor data =>
    obtain ⟨e₁, e₂, row, transition, -, -, -, -, -, -, -, rfl, htrans⟩ := h
    cases htrans <;> simp [Write.table, Call.tables]
  | unassignAdvisor id assignmentId =>
    obtain ⟨e₁, now, row, a, transition, -, -, -, -, -, rfl, htrans⟩ := h
    cases htrans <;> simp [Write.table, Call.tables]
  | closeSelected ids =>
    obtain ⟨now, hb⟩ := h
    simpa [Call.tables] using hb.table
  | softDeleteSelected ids =>
    obtain ⟨now, hb⟩ := h
    simpa [Call.tables] using hb.table
  | restoreSelected ids => simpa [Call.tables] using BulkUpdate.table h
  | createAdvice id advisor body submit =>
    obtain ⟨e, db₁, db₂, row, -, -, -, -, -, rfl⟩ := h
    simp [Write.table, Call.tables]
  | updateAdvice id actor data =>
    obtain ⟨e, row, snapshot, -, -, -, -, rfl, -, hsnap⟩ := h
    cases hsnap <;> simp [Write.table, Call.tables]
  | deleteAdvice id actor =>
    obtain ⟨e, row, -, -, -, -, rfl⟩ := h
    simp [Write.table, Call.tables]
  | reviewAdvice id actor decision reason expectedVersion =>
    obtain ⟨e₁, e₂, now, row, concern, transition, -, -, -, -, -, -, -, -, -, -, rfl, htrans⟩ := h
    cases htrans <;> simp [Write.table, Call.tables]
  | createFeedback id author data =>
    obtain ⟨e, db₁, row, concern, -, -, -, -, -, -, rfl⟩ := h
    simp [Write.table, Call.tables]
  | transitionFeedback id actor newStatus memo =>
    obtain ⟨e, now, db₁, row, -, -, -, -, rfl⟩ := h
    simp [Write.table, Call.tables]
  | markRead user id =>
    obtain ⟨row, -, -, -, ⟨-, rfl⟩ | ⟨-, e, now, rfl⟩⟩ := h <;> simp [Write.table, Call.tables]

/-- What a call may do to a concern: create it or update it, and its text is updated by
its author alone. -/
inductive ConcernWrite (call : Call) : Write → Prop
  | insert (r : Concern) (author : Id) (fields : ConcernFields)
      (hcall : call = .createConcern author fields) : ConcernWrite call (.insertConcern r)
  | update (id : Id) (s : ConcernSet)
      (htext : s.fields = none ∨ ∃ user data, call = .updateOwnConcern user id data) :
      ConcernWrite call (.updateConcern id s)

theorem RanIf.concernWrite {c : Prop} {id : Id} {s : ConcernSet} {w : Pending Write} {call : Call}
    (h : RanIf c (.updateConcern id s) w) (hs : s.fields = none) :
    ∀ p ∈ w, ConcernWrite call p.2 := by
  cases h with
  | ran e hc => simpa using .update id s (Or.inl hs)
  | skipped hc => simp

theorem BulkUpdate.concernWrite {q : Concern → Bool} {set : ConcernSet} {L : Set Key}
    {w : Pending Write} {db : Db} {call : Call} (h : BulkUpdate q set L w db)
    (hset : set.fields = none) : ∀ p ∈ w, ConcernWrite call p.2 := by
  obtain ⟨rows, rfl, -, -⟩ := h
  intro p hp
  obtain ⟨r, -, rfl⟩ := List.mem_map.mp hp
  exact .update r.2 set (Or.inl hset)

theorem concernWrite_of_committed {drift : Db → Db → Prop} {L : Set Key} {w : Pending Write} {db : Db}
    {call : Call} (h : Committed drift L w db call) {p : Env × Write} (hp : p ∈ w)
    (ht : p.2.table = .concerns) : ConcernWrite call p.2 := by
  have hcall : .concerns ∈ call.tables := ht ▸ table_of_committed h p hp
  cases call with
  | createConcern author fields =>
    obtain ⟨e, -, rfl⟩ := h
    obtain rfl := List.mem_singleton.mp hp
    exact .insert _ author fields rfl
  | updateOwnConcern user id data =>
    obtain ⟨e, row, -, -, -, -, -, -, rfl⟩ := h
    obtain rfl := List.mem_singleton.mp hp
    exact .update id _ (Or.inr ⟨user, data, rfl⟩)
  | deleteConcern user id =>
    obtain ⟨e, now, db₁, row, -, -, -, -, rfl⟩ := h
    obtain rfl := List.mem_singleton.mp hp
    exact .update id _ (Or.inl rfl)
  | assignAdvisor id actor data =>
    obtain ⟨e₁, e₂, row, transition, -, -, -, -, -, -, -, rfl, htrans⟩ := h
    simp only [List.mem_append, List.mem_singleton] at hp
    obtain (rfl | hp) | rfl := hp
    · cases ht
    · exact htrans.concernWrite rfl p hp
    · cases ht
  | unassignAdvisor id assignmentId =>
    obtain ⟨e₁, now, row, a, transition, -, -, -, -, -, rfl, htrans⟩ := h
    obtain rfl | hp := List.mem_cons.mp hp
    · cases ht
    · exact htrans.concernWrite rfl p hp
  | closeSelected ids =>
    obtain ⟨now, hb⟩ := h
    exact hb.concernWrite rfl p hp
  | softDeleteSelected ids =>
    obtain ⟨now, hb⟩ := h
    exact hb.concernWrite rfl p hp
  | restoreSelected ids => exact BulkUpdate.concernWrite h rfl p hp
  | reviewAdvice id actor decision reason expectedVersion =>
    obtain ⟨e₁, e₂, now, row, concern, transition, -, -, -, -, -, -, -, -, -, -, rfl, htrans⟩ := h
    simp only [List.mem_append, List.mem_singleton] at hp
    obtain (rfl | hp) | rfl := hp
    · cases ht
    · exact htrans.concernWrite rfl p hp
    · cases ht
  | _ => simp [Call.tables] at hcall

/-- A call leaves alone the tables it does not write. -/
theorem same_of_committed {drift : Db → Db → Prop} {L : Set Key} {w : Pending Write} {db : Db}
    {call : Call} (h : Committed drift L w db call) {t : TableName} (ht : t ∉ call.tables) :
    Same t db (applyAll w db) :=
  same_applyAll fun p hp he => ht (he ▸ table_of_committed h p hp)

end Chamneul
