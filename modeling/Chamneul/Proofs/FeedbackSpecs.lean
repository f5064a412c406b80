import Chamneul.Proofs.Transactions

/-! The feedback services and `mark_read` commit what `Committed` says of them. -/

namespace Chamneul

open ReadCommitted ReadCommitted.Prog Service

variable {R : Rely Db Key Write} {drift : Db → Db → Prop}

theorem adviceAndConcern?_eq_some {db : Db} {id : Id} {row : Advice} {concern : Concern} :
    db.adviceAndConcern? id = some (row, concern) ↔
      db.advices.get? id = some row ∧ db.concerns.get? row.concern = some concern := by
  simp only [Db.adviceAndConcern?, bind, pure, Option.bind_eq_some_iff, Option.some.injEq,
    Prod.mk.injEq]
  constructor
  · rintro ⟨a, ha, c, hc, rfl, rfl⟩
    exact ⟨ha, hc⟩
  · rintro ⟨ha, hc⟩
    exact ⟨row, ha, concern, hc, rfl, rfl⟩

theorem createFeedback_spec (hR : R.Locks owns drift) (id author : Id) (data : FeedbackData)
    (σ : World Db) :
    wp R (commits drift (.createFeedback id author data)) (createFeedback id author data) ∅ [] σ
      Ended := by
  simp only [createFeedback, wp_bind, wp_query, wp_getOr, wp_raiseIf, wp_handle, wp_raise,
    Duty.ofCommit_stage, true_and, ended_nil, implies_true, and_true, World.view_nil, ne_eq,
    Decidable.not_not]
  rintro σ₁ h₁ ⟨row, concern⟩ hfound hauthor hlive happroved
  have hid : row.id = id := (Table.get?_eq_some.mp (adviceAndConcern?_eq_some.mp hfound).1).2
  subst hid
  refine wp_mono ?_ (wp_transaction ?_)
  · intro r L w σ hr
    cases r <;> exact hr
  · simp only [wp_write, Duty.ofCommit_stage, true_and, implies_true, returns_ok, returns_error,
      World.view_nil, List.nil_append]
    intro σ₂ e _ h₂ hv σ₃ h₃
    have hfresh : σ₃.db.feedbacks.get? e.uuid = none := by
      rw [Locks.feedback hR h₃ (by simp [locks])]
      simp only [violates, Bool.or_eq_false_iff, Option.isSome_eq_false_iff,
        Option.isNone_iff_eq_none] at hv
      exact hv.1
    have hdrift : drift σ₁.db σ₃.db := Locks.later hR (Locks.seen hR h₂) h₃
    exact ⟨e, σ₁.db, row, concern, hdrift, hfound, hauthor, hlive, happroved, hfresh, rfl⟩

theorem transitionFeedback_spec (hR : R.Locks owns drift) (id actor : Id)
    (newStatus : FeedbackStatus) (memo : Option String) (σ : World Db) :
    wp R (commits drift (.transitionFeedback id actor newStatus memo))
      (transitionFeedback id actor newStatus memo) ∅ [] σ Ended := by
  simp only [transitionFeedback, wp_bind, wp_query, wp_getOr, wp_raiseIf, wp_time,
    Duty.ofCommit_stage, true_and, ended_nil, implies_true, and_true, World.view_nil,
    Decidable.not_not]
  intro σ₁ h₁ row hrow hallowed σ₂ h₂
  obtain rfl : row.id = id := (Table.get?_eq_some.mp hrow).2
  refine wp_transaction ?_
  simp only [wp_write, Duty.ofCommit_stage, true_and, implies_true, returns_ok, returns_error,
    World.view_nil, List.nil_append]
  intro σ₃ e _ h₃ hv σ₄ h₄
  have hdrift : drift σ₁.db σ₄.db := Locks.later hR (Locks.later hR (Locks.seen hR h₂) h₃) h₄
  exact ⟨e, σ₂.now, σ₁.db, row, hdrift, hrow, hallowed, by simp [locks], rfl⟩

theorem markRead_spec (hR : R.Locks owns drift) (user id : Id) (σ : World Db) :
    wp R (commits drift (.markRead user id)) (markRead user id) ∅ [] σ Ended := by
  refine wp_transaction ?_
  simp only [wp_bind, wp_lockOr, Duty.ofCommit_stage, true_and, returns_error, and_true,
    World.view_nil, implies_true]
  intro σ₁ h₁ row hrow
  obtain ⟨hrow, hmine⟩ : σ₁.db.notifications.get? id = some row ∧ row.recipient = user := by
    simpa [Db.ownNotification?, Option.filter_eq_some_iff] using hrow
  obtain rfl : row.id = id := (Table.get?_eq_some.mp hrow).2
  cases hread : row.isRead with
  | true =>
    simp only [if_true, wp_pure, returns_ok]
    intro σ₂ h₂
    refine ⟨row, by simp, ?_, hmine, Or.inl ⟨hread, rfl⟩⟩
    rw [Locks.notification hR h₂ (by simp)]
    exact hrow
  | false =>
    simp only [Bool.false_eq_true, if_false, wp_bind, wp_time, wp_write, wp_pure,
      Duty.ofCommit_stage, true_and, implies_true, returns_ok, returns_error, List.nil_append]
    intro σ₂ h₂ σ₃ e _ h₃ hv σ₄ h₄
    refine ⟨row, by simp, ?_, hmine, Or.inr ⟨hread, e, σ₂.now, rfl⟩⟩
    rw [Locks.notification hR h₄ (by simp), Locks.notification hR h₃ (by simp),
      Locks.notification hR h₂ (by simp)]
    exact hrow

end Chamneul
