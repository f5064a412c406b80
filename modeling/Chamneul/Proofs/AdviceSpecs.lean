import Chamneul.Proofs.Transactions

/-! Each advice service commits what `Committed` says of it. -/

namespace Chamneul

open ReadCommitted ReadCommitted.Prog Service

variable {R : Rely Db Key Write} {drift : Db → Db → Prop}

theorem createAdvice_spec (hR : R.Locks owns drift) (id advisor : Id) (body : AdviceBody)
    (submit : Bool) (σ : World Db) :
    wp R (commits drift (.createAdvice id advisor body submit)) (createAdvice id advisor body submit)
      ∅ [] σ Ended := by
  simp only [createAdvice, wp_bind, wp_query, wp_getOr, wp_raiseIf, wp_handle, wp_raise,
    Duty.ofCommit_stage, true_and, ended_nil, implies_true, and_true, World.view_nil]
  intro σ₁ h₁ row hrow σ₂ h₂ hassigned
  have hid : row.id = id := by
    simp only [Db.liveConcern?, Option.filter_eq_some_iff] at hrow
    exact (Table.get?_eq_some.mp hrow.1).2
  subst hid
  refine wp_mono ?_ (wp_transaction ?_)
  · intro r L w σ hr
    cases r <;> exact hr
  · simp only [wp_write, Duty.ofCommit_stage, true_and, implies_true, returns_ok, returns_error,
      World.view_nil, List.nil_append]
    intro σ₃ e _ h₃ hv σ₄ h₄
    have hfresh : σ₄.db.advices.get? e.uuid = none := by
      rw [Locks.advice hR h₄ (by simp [locks])]
      simp only [violates, Bool.or_eq_false_iff, Option.isSome_eq_false_iff,
        Option.isNone_iff_eq_none] at hv
      exact hv.1
    have hdrift₂ : drift σ₂.db σ₄.db := Locks.later hR (Locks.seen hR h₃) h₄
    have hdrift₁ : drift σ₁.db σ₄.db := Locks.later hR (Locks.later hR (Locks.seen hR h₂) h₃) h₄
    exact ⟨e, σ₁.db, σ₂.db, row, hdrift₁, hdrift₂, hrow, by simpa using hassigned, hfresh, rfl⟩

/-- `_lock_own_advice` hands over the row and its lock. -/
theorem wp_lockOwnAdvice {C : Set Key → Pending Write → World Db → Prop} {L : Set Key}
    {w : Pending Write} {σ : World Db} (id actor : Id) (allowed : List AdviceStatus)
    (Q : Post Db Key Write APIException Advice) (hQ : ∀ e L w σ, Q (.error e) L w σ) :
    wp R (Duty.ofCommit C) (lockOwnAdvice id actor allowed) L w σ Q ↔ ∀ σ', R L w σ σ' → ∀ row,
      (σ'.view w).advices.get? id = some row → row.advisor = actor → row.status ∈ allowed →
      Q (.ok row) (insert (.advice id) L) w σ'.tick := by
  simp only [lockOwnAdvice, wp_bind, wp_lockOr, wp_raiseIf, wp_pure, Duty.ofCommit_stage,
    true_and, hQ, implies_true, and_true, Decidable.not_not, ne_eq]

theorem updateAdvice_spec (hR : R.Locks owns drift) (id actor : Id) (data : AdviceEdit)
    (σ : World Db) :
    wp R (commits drift (.updateAdvice id actor data)) (updateAdvice id actor data) ∅ [] σ
      Ended := by
  refine wp_transaction ?_
  rw [wp_bind, wp_lockOwnAdvice]
  simp only [wp_bind, wp_runIf, wp_write, Duty.ofCommit_stage, true_and, implies_true,
    returns_ok, returns_error, World.view_nil, List.nil_append, List.cons_append]
  intro σ₁ h₁ row hrow hactor hstatus
  obtain rfl : row.id = id := (Table.get?_eq_some.mp hrow).2
  refine ⟨fun hchg σ₂ e' _ h₂ hv₂ σ₃ e _ h₃ _ σ₄ h₄ => ?_, fun hchg σ₃ e _ h₃ _ σ₄ h₄ => ?_⟩
  · have hrow₄ : σ₄.db.advices.get? row.id = some row := by
      rw [Locks.advice hR h₄ (by simp), Locks.advice hR h₃ (by simp), Locks.advice hR h₂ (by simp)]
      exact hrow
    have hnew : σ₄.db.histories.get? (row.id, row.version) = none := by
      rw [Locks.historyEntry hR h₄ (by simp [locks]), Locks.historyEntry hR h₃ (by simp [locks])]
      simpa [violates] using hv₂
    exact ⟨e, row, [(e', _)], by simp, hrow₄, hactor, hstatus, rfl, fun _ => hnew, .ran e' hchg⟩
  · have hrow₄ : σ₄.db.advices.get? row.id = some row := by
      rw [Locks.advice hR h₄ (by simp), Locks.advice hR h₃ (by simp)]
      exact hrow
    exact ⟨e, row, [], by simp, hrow₄, hactor, hstatus, rfl, fun h => absurd h hchg, .skipped hchg⟩
  · exact fun e L w σ => (returns_error _ e).mpr trivial

theorem deleteAdvice_spec (hR : R.Locks owns drift) (id actor : Id) (σ : World Db) :
    wp R (commits drift (.deleteAdvice id actor)) (deleteAdvice id actor) ∅ [] σ Ended := by
  refine wp_transaction ?_
  rw [wp_bind, wp_lockOwnAdvice]
  · simp only [wp_write, Duty.ofCommit_stage, true_and, implies_true, returns_ok, returns_error,
      World.view_nil, List.nil_append]
    intro σ₁ h₁ row hrow hactor hstatus σ₂ e _ h₂ _ σ₃ h₃
    obtain rfl : row.id = id := (Table.get?_eq_some.mp hrow).2
    have hrow₃ : σ₃.db.advices.get? row.id = some row := by
      rw [Locks.advice hR h₃ (by simp), Locks.advice hR h₂ (by simp)]
      exact hrow
    exact ⟨e, row, by simp, hrow₃, hactor, hstatus, rfl⟩
  · exact fun e L w σ => (returns_error _ e).mpr trivial

theorem reviewAdvice_spec (hR : R.Locks owns drift) (id actor : Id) (decision : Decision)
    (reason : String) (expectedVersion : ℕ) (σ : World Db) :
    wp R (commits drift (.reviewAdvice id actor decision reason expectedVersion))
      (reviewAdvice id actor decision reason expectedVersion) ∅ [] σ Ended := by
  refine wp_transaction ?_
  simp only [wp_bind, wp_lockOr, wp_raiseIf, wp_queryForUpdate, wp_getOr, wp_time, wp_write,
    Duty.ofCommit_stage, true_and, implies_true, and_true, returns_error, World.view_nil,
    List.nil_append, Decidable.not_not, ne_eq]
  intro σ₁ h₁ row hrow hsub hstatus hversion hreason σ₂ h₂ concern hconcern hlive σ₃ h₃ σ₄ e₁ _ h₄ _
  obtain rfl : row.id = id := (Table.get?_eq_some.mp hrow).2
  have hid : concern.id = row.concern := (Table.get?_eq_some.mp hconcern).2
  simp only [hconcern, Option.isSome_some, if_true] at h₃ h₄ ⊢
  have hsub : row.isSubmitted = true := by simpa using hsub
  have hreason : decision = .rejected → strip reason ≠ "" := fun hd hs => hreason ⟨hd, hs⟩
  have hrow₄ : σ₄.db.advices.get? row.id = some row := by
    rw [Locks.advice hR h₄ (by simp), Locks.advice hR h₃ (by simp), Locks.advice hR h₂ (by simp)]
    exact hrow
  have hconcern₄ : σ₄.db.concerns.get? row.concern = some concern := by
    rw [Locks.concern hR h₄ (by simp), Locks.concern hR h₃ (by simp)]
    exact hconcern
  cases decision with
  | rejected =>
    simp only [decisionEffects, wp_write, wp_pure, Duty.ofCommit_stage, true_and, implies_true,
      returns_ok, List.cons_append, List.nil_append]
    intro σ₅ e₂ _ h₅ hv₅ σ₆ h₆
    have hrow₆ : σ₆.db.advices.get? row.id = some row := by
      rw [Locks.advice hR h₆ (by simp), Locks.advice hR h₅ (by simp)]
      exact hrow₄
    have hconcern₆ : σ₆.db.concerns.get? row.concern = some concern := by
      rw [Locks.concern hR h₆ (by simp), Locks.concern hR h₅ (by simp)]
      exact hconcern₄
    have hnote : σ₆.db.notifications.get? e₂.uuid = none := by
      rw [Locks.notification hR h₆ (by simp [locks])]
      simpa [violates, World.view, Engine.apply, apply] using hv₅
    exact ⟨e₁, e₂, σ₃.now, row, concern, [], by simp, by simp, hrow₆, hsub, hstatus, hversion,
      hreason, hconcern₆, hlive, hnote, rfl, .skipped (by simp)⟩
  | approved =>
    simp only [decisionEffects, wp_bind, wp_runIf, wp_write, wp_pure, Duty.ofCommit_stage, true_and,
      implies_true, returns_ok, List.cons_append, List.nil_append]
    refine ⟨fun hass σ₅ e₃ _ h₅ _ σ₆ e₂ _ h₆ hv₆ σ₇ h₇ => ?_, fun hass σ₆ e₂ _ h₆ hv₆ σ₇ h₇ => ?_⟩
    · have hrow₇ : σ₇.db.advices.get? row.id = some row := by
        rw [Locks.advice hR h₇ (by simp), Locks.advice hR h₆ (by simp), Locks.advice hR h₅ (by simp)]
        exact hrow₄
      have hconcern₇ : σ₇.db.concerns.get? row.concern = some concern := by
        rw [Locks.concern hR h₇ (by simp), Locks.concern hR h₆ (by simp),
          Locks.concern hR h₅ (by simp)]
        exact hconcern₄
      have hnote : σ₇.db.notifications.get? e₂.uuid = none := by
        rw [Locks.notification hR h₇ (by simp [locks])]
        simpa [violates, World.view, Engine.apply, apply] using hv₆
      refine ⟨e₁, e₂, σ₃.now, row, concern, [(e₃, _)], by simp, by simp, hrow₇, hsub, hstatus,
        hversion, hreason, hconcern₇, hlive, hnote, rfl, ?_⟩
      rw [hid]
      exact .ran e₃ ⟨rfl, hass⟩
    · have hrow₇ : σ₇.db.advices.get? row.id = some row := by
        rw [Locks.advice hR h₇ (by simp), Locks.advice hR h₆ (by simp)]
        exact hrow₄
      have hconcern₇ : σ₇.db.concerns.get? row.concern = some concern := by
        rw [Locks.concern hR h₇ (by simp), Locks.concern hR h₆ (by simp)]
        exact hconcern₄
      have hnote : σ₇.db.notifications.get? e₂.uuid = none := by
        rw [Locks.notification hR h₇ (by simp [locks])]
        simpa [violates, World.view, Engine.apply, apply] using hv₆
      exact ⟨e₁, e₂, σ₃.now, row, concern, [], by simp, by simp, hrow₇, hsub, hstatus, hversion,
        hreason, hconcern₇, hlive, hnote, rfl, .skipped fun h => hass h.2⟩

end Chamneul
