import Chamneul.Proofs.Transactions

/-! Each application service commits what `Committed` says of it. -/

namespace Chamneul

open ReadCommitted ReadCommitted.Prog Service

variable {R : Rely Db Key Write} {drift : Db → Db → Prop}

theorem createApplication_spec (hR : R.Locks owns drift) (applicant : Id) (displayName : String)
    (σ : World Db) :
    wp R (commits drift (.createApplication applicant displayName))
      (createApplication applicant displayName) ∅ [] σ Ended := by
  simp only [createApplication, wp_bind, wp_query, wp_raiseIf, wp_handle, wp_raise,
    Duty.ofCommit_stage, true_and, ended_nil, implies_true, World.view_nil]
  intro σ₁ h₁ σ₂ h₂ hfree
  refine wp_mono ?_ (wp_transaction ?_)
  · intro r L w σ hr
    cases r <;> exact hr
  · simp only [wp_write, Duty.ofCommit_stage, true_and, implies_true, returns_ok, returns_error,
      World.view_nil, List.nil_append]
    intro σ₃ e _ h₃ hv σ₄ h₄
    have hfresh : σ₄.db.applications.get? e.uuid = none := by
      rw [Locks.application hR h₄ (by simp [locks])]
      simp only [violates, Bool.or_eq_false_iff, Option.isSome_eq_false_iff,
        Option.isNone_iff_eq_none] at hv
      exact hv.1
    have hdrift₂ : drift σ₂.db σ₄.db := Locks.later hR (Locks.seen hR h₃) h₄
    have hdrift₁ : drift σ₁.db σ₄.db := Locks.later hR (Locks.later hR (Locks.seen hR h₂) h₃) h₄
    exact ⟨e, σ₁.db, σ₂.db, hdrift₁, hdrift₂, by simpa using hfree, hfresh, rfl⟩

theorem RoleGiven.rely (hR : R.Locks owns drift) {applicant : Id} {L L' : Set Key}
    {w role : Pending Write} {σ σ' : World Db} (h : R L' w σ σ') (hL : L ⊆ L')
    (hr : RoleGiven drift applicant L σ.db role) : RoleGiven drift applicant L' σ'.db role := by
  cases hr with
  | found db₁ hd hheld => exact .found db₁ (hR.drift_trans hd (hR.drift h)) hheld
  | created e hid hentry hfresh =>
    refine .created e (hL hid) (hL hentry) ⟨?_, fun r hr hr' => ?_⟩
    · have hkeep : σ'.db.userRoles.get? (applicant, .advisor) =
          σ.db.userRoles.get? (applicant, .advisor) := hR.keeps h (hL hentry)
      rw [Db.hasRole, hkeep]
      exact hfresh.1
    · have hkeep : keeps (.userRole e.uuid) σ.db σ'.db := hR.keeps h (hL hid)
      exact hfresh.2 r ((hkeep r hr').mp hr) hr'

/-- `get_or_create` leaves the role found or about to be inserted. -/
theorem getOrCreateAdvisorRole_spec (hR : R.Locks owns drift)
    {C : Set Key → Pending Write → World Db → Prop} (applicant : Id) {L : Set Key}
    {w : Pending Write} (hw : ∀ σ : World Db, (σ.view w).userRoles = σ.db.userRoles) (σ : World Db) :
    wp R (Duty.ofCommit C) (getOrCreateAdvisorRole applicant) L w σ fun r L' w' σ' =>
      match r with
      | .ok _ => ∃ role, w' = w ++ role ∧ L ⊆ L' ∧ RoleGiven drift applicant L' σ'.db role ∧
          Kept L σ.db σ'.db
      | .error _ => True := by
  have hheld : ∀ σ : World Db, (σ.view w).hasRole applicant .advisor =
      σ.db.hasRole applicant .advisor := fun σ => by rw [Db.hasRole, hw, Db.hasRole]
  simp only [getOrCreateAdvisorRole, wp_bind, wp_query, Duty.ofCommit_stage, true_and]
  intro σ₁ h₁
  rw [hheld]
  by_cases h : σ₁.db.hasRole applicant .advisor = true
  · rw [if_pos h, wp_pure]
    have hhere : drift σ₁.db σ₁.db := hR.drift (hR.lawful.refl L w σ₁)
    exact ⟨[], by simp, subset_rfl, .found σ₁.db hhere h,
      Kept.rely hR h₁ subset_rfl (Kept.refl L _)⟩
  · rw [if_neg h]
    simp only [wp_handle, wp_write, wp_bind, wp_query, wp_raiseIf, Duty.ofCommit_stage, true_and,
      implies_true]
    intro σ₂ e _ h₂
    have hkept₂ : Kept L σ.db σ₂.db :=
      Kept.rely hR h₂ subset_rfl (Kept.rely hR h₁ subset_rfl (Kept.refl L _))
    refine ⟨fun _ σ₃ h₃ hheld₃ => ?_, fun hv => ?_⟩
    · have hkept₃ : Kept L σ.db σ₃.db := Kept.rely hR h₃ subset_rfl hkept₂
      rw [hheld, Bool.not_eq_false] at hheld₃
      have hhere : drift σ₃.db σ₃.db := hR.drift (hR.lawful.refl L w σ₃)
      exact ⟨[], by simp, subset_rfl, .found σ₃.db hhere hheld₃, hkept₃⟩
    · have hfresh : σ₂.db.FreshRole e.uuid applicant .advisor := by
        have := freshRole_of_violates hv
        rwa [Db.FreshRole, hheld, hw] at this
      exact ⟨_, rfl, Set.subset_union_left,
        .created e (Or.inr (by simp [locks])) (Or.inr (by simp [locks])) hfresh, hkept₂⟩

theorem reviewApplication_spec (hR : R.Locks owns drift) (id actor : Id)
    (target : AdvisorApplicationStatus) (reason : String) (σ : World Db) :
    wp R (commits drift (.reviewApplication id actor target reason))
      (reviewApplication id actor target reason) ∅ [] σ Ended := by
  refine wp_transaction ?_
  simp only [wp_bind, wp_lockOr, wp_raiseIf, wp_time, wp_write, Duty.ofCommit_stage, true_and,
    implies_true, and_true, returns_error, World.view_nil, List.nil_append, Decidable.not_not]
  intro σ₁ h₁ row hrow htarget hreason σ₂ h₂ σ₃ e₁ _ h₃ _
  obtain rfl : row.id = id := (Table.get?_eq_some.mp hrow).2
  have hreason : target = .rejected → strip reason ≠ "" := fun ht hs => hreason ⟨ht, hs⟩
  have hrow₃ : σ₃.db.applications.get? row.id = some row := by
    rw [Locks.application hR h₃ (by simp), Locks.application hR h₂ (by simp)]
    exact hrow
  unfold reviewEffects
  by_cases happ : target = .approved
  · rw [if_pos happ, wp_bind]
    refine wp_mono ?_ (getOrCreateAdvisorRole_spec hR row.applicant (fun _ => rfl) _)
    intro r L w σ₄ hr
    cases r with
    | error e => trivial
    | ok a =>
      obtain ⟨role, rfl, hL, hgiven, hkept⟩ := hr
      have hheld : Key.application row.id ∈ L := hL (by simp)
      have hrow₄ : σ₄.db.applications.get? row.id = some row := by
        have hkeep := (hkept (.application row.id) (by simp)).1
        exact Eq.trans hkeep hrow₃
      simp only [wp_bind, wp_write, wp_pure, Duty.ofCommit_stage, true_and, implies_true, returns_ok]
      intro σ₅ e₃ _ h₅ hv₅ σ₆ e₂ _ h₆ hv₆ σ₇ h₇
      have hrow₇ : σ₇.db.applications.get? row.id = some row := by
        rw [Locks.application hR h₇ (by simp [hheld]), Locks.application hR h₆ (by simp [hheld])]
        have hkeep : σ₅.db.applications.get? row.id = σ₄.db.applications.get? row.id :=
          hR.keeps h₅ hheld
        rw [hkeep]
        exact hrow₄
      have hgrant : σ₇.db.roleGrants.get? e₃.uuid = none := by
        rw [Locks.roleGrant hR h₇ (by simp [locks]), Locks.roleGrant hR h₆ (by simp [locks])]
        cases hgiven <;> simpa [violates, World.view, Engine.apply, apply] using hv₅
      have hnote : σ₇.db.notifications.get? e₂.uuid = none := by
        rw [Locks.notification hR h₇ (by simp [locks])]
        cases hgiven <;> simpa [violates, World.view, Engine.apply, apply] using hv₆
      have hgiven₅ := hgiven.rely hR h₅ subset_rfl
      have hgiven₆ := hgiven₅.rely hR h₆ Set.subset_union_left
      have hgiven₇ := hgiven₆.rely hR h₇ Set.subset_union_left
      refine ⟨row, e₁, e₂, σ₂.now, _, by simp [hheld], hrow₇, htarget, hreason, hnote, ?_,
        fun _ => ⟨e₃, role, hgiven₇, hgrant, rfl⟩, fun hne => absurd happ hne⟩
      simp
  · rw [if_neg happ]
    simp only [wp_write, wp_pure, Duty.ofCommit_stage, true_and, implies_true, returns_ok,
      List.cons_append, List.nil_append]
    intro σ₄ e₂ _ h₄ hv₄ σ₅ h₅
    have hrow₅ : σ₅.db.applications.get? row.id = some row := by
      rw [Locks.application hR h₅ (by simp), Locks.application hR h₄ (by simp)]
      exact hrow₃
    have hnote : σ₅.db.notifications.get? e₂.uuid = none := by
      rw [Locks.notification hR h₅ (by simp [locks])]
      simpa [violates, World.view, Engine.apply, apply] using hv₄
    exact ⟨row, e₁, e₂, σ₂.now, _, by simp, hrow₅, htarget, hreason, hnote, rfl,
      fun he => absurd he happ, fun _ => rfl⟩

end Chamneul
