import Chamneul.Proofs.RosterRefinement

/-! What a grant, a revocation and an approval have pending about roles, at each of
their statements. -/

namespace Chamneul

open ReadCommitted ReadCommitted.Prog Service

section

variable {R : Rely Db Key Write} {drift : Db → Db → Prop}

/-- Nothing is filed yet; or one event is, and it is of the role moved, under a
lock that keeps the committed role what the event says it was, or it is a grant of
a role found held. Nothing more is moved after it. -/
def Drafting (_ : Set Key) (w : Pending Write) (σ : World Db) (ks : ℕ → List Key) : Prop :=
  filed w = [] ∨ ((∀ uuid u role, Key.userRoleEntry u role ∉ ks uuid) ∧ ∃ g, filed w = [g] ∧
    (moved w = [g.office] ∧ σ.db.hasRole g.user g.role = decide (g.action = .revoke) ∨
      moved w = [] ∧ g.action = .grant))

@[simp] theorem drafting_nil (L : Set Key) (σ : World Db) (ks : ℕ → List Key) :
    Drafting L [] σ ks ↔ True := by
  simp [Drafting, filed]

/-- A change of another table is nothing to a draft. -/
theorem Drafting.also {L : Set Key} {w : Pending Write} {σ : World Db} {ks : ℕ → List Key}
    (h : Drafting L w σ ks) {e : Env} {x : Write} (hx : x.table ∉ [.userRoles, .roleGrants]) :
    Drafting L (w ++ [(e, x)]) σ ks := by
  have hf : filed [(e, x)] = [] := filed_of_table fun p hp he => by
    rw [List.mem_singleton.mp hp] at he
    simp [he] at hx
  have hm : moved [(e, x)] = [] := moved_of_table fun p hp he => by
    rw [List.mem_singleton.mp hp] at he
    simp [he] at hx
  unfold Drafting
  rw [filed_append, moved_append, hf, hm, List.append_nil, List.append_nil]
  exact h

theorem grantRole_drafting (hR : R.Locks owns drift) (target : Id) (role : Role) (actor : Id)
    (reason : String) (σ : World Db) :
    wp R ⟨fun _ _ _ => True, Drafting⟩ (grantRole target role actor reason) ∅ [] σ
      fun _ _ _ _ => True := by
  simp only [grantRole, getUserForUpdate, wp_bind, wp_raiseIf, wp_atomic, wp_lockOr, wp_query,
    wp_write, wp_pure, drafting_nil, implies_true, and_true, true_and, World.view_nil,
    List.nil_append, List.cons_append]
  intro _ σ₁ h₁ user huser σ₂ h₂ _ σ₃ e₁ _ h₃ hv σ₄ e₂ _ h₄
  obtain rfl : user.id = target := (Table.get?_eq_some.mp huser).2
  have hfresh : σ₃.db.FreshRole e₁.uuid user.id role := freshRole_of_violates hv
  refine ⟨Or.inl rfl, fun _ _ _ => Or.inl rfl, fun _ σ₅ h₅ => ?_⟩
  have hfree : σ₅.db.hasRole user.id role = false :=
    (Locks.freshRole hR h₅ (by simp [locks]) (by simp [locks])
      (Locks.freshRole hR h₄ (by simp [locks]) (by simp [locks]) hfresh)).1
  exact Or.inr ⟨by simp, _, rfl, Or.inl ⟨rfl, hfree⟩⟩

/-- The guards write nothing. -/
theorem guard_writes {T : Set Key → Pending Write → World Db → (ℕ → List Key) → Prop}
    (hT : ∀ L σ ks, T L [] σ ks) (role : Role) (target actor : Id) (L : Set Key) (σ : World Db) :
    wp R ⟨fun _ _ _ => True, T⟩ (runIf (role = .admin) (guardAdmin target actor)) L [] σ
      fun _ _ w _ => w = [] := by
  have hlock : ∀ x L w (σ : World Db), w = [] →
      wp R ⟨fun _ _ _ => True, T⟩ (lockAdminRole x) L w σ fun _ _ w _ => w = [] := by
    rintro x L _ σ rfl
    simp only [lockAdminRole, wp_bind, wp_queryForUpdate, hT, true_and]
    intro σ₁ _
    split
    · simp [wp_bind, wp_queryForUpdate, hT]
    · rfl
  simp only [guardAdmin, lockAdminRoles, wp_runIf, wp_bind, wp_raiseIf, wp_query, hT, true_and,
    implies_true, and_true]
  intro _ _ σ₁ _
  refine wp_mono ?_ (wp_collect (I := fun _ _ _ w _ => w = []) (E := fun _ _ w _ => w = [])
    (fun _ x _ L w σ hw => wp_mono ?_ (hlock x L w σ hw)) [] rfl)
  · intro r L w σ hr
    cases r <;> simp [show w = [] from hr]
  · intro r L w σ hr
    cases r <;> exact hr

theorem revokeRole_drafting (hR : R.Locks owns drift) (target : Id) (role : Role) (actor : Id)
    (reason : String) (σ : World Db) :
    wp R ⟨fun _ _ _ => True, Drafting⟩ (revokeRole target role actor reason) ∅ [] σ
      fun _ _ _ _ => True := by
  simp only [revokeRole, getUserForUpdate, wp_bind, wp_raiseIf, wp_atomic, wp_lockOr,
    drafting_nil, implies_true, and_true, true_and, World.view_nil]
  intro _ σ₁ h₁ user huser
  obtain rfl : user.id = target := (Table.get?_eq_some.mp huser).2
  refine wp_mono ?_ (guard_writes (by simp) role user.id actor _ _)
  rintro r L _ σ₂ rfl
  cases r with
  | error e => exact fun σ' _ => Or.inl rfl
  | ok a =>
    simp only [wp_execute, wp_write, World.view_nil, List.nil_append, drafting_nil, true_and,
      implies_true]
    intro σ₃ uuid h₃ _
    cases hrow : σ₃.db.userRoles.get? (user.id, role) with
    | none => simp [Db.hasRole, hrow]
    | some row =>
      have hkey : row.user = user.id ∧ row.role = role := by
        simpa using (Table.get?_eq_some.mp hrow).2
      simp only [Option.toList_some, List.map_cons, List.map_nil, Db.hasRole, hrow, Option.isSome_some,
        Bool.true_eq_false, IsEmpty.forall_iff, not_false_eq_true, forall_const, true_and]
      intro σ₄ e₂ _ h₄
      refine ⟨Or.inl rfl, fun _ σ₅ _ => Or.inl rfl, fun _ => ?_⟩
      have hget₄ : σ₄.db.userRoles.get? (user.id, role) = some row := by
        rw [Locks.userRoleEntry hR h₄ (by simp [Engine.locks, locks, hkey])]
        exact hrow
      let event : RoleGrant :=
        { user := user.id, role := role, action := .revoke, actedBy := actor, reason := reason }
      have hdraft : ∀ {L : Set Key} {σ' : World Db} {ks : ℕ → List Key},
          σ'.db.userRoles.get? (user.id, role) = some row →
          (∀ uuid u role, Key.userRoleEntry u role ∉ ks uuid) →
          Drafting L [(⟨σ₃.now, uuid⟩, .deleteUserRole row), (e₂, .insertRoleGrant event)] σ' ks := by
        intro L σ' ks hget hks
        refine Or.inr ⟨hks, event.saved e₂, rfl, Or.inl ⟨?_, ?_⟩⟩
        · simp [moved, RoleGrant.office, RoleGrant.saved, hkey, event]
        · simp [Db.hasRole, RoleGrant.saved, hget, event]
      have hkeep : ∀ {L : Set Key} {w : Pending Write} {σ₁ σ₂ : World Db}, R L w σ₁.tick σ₂ →
          Key.userRoleEntry user.id role ∈ L → σ₁.db.userRoles.get? (user.id, role) = some row →
          σ₂.db.userRoles.get? (user.id, role) = some row := by
        intro L w σ₁ σ₂ h hk hget
        rw [Locks.userRoleEntry hR h hk]
        exact hget
      split
      · simp only [wp_write]
        intro σ₅ e₃ _ h₅
        have hget₅ := hkeep h₅ (by simp [Engine.locks, locks, hkey]) hget₄
        refine ⟨hdraft hget₅ (by simp [locks]), fun _ σ₆ h₆ => ?_, fun _ σ₆ h₆ => ?_⟩
        · exact hdraft (hkeep h₆ (by simp [Engine.locks, locks, hkey]) hget₅) (by simp)
        · have hget₆ := hkeep h₆ (by simp [Engine.locks, locks, hkey]) hget₅
          exact Drafting.also (hdraft hget₆ (by simp)) (by simp [Write.table])
      · simp only [wp_pure]
        intro σ₅ h₅
        exact hdraft (hkeep h₅ (by simp [Engine.locks, locks, hkey]) hget₄) (by simp)

theorem getOrCreateAdvisorRole_drafting (applicant : Id) {w : Pending Write} (hw : filed w = [])
    (L : Set Key) (σ : World Db) : wp R ⟨fun _ _ _ => True, Drafting⟩
      (getOrCreateAdvisorRole applicant) L w σ fun _ _ w _ => filed w = [] := by
  have hquiet : ∀ L (σ : World Db) ks, Drafting L w σ ks := fun _ _ _ => Or.inl hw
  simp only [getOrCreateAdvisorRole, wp_bind, wp_query, hquiet, true_and]
  intro σ₁ _
  split
  · exact hw
  · have hrole : ∀ e r, filed (w ++ [(e, Write.insertUserRole r)]) = [] := by
      intro e r
      rw [filed_append, hw]
      rfl
    simp [wp_handle, wp_write, wp_bind, wp_query, wp_raiseIf, hquiet, hw, hrole]

/-- An approval's event is a draft of the role inserted, or found. -/
theorem drafting_of_given {applicant actor : Id} {L L' : Set Key} {w role : Pending Write} {e : Env}
    {σ : World Db} (hgiven : RoleGiven drift applicant L' σ.db role) (hf : filed w = [])
    (hm : moved w = []) {ks : ℕ → List Key} (hks : ∀ uuid u role, Key.userRoleEntry u role ∉ ks uuid) :
    Drafting L (w ++ role ++ [(e, .insertRoleGrant (approvalGrant applicant actor))]) σ ks := by
  have hfiled : filed [(e, Write.insertRoleGrant (approvalGrant applicant actor))] =
      [(approvalGrant applicant actor).saved e] := rfl
  have hmoved : moved [(e, Write.insertRoleGrant (approvalGrant applicant actor))] = [] := rfl
  refine Or.inr ⟨hks, (approvalGrant applicant actor).saved e, ?_, ?_⟩
  · rw [filed_append, filed_append, hf, hfiled]
    cases hgiven <;> rfl
  · rw [moved_append, moved_append, hm, hmoved]
    cases hgiven with
    | found _ _ _ => exact Or.inr ⟨rfl, rfl⟩
    | created _ _ _ hfresh => exact Or.inl ⟨rfl, hfresh.1⟩

theorem reviewApplication_drafting (hR : R.Locks owns drift) (id actor : Id)
    (target : AdvisorApplicationStatus) (reason : String) (σ : World Db) :
    wp R ⟨fun _ _ _ => True, Drafting⟩ (reviewApplication id actor target reason) ∅ [] σ
      fun _ _ _ _ => True := by
  simp only [reviewApplication, wp_atomic, wp_bind, wp_lockOr, wp_raiseIf, wp_time, wp_write,
    drafting_nil, true_and, implies_true, and_true, World.view_nil, List.nil_append]
  intro σ₁ _ row _ _ _ σ₂ _ σ₃ e₁ _ _ _
  unfold reviewEffects
  split
  · rw [wp_bind]
    refine wp_mono ?_ (wp_and (C := fun _ _ _ => True)
      (getOrCreateAdvisorRole_spec hR row.applicant (fun _ => rfl) _)
      (getOrCreateAdvisorRole_drafting row.applicant rfl _ _))
    intro r L w σ₄ hr
    obtain ⟨hr, hfiled⟩ := hr
    cases r with
    | error e => exact fun _ _ => Or.inl hfiled
    | ok a =>
      obtain ⟨role, rfl, -, hgiven, -⟩ := hr
      simp only [wp_bind, wp_write, wp_pure]
      intro σ₅ e₃ _ h₅
      have hgiven₅ := hgiven.rely hR h₅ subset_rfl
      refine ⟨Or.inl hfiled, fun _ _ _ => Or.inl hfiled, fun _ σ₆ e₂ _ h₆ => ?_⟩
      have hgiven₆ := hgiven₅.rely hR h₆ Set.subset_union_left
      refine ⟨?_, fun _ σ₇ h₇ => ?_, fun _ σ₇ h₇ => ?_⟩
      · exact drafting_of_given hgiven₆ rfl rfl (by simp [locks])
      · exact drafting_of_given (hgiven₆.rely hR h₇ subset_rfl) rfl rfl (by simp)
      · have hgiven₇ := hgiven₆.rely hR h₇ Set.subset_union_left
        exact Drafting.also (drafting_of_given hgiven₇ rfl rfl (by simp)) (by simp [Write.table])
  · simp only [wp_write, wp_pure]
    exact fun _ _ _ _ => ⟨Or.inl rfl, fun _ _ _ => Or.inl rfl, fun _ _ _ => Or.inl rfl⟩

end

def Call.changesRoles : Call → Bool
  | .grantRole .. | .revokeRole .. | .reviewApplication .. => true
  | _ => false

def roleStage : Call → Set Key → Pending Write → World Db → (ℕ → List Key) → Prop
  | .grantRole .. | .revokeRole .. | .reviewApplication .. => Drafting
  | _ => fun _ _ _ _ => True

theorem roleDiscipline : Discipline system owns
    (fun drift call => ⟨fun L w σ => Committed drift L w σ.db call, roleStage call⟩)
    (fun _ => Ended) := by
  refine discipline.withStage fun hR call σ => ?_
  cases call with
  | grantRole target role actor reason => exact grantRole_drafting hR target role actor reason σ
  | revokeRole target role actor reason => exact revokeRole_drafting hR target role actor reason σ
  | reviewApplication id actor target reason =>
    exact reviewApplication_drafting hR id actor target reason σ
  | _ => exact wp_trivial (fun _ _ _ _ => trivial) _ _ _ _

/-- A session that changes roles is drafting at each of its statements, and when it has ended. -/
theorem drafting_of_slot {ok : Config system → Event system → Prop} {σ₀ : World Db}
    {c : Config system} (hr : Config.Reaches ok (Config.idle σ₀) c) {t : ℕ} {s : Session system}
    (hs : c.slot t = some s) (hcall : s.call.changesRoles = true) :
    Drafting (c.held t) s.writes c.world (s.needs c.world) := by
  have hc := roleDiscipline.holds hr
  by_cases hret : ∃ r, s.prog = .ret r
  · obtain ⟨r, hret⟩ := hret
    have hend : Ended r (c.held t) s.writes c.world := hc.post hs hret
    rw [hend.2]
    simp
  · have hstage := roleDiscipline.stage hc hs fun r hr => hret ⟨r, hr⟩
    cases hcall' : s.call <;> rw [hcall'] at hcall hstage <;> first | exact hstage | cases hcall

end Chamneul
