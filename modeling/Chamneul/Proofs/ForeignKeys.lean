import Chamneul.Abstract.References
import Chamneul.Proofs.Accountability
import Chamneul.Proofs.Constraints

/-! No foreign key ever dangles. A row is inserted with keys the transaction has locked, or read
without a lock: users, concerns and advices are never deleted, and a role is only ever taken from a
user who is there. -/

namespace Chamneul

open ReadCommitted ReadCommitted.Prog Service

/-- After one change, a key is named because it was, or because the change names it. -/
theorem refers_apply {e : Env} {x : Write} {db : Db} {k : Key} (h : Refers (apply e x db) k) :
    Refers db k ∨ k ∈ x.names := by
  cases h with
  | userRole r h hk =>
    obtain h | ⟨y, rfl, rfl⟩ := userRole_origin h
    · exact .inl (.userRole r h hk)
    · exact .inr hk
  | roleGrant g h hk =>
    obtain h | ⟨y, rfl, rfl⟩ := roleGrant_origin h
    · exact .inl (.roleGrant g h hk)
    · exact .inr hk
  | application a h hk =>
    obtain h | ⟨y, rfl, rfl⟩ | ⟨id, s, a₀, h₀, rfl, rfl⟩ := application_origin h
    · exact .inl (.application a h hk)
    · exact .inr hk
    · obtain rfl | hk := List.mem_cons.mp hk
      · exact .inl (.application a₀ h₀ List.mem_cons_self)
      · exact .inr hk
  | concern c h hk =>
    obtain h | ⟨y, rfl, rfl⟩ | ⟨id, s, c₀, h₀, rfl, rfl⟩ := concern_origin h
    · exact .inl (.concern c h hk)
    · exact .inr hk
    · exact .inl (.concern c₀ h₀ hk)
  | assignment a h hk =>
    obtain h | ⟨y, rfl, rfl⟩ | ⟨id, t, a₀, h₀, rfl, rfl⟩ := assignment_origin h
    · exact .inl (.assignment a h hk)
    · exact .inr hk
    · exact .inl (.assignment a₀ h₀ hk)
  | advice a h hk =>
    obtain h | ⟨y, rfl, rfl⟩ | ⟨id, s, a₀, h₀, rfl, rfl⟩ | ⟨y, a₀, h₀, rfl, rfl⟩ := advice_origin h
    · exact .inl (.advice a h hk)
    · exact .inr hk
    · exact .inl (.advice a₀ h₀ hk)
    · exact .inr hk
  | history y h hk =>
    obtain h | ⟨z, rfl, rfl⟩ := history_origin h
    · exact .inl (.history y h hk)
    · exact .inr hk
  | feedback f h hk =>
    obtain h | ⟨y, rfl, rfl⟩ | ⟨id, s, f₀, h₀, rfl, rfl⟩ := feedback_origin h
    · exact .inl (.feedback f h hk)
    · exact .inr hk
    · cases hs : s.reviewed with
      | none =>
        rw [FeedbackSet.apply, hs] at hk
        exact .inl (.feedback f₀ h₀ hk)
      | some r =>
        rw [FeedbackSet.apply, hs] at hk
        simp only [Feedback.refs, List.mem_cons] at hk
        obtain hk | hk | hk := hk
        · exact .inl (.feedback f₀ h₀ (by simp [Feedback.refs, hk]))
        · exact .inl (.feedback f₀ h₀ (by simp [Feedback.refs, hk]))
        · exact .inr (by simpa [Write.names, hs] using hk)
  | notification n h hk =>
    obtain h | ⟨y, rfl, rfl⟩ | ⟨id, t, n₀, h₀, rfl, rfl⟩ := notification_origin h
    · exact .inl (.notification n h hk)
    · exact .inr hk
    · exact .inl (.notification n₀ h₀ hk)

theorem refers_applyAll {w : Pending Write} {db : Db} {k : Key} (h : Refers (applyAll w db) k) :
    Refers db k ∨ ∃ p ∈ w, k ∈ p.2.names :=
  held_of_applyAll (I := fun db => Refers db k) (fun _ _ happly => refers_apply happly) h

/-- What a call may have read without a lock and still name: no row it can name goes away, and roles
are only ever those of users who are there, if they are so in the end. -/
structure Anchored (db db' : Db) : Prop where
  has : ∀ k, db.Has k → db'.Has k
  roles : (∀ r ∈ db'.userRoles, db'.Has (.user r.user)) → ∀ r ∈ db.userRoles, db.Has (.user r.user)

theorem anchored_refl (db : Db) : Anchored db db := ⟨fun _ h => h, fun h => h⟩

theorem Anchored.trans {db db' db'' : Db} (h : Anchored db db') (h' : Anchored db' db'') :
    Anchored db db'' :=
  ⟨fun k hk => h'.has k (h.has k hk), fun hr => h.roles (h'.roles hr)⟩

/-- The role a commit takes away is one of its target's, who is there. -/
theorem deleted_committed {drift : Db → Db → Prop} {L : Set Key} {w : Pending Write} {db : Db}
    {call : Call} (h : Committed drift L w db call) {e : Env} {r : UserRole}
    (hp : (e, Write.deleteUserRole r) ∈ w) : db.Has (.user r.user) := by
  have htable : TableName.userRoles ∈ call.tables := table_of_committed h _ hp
  cases call with
  | grantRole target role actor reason =>
    obtain ⟨e₁, e₂, -, -, -, -, rfl⟩ := h
    simp at hp
  | revokeRole target role actor reason =>
    obtain ⟨e₁, e₂, user, row, -, -, huser, hrow, -, -, demotion, rfl, hdem⟩ := h
    have hr : r = row := by cases hdem <;> simp at hp <;> exact hp.2
    obtain rfl : row.user = target := congrArg Prod.fst (Table.get?_eq_some.mp hrow).2
    rw [hr, Db.Has, huser]
    rfl
  | reviewApplication id actor target reason =>
    obtain ⟨row, e₁, e₂, now, effects, -, -, -, -, -, rfl, happroved, hother⟩ := h
    by_cases ht : target = .approved
    · obtain ⟨e₃, role, hrole, -, rfl⟩ := happroved ht
      cases hrole <;> simp at hp
    · rw [hother ht] at hp
      simp at hp
  | _ => simp [Call.tables] at htable

theorem anchored_committed {drift : Db → Db → Prop} {L : Set Key} {w : Pending Write} {db : Db}
    {call : Call} (h : Committed drift L w db call) : Anchored db (applyAll w db) := by
  refine ⟨fun k hk => has_applyAll hk, fun hroles r hr => ?_⟩
  by_contra hnone
  refine hnone (has_user_applyAll (hroles r ?_))
  -- the role is still there: only a role of somebody who is there is taken away
  refine holds_applyAll (I := fun db : Db => r ∈ db.userRoles) hr fun p hp db₁ hmem => ?_
  obtain ⟨e, x⟩ := p
  cases x with
  | insertUserRole y => exact Table.mem_insert_of_mem hmem
  | deleteUserRole y =>
    refine Table.mem_delete.mpr ⟨hmem, decide_eq_false ?_⟩
    rintro ⟨-, huser, -⟩
    rw [huser] at hnone
    exact hnone (deleted_committed h hp)
  | _ => exact hmem

/-! Every key a commit names is there. -/

section

variable {L : Set Key} {w : Pending Write} {db : Db} {user : Id}

def NamesKnown (db : Db) (w : Pending Write) : Prop := ∀ p ∈ w, ∀ k ∈ p.2.names, db.Has k

theorem has_of_get? {id : Id} {u : User} (h : db.users.get? id = some u) : db.Has (.user id) := by
  rw [Db.Has, h]
  rfl

theorem has_concern_of_get? {id : Id} {c : Concern} (h : db.concerns.get? id = some c) :
    db.Has (.concern id) := by
  rw [Db.Has, h]
  rfl

theorem has_advice_of_get? {id : Id} {a : Advice} (h : db.advices.get? id = some a) :
    db.Has (.advice id) := by
  rw [Db.Has, h]
  rfl

/-- Who held a role when it was looked up is there when the call commits. -/
theorem has_of_hasRole {db₁ : Db} {role : Role} {id : Id} (hdb : db.Intact) (hd : Anchored db₁ db)
    (h : db₁.hasRole id role = true) : db.Has (.user id) := by
  obtain ⟨r, hr⟩ := Option.isSome_iff_exists.mp h
  obtain ⟨hmem, hkey⟩ := Table.get?_eq_some.mp hr
  obtain rfl : r.user = id := congrArg Prod.fst hkey
  have hroles : ∀ r ∈ db.userRoles, db.Has (.user r.user) := fun r hr =>
    hdb _ (.userRole r hr (List.mem_singleton_self _))
  exact hd.has _ (hd.roles hroles r hmem)

theorem namesKnown_append {w' : Pending Write} (h : NamesKnown db w) (h' : NamesKnown db w') :
    NamesKnown db (w ++ w') := List.forall_mem_append.mpr ⟨h, h'⟩

theorem RanIf.namesKnown {cond : Prop} {x : Write} (h : RanIf cond x w)
    (hx : ∀ k ∈ x.names, db.Has k) : NamesKnown db w := by
  cases h with
  | ran e _ => exact List.forall_mem_singleton.mpr hx
  | skipped _ => exact List.forall_mem_nil _

theorem RoleGiven.namesKnown {drift : Db → Db → Prop} {applicant : Id}
    (h : RoleGiven drift applicant L db w) (hknown : db.Has (.user applicant)) : NamesKnown db w := by
  cases h with
  | found _ _ _ => exact List.forall_mem_nil _
  | created e _ _ _ => simp [NamesKnown, Write.names, UserRole.refs, hknown]

/-- Every key a commit names is there. -/
theorem names_committed {call : Call} (h : Committed Anchored L w db call)
    (hentries : Entries L w db call) (hdb : db.Intact) (hmade : call.madeBy user)
    (hne : call.standing ≠ .staff) (huser : db.Has (.user user)) : NamesKnown db w := by
  cases call with
  | grantRole target role actor reason =>
    obtain rfl : actor = user := hmade
    obtain ⟨e₁, e₂, -, -, -, -, rfl⟩ := h
    have htarget : db.Has (.user target) := hentries.grantee target rfl
    simp [NamesKnown, Write.names, UserRole.refs, RoleGrant.refs, htarget, huser]
  | revokeRole target role actor reason =>
    obtain rfl : actor = user := hmade
    obtain ⟨e₁, e₂, account, row, -, -, hget, -, -, -, demotion, rfl, hdem⟩ := h
    have htarget := has_of_get? hget
    refine namesKnown_append ?_ (hdem.namesKnown (List.forall_mem_nil _))
    simp [NamesKnown, Write.names, RoleGrant.refs, htarget, huser]
  | reviewApplication id actor target reason =>
    obtain rfl : actor = user := hmade
    obtain ⟨row, e₁, e₂, now, effects, -, hget, -, -, -, rfl, happroved, hother⟩ := h
    have happlicant : db.Has (.user row.applicant) :=
      hdb _ (.application row (Table.get?_eq_some.mp hget).1 List.mem_cons_self)
    refine namesKnown_append (w := [_]) ?_ ?_
    · simp [NamesKnown, Write.names, reviewSet, huser]
    · by_cases ht : target = .approved
      · obtain ⟨e₃, role, hrole, -, rfl⟩ := happroved ht
        refine namesKnown_append (hrole.namesKnown happlicant) ?_
        simp [NamesKnown, Write.names, RoleGrant.refs, approvalGrant, Notification.refs,
          approvedNotification, happlicant, huser]
      · rw [hother ht]
        simp [NamesKnown, Write.names, Notification.refs, rejectedNotification, happlicant, huser]
  | createApplication applicant displayName =>
    obtain rfl : applicant = user := hmade
    obtain ⟨e, db₁, db₂, -, -, -, -, rfl⟩ := h
    simp [NamesKnown, Write.names, AdvisorApplication.refs, huser]
  | createConcern author fields =>
    obtain rfl : author = user := hmade
    obtain ⟨e, -, rfl⟩ := h
    simp [NamesKnown, Write.names, Concern.refs, huser]
  | assignAdvisor id actor data =>
    obtain rfl : actor = user := hmade
    obtain ⟨e₁, e₂, row, transition, -, hget, -, -, ⟨db₁, hd, hrole⟩, -, -, rfl, htrans⟩ := h
    have hconcern := has_concern_of_get? hget
    have hadvisor := has_of_hasRole hdb hd hrole
    refine namesKnown_append (namesKnown_append ?_ ?_) ?_
    · simp [NamesKnown, Write.names, Assignment.refs, hconcern, hadvisor, huser]
    · exact htrans.namesKnown (List.forall_mem_nil _)
    · simp [NamesKnown, Write.names, Notification.refs, assignmentNotification, Assignment.saved,
        hadvisor, huser]
  | createAdvice id advisor body submit =>
    obtain rfl : advisor = user := hmade
    obtain ⟨e, db₁, db₂, row, hd, -, hlive, -, -, rfl⟩ := h
    have hconcern : db.Has (.concern id) :=
      hd.has _ (has_concern_of_get? (Option.filter_eq_some_iff.mp hlive).1)
    simp [NamesKnown, Write.names, Advice.refs, hconcern, huser]
  | updateAdvice id actor data =>
    obtain rfl : actor = user := hmade
    obtain ⟨e, row, snapshot, -, hget, -, -, rfl, -, hsnap⟩ := h
    have hadvice := has_advice_of_get? hget
    refine namesKnown_append (hsnap.namesKnown ?_) (List.forall_mem_singleton.mpr (List.forall_mem_nil _))
    simp [Write.names, AdviceHistory.refs, hadvice, huser]
  | reviewAdvice id actor decision reason expectedVersion =>
    obtain rfl : actor = user := hmade
    obtain ⟨e₁, e₂, now, row, concern, transition, -, -, hget, -, -, -, -, hconcern, -, -, rfl,
      htrans⟩ := h
    have hadvisor : db.Has (.user row.advisor) :=
      hdb _ (.advice row (Table.get?_eq_some.mp hget).1 (by simp [Advice.refs]))
    have hauthor : db.Has (.user concern.author) :=
      hdb _ (.concern concern (Table.get?_eq_some.mp hconcern).1 (List.mem_singleton_self _))
    have hknown := has_concern_of_get? hconcern
    refine namesKnown_append (namesKnown_append ?_ (htrans.namesKnown (List.forall_mem_nil _))) ?_
    · simp [NamesKnown, Write.names, Advice.refs, reviewed, hknown, hadvisor, huser]
    · cases decision <;> simp [NamesKnown, Write.names, Notification.refs, adviceApprovedNotification,
        adviceRejectedNotification, reviewed, hauthor, hadvisor, huser]
  | createFeedback id author data =>
    obtain rfl : author = user := hmade
    obtain ⟨e, db₁, row, concern, hd, hfound, -, -, -, -, rfl⟩ := h
    have hadvice : db.Has (.advice id) :=
      hd.has _ (has_advice_of_get? (adviceAndConcern?_eq_some.mp hfound).1)
    simp [NamesKnown, Write.names, Feedback.refs, hadvice, huser]
  | transitionFeedback id actor newStatus memo =>
    obtain rfl : actor = user := hmade
    obtain ⟨e, now, db₁, row, -, -, -, -, rfl⟩ := h
    unfold transitionSet
    split_ifs <;> simp [NamesKnown, Write.names, huser]
  -- the other calls name no key
  | setActiveRole u target =>
    obtain ⟨e, -, -, rfl⟩ := h
    simp [NamesKnown, Write.names]
  | updateProfile u data =>
    obtain ⟨e, -, rfl⟩ := h
    simp [NamesKnown, Write.names]
  | updateOwnConcern u id data =>
    obtain ⟨e, row, -, -, -, -, -, -, rfl⟩ := h
    simp [NamesKnown, Write.names]
  | deleteConcern u id =>
    obtain ⟨e, now, db₁, row, -, -, -, -, rfl⟩ := h
    simp [NamesKnown, Write.names]
  | unassignAdvisor id assignmentId =>
    obtain ⟨e₁, now, row, a, transition, -, -, -, -, -, rfl, htrans⟩ := h
    exact namesKnown_append (w := [_]) (List.forall_mem_singleton.mpr (List.forall_mem_nil _))
      (htrans.namesKnown (List.forall_mem_nil _))
  | closeSelected ids | softDeleteSelected ids | restoreSelected ids => exact absurd rfl hne
  | deleteAdvice id actor =>
    obtain ⟨e, row, -, -, -, -, rfl⟩ := h
    simp [NamesKnown, Write.names]
  | markRead u id =>
    obtain ⟨row, -, -, -, ⟨-, rfl⟩ | ⟨-, e, now, rfl⟩⟩ := h <;> simp [NamesKnown, Write.names]

end

theorem intact_of_names {w : Pending Write} {db : Db} (hdb : db.Intact) (hnames : NamesKnown db w) :
    (applyAll w db).Intact := by
  intro k hk
  obtain hold | ⟨p, hp, hk⟩ := refers_applyAll hk
  · exact has_applyAll (hdb k hold)
  · exact has_applyAll (hnames p hp k hk)

/-- Who has a standing other than the staff's is there. -/
theorem has_of_standing {db : Db} {user : Id} {standing : Standing} (hdb : db.Intact)
    (hne : standing ≠ .staff) (h : standing.holds db user) : db.Has (.user user) := by
  cases standing with
  | member =>
    exact Option.isSome_of_any (show (db.users.get? user).any _ = true from h)
  | advisor =>
    obtain ⟨account, huser, -⟩ := h
    exact has_of_get? huser
  | admin =>
    rw [Standing.holds, Db.isAdmin, Bool.or_eq_true] at h
    obtain hsuper | hrole := h
    · exact Option.isSome_of_any hsuper
    · exact has_of_hasRole hdb (anchored_refl db) hrole
  | staff => exact absurd rfl hne

theorem anchored_of_slot {ok : Config system → Event system → Prop} {σ₀ : World Db}
    {c : Config system} (hr : Config.Reaches ok (Config.idle σ₀) c) {t : ℕ} {s : Session system} {n}
    (hslot : c.slot t = some s) (hp : s.prog = .commit n) :
    Committed Anchored (c.held t) s.writes c.world.db s.call ∧
      Entries (c.held t) s.writes c.world.db s.call := by
  have hsound := entriesDiscipline.holds_drifting anchored_refl Anchored.trans
    (fun _ _ hc => anchored_committed hc.1) hr
  exact hsound.commit (entriesDiscipline.verified_drifting anchored_refl Anchored.trans) hslot hp

/-- A commit of an admitted call: whoever makes it was there when it was admitted. -/
theorem intact_admitted {L : Set Key} {w : Pending Write} {db db₀ : Db} {call : Call} {a : Arrival}
    (h : Committed Anchored L w db call) (hentries : Entries L w db call) (hdb : db.Intact)
    (hdb₀ : db₀.Intact) (hkept : ∀ k, db₀.Has k → db.Has k) (hadmits : a.Admits db₀ call) :
    (applyAll w db).Intact := by
  refine intact_of_names hdb ?_
  cases a with
  | request user r =>
    obtain ⟨hstanding, hmade⟩ := Request.standing_of_call? hadmits.1
    have huser := hkept _ (has_of_standing hdb₀ r.standing_ne_staff hadmits.2)
    refine names_committed h hentries hdb hmade ?_ huser
    rw [hstanding]
    exact r.standing_ne_staff
  | closeSelected ids | softDeleteSelected ids | restoreSelected ids =>
    obtain rfl : call = _ := hadmits
    intro p hp
    obtain ⟨id, s, hx, -⟩ := permitted_staff h rfl p hp
    rw [hx]
    exact List.forall_mem_nil _

/-- What a run has passed through has stayed. -/
def Passed (σs : List (World Db)) (db : Db) : Prop :=
  db.Intact ∧ ∀ σ ∈ σs, σ.db.Intact ∧ ∀ k, σ.db.Has k → db.Has k

theorem passed_through {σ₀ : World Db} {σs : List (World Db)} {d : Config system} (h₀ : σ₀.db.Intact)
    (hd : Config.Through (fun db call => ∃ a : Arrival, a.Admits db call) (Config.idle σ₀) d σs) :
    Passed σs d.world.db := by
  refine hd.invariant (I := Passed) ?_ ?_ ?_
  · refine ⟨h₀, fun σ hσ => ?_⟩
    obtain rfl := List.mem_singleton.mp hσ
    exact ⟨h₀, fun _ hk => hk⟩
  · intro σs σ hpassed
    refine ⟨hpassed.1, fun σ' hσ' => ?_⟩
    obtain hσ' | hσ' := List.mem_append.mp hσ'
    · exact hpassed.2 σ' hσ'
    · obtain rfl := List.mem_singleton.mp hσ'
      exact ⟨hpassed.1, fun _ hk => hk⟩
  · rintro d σs t s n hd hslot hp ⟨hdb, hpassed⟩
    obtain ⟨hcommitted, hentries⟩ := anchored_of_slot hd.reaches hslot hp
    obtain ⟨σ, hσ, -, ⟨a, hadmits⟩, -, -⟩ := hd.admitted hslot
    obtain ⟨hdb₀, hkept⟩ := hpassed σ hσ
    refine ⟨intact_admitted hcommitted hentries hdb hdb₀ hkept hadmits, fun σ' hσ' => ?_⟩
    obtain ⟨hintact, hhas⟩ := hpassed σ' hσ'
    exact ⟨hintact, fun k hk => has_applyAll (hhas k hk)⟩

/-- In every run of the API no foreign key dangles. -/
theorem references_hold {icontains : String → String → Bool} {σ₀ : World Db}
    {c : Config (api icontains)} {ok : Config (api icontains) → Event (api icontains) → Prop}
    (h₀ : σ₀.db.Intact) (hr : Config.Reaches ok (Config.idle σ₀) c) : c.world.db.Intact := by
  obtain ⟨σs, h⟩ := hr.through
  obtain ⟨d, hd, hbehind⟩ := services_behind h
  rw [← hbehind.world]
  exact (passed_through h₀ hd).1

theorem intact_oneMember : oneMember.db.Intact := by
  intro k h
  cases h with
  | userRole _ h | roleGrant _ h | application _ h | concern _ h | assignment _ h | advice _ h
  | history _ h | feedback _ h | notification _ h => exact absurd h (Table.not_mem_empty _)

theorem references_hold_posted : Refers memberPosted.world.db (.user 1) ∧
    memberPosted.world.db.Intact := by
  have hposted : Config.Reachable (Config.idle oneMember) memberPosted :=
    (Config.reachable_after _ _).trans (Config.reachable_after _ _)
  refine ⟨?_, references_hold intact_oneMember hposted⟩
  exact .concern { id := 7, author := 1, fields := { concernSummary := "", concernType := .burnout }
                   createdAt := 2, updatedAt := 2 } (List.mem_singleton_self _)
    (List.mem_singleton_self _)

end Chamneul
