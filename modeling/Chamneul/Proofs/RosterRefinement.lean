import Chamneul.Abstract.Roster
import Chamneul.Proofs.Disciplined

/-! The account tables seen as a roster. Each transaction is one step of it, and
what it files and moves can be read off its pending changes. -/

namespace Chamneul

open ReadCommitted ReadCommitted.Prog Service

def roster (db : Db) : Roster where
  holds k := db.hasRole k.1 k.2
  wears u := (db.users.get? u).map (·.activeRole)
  enabled := db.isActiveUser
  trail := db.roleGrants.rows

/-- The rows of `RoleGrant` among some changes, as they will be stored. -/
def filed (w : Pending Write) : List RoleGrant :=
  w.filterMap fun p =>
    match p.2 with
    | .insertRoleGrant g => some (g.saved p.1)
    | _ => none

def moved (w : Pending Write) : List (Id × Role) :=
  w.filterMap fun p =>
    match p.2 with
    | .insertUserRole r | .deleteUserRole r => some (r.user, r.role)
    | _ => none

theorem filed_append (w w' : Pending Write) : filed (w ++ w') = filed w ++ filed w' :=
  List.filterMap_append

theorem moved_append (w w' : Pending Write) : moved (w ++ w') = moved w ++ moved w' :=
  List.filterMap_append

def Roster.Event.moved : Roster.Event → List (Id × Role)
  | .gain g | .lose g => [g.office]
  | _ => []

def Admits (db : Db) (call : Call) (applicant : Id) : Prop :=
  ∃ id actor reason row, call = .reviewApplication id actor .approved reason ∧
    db.applications.get? id = some row ∧ row.status = .reviewing ∧ row.applicant = applicant

def NoAdvisors (db : Db) : Prop :=
  (∀ r ∈ db.userRoles, r.role ≠ .advisor) ∧ ∀ g ∈ db.roleGrants, g.role ≠ .advisor

theorem NoAdvisors.log {db : Db} (h : NoAdvisors db) (u : Id) :
    (roster db).log (u, .advisor) = [] := by
  refine List.filter_eq_nil_iff.mpr fun g hg => ?_
  have := h.2 g hg
  simp [RoleGrant.office, this]

theorem NoAdvisors.holds {db : Db} (h : NoAdvisors db) (u : Id) :
    (roster db).holds (u, .advisor) = false := by
  refine Option.isSome_eq_false_iff.mpr (Option.isNone_iff_eq_none.mpr ?_)
  exact Table.get?_eq_none.mpr fun r hr hk => h.1 r hr (congrArg Prod.snd hk)

section

variable {e : Env} {db : Db}

theorem roster_same {db' : Db} (hu : Same .users db db') (hr : Same .userRoles db db')
    (hg : Same .roleGrants db db') : roster db' = roster db := by
  have hu : db'.users = db.users := hu
  have hr : db'.userRoles = db.userRoles := hr
  have hg : db'.roleGrants = db.roleGrants := hg
  have hactive : db'.isActiveUser = db.isActiveUser := by
    funext u
    rw [Db.isActiveUser, hu, Db.isActiveUser]
  simp only [roster, Db.hasRole, hu, hr, hg, hactive]

theorem hasRole_insertUserRole {r : UserRole} (h : db.hasRole r.user r.role = false) (u : Id)
    (role : Role) : (apply e (.insertUserRole r) db).hasRole u role =
      if (u, role) = (r.user, r.role) then true else db.hasRole u role := by
  have hfree : db.userRoles.get? (Keyed.key (r.saved e)) = none := by
    simpa [Db.hasRole, UserRole.saved] using h
  have hkey : (Keyed.key (r.saved e) = (u, role)) ↔ (u, role) = (r.user, r.role) := eq_comm
  rw [Db.hasRole, apply, Table.get?_insert _ _ _ hfree]
  split_ifs with hk hk' hk'
  · rfl
  · exact absurd (hkey.mp hk) hk'
  · exact absurd (hkey.mpr hk') hk
  · rfl

theorem hasRole_deleteUserRole {r : UserRole} {k : Id × Role} (h : db.userRoles.get? k = some r)
    (u : Id) (role : Role) : (apply e (.deleteUserRole r) db).hasRole u role =
      if (u, role) = k then false else db.hasRole u role := by
  have hk : (r.user, r.role) = k := (Table.get?_eq_some.mp h).2
  rw [Db.hasRole, apply, Table.get?_delete]
  by_cases hu : (u, role) = k
  · simp [hu, h]
  · rw [if_neg hu, Db.hasRole]
    cases hx : db.userRoles.get? (u, role) with
    | none => rfl
    | some x =>
      have hxk : (x.user, x.role) = (u, role) := (Table.get?_eq_some.mp hx).2
      have hne : ¬ (x.id = r.id ∧ x.user = r.user ∧ x.role = r.role) := by
        rintro ⟨-, hxu, hxr⟩
        exact hu (by rw [← hxk, hxu, hxr, hk])
      simp only [Option.filter_some, hne, decide_false, Bool.not_false, if_true]

theorem roster_insertUserRole {r : UserRole} (h : db.hasRole r.user r.role = false) :
    roster (apply e (.insertUserRole r) db) =
      { roster db with holds := Function.update (roster db).holds (r.user, r.role) true } := by
  simp only [roster, Roster.mk.injEq]
  refine ⟨?_, rfl, rfl, rfl⟩
  funext k
  rw [hasRole_insertUserRole h, Function.update_apply]

theorem roster_deleteUserRole {r : UserRole} {k : Id × Role} (h : db.userRoles.get? k = some r) :
    roster (apply e (.deleteUserRole r) db) =
      { roster db with holds := Function.update (roster db).holds k false } := by
  simp only [roster, Roster.mk.injEq]
  refine ⟨?_, rfl, rfl, rfl⟩
  funext k'
  rw [hasRole_deleteUserRole h, Function.update_apply]

theorem roster_insertRoleGrant {g : RoleGrant} (h : db.roleGrants.get? e.uuid = none) :
    roster (apply e (.insertRoleGrant g) db) =
      { roster db with trail := (roster db).trail ++ [g.saved e] } := by
  simp only [roster, Roster.mk.injEq]
  exact ⟨rfl, rfl, rfl, Table.rows_insert h⟩

theorem roster_updateUser (id : Id) (s : UserSet) :
    roster (apply e (.updateUser id s) db) =
      { roster db with
        wears := Function.update (roster db).wears id
          (((roster db).wears id).map fun a => s.activeRole.getD a) } := by
  simp only [roster, Roster.mk.injEq]
  refine ⟨rfl, ?_, ?_, rfl⟩
  · funext u
    rw [apply, Table.get?_update, Function.update_apply]
    split_ifs with hu
    · subst hu
      cases db.users.get? u <;> rfl
    · rfl
  · funext u
    rw [Db.isActiveUser, apply, Table.get?_update]
    split_ifs
    · cases h : db.users.get? u <;> simp [Db.isActiveUser, UserSet.apply, h]
    · rfl

end

/-- A user who does not wear ADVISOR wears USER already. -/
theorem roster_demotion {db : Db} {target : Id} {role : Role} {a : ActiveRole}
    {demotion : Pending Write} (ha : (roster db).wears target = some a)
    (h : RanIf (role = .advisor ∧ a = .advisor) (.updateUser target { activeRole := some .user })
      demotion) :
    roster (applyAll demotion db) =
      { roster db with
        wears := if role = .advisor
          then Function.update (roster db).wears target (((roster db).wears target).map fun _ => .user)
          else (roster db).wears } := by
  cases h with
  | ran e hc =>
    rw [if_pos hc.1]
    exact roster_updateUser target _
  | skipped hc =>
    rw [applyAll_nil]
    split_ifs with hrole
    · have hwears : a = .user := by
        cases a with
        | user => rfl
        | advisor => exact absurd ⟨hrole, rfl⟩ hc
      rw [ha, Option.map_some, ← hwears, ← ha, Function.update_eq_self]
    · rfl

theorem filed_of_table {w : Pending Write} (h : ∀ p ∈ w, p.2.table ≠ .roleGrants) : filed w = [] := by
  refine List.filterMap_eq_nil_iff.mpr fun p hp => ?_
  have := h p hp
  revert this
  cases p.2 <;> simp [Write.table]

theorem moved_of_table {w : Pending Write} (h : ∀ p ∈ w, p.2.table ≠ .userRoles) : moved w = [] := by
  refine List.filterMap_eq_nil_iff.mpr fun p hp => ?_
  have := h p hp
  revert this
  cases p.2 <;> simp [Write.table]

theorem mem_filed {w : Pending Write} {g : RoleGrant} :
    g ∈ filed w ↔ ∃ p ∈ w, ∃ row, p.2 = .insertRoleGrant row ∧ row.saved p.1 = g := by
  unfold filed
  rw [List.mem_filterMap]
  refine exists_congr fun p => and_congr_right fun _ => ?_
  cases p.2 <;> simp

/-- A filed row carries the time of its statement. -/
theorem stamped_filed {t t' : ℕ} {w : Pending Write} (h : Stamped t t' w) {g : RoleGrant}
    (hg : g ∈ filed w) : t ≤ g.actedAt ∧ g.actedAt < t' := by
  obtain ⟨p, hp, row, -, rfl⟩ := mem_filed.mp hg
  exact h p hp

structure RosterStep (drift : Db → Db → Prop) (w : Pending Write) (db : Db) (call : Call)
    (e : Roster.Event) : Prop where
  step : (roster db).Step e (roster (applyAll w db))
  filed : filed w = e.filed
  moved : moved w = e.moved
  again : ∀ g, e = .again g → g.role = .advisor ∧ Admits db call g.user ∧
    ∃ db₁, drift db₁ db ∧ db₁.hasRole g.user .advisor = true

theorem roster_step {drift : Db → Db → Prop} {L : Set Key} {w : Pending Write} {db : Db}
    {call : Call} (h : Committed drift L w db call) : ∃ e, RosterStep drift w db call e := by
  have htable := table_of_committed h
  cases call with
  | setActiveRole user target =>
    obtain ⟨e, -, hheld, rfl⟩ := h
    refine ⟨.wear, .to (.wear user target fun ha => ?_) (roster_updateUser user _), rfl, rfl,
      fun g hg => by cases hg⟩
    simpa [ha, ActiveRole.toRole, Db.heldRoles, roster] using hheld
  | updateProfile user data =>
    obtain ⟨e, -, rfl⟩ := h
    refine ⟨.stay, .to .stay ((roster_updateUser user _).trans ?_), rfl, rfl, fun g hg => by cases hg⟩
    have hid : (fun a : ActiveRole => data.toSet.activeRole.getD a) = id := rfl
    rw [hid, Option.map_id, id_eq, Function.update_eq_self]
  | grantRole target role actor reason =>
    obtain ⟨e₁, e₂, -, -, hfresh, hgrant, rfl⟩ := h
    let g : RoleGrant :=
      { user := target, role := role, action := .grant, actedBy := actor, reason := reason }
    have hrow := roster_insertUserRole (e := e₁) (r := { user := target, role := role }) hfresh.1
    have hfile : roster (apply e₂ (.insertRoleGrant g) (apply e₁ (.insertUserRole
        { user := target, role := role }) db)) = _ := roster_insertRoleGrant hgrant
    rw [hrow] at hfile
    exact ⟨.gain (g.saved e₂), .to (.gain _ rfl hfresh.1) hfile, rfl, rfl, fun g hg => by cases hg⟩
  | revokeRole target role actor reason =>
    obtain ⟨e₁, e₂, user, row, -, -, huser, hget, hgrant, hadmin, demotion, rfl, hdem⟩ := h
    have hkey : (row.user, row.role) = (target, role) := (Table.get?_eq_some.mp hget).2
    let g : RoleGrant :=
      { user := target, role := role, action := .revoke, actedBy := actor, reason := reason }
    have hheld : (roster db).holds (target, role) = true := by simp [roster, Db.hasRole, hget]
    have hrow := roster_deleteUserRole (e := e₁) hget
    have hfile : roster (apply e₂ (.insertRoleGrant g) (apply e₁ (.deleteUserRole row) db)) = _ :=
      roster_insertRoleGrant hgrant
    rw [hrow] at hfile
    have hstep := Roster.Step.lose (g.saved e₂) rfl hheld fun hrole => (hadmin hrole).2
    refine ⟨.lose (g.saved e₂), .to hstep ?_, ?_, ?_, fun g hg => by cases hg⟩
    · have hwears : (roster (apply e₂ (.insertRoleGrant g)
          (apply e₁ (.deleteUserRole row) db))).wears target = some user.activeRole := by
        simp [roster, apply, huser]
      rw [applyAll_append]
      refine (roster_demotion hwears hdem).trans ?_
      rw [hfile]
      rfl
    · cases hdem <;> rfl
    · cases hdem <;> simp [moved, Roster.Event.moved, RoleGrant.office, RoleGrant.saved, hkey, g]
  | reviewApplication id actor target reason =>
    obtain ⟨row, e₁, e₂, now, effects, -, hrow, htarget, -, -, rfl, happ, hrej⟩ := h
    by_cases ht : target = .approved
    · subst ht
      obtain ⟨e₃, role, hrole, hgrant, rfl⟩ := happ rfl
      have hadmit : Admits db (.reviewApplication id actor .approved reason) row.applicant := by
        refine ⟨id, actor, reason, row, rfl, hrow, ?_, rfl⟩
        cases hs : row.status <;> simp [hs, AdvisorApplicationStatus.allowed] at htarget ⊢
      let g := approvalGrant row.applicant actor
      let db₁ := apply e₁ (.updateApplication id (reviewSet row actor .approved reason now)) db
      cases hrole with
      | found db₀ hd hheld =>
        have hfile : roster (apply e₃ (.insertRoleGrant g) db₁) = _ := roster_insertRoleGrant hgrant
        refine ⟨.again (g.saved e₃), .to (.again _ rfl) hfile, rfl, rfl, ?_⟩
        intro g' hg'
        cases hg'
        exact ⟨rfl, hadmit, db₀, hd, hheld⟩
      | created e hid hentry hfresh =>
        let r : UserRole := { user := row.applicant, role := .advisor }
        have hgain : roster (apply e (.insertUserRole r) db₁) = _ := roster_insertUserRole hfresh.1
        have hfile : roster (apply e₃ (.insertRoleGrant g) (apply e (.insertUserRole r) db₁)) = _ :=
          roster_insertRoleGrant hgrant
        rw [hgain] at hfile
        exact ⟨.gain (g.saved e₃), .to (.gain _ rfl hfresh.1) hfile, rfl, rfl, fun g hg => by cases hg⟩
    · obtain rfl := hrej ht
      exact ⟨.stay, .stay, rfl, rfl, fun g hg => by cases hg⟩
  | _ =>
    refine ⟨.stay, .to .stay (roster_same ?_ ?_ ?_), filed_of_table fun p hp he => ?_,
      moved_of_table fun p hp he => ?_, fun g hg => by cases hg⟩
    · exact same_of_committed h (by simp [Call.tables])
    · exact same_of_committed h (by simp [Call.tables])
    · exact same_of_committed h (by simp [Call.tables])
    · have := htable p hp
      rw [he] at this
      simp [Call.tables] at this
    · have := htable p hp
      rw [he] at this
      simp [Call.tables] at this

end Chamneul
