import Chamneul.Proofs.AccountSpecs
import Chamneul.Store.Alone

/-! Why a revocation is refused. `revokeRole` counts active administrators only, so a
target that holds ADMIN and is not active is said not to hold it. -/

namespace Chamneul

open ReadCommitted ReadCommitted.Prog Service

def Db.AnotherAdmin (db : Db) (user : Id) : Prop :=
  ∃ x ≠ user, db.hasRole x .admin = true ∧ db.isActiveUser x = true

/-- The table has lost `row`, has one event more, and the user has taken ADVISOR off if
it was the role revoked. -/
structure RoleRevoked (user : User) (role : Role) (actor : Id) (reason : String) (db db' : Db) :
    Prop where
  row : ∃ row ∈ db.userRoles, Keyed.key row = (user.id, role) ∧
    ∀ r, r ∈ db'.userRoles ↔ r ∈ db.userRoles ∧ r ≠ row
  event : ∃ g, g.user = user.id ∧ g.role = role ∧ g.action = .revoke ∧ g.actedBy = actor ∧
    g.reason = reason ∧ db'.roleGrants.rows = db.roleGrants.rows ++ [g]
  demoted : role = .advisor → user.activeRole = .advisor →
    ∃ now, db'.users.get? user.id = some { user with activeRole := .user, updatedAt := now }
  worn : ¬ (role = .advisor ∧ user.activeRole = .advisor) → db'.users = db.users
  others : ∀ id ≠ user.id, db'.users.get? id = db.users.get? id
  rest : db' =
    { db with users := db'.users, userRoles := db'.userRoles, roleGrants := db'.roleGrants }

section

variable {draw : ℕ → ℕ} {σ : World Db}

theorem alone_write {α : Type} {x : Write} {w : Pending Write}
    (hv : violates (σ.view w) ⟨σ.now, draw σ.now⟩ x = false) (out : Env → Db → α) :
    (Service.write x out).alone draw w σ = (.ok (out ⟨σ.now, draw σ.now⟩ (σ.view w)),
      w ++ [((⟨σ.now, draw σ.now⟩ : Env), x)], σ.tick) := by
  rw [Service.write, alone_execute]
  simp [Engine.violates, hv]

theorem alone_write_refused {α : Type} {x : Write} {w : Pending Write}
    (hv : violates (σ.view w) ⟨σ.now, draw σ.now⟩ x = true) (out : Env → Db → α) :
    (Service.write x out).alone draw w σ = (.error .integrityError, w, σ.tick) := by
  rw [Service.write, alone_execute]
  simp [Engine.violates, hv]

/-- Alone, every administrator that is found is still there when it is locked. -/
theorem lockAdminRoles_alone (draw : ℕ → ℕ) (σ : World Db) :
    ∃ σ', σ'.db = σ.db ∧ lockAdminRoles.alone draw [] σ = (.ok σ.db.activeAdminRoles, [], σ') := by
  have hround : ∀ x ∈ σ.db.activeAdminRoles, ∀ σ₁ : World Db, σ₁.db = σ.db →
      ∃ σ₂, σ₂.db = σ.db ∧ (lockAdminRole x).alone draw [] σ₁ = (.ok (some x), [], σ₂) := by
    intro x hx σ₁ hσ₁
    obtain ⟨hrow, -, hactive⟩ := mem_activeAdminRoles.mp hx
    refine ⟨σ₁.tick.tick, hσ₁, ?_⟩
    have hrow : x ∈ σ₁.db.userRoles.rows := hσ₁ ▸ hrow
    rw [lockAdminRole, alone_bind_ok (alone_queryForUpdate ..)]
    simp only [World.view_nil, hrow, decide_true, if_true]
    rw [alone_bind_ok (alone_queryForUpdate ..)]
    simp only [World.view_nil, World.tick_db, hσ₁, hactive, if_true, alone_pure]
  obtain ⟨σ', hdb, hall⟩ := alone_collect (I := fun σ₁ => σ₁.db = σ.db) (σ := σ.tick) hround rfl
  refine ⟨σ', hdb, ?_⟩
  rw [lockAdminRoles, alone_bind_ok (alone_query ..)]
  simpa using hall

/-! The guards of an ADMIN revocation, in their order. -/

variable {target actor : Id}

theorem guardAdmin_alone_self (hself : target = actor) :
    (guardAdmin target actor).alone draw [] σ = (.error
      (.conflict "자기 자신의 ADMIN 역할은 회수할 수 없습니다." (some "SELF_REVOKE")), [], σ) := by
  rw [guardAdmin]
  exact alone_bind_error (alone_raiseIf_of hself _) _

theorem guardAdmin_alone_notHeld (draw : ℕ → ℕ) (hself : target ≠ actor)
    (hnone : ∀ row ∈ σ.db.activeAdminRoles, row.user ≠ target) :
    ∃ σ', σ'.db = σ.db ∧ (guardAdmin target actor).alone draw [] σ =
      (.error (.conflict "보유하지 않은 역할입니다." (some "NOT_HELD")), [], σ') := by
  obtain ⟨σ', hdb, hlocked⟩ := lockAdminRoles_alone draw σ
  refine ⟨σ', hdb, ?_⟩
  rw [guardAdmin, alone_bind_ok (alone_raiseIf_of_not hself _), alone_bind_ok hlocked]
  exact alone_bind_error (alone_raiseIf_of hnone _) _

theorem guardAdmin_alone_last (draw : ℕ → ℕ) (hself : target ≠ actor)
    (hsome : ¬ ∀ row ∈ σ.db.activeAdminRoles, row.user ≠ target)
    (hlast : σ.db.activeAdminRoles.length ≤ 1) :
    ∃ σ', σ'.db = σ.db ∧ (guardAdmin target actor).alone draw [] σ =
      (.error (.conflict "마지막 관리자는 회수할 수 없습니다." (some "LAST_ADMIN")), [], σ') := by
  obtain ⟨σ', hdb, hlocked⟩ := lockAdminRoles_alone draw σ
  refine ⟨σ', hdb, ?_⟩
  rw [guardAdmin, alone_bind_ok (alone_raiseIf_of_not hself _), alone_bind_ok hlocked,
    alone_bind_ok (alone_raiseIf_of_not hsome _)]
  exact alone_raiseIf_of hlast _

theorem guardAdmin_alone_passed (draw : ℕ → ℕ) (hself : target ≠ actor)
    (hsome : ¬ ∀ row ∈ σ.db.activeAdminRoles, row.user ≠ target)
    (hmore : ¬ σ.db.activeAdminRoles.length ≤ 1) :
    ∃ σ', σ'.db = σ.db ∧ (guardAdmin target actor).alone draw [] σ = (.ok (), [], σ') := by
  obtain ⟨σ', hdb, hlocked⟩ := lockAdminRoles_alone draw σ
  refine ⟨σ', hdb, ?_⟩
  rw [guardAdmin, alone_bind_ok (alone_raiseIf_of_not hself _), alone_bind_ok hlocked,
    alone_bind_ok (alone_raiseIf_of_not hsome _)]
  exact alone_raiseIf_of_not hmore _

theorem mem_activeAdminRoles_iff {db : Db} : (∃ row ∈ db.activeAdminRoles, row.user = target) ↔
    db.hasRole target .admin = true ∧ db.isActiveUser target = true := by
  constructor
  · rintro ⟨row, hrow, rfl⟩
    obtain ⟨hmem, hrole, hactive⟩ := mem_activeAdminRoles.mp hrow
    refine ⟨?_, hactive⟩
    rw [Db.hasRole, Table.get?_eq_some.mpr ⟨hmem, by rw [UserRole.key_eq, hrole]⟩,
      Option.isSome_some]
  · rintro ⟨hheld, hactive⟩
    obtain ⟨row, hr⟩ := Option.isSome_iff_exists.mp hheld
    obtain ⟨hmem, hkey⟩ := Table.get?_eq_some.mp hr
    obtain ⟨rfl, hrole⟩ : row.user = target ∧ row.role = .admin := by simpa using hkey
    exact ⟨row, mem_activeAdminRoles.mpr ⟨hmem, hrole, hactive⟩, rfl⟩

theorem anotherAdmin_iff {db : Db} :
    db.AnotherAdmin target ↔ ∃ row ∈ db.activeAdminRoles, row.user ≠ target := by
  constructor
  · rintro ⟨x, hne, hx⟩
    obtain ⟨row, hrow, rfl⟩ := mem_activeAdminRoles_iff.mpr hx
    exact ⟨row, hrow, hne⟩
  · rintro ⟨row, hrow, hne⟩
    exact ⟨row.user, hne, mem_activeAdminRoles_iff.mp ⟨row, hrow, rfl⟩⟩

/-- The count speaks of the other administrators once the target is among those counted. -/
theorem length_activeAdminRoles {db : Db} (hrow : ∃ row ∈ db.activeAdminRoles, row.user = target) :
    db.activeAdminRoles.length ≤ 1 ↔ ¬ db.AnotherAdmin target := by
  obtain ⟨row, hrow, rfl⟩ := hrow
  have hnodup := nodup_activeAdminRoles db
  rw [anotherAdmin_iff]
  match hrows : db.activeAdminRoles with
  | [] => simp [hrows] at hrow
  | [a] =>
    obtain rfl : row = a := by simpa [hrows] using hrow
    simp
  | a :: b :: rest =>
    have hne : a.user ≠ b.user := by
      rw [hrows] at hnodup
      simp only [List.map_cons, List.nodup_cons, List.mem_cons, not_or] at hnodup
      exact hnodup.1.1
    refine iff_of_false (by simp) (not_not.mpr ?_)
    by_cases ha : a.user = row.user
    · exact ⟨b, by simp, fun hb => hne (ha.trans hb.symm)⟩
    · exact ⟨a, by simp, ha⟩

/-! What follows the guards. -/

/-- What is left of `revoke_role` when the guards are passed. -/
def revokeEnd (user : User) (role : Role) (actor : Id) (reason : String) : Service User := do
  let deleted ← execute
    (fun db => (db.userRoles.get? (user.id, role)).toList.map .deleteUserRole) .integrityError
    fun _ db => db.hasRole user.id role
  raiseIf (deleted = false) (.conflict "보유하지 않은 역할입니다." (some "NOT_HELD"))
  write (.insertRoleGrant
    { user := user.id, role := role, action := .revoke, actedBy := actor, reason := reason })
    fun _ _ => ()
  if role = .advisor ∧ user.activeRole = .advisor then
    let demote : UserSet := { activeRole := some .user }
    write (.updateUser user.id demote) fun e _ => demote.apply e user
  else pure user

variable {user : User} {role : Role} {reason : String}

theorem revokeEnd_alone_notHeld (draw : ℕ → ℕ) (actor : Id) (reason : String) (hheld : σ.db.hasRole user.id role = false) :
    (revokeEnd user role actor reason).alone draw [] σ =
      (.error (.conflict "보유하지 않은 역할입니다." (some "NOT_HELD")), [], σ.tick) := by
  have hnone : σ.db.userRoles.get? (user.id, role) = none := by
    simpa [Db.hasRole] using hheld
  have hdelete : (execute
      (fun db : Db => (db.userRoles.get? (user.id, role)).toList.map .deleteUserRole)
      .integrityError (fun _ db => db.hasRole user.id role) : Service Bool).alone draw [] σ =
      (.ok false, [], σ.tick) := by
    rw [alone_execute]
    simp [hnone, hheld]
  rw [revokeEnd, alone_bind_ok hdelete]
  exact alone_bind_error (alone_raiseIf_of rfl _) _

/-- The changes of a revocation that is not refused. -/
theorem roleRevoked_of_writes {db : Db} {row : UserRole} (e₁ e₂ : Env) {demotion : Pending Write}
    (huser : db.users.get? user.id = some user)
    (hrow : db.userRoles.get? (user.id, role) = some row)
    (hfresh : db.roleGrants.get? e₂.uuid = none)
    (hdemotion : RanIf (role = .advisor ∧ user.activeRole = .advisor)
      (.updateUser user.id { activeRole := some .user }) demotion) :
    RoleRevoked user role actor reason db (applyAll ([(e₁, .deleteUserRole row), (e₂, .insertRoleGrant
      { user := user.id, role := role, action := .revoke, actedBy := actor, reason := reason })] ++
      demotion) db) := by
  obtain ⟨hmem, hkey⟩ := Table.get?_eq_some.mp hrow
  have hdeleted : ∀ r, r ∈ db.userRoles.delete (fun x =>
      decide (x.id = row.id ∧ x.user = row.user ∧ x.role = row.role)) ↔
      r ∈ db.userRoles ∧ r ≠ row := by
    intro r
    rw [Table.mem_delete, decide_eq_false_iff_not]
    refine and_congr_right fun hr => not_congr ⟨?_, ?_⟩
    · rintro ⟨-, huser, hrole⟩
      exact db.userRoles.eq_of_key hr hmem (by simp [huser, hrole])
    · rintro rfl
      exact ⟨rfl, rfl, rfl⟩
  have hgrants : ∀ g : RoleGrant, (db.roleGrants.insert (g.saved e₂)).rows =
      db.roleGrants.rows ++ [g.saved e₂] := fun g => Table.rows_insert hfresh
  cases hdemotion with
  | ran e hdemote =>
    obtain ⟨rfl, hworn⟩ := hdemote
    refine ⟨⟨row, hmem, hkey, hdeleted⟩, ⟨_, rfl, rfl, rfl, rfl, rfl, hgrants _⟩, ?_, ?_, ?_, rfl⟩
    · intro _ _
      refine ⟨e.now, ?_⟩
      simp [Engine.apply, apply, Table.get?_update, huser, UserSet.apply]
    · exact fun h => absurd ⟨rfl, hworn⟩ h
    · intro id hne
      simp [Engine.apply, apply, Table.get?_update, hne]
  | skipped hdemote =>
    refine ⟨⟨row, hmem, hkey, hdeleted⟩, ⟨_, rfl, rfl, rfl, rfl, rfl, hgrants _⟩, ?_, ?_, ?_, rfl⟩
    · exact fun hrole hworn => absurd ⟨hrole, hworn⟩ hdemote
    · exact fun _ => rfl
    · exact fun _ _ => rfl

theorem revokeEnd_alone_ok (actor : Id) (reason : String) (huser : σ.db.users.get? user.id = some user)
    (hheld : σ.db.hasRole user.id role = true)
    (hdraw : ∀ now, σ.db.roleGrants.get? (draw now) = none) :
    ∃ user' w σ', σ'.db = σ.db ∧
      (revokeEnd user role actor reason).alone draw [] σ = (.ok user', w, σ') ∧
      RoleRevoked user role actor reason σ.db (applyAll w σ.db) := by
  obtain ⟨row, hrow⟩ := Option.isSome_iff_exists.mp hheld
  let event : RoleGrant :=
    { user := user.id, role := role, action := .revoke, actedBy := actor, reason := reason }
  have hdelete : (execute
      (fun db : Db => (db.userRoles.get? (user.id, role)).toList.map .deleteUserRole)
      .integrityError (fun _ db => db.hasRole user.id role) : Service Bool).alone draw [] σ =
      (.ok true, [(⟨σ.now, draw σ.now⟩, .deleteUserRole row)], σ.tick) := by
    rw [alone_execute]
    simp [hrow, hheld, Engine.violates, violates]
  have hfree : violates (σ.tick.view [(⟨σ.now, draw σ.now⟩, .deleteUserRole row)])
      ⟨σ.tick.now, draw σ.tick.now⟩ (.insertRoleGrant event) = false := by
    simp [violates, World.view, Engine.apply, apply, hdraw]
  have hrun := fun f => alone_bind_ok (alone_write hfree fun _ _ => ()) (β := User) f
  let e₁ : Env := ⟨σ.now, draw σ.now⟩
  let e₂ : Env := ⟨σ.now + 1, draw (σ.now + 1)⟩
  let e₃ : Env := ⟨σ.now + 2, draw (σ.now + 2)⟩
  by_cases hdemote : role = .advisor ∧ user.activeRole = .advisor
  · refine ⟨UserSet.apply e₃ { activeRole := some .user } user, _, σ.tick.tick.tick, rfl, ?_,
      roleRevoked_of_writes e₁ e₂ huser hrow (hdraw _) (.ran e₃ hdemote)⟩
    rw [revokeEnd, alone_bind_ok hdelete, alone_bind_ok (alone_raiseIf_of_not (by simp) _), hrun,
      if_pos hdemote, alone_write rfl]
    rfl
  · refine ⟨user, _, σ.tick.tick, rfl, ?_,
      roleRevoked_of_writes e₁ e₂ huser hrow (hdraw _) (.skipped hdemote)⟩
    rw [revokeEnd, alone_bind_ok hdelete, alone_bind_ok (alone_raiseIf_of_not (by simp) _), hrun,
      if_neg hdemote]
    rfl

/-! The whole call. -/

/-- What `revoke_role` does in its transaction. -/
def revokeBody (target : Id) (role : Role) (actor : Id) (reason : String) : Service User := do
  let user ← getUserForUpdate target
  runIf (role = .admin) (guardAdmin user.id actor)
  revokeEnd user role actor reason

theorem revokeBody_alone (huser : σ.db.users.get? user.id = some user)
    {r : Except APIException User} {w : Pending Write} {σ' : World Db}
    (h : (runIf (role = .admin) (guardAdmin user.id actor) >>= fun _ =>
      revokeEnd user role actor reason).alone draw [] σ.tick = (r, w, σ')) :
    (revokeBody user.id role actor reason).alone draw [] σ = (r, w, σ') := by
  have hget : (getUserForUpdate user.id).alone draw [] σ = (.ok user, [], σ.tick) := by
    rw [getUserForUpdate, getForUpdate, lockOr, alone_bind_ok (alone_queryForUpdate ..), World.view_nil, huser]
    rfl
  rw [revokeBody, alone_bind_ok hget, h]

theorem revokeRole_alone (hrole : role ∈ grantableRoles) (target : Id) :
    (revokeRole target role actor reason).alone draw [] σ =
      (atomic (revokeBody target role actor reason)).alone draw [] σ :=
  alone_bind_ok (alone_raiseIf_of_not (not_not.mpr hrole) _) _

def RefusedAs (out : Except APIException User × World Db) (reason : String) : Prop :=
  ∃ detail, out.1 = .error (.conflict detail (some reason))

/-- The call on `user` says why it refuses, and does what it does when it does not. -/
structure Truthful (user : User) (role : Role) (actor : Id) (reason : String)
    (σ : World Db) (out : Except APIException User × World Db) : Prop where
  selfRevoke : RefusedAs out "SELF_REVOKE" ↔ role = .admin ∧ user.id = actor
  notHeld : RefusedAs out "NOT_HELD" ↔
    ¬ (role = .admin ∧ user.id = actor) ∧ σ.db.hasRole user.id role = false
  lastAdmin : RefusedAs out "LAST_ADMIN" ↔
    ¬ (role = .admin ∧ user.id = actor) ∧ σ.db.hasRole user.id role = true ∧
      role = .admin ∧ ¬ σ.db.AnotherAdmin user.id
  succeeds : (∃ user', out.1 = .ok user') ↔
    ¬ (role = .admin ∧ user.id = actor) ∧ σ.db.hasRole user.id role = true ∧
      (role = .admin → σ.db.AnotherAdmin user.id)
  revoked : (∃ user', out.1 = .ok user') → RoleRevoked user role actor reason σ.db out.2.db
  unchanged : ∀ e, out.1 = .error e → out.2.db = σ.db

/-- What the call comes to: the guards in their order, as the code asks them. -/
inductive RevokeOutcome (user : User) (role : Role) (actor : Id) (reason : String) (σ : World Db) : Except APIException User × World Db → Prop
  | self (detail : String) (σ' : World Db) (hself : role = .admin ∧ user.id = actor)
      (hdb : σ'.db = σ.db) :
      RevokeOutcome user role actor reason σ (.error (.conflict detail (some "SELF_REVOKE")), σ')
  | notHeld (detail : String) (σ' : World Db) (hself : ¬ (role = .admin ∧ user.id = actor))
      (hheld : σ.db.hasRole user.id role = false ∨
        role = .admin ∧ σ.db.isActiveUser user.id = false) (hdb : σ'.db = σ.db) :
      RevokeOutcome user role actor reason σ (.error (.conflict detail (some "NOT_HELD")), σ')
  | last (detail : String) (σ' : World Db) (hself : ¬ (role = .admin ∧ user.id = actor))
      (hheld : σ.db.hasRole user.id role = true) (hrole : role = .admin)
      (hactive : σ.db.isActiveUser user.id = true) (hlast : ¬ σ.db.AnotherAdmin user.id)
      (hdb : σ'.db = σ.db) :
      RevokeOutcome user role actor reason σ (.error (.conflict detail (some "LAST_ADMIN")), σ')
  | revoked (user' : User) (σ' : World Db) (hself : ¬ (role = .admin ∧ user.id = actor))
      (hheld : σ.db.hasRole user.id role = true)
      (hanother : role = .admin → σ.db.isActiveUser user.id = true ∧ σ.db.AnotherAdmin user.id)
      (hdb : RoleRevoked user role actor reason σ.db σ'.db) :
      RevokeOutcome user role actor reason σ (.ok user', σ')

/-- With the guards passed, the delete decides. -/
theorem revokeRole_passed (hrole : role ∈ grantableRoles)
    (huser : σ.db.users.get? user.id = some user)
    (hdraw : ∀ now, σ.db.roleGrants.get? (draw now) = none)
    (hself : ¬ (role = .admin ∧ user.id = actor))
    (hanother : role = .admin → σ.db.isActiveUser user.id = true ∧ σ.db.AnotherAdmin user.id)
    {σ₁ : World Db} (hdb : σ₁.db = σ.db)
    (hguards : (runIf (role = .admin) (guardAdmin user.id actor)).alone draw [] σ.tick =
      (.ok (), [], σ₁)) :
    RevokeOutcome user role actor reason σ
      ((revokeRole user.id role actor reason).exec draw [] σ) := by
  cases hheld : σ.db.hasRole user.id role with
  | false =>
    have hheld₁ : σ₁.db.hasRole user.id role = false := hdb ▸ hheld
    have hend := revokeEnd_alone_notHeld draw actor reason hheld₁
    have hbody := revokeBody_alone huser ((alone_bind_ok hguards _).trans hend)
    rw [exec_of_alone ((revokeRole_alone hrole _).trans (alone_atomic_error hbody))]
    exact .notHeld _ _ hself (Or.inl hheld) hdb
  | true =>
    have hheld₁ : σ₁.db.hasRole user.id role = true := hdb ▸ hheld
    obtain ⟨user', w, σ₂, hdb₂, hend, hrevoked⟩ :=
      revokeEnd_alone_ok actor reason (hdb ▸ huser) hheld₁ (hdb ▸ hdraw)
    have hbody := revokeBody_alone huser ((alone_bind_ok hguards _).trans hend)
    rw [exec_of_alone ((revokeRole_alone hrole _).trans (alone_atomic_ok hbody))]
    refine .revoked _ _ hself hheld hanother ?_
    rw [World.commit_db, hdb₂, ← hdb]
    exact hrevoked

theorem revokeRole_outcome (actor : Id) (reason : String) (hrole : role ∈ grantableRoles)
    (huser : σ.db.users.get? user.id = some user)
    (hdraw : ∀ now, σ.db.roleGrants.get? (draw now) = none) :
    RevokeOutcome user role actor reason σ
      ((revokeRole user.id role actor reason).exec draw [] σ) := by
  by_cases hadmin : role = .admin
  · obtain rfl := hadmin
    have hrun : ∀ p : Service Unit, runIf (Role.admin = .admin) p = p := fun p => if_pos rfl
    have hrefused : ∀ {e σ₁}, (guardAdmin user.id actor).alone draw [] σ.tick = (.error e, [], σ₁) →
        (revokeRole user.id .admin actor reason).exec draw [] σ = (.error e, σ₁.tick) := by
      intro e σ₁ h
      have hguard : (runIf (Role.admin = .admin) (guardAdmin user.id actor)).alone draw [] σ.tick =
          (.error e, [], σ₁) := (hrun _).symm ▸ h
      have hbody : (revokeBody user.id .admin actor reason).alone draw [] σ = (.error e, [], σ₁) :=
        revokeBody_alone huser (alone_bind_error hguard _)
      exact exec_of_alone ((revokeRole_alone hrole _).trans (alone_atomic_error hbody))
    by_cases hself : user.id = actor
    · rw [hrefused (guardAdmin_alone_self hself)]
      exact .self _ _ ⟨rfl, hself⟩ rfl
    have hself' : ¬ (Role.admin = .admin ∧ user.id = actor) := fun h => hself h.2
    by_cases hcounted : σ.db.hasRole user.id .admin = true ∧ σ.db.isActiveUser user.id = true
    · obtain ⟨row, hrow, hid⟩ := mem_activeAdminRoles_iff.mpr hcounted
      have hsome : ¬ ∀ row ∈ σ.tick.db.activeAdminRoles, row.user ≠ user.id :=
        fun h => h row hrow hid
      have hcount := length_activeAdminRoles ⟨row, hrow, hid⟩
      by_cases hlast : σ.db.activeAdminRoles.length ≤ 1
      · obtain ⟨σ₁, hdb, hguard⟩ := guardAdmin_alone_last draw hself hsome hlast
        rw [hrefused hguard]
        exact .last _ _ hself' hcounted.1 rfl hcounted.2 (hcount.mp hlast) hdb
      · obtain ⟨σ₁, hdb, hguard⟩ := guardAdmin_alone_passed draw hself hsome hlast
        have hanother : σ.db.AnotherAdmin user.id := not_not.mp (mt hcount.mpr hlast)
        refine revokeRole_passed hrole huser hdraw hself' (fun _ => ⟨hcounted.2, hanother⟩) hdb ?_
        rw [hrun]
        exact hguard
    · have hnone : ∀ row ∈ σ.tick.db.activeAdminRoles, row.user ≠ user.id :=
        fun row hrow hid => hcounted (mem_activeAdminRoles_iff.mp ⟨row, hrow, hid⟩)
      obtain ⟨σ₁, hdb, hguard⟩ := guardAdmin_alone_notHeld draw hself hnone
      rw [hrefused hguard]
      refine .notHeld _ _ hself' ?_ hdb
      rcases Decidable.not_and_iff_not_or_not.mp hcounted with h | h
      · exact Or.inl (by simpa using h)
      · exact Or.inr ⟨rfl, by simpa using h⟩
  · have hguards : (runIf (role = .admin) (guardAdmin user.id actor)).alone draw [] σ.tick =
        (.ok (), [], σ.tick) := by
      rw [runIf, if_neg hadmin]
      rfl
    exact revokeRole_passed hrole huser hdraw (fun h => hadmin h.1) (fun h => absurd h hadmin)
      (World.tick_db σ) hguards

/-- A revocation is truthful unless an administrator revokes the ADMIN role of another
one that has been deactivated. -/
theorem revocation_truthful_iff (draw : ℕ → ℕ) (user : User) (role : Role) (actor : Id)
    (reason : String) (σ : World Db) (hrole : role ∈ grantableRoles)
    (huser : σ.db.users.get? user.id = some user)
    (hdraw : ∀ now, σ.db.roleGrants.get? (draw now) = none) :
    Truthful user role actor reason σ ((revokeRole user.id role actor reason).exec draw [] σ) ↔
      ¬ (role = .admin ∧ user.id ≠ actor ∧ σ.db.hasRole user.id .admin = true ∧
        σ.db.isActiveUser user.id = false) := by
  have hout := revokeRole_outcome actor reason hrole huser hdraw
  generalize (revokeRole user.id role actor reason).exec draw [] σ = out at hout
  cases hout with
  | self detail σ' hself hdb =>
    obtain ⟨rfl, hself⟩ := hself
    refine iff_of_true ?_ fun h => h.2.1 hself
    constructor <;> simp [RefusedAs, hself, hdb]
  | notHeld detail σ' hself hheld hdb =>
    cases hheld₀ : σ.db.hasRole user.id role with
    | false =>
      refine iff_of_true ?_ ?_
      · constructor <;> simp [RefusedAs, hself, hheld₀, hdb]
      · rintro ⟨rfl, -, hadmin, -⟩
        simp [hadmin] at hheld₀
    | true =>
      obtain ⟨rfl, hactive⟩ : role = .admin ∧ σ.db.isActiveUser user.id = false := by
        simpa [hheld₀] using hheld
      refine iff_of_false ?_ (not_not.mpr ⟨rfl, fun h => hself ⟨rfl, h⟩, hheld₀, hactive⟩)
      intro h
      have := (h.notHeld.mp ⟨detail, rfl⟩).2
      simp [hheld₀] at this
  | last detail σ' hself hheld hrole hactive hlast hdb =>
    obtain rfl := hrole
    refine iff_of_true ?_ fun h => ?_
    · constructor <;> simp_all [RefusedAs]
    · simp [hactive] at h
  | revoked user' σ' hself hheld hanother hdb =>
    refine iff_of_true ?_ ?_
    · constructor
      all_goals simp_all [RefusedAs]
    · rintro ⟨rfl, -, -, hinactive⟩
      simp [(hanother rfl).1] at hinactive

end

def twoHolders (active : Bool) : World Db :=
  ⟨{ users := (Table.empty.insert { id := 1, nickname := "a" }).insert
      { id := 2, nickname := "b", isActive := active }
     userRoles := (Table.empty.insert { id := 1, user := 1, role := .admin }).insert
      { id := 2, user := 2, role := .admin } }, 0⟩

/-- User 2 is deactivated, holds ADMIN, and is said not to. -/
theorem deactivated_said_notHeld :
    (twoHolders false).db.hasRole 2 .admin = true ∧
    ((revokeRole 2 .admin 1 "").exec id [] (twoHolders false)).1 =
      .error (.conflict "보유하지 않은 역할입니다." (some "NOT_HELD")) ∧
    ¬ Truthful { id := 2, nickname := "b", isActive := false } .admin 1 "" (twoHolders false)
      ((revokeRole 2 .admin 1 "").exec id [] (twoHolders false)) := by
  have hout : ((revokeRole 2 .admin 1 "").exec id [] (twoHolders false)).1 =
      .error (.conflict "보유하지 않은 역할입니다." (some "NOT_HELD")) := by decide
  have hheld : (twoHolders false).db.hasRole 2 .admin = true := by decide
  refine ⟨hheld, hout, fun h => ?_⟩
  have hnot : (twoHolders false).db.hasRole 2 .admin = false := (h.notHeld.mp ⟨_, hout⟩).2
  rw [hheld] at hnot
  cases hnot

theorem revocation_truthful_active :
    Truthful { id := 2, nickname := "b" } .admin 1 "" (twoHolders true)
      ((revokeRole 2 .admin 1 "").exec id [] (twoHolders true)) :=
  (revocation_truthful_iff id { id := 2, nickname := "b" } .admin 1 "" (twoHolders true) (by decide)
    (by decide) (fun _ => rfl)).mpr (by decide)

end Chamneul
