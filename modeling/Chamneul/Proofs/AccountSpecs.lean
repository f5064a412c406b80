import Chamneul.Proofs.Transactions

/-! Each account service commits what `Committed` says of it. -/

namespace Chamneul

open ReadCommitted ReadCommitted.Prog Service

variable {R : Rely Db Key Write} {drift : Db → Db → Prop}

theorem setActiveRole_spec (hR : R.Locks owns drift) (user : Id) (target : ActiveRole)
    (σ : World Db) :
    wp R (commits drift (.setActiveRole user target)) (setActiveRole user target) ∅ [] σ Ended := by
  refine wp_transaction ?_
  simp only [getOwnRow, wp_bind, wp_lockOr, wp_query, wp_raiseIf, wp_write,
    Duty.ofCommit_stage, true_and, implies_true, and_true, returns_ok, returns_error,
    World.view_nil, List.nil_append, Decidable.not_not]
  intro σ₁ h₁ row hrow σ₂ h₂ hheld σ₃ e _ h₃ _ σ₄ h₄
  obtain rfl : row.id = user := (Table.get?_eq_some.mp hrow).2
  refine ⟨e, by simp, ?_, rfl⟩
  exact Locks.heldRoles hR h₄ (by simp) (Locks.heldRoles hR h₃ (by simp) hheld)

theorem updateProfile_spec (user : Id) (data : ProfileData) (σ : World Db) :
    wp R (commits drift (.updateProfile user data)) (updateProfile user data) ∅ [] σ Ended := by
  refine wp_transaction ?_
  simp only [getOwnRow, wp_bind, wp_lockOr, wp_handle, wp_raise, wp_write,
    Duty.ofCommit_stage, true_and, implies_true, and_true, returns_ok, returns_error,
    World.view_nil, List.nil_append]
  intro σ₁ h₁ row hrow σ₂ e _ h₂ _ σ₃ h₃
  obtain rfl : row.id = user := (Table.get?_eq_some.mp hrow).2
  exact ⟨e, by simp, rfl⟩

theorem grantRole_spec (hR : R.Locks owns drift) (target : Id) (role : Role) (actor : Id)
    (reason : String) (σ : World Db) :
    wp R (commits drift (.grantRole target role actor reason)) (grantRole target role actor reason)
      ∅ [] σ Ended := by
  simp only [grantRole, wp_bind, wp_raiseIf, ended_nil, implies_true, true_and, Decidable.not_not]
  intro hrole
  refine wp_transaction ?_
  simp only [getUserForUpdate, wp_bind, wp_lockOr, wp_query, wp_raiseIf, wp_write, wp_pure,
    Duty.ofCommit_stage, true_and, implies_true, and_true, returns_ok, returns_error,
    World.view_nil, List.nil_append, List.cons_append]
  intro σ₁ h₁ user huser σ₂ h₂ hheld σ₃ e₁ _ h₃ hv₃ σ₄ e₂ _ h₄ hv₄ σ₅ h₅
  obtain rfl : user.id = target := (Table.get?_eq_some.mp huser).2
  have hfresh : σ₃.db.FreshRole e₁.uuid user.id role := freshRole_of_violates hv₃
  have hgrant : σ₅.db.roleGrants.get? e₂.uuid = none := by
    rw [Locks.roleGrant hR h₅ (by simp [locks])]
    simpa [violates, World.view, Engine.apply, apply] using hv₄
  refine ⟨e₁, e₂, hrole, by simp, ?_, hgrant, rfl⟩
  exact Locks.freshRole hR h₅ (by simp [locks]) (by simp [locks])
    (Locks.freshRole hR h₄ (by simp [locks]) (by simp [locks]) hfresh)

/-- The rows an ADMIN revocation counts: active administrators, each locked with its user. -/
structure AdminsLocked (rows : List UserRole) (L : Set Key) (db : Db) : Prop where
  nodup : (rows.map UserRole.user).Nodup
  admin : ∀ r ∈ rows, r.role = .admin
  row : ∀ r ∈ rows, Key.userRole r.id ∈ L ∧ r ∈ db.userRoles
  user : ∀ r ∈ rows, Key.user r.user ∈ L ∧ db.isActiveUser r.user = true

theorem AdminsLocked.rely (hR : R.Locks owns drift) {L : Set Key} {w : Pending Write}
    {σ σ' : World Db} (h : R L w σ σ') {rows : List UserRole} (ha : AdminsLocked rows L σ.db) :
    AdminsLocked rows L σ'.db where
  nodup := ha.nodup
  admin := ha.admin
  row := by
    intro r hr
    obtain ⟨hk, hm⟩ := ha.row r hr
    have hkeep : keeps (.userRole r.id) σ.db σ'.db := hR.keeps h hk
    exact ⟨hk, (hkeep r rfl).mpr hm⟩
  user := by
    intro r hr
    obtain ⟨hk, hact⟩ := ha.user r hr
    have hkeep : σ'.db.users.get? r.user = σ.db.users.get? r.user := hR.keeps h hk
    exact ⟨hk, by rw [Db.isActiveUser, hkeep]; exact hact⟩

theorem AdminsLocked.widen {rows : List UserRole} {L L' : Set Key} {db : Db} (hL : L ⊆ L')
    (ha : AdminsLocked rows L db) : AdminsLocked rows L' db :=
  { ha with
    row := fun r hr => ⟨hL (ha.row r hr).1, (ha.row r hr).2⟩
    user := fun r hr => ⟨hL (ha.user r hr).1, (ha.user r hr).2⟩ }

/-- The loop that locks the administrators' rows: `acc` are locked, `xs` still to
come, and what was locked before the loop is as it was on `db₀`. -/
structure Locking (L₀ : Set Key) (db₀ : Db) (acc xs : List UserRole) (L : Set Key)
    (w : Pending Write) (db : Db) : Prop where
  writes : w = []
  held : L₀ ⊆ L
  kept : Kept L₀ db₀ db
  locked : AdminsLocked acc L db
  nodup : ((acc ++ xs).map UserRole.user).Nodup
  admin : ∀ r ∈ xs, r.role = .admin

namespace Locking

variable {L₀ L : Set Key} {db₀ db : Db} {acc xs : List UserRole} {x : UserRole}
  {w : Pending Write}

theorem rely (hR : R.Locks owns drift) {σ σ' : World Db} (h : R L w σ σ')
    (hl : Locking L₀ db₀ acc xs L w σ.db) : Locking L₀ db₀ acc xs L w σ'.db :=
  { hl with kept := hl.kept.rely hR h hl.held, locked := hl.locked.rely hR h }

theorem widen (hl : Locking L₀ db₀ acc xs L w db) {L' : Set Key} (hL : L ⊆ L') :
    Locking L₀ db₀ acc xs L' w db :=
  { hl with held := hl.held.trans hL, locked := hl.locked.widen hL }

theorem skip (hl : Locking L₀ db₀ acc (x :: xs) L w db) : Locking L₀ db₀ acc xs L w db :=
  { hl with
    nodup := hl.nodup.sublist ((List.Sublist.append_left (List.sublist_cons_self x xs) acc).map _)
    admin := fun r hr => hl.admin r (List.mem_cons_of_mem x hr) }

theorem take (hl : Locking L₀ db₀ acc (x :: xs) L w db) (hrow : Key.userRole x.id ∈ L)
    (hx : x ∈ db.userRoles) (huser : Key.user x.user ∈ L) (hact : db.isActiveUser x.user = true) :
    Locking L₀ db₀ (acc ++ [x]) xs L w db := by
  have hnodup : ((acc ++ [x] ++ xs).map UserRole.user).Nodup := by
    rw [List.append_assoc]
    exact hl.nodup
  have hcases : ∀ r ∈ acc ++ [x], r ∈ acc ∨ r = x := by simp
  have hlocked : AdminsLocked (acc ++ [x]) L db := by
    constructor
    · exact hnodup.sublist ((List.sublist_append_left _ _).map _)
    · intro r hr
      rcases hcases r hr with hr | rfl
      · exact hl.locked.admin r hr
      · exact hl.admin r List.mem_cons_self
    · intro r hr
      rcases hcases r hr with hr | rfl
      · exact hl.locked.row r hr
      · exact ⟨hrow, hx⟩
    · intro r hr
      rcases hcases r hr with hr | rfl
      · exact hl.locked.user r hr
      · exact ⟨huser, hact⟩
  exact ⟨hl.writes, hl.held, hl.kept, hlocked, hnodup, fun r hr => hl.admin r (List.mem_cons_of_mem x hr)⟩

end Locking

theorem lockAdminRole_spec (hR : R.Locks owns drift) {C : Set Key → Pending Write → World Db → Prop}
    {L₀ : Set Key} {db₀ : Db} {acc xs : List UserRole} {x : UserRole} {L : Set Key}
    {w : Pending Write} {σ : World Db} (hl : Locking L₀ db₀ acc (x :: xs) L w σ.db) :
    wp R (Duty.ofCommit C) (lockAdminRole x) L w σ fun r L w σ =>
      match r with
      | .ok y => Locking L₀ db₀ (acc ++ y.toList) xs L w σ.db
      | .error _ => True := by
  obtain rfl := hl.writes
  simp only [lockAdminRole, wp_bind, wp_queryForUpdate, Duty.ofCommit_stage, true_and,
    World.view_nil]
  intro σ₁ h₁
  have hl₁ := hl.rely hR h₁
  by_cases hx : x ∈ σ₁.db.userRoles.rows
  · simp only [hx, if_true, decide_true, wp_bind, wp_queryForUpdate, wp_pure, Duty.ofCommit_stage,
      true_and, World.view_nil]
    intro σ₂ h₂
    have hl₂ := (hl₁.widen Set.subset_union_left).rely hR h₂
    have hx₂ : x ∈ σ₂.db.userRoles := (Locks.userRole hR h₂ (by simp)).mpr hx
    have hl₃ : Locking L₀ db₀ acc (x :: xs) ((L ∪ {k | k ∈ [Key.userRole x.id]}) ∪
        {k | k ∈ if (σ₂.db.users.get? x.user).isSome then [Key.user x.user] else []}) [] σ₂.db :=
      hl₂.widen Set.subset_union_left
    by_cases hact : σ₂.db.isActiveUser x.user = true
    · have huser : (σ₂.db.users.get? x.user).isSome = true := by
        obtain ⟨u, hu, -⟩ := (Option.any_eq_true _ _).mp hact
        simp [hu]
      simp only [hact, if_true, Option.toList_some]
      exact hl₃.take (by simp) hx₂ (by simp [huser]) hact
    · simp only [hact, Bool.false_eq_true, if_false, Option.toList_none, List.append_nil]
      exact hl₃.skip
  · simp only [hx, if_false, decide_false, Bool.false_eq_true, wp_pure, Option.toList_none,
      List.append_nil]
    exact (hl₁.widen Set.subset_union_left).skip

theorem mem_activeAdminRoles {db : Db} {r : UserRole} :
    r ∈ db.activeAdminRoles ↔ r ∈ db.userRoles ∧ r.role = .admin ∧ db.isActiveUser r.user = true := by
  unfold Db.activeAdminRoles
  rw [(List.perm_insertionSort _ _).mem_iff, List.mem_filter, Table.mem_def, Bool.and_eq_true,
    decide_eq_true_eq]

/-- No administrator is listed twice. -/
theorem nodup_activeAdminRoles (db : Db) : (db.activeAdminRoles.map UserRole.user).Nodup := by
  have hkeys : (db.activeAdminRoles.map Keyed.key).Nodup := by
    unfold Db.activeAdminRoles
    rw [((List.perm_insertionSort _ _).map _).nodup_iff]
    exact db.userRoles.nodup.sublist (List.filter_sublist.map _)
  have hpair : db.activeAdminRoles.map Keyed.key =
      (db.activeAdminRoles.map UserRole.user).map fun u => (u, Role.admin) := by
    rw [List.map_map]
    refine List.map_congr_left fun r hr => ?_
    rw [UserRole.key_eq, (mem_activeAdminRoles.mp hr).2.1, Function.comp]
  rw [hpair] at hkeys
  exact hkeys.of_map

theorem lockAdminRoles_spec (hR : R.Locks owns drift)
    {C : Set Key → Pending Write → World Db → Prop} (L₀ : Set Key) (σ : World Db) :
    wp R (Duty.ofCommit C) lockAdminRoles L₀ [] σ fun r L w σ' =>
      match r with
      | .ok rows => Locking L₀ σ.db rows [] L w σ'.db
      | .error _ => True := by
  simp only [lockAdminRoles, wp_bind, wp_query, Duty.ofCommit_stage, true_and, World.view_nil]
  intro σ₁ h₁
  have hstart : Locking L₀ σ.db [] σ.db.activeAdminRoles L₀ [] σ.db := by
    refine ⟨rfl, subset_rfl, Kept.refl L₀ _, ?_, ?_, ?_⟩
    · constructor <;> simp
    · exact nodup_activeAdminRoles _
    · exact fun r hr => (mem_activeAdminRoles.mp hr).2.1
  have hbegin : Locking L₀ σ.db [] σ₁.db.activeAdminRoles L₀ [] σ₁.tick.db :=
    { hstart.rely hR h₁ with
      nodup := nodup_activeAdminRoles _
      admin := fun r hr => (mem_activeAdminRoles.mp hr).2.1 }
  refine wp_mono ?_ (wp_collect (I := fun acc xs L w σ' => Locking L₀ σ.db acc xs L w σ'.db)
    (E := fun _ _ _ _ => True) ?_ [] hbegin)
  · intro r L w σ' hr
    cases r <;> exact hr
  · intro acc x xs L w σ' hl
    refine wp_mono ?_ (lockAdminRole_spec hR hl)
    intro r L w σ' hr
    cases r <;> exact hr

/-- Past its guards an ADMIN revocation has locked another active administrator. -/
theorem guardAdmin_spec (hR : R.Locks owns drift) {C : Set Key → Pending Write → World Db → Prop}
    (target actor : Id) (L₀ : Set Key) (σ : World Db) :
    wp R (Duty.ofCommit C) (guardAdmin target actor) L₀ [] σ fun r L w σ' =>
      match r with
      | .ok _ => w = [] ∧ L₀ ⊆ L ∧ Kept L₀ σ.db σ'.db ∧ target ≠ actor ∧
          ∃ r, r.user ≠ target ∧ AdminsLocked [r] L σ'.db
      | .error _ => True := by
  simp only [guardAdmin, wp_bind, wp_raiseIf, implies_true, true_and]
  intro hself
  refine wp_mono ?_ (lockAdminRoles_spec hR L₀ σ)
  intro r L w σ' hr
  cases r with
  | error e => trivial
  | ok rows =>
    intro _ hlen
    refine ⟨hr.writes, hr.held, hr.kept, hself, ?_⟩
    obtain ⟨r, hr', hne⟩ : ∃ r ∈ rows, r.user ≠ target := by
      by_contra hall
      have hall : ∀ r ∈ rows, r.user = target := by simpa using hall
      match rows, hlen, hr.locked.nodup with
      | a :: b :: rows, _, hnodup =>
        rw [List.map_cons, List.map_cons, hall a (by simp), hall b (by simp)] at hnodup
        simp at hnodup
      | [], hlen, _ => simp at hlen
      | [_], hlen, _ => simp at hlen
    refine ⟨r, hne, ?_⟩
    constructor
    · simp
    · simpa using hr.locked.admin r hr'
    · simpa using hr.locked.row r hr'
    · simpa using hr.locked.user r hr'

/-- What a revocation knows when it comes to delete the row. -/
structure Revocable (target : Id) (role : Role) (actor : Id) (user : User) (L : Set Key) (db : Db) :
    Prop where
  held : Key.user target ∈ L
  row : db.users.get? target = some user
  another : role = .admin → target ≠ actor ∧ ∃ r, r.user ≠ target ∧ AdminsLocked [r] L db

theorem Revocable.rely (hR : R.Locks owns drift) {target : Id} {role : Role} {actor : Id}
    {user : User} {L L' : Set Key} {w : Pending Write} {σ σ' : World Db} (h : R L' w σ σ')
    (hL : L ⊆ L') (hr : Revocable target role actor user L σ.db) :
    Revocable target role actor user L' σ'.db where
  held := hL hr.held
  row := by
    have hkeep : σ'.db.users.get? target = σ.db.users.get? target := hR.keeps h (hL hr.held)
    exact hkeep.trans hr.row
  another := by
    intro hrole
    obtain ⟨hne, r, hother, ha⟩ := hr.another hrole
    exact ⟨hne, r, hother, (ha.widen hL).rely hR h⟩

/-- Another active administrator remains. -/
theorem Revocable.other {target : Id} {role : Role} {actor : Id} {user : User} {L : Set Key}
    {db : Db} (hr : Revocable target role actor user L db) (hrole : role = .admin) :
    target ≠ actor ∧ ∃ x ≠ target, db.hasRole x .admin = true ∧ db.isActiveUser x = true := by
  obtain ⟨hne, r, hother, ha⟩ := hr.another hrole
  have hmem := (ha.row r (by simp)).2
  have hadmin := ha.admin r (by simp)
  refine ⟨hne, r.user, hother, ?_, (ha.user r (by simp)).2⟩
  rw [Db.hasRole, Table.get?_eq_some.mpr ⟨hmem, by rw [UserRole.key_eq, hadmin]⟩, Option.isSome_some]

theorem guard_spec (hR : R.Locks owns drift) {C : Set Key → Pending Write → World Db → Prop}
    (role : Role) (actor : Id) {user : User} {L : Set Key} {σ : World Db}
    (hL : Key.user user.id ∈ L) (huser : σ.db.users.get? user.id = some user) :
    wp R (Duty.ofCommit C) (runIf (role = .admin) (guardAdmin user.id actor)) L [] σ
      fun r L w σ =>
        match r with
        | .ok _ => w = [] ∧ Revocable user.id role actor user L σ.db
        | .error _ => True := by
  rw [wp_runIf]
  refine ⟨fun _ => ?_, fun hrole => ⟨rfl, hL, huser, fun h => absurd h hrole⟩⟩
  refine wp_mono ?_ (guardAdmin_spec hR user.id actor L σ)
  intro r L' w σ' hr
  cases r with
  | error e => trivial
  | ok a =>
    obtain ⟨hw, hLL, hkept, hself, r, hother, ha⟩ := hr
    have hkeep : σ'.db.users.get? user.id = σ.db.users.get? user.id := (hkept _ hL).1
    exact ⟨hw, hLL hL, hkeep.trans huser, fun _ => ⟨hself, r, hother, ha⟩⟩

theorem revokeRole_spec (hR : R.Locks owns drift) (target : Id) (role : Role) (actor : Id)
    (reason : String) (σ : World Db) :
    wp R (commits drift (.revokeRole target role actor reason)) (revokeRole target role actor reason)
      ∅ [] σ Ended := by
  simp only [revokeRole, wp_bind, wp_raiseIf, ended_nil, implies_true, true_and, Decidable.not_not]
  intro hrole
  refine wp_transaction ?_
  simp only [getUserForUpdate, wp_bind, wp_lockOr, Duty.ofCommit_stage, true_and,
    implies_true, and_true, returns_error, World.view_nil]
  intro σ₁ h₁ user huser
  obtain rfl : user.id = target := (Table.get?_eq_some.mp huser).2
  refine wp_mono ?_ (guard_spec hR role actor (by simp) huser)
  intro r L w σ₂ hr
  cases r with
  | error e => trivial
  | ok a =>
    obtain ⟨rfl, hrev⟩ := hr
    simp only [wp_execute, wp_raiseIf, wp_write, Duty.ofCommit_stage, true_and, implies_true,
      World.view_nil, List.nil_append]
    intro σ₃ uuid h₃ _ hdel σ₄ e₂ _ h₄ hv₄
    have hrev₃ := hrev.rely hR h₃ subset_rfl
    obtain ⟨row, hrow⟩ : ∃ row, σ₃.db.userRoles.get? (user.id, role) = some row :=
      Option.ne_none_iff_exists'.mp (by simpa [Db.hasRole] using hdel)
    simp only [hrow, Option.toList_some, List.map_cons, List.map_nil] at h₄ hv₄ ⊢
    have hrev₄ := hrev₃.rely hR h₄ Set.subset_union_left
    have hkey : row.user = user.id ∧ row.role = role := by
      simpa using (Table.get?_eq_some.mp hrow).2
    have hrow₄ : σ₄.db.userRoles.get? (user.id, role) = some row := by
      rw [Locks.userRoleEntry hR h₄ (by simp [Engine.locks, locks, hkey])]
      exact hrow
    have hgrant₄ : σ₄.db.roleGrants.get? e₂.uuid = none := by
      simpa [violates, World.view, Engine.apply, apply] using hv₄
    by_cases hdem : role = .advisor ∧ user.activeRole = .advisor
    · rw [if_pos hdem]
      simp only [wp_write, Duty.ofCommit_stage, true_and, implies_true, returns_ok, returns_error]
      intro σ₅ e₃ _ h₅ _ σ₆ h₆
      have hrev₆ := (hrev₄.rely hR h₅ Set.subset_union_left).rely hR h₆ Set.subset_union_left
      refine ⟨_, e₂, user, row, hrole, hrev₆.held, hrev₆.row, ?_, ?_, ?_, _, rfl, .ran e₃ hdem⟩
      · rw [Locks.userRoleEntry hR h₆ (by simp [Engine.locks, locks, hkey]),
          Locks.userRoleEntry hR h₅ (by simp [Engine.locks, locks, hkey])]
        exact hrow₄
      · rw [Locks.roleGrant hR h₆ (by simp [locks]), Locks.roleGrant hR h₅ (by simp [locks])]
        exact hgrant₄
      · exact hrev₆.other
    · rw [if_neg hdem]
      simp only [wp_pure, returns_ok]
      intro σ₅ h₅
      have hrev₅ := hrev₄.rely hR h₅ Set.subset_union_left
      refine ⟨_, e₂, user, row, hrole, hrev₅.held, hrev₅.row, ?_, ?_, ?_, [], rfl, .skipped hdem⟩
      · rw [Locks.userRoleEntry hR h₅ (by simp [Engine.locks, locks, hkey])]
        exact hrow₄
      · rw [Locks.roleGrant hR h₅ (by simp [locks])]
        exact hgrant₄
      · exact hrev₅.other

end Chamneul
