import Chamneul.Proofs.AccountSpecs
import Chamneul.Proofs.Disciplined

/-! What a grant, a revocation and a switch of the active role have locked at each of
their statements, and what they lock next. -/

namespace Chamneul

open ReadCommitted ReadCommitted.Prog Service

/-- The call takes ADMIN from `u`, at the hands of somebody else. -/
def Call.demotes : Call → Id → Bool
  | .revokeRole target role actor _, u => decide (target = u ∧ role = .admin ∧ target ≠ actor)
  | _, _ => false

def Call.purges : Call → Bool
  | .revokeRole target role actor _ => decide (role = .admin ∧ target ≠ actor)
  | _ => false

theorem purges_of_demotes {call : Call} {u : Id} (h : call.demotes u = true) : call.purges = true := by
  cases call with
  | revokeRole target role actor reason => exact decide_eq_true (of_decide_eq_true h).2
  | _ => cases h

/-- The locks a session has on roles: an entry is locked under its user, and so is a row
unless it is new or of an administrator. -/
structure Holdings (L : Set Key) (db : Db) : Prop where
  entry : ∀ u role, Key.userRoleEntry u role ∈ L → Key.user u ∈ L
  row : ∀ i, Key.userRole i ∈ L → (∀ r ∈ db.userRoles, r.id ≠ i) ∨
    ∃ r ∈ db.userRoles, r.id = i ∧ (r.role = .admin ∨ Key.user r.user ∈ L)

/-- The users locked are the one demoted and administrators whose rows are locked too. -/
def Accounted (call : Call) (L : Set Key) (db : Db) : Prop :=
  ∀ u, Key.user u ∈ L → call.demotes u = true ∨
    ∃ r ∈ db.userRoles, r.user = u ∧ r.role = .admin ∧ Key.userRole r.id ∈ L

/-- In the loop that locks the administrators in the order of their rows, at row `x`. -/
structure InLoop (call : Call) (L : Set Key) (db : Db) (x : UserRole) : Prop where
  purges : call.purges = true
  users : Accounted call L db
  ids : ∀ i, Key.userRole i ∈ L → i ≤ x.id

/-- Where a session stands that holds `L` and needs `ks` next. -/
inductive Seat (call : Call) (L : Set Key) (db : Db) (ks : ℕ → List Key) : Prop
  | outside (h : L = ∅)
  | still (h : Holdings L db) (hks : ∀ uuid, ∀ k ∈ ks uuid, k ∈ L)
  | filing (h : Holdings L db) (hks : ∀ uuid, ks uuid = [.roleGrant uuid])
  | entering (h : Holdings L db) (u : Id) (role : Role) (hu : Key.user u ∈ L)
      (hks : ∀ uuid, ks uuid = [.userRole uuid, .userRoleEntry u role])
  | deleting (h : Holdings L db) (r : UserRole) (hr : r ∈ db.userRoles) (hu : Key.user r.user ∈ L)
      (hrow : r.role = .admin → Key.userRole r.id ∈ L)
      (hks : ∀ uuid, ks uuid = [.userRole r.id, .userRoleEntry r.user r.role])
  | listing (h : Holdings L db) (x : UserRole) (hloop : InLoop call L db x) (hx : x ∈ db.userRoles)
      (hadmin : x.role = .admin) (hks : ∀ uuid, ∀ k ∈ ks uuid, k = .userRole x.id)
  | taking (h : Holdings L db) (x : UserRole) (hloop : InLoop call L db x) (hx : x ∈ db.userRoles)
      (hadmin : x.role = .admin) (hrow : Key.userRole x.id ∈ L)
      (hks : ∀ uuid, ∀ k ∈ ks uuid, k = .user x.user)

section

variable {R : Rely Db Key Write} {drift : Db → Db → Prop} {call : Call} {L : Set Key} {db : Db}

@[simp] theorem seat_empty (ks : ℕ → List Key) : Seat call ∅ db ks ↔ True :=
  iff_true_intro (.outside rfl)

theorem Holdings.rest (h : Holdings L db) : Seat call L db fun _ => [] :=
  .still h (by simp)

theorem holdings_user (u : Id) : Holdings (insert (.user u) ∅) db := by
  constructor <;> simp

theorem Holdings.rely (hR : R.Locks owns drift) {w : Pending Write} {σ σ' : World Db}
    (hr : R L w σ σ') (h : Holdings L σ.db) : Holdings L σ'.db where
  entry := h.entry
  row := by
    intro i hi
    have hkeep : keeps (.userRole i) σ.db σ'.db := hR.keeps hr hi
    rcases h.row i hi with hnone | ⟨r, hr, hid, hrole⟩
    · exact Or.inl fun r hr hid => hnone r ((hkeep r hid).mp hr) hid
    · exact Or.inr ⟨r, (hkeep r hid).mpr hr, hid, hrole⟩

theorem Holdings.widen (h : Holdings L db) {ks : List Key}
    (hentry : ∀ u role, Key.userRoleEntry u role ∈ ks → Key.user u ∈ L)
    (hrow : ∀ i, Key.userRole i ∈ ks → (∀ r ∈ db.userRoles, r.id ≠ i) ∨
      ∃ r ∈ db.userRoles, r.id = i ∧ (r.role = .admin ∨ Key.user r.user ∈ L)) :
    Holdings (L ∪ {k | k ∈ ks}) db where
  entry u role hk := Or.inl (hk.elim (h.entry u role) (hentry u role))
  row i hk := (hk.elim (h.row i) (hrow i)).imp_right fun ⟨r, hr, hid, hrole⟩ =>
    ⟨r, hr, hid, hrole.imp_right Or.inl⟩

/-- A change of another table needs no lock on roles. -/
theorem Holdings.also (h : Holdings L db) {e : Env} {x : Write} (hx : x.table ≠ .userRoles) :
    Holdings (L ∪ {k | k ∈ locks e x}) db := by
  refine h.widen (fun u role hk => ?_) (fun i hk => ?_)
  · cases x <;> simp [locks] at hk <;> simp [Write.table] at hx
  · cases x <;> simp [locks] at hk <;> simp [Write.table] at hx

@[simp] theorem seat_user (u : Id) :
    Seat call (insert (.user u) ∅) db (fun _ => []) ↔ True :=
  iff_true_intro (holdings_user u).rest

theorem setActiveRole_seat (user : Id) (target : ActiveRole) (σ : World Db) :
    wp R ⟨fun _ _ _ => True, fun L _ σ ks => Seat (.setActiveRole user target) L σ.db ks⟩
      (setActiveRole user target) ∅ [] σ fun _ _ _ _ => True := by
  simp only [setActiveRole, getOwnRow, wp_bind, wp_raiseIf, wp_atomic, wp_lockOr, wp_query,
    wp_write, seat_empty, seat_user, implies_true, and_true, true_and, World.view_nil,
    List.nil_append]
  intro σ₁ _ row hrow σ₂ _ _ σ₃ e _ _
  obtain rfl : row.id = user := (Table.get?_eq_some.mp hrow).2
  refine ⟨.still (holdings_user row.id) (by simp [locks]), fun _ σ₄ _ => ?_⟩
  exact ((holdings_user row.id).also (by simp [Write.table])).rest

theorem grantRole_seat (hR : R.Locks owns drift) (target : Id) (role : Role) (actor : Id)
    (reason : String) (σ : World Db) :
    wp R ⟨fun _ _ _ => True, fun L _ σ ks => Seat (.grantRole target role actor reason) L σ.db ks⟩
      (grantRole target role actor reason) ∅ [] σ fun _ _ _ _ => True := by
  simp only [grantRole, getUserForUpdate, wp_bind, wp_raiseIf, wp_atomic, wp_lockOr, wp_query,
    wp_write, wp_pure, seat_empty, seat_user, implies_true, and_true, true_and, World.view_nil,
    List.nil_append, List.cons_append]
  intro _ σ₁ _ user huser σ₂ _ _ σ₃ e₁ _ _
  obtain rfl : user.id = target := (Table.get?_eq_some.mp huser).2
  have hstart : Holdings (insert (Key.user user.id) ∅) σ₃.db := holdings_user user.id
  refine ⟨.entering hstart user.id role (by simp) fun _ => rfl, fun hv σ₄ e₂ _ h₄ => ?_⟩
  have hfresh : σ₃.db.FreshRole e₁.uuid user.id role := freshRole_of_violates hv
  have hentered : Holdings (insert (Key.user user.id) ∅ ∪
      {k | k ∈ locks e₁ (.insertUserRole { user := user.id, role := role })}) σ₃.db := by
    refine hstart.widen ?_ ?_
    · simp [locks]
    · simpa [locks] using Or.inl hfresh.2
  have hentered₄ := hentered.rely hR h₄
  refine ⟨.filing hentered₄ fun _ => rfl, fun _ σ₅ h₅ => (hentered₄.rely hR h₅).rest, fun _ σ₅ h₅ => ?_⟩
  exact ((hentered₄.also (by simp [Write.table])).rely hR h₅).rest

/-- The loop that locks the administrators of `xs`, having locked those of `acc`. -/
structure Queue (call : Call) (target : Id) (acc xs : List UserRole) (L : Set Key) (w : Pending Write)
    (db : Db) : Prop where
  writes : w = []
  purges : call.purges = true
  target : Key.user target ∈ L
  holdings : Holdings L db
  users : Accounted call L db
  ids : ∀ i, Key.userRole i ∈ L → ∀ x ∈ xs, i ≤ x.id
  sorted : xs.Pairwise fun r r' => r.id ≤ r'.id
  admin : ∀ x ∈ xs, x.role = .admin
  locked : ∀ r ∈ acc, r ∈ db.userRoles ∧ r.role = .admin ∧ Key.userRole r.id ∈ L

namespace Queue

variable {target : Id} {acc xs : List UserRole} {x : UserRole} {w : Pending Write}

theorem rely (hR : R.Locks owns drift) {σ σ' : World Db} (h : R L w σ σ')
    (hq : Queue call target acc xs L w σ.db) : Queue call target acc xs L w σ'.db := by
  have hrow : ∀ r : UserRole, Key.userRole r.id ∈ L → r ∈ σ.db.userRoles → r ∈ σ'.db.userRoles := by
    intro r hk hr
    have hkeep : keeps (.userRole r.id) σ.db σ'.db := hR.keeps h hk
    exact (hkeep r rfl).mpr hr
  exact
    { hq with
      holdings := hq.holdings.rely hR h
      users := fun u hu => (hq.users u hu).imp_right fun ⟨r, hr, hru, hadmin, hk⟩ =>
        ⟨r, hrow r hk hr, hru, hadmin, hk⟩
      locked := fun r hr => ⟨hrow r (hq.locked r hr).2.2 (hq.locked r hr).1, (hq.locked r hr).2⟩ }

theorem inLoop (hq : Queue call target acc (x :: xs) L w db) : InLoop call L db x where
  purges := hq.purges
  users := hq.users
  ids i hi := hq.ids i hi x List.mem_cons_self

theorem skip (hq : Queue call target acc (x :: xs) L w db) : Queue call target acc xs L w db :=
  { hq with
    ids := fun i hi y hy => hq.ids i hi y (List.mem_cons_of_mem x hy)
    sorted := hq.sorted.of_cons
    admin := fun y hy => hq.admin y (List.mem_cons_of_mem x hy) }

/-- The row of an administrator is locked. -/
theorem row (hq : Queue call target acc (x :: xs) L w db) (hx : x ∈ db.userRoles) :
    Queue call target acc (x :: xs) (L ∪ {k | k ∈ [Key.userRole x.id]}) w db where
  writes := hq.writes
  purges := hq.purges
  target := Or.inl hq.target
  holdings := hq.holdings.widen (by simp) fun i hi =>
    Or.inr ⟨x, hx, by simpa [eq_comm] using hi, Or.inl (hq.admin x List.mem_cons_self)⟩
  users u hu := (hq.users u (by simpa using hu)).imp_right fun ⟨r, hr, hru, hadmin, hk⟩ =>
    ⟨r, hr, hru, hadmin, Or.inl hk⟩
  ids := by
    rintro i (hi | hi) y hy
    · exact hq.ids i hi y hy
    · obtain rfl : i = x.id := by simpa using hi
      rcases List.mem_cons.mp hy with rfl | hy
      · exact le_rfl
      · exact (List.pairwise_cons.mp hq.sorted).1 y hy
  sorted := hq.sorted
  admin := hq.admin
  locked r hr := ⟨(hq.locked r hr).1, (hq.locked r hr).2.1, Or.inl (hq.locked r hr).2.2⟩

/-- And so is the user, if there is one. -/
theorem take (hq : Queue call target acc (x :: xs) L w db) (hx : x ∈ db.userRoles)
    (hk : Key.userRole x.id ∈ L) {ks : List Key} (hks : ∀ k ∈ ks, k = Key.user x.user) :
    Queue call target (acc ++ [x]) xs (L ∪ {k | k ∈ ks}) w db where
  writes := hq.writes
  purges := hq.purges
  target := Or.inl hq.target
  holdings := hq.holdings.widen (fun u role h => by cases hks _ h) (fun i h => by cases hks _ h)
  users := by
    rintro u (hu | hu)
    · exact (hq.users u hu).imp_right fun ⟨r, hr, hru, hadmin, hk⟩ => ⟨r, hr, hru, hadmin, Or.inl hk⟩
    · cases hks _ hu
      exact Or.inr ⟨x, hx, rfl, hq.admin x List.mem_cons_self, Or.inl hk⟩
  ids := by
    rintro i (hi | hi) y hy
    · exact hq.ids i hi y (List.mem_cons_of_mem x hy)
    · cases hks _ hi
  sorted := hq.sorted.of_cons
  admin y hy := hq.admin y (List.mem_cons_of_mem x hy)
  locked := by
    intro r hr
    rcases List.mem_append.mp hr with hr | hr
    · exact ⟨(hq.locked r hr).1, (hq.locked r hr).2.1, Or.inl (hq.locked r hr).2.2⟩
    · obtain rfl := List.mem_singleton.mp hr
      exact ⟨hx, hq.admin r List.mem_cons_self, Or.inl hk⟩

end Queue

theorem lockAdminRole_seat (hR : R.Locks owns drift) {target : Id} {acc xs : List UserRole} {x : UserRole}
    {w : Pending Write} {σ : World Db} (hq : Queue call target acc (x :: xs) L w σ.db) :
    wp R ⟨fun _ _ _ => True, fun L _ σ ks => Seat call L σ.db ks⟩ (lockAdminRole x) L w σ
      fun r L w σ =>
        match r with
        | .ok y => Queue call target (acc ++ y.toList) xs L w σ.db
        | .error _ => False := by
  obtain rfl := hq.writes
  simp only [lockAdminRole, wp_bind, wp_queryForUpdate, World.view_nil]
  intro σ₁ h₁
  have hq₁ := hq.rely hR h₁
  by_cases hx : x ∈ σ₁.db.userRoles.rows
  · simp only [hx, if_true, decide_true, wp_bind, wp_queryForUpdate, wp_pure, World.view_nil]
    refine ⟨.listing hq₁.holdings x hq₁.inLoop hx (hq.admin x List.mem_cons_self) (by simp), fun σ₂ h₂ => ?_⟩
    have hq₂ := (hq₁.row hx).rely hR h₂
    have hx₂ : x ∈ σ₂.db.userRoles := (Locks.userRole hR h₂ (by simp)).mpr hx
    have hks : ∀ k ∈ if (σ₂.db.users.get? x.user).isSome then [Key.user x.user] else [],
        k = Key.user x.user := by
      split <;> simp
    refine ⟨.taking hq₂.holdings x hq₂.inLoop hx₂ (hq.admin x List.mem_cons_self) (by simp)
      fun _ => hks, ?_⟩
    have htaken := hq₂.take hx₂ (by simp) hks
    by_cases hact : σ₂.db.isActiveUser x.user = true
    · simp only [hact, if_true]
      exact htaken
    · simp only [hact, Bool.false_eq_true, if_false, Option.toList_none, List.append_nil]
      exact { htaken with locked := fun r hr => htaken.locked r (List.mem_append_left _ hr) }
  · simp only [hx, if_false, decide_false, Bool.false_eq_true, wp_pure, Option.toList_none,
      List.append_nil, List.not_mem_nil, Set.ofPred_false, Set.union_empty]
    exact ⟨hq₁.holdings.rest, hq₁.skip⟩

/-- The guards end with the target's row among the rows locked. -/
theorem guardAdmin_seat (hR : R.Locks owns drift) (target actor : Id) {call : Call}
    (hcall : target ≠ actor → call.demotes target = true) (σ : World Db) :
    wp R ⟨fun _ _ _ => True, fun L _ σ ks => Seat call L σ.db ks⟩ (guardAdmin target actor)
      (insert (.user target) ∅) [] σ fun r L w σ =>
        w = [] ∧ Holdings L σ.db ∧ ∀ a, r = .ok a → Key.user target ∈ L ∧
          ∃ r ∈ σ.db.userRoles, r.user = target ∧ r.role = .admin ∧ Key.userRole r.id ∈ L := by
  simp only [guardAdmin, lockAdminRoles, wp_bind, wp_raiseIf, wp_query, seat_user, true_and,
    World.view_nil]
  refine ⟨fun _ => ⟨holdings_user target, fun a ha => by cases ha⟩, fun hne σ₁ _ => ?_⟩
  have hstart : Queue call target [] σ₁.db.activeAdminRoles (insert (.user target) ∅) [] σ₁.db := by
    refine ⟨rfl, purges_of_demotes (hcall hne), by simp, holdings_user target, fun u hu => Or.inl ?_, by simp, ?_, fun r hr => ?_, by simp⟩
    · obtain rfl : u = target := by simpa using hu
      exact hcall hne
    · exact List.pairwise_insertionSort _ _
    · exact (mem_activeAdminRoles.mp hr).2.1
  refine wp_mono ?_ (wp_collect (I := fun acc xs L w σ => Queue call target acc xs L w σ.db)
    (E := fun _ _ _ _ => False) (fun acc x xs L w σ hq => wp_mono ?_ (lockAdminRole_seat hR hq)) [] hstart)
  · intro r L w σ hr
    cases r with
    | error e => exact hr.elim
    | ok rows =>
      simp only [List.nil_append] at hr
      refine ⟨fun _ => ⟨hr.writes, hr.holdings, fun a ha => by cases ha⟩, fun hmem => ?_⟩
      refine ⟨fun _ => ⟨hr.writes, hr.holdings, fun a ha => by cases ha⟩, fun _ => ?_⟩
      refine ⟨hr.writes, hr.holdings, fun _ _ => ⟨hr.target, ?_⟩⟩
      push Not at hmem
      obtain ⟨row, hrow, huser⟩ := hmem
      exact ⟨row, (hr.locked row hrow).1, huser, (hr.locked row hrow).2⟩
  · intro r L w σ hr
    cases r <;> exact hr

theorem revokeRole_seat (hR : R.Locks owns drift) (target : Id) (role : Role) (actor : Id)
    (reason : String) (σ : World Db) :
    wp R ⟨fun _ _ _ => True, fun L _ σ ks => Seat (.revokeRole target role actor reason) L σ.db ks⟩
      (revokeRole target role actor reason) ∅ [] σ fun _ _ _ _ => True := by
  simp only [revokeRole, getUserForUpdate, wp_bind, wp_raiseIf, wp_atomic, wp_lockOr,
    seat_empty, implies_true, and_true, true_and, World.view_nil]
  intro _ σ₁ _ user huser
  obtain rfl : user.id = target := (Table.get?_eq_some.mp huser).2
  have hguard : wp R ⟨fun _ _ _ => True,
      fun L _ σ ks => Seat (.revokeRole user.id role actor reason) L σ.db ks⟩
      (runIf (role = .admin) (guardAdmin user.id actor)) (insert (.user user.id) ∅) [] σ₁.tick
      fun r L w σ => w = [] ∧ Holdings L σ.db ∧ ∀ a, r = .ok a → Key.user user.id ∈ L ∧
        (role = .admin → ∃ r ∈ σ.db.userRoles, r.user = user.id ∧ r.role = .admin ∧
          Key.userRole r.id ∈ L) := by
    rw [wp_runIf]
    refine ⟨fun hrole => ?_, fun hrole => ⟨rfl, holdings_user _, fun _ _ => ⟨by simp, fun h => absurd h hrole⟩⟩⟩
    refine wp_mono ?_ (guardAdmin_seat hR user.id actor (fun hne => by simp [Call.demotes, hrole, hne]) _)
    exact fun r L w σ hr => ⟨hr.1, hr.2.1, fun a ha => (hr.2.2 a ha).imp_right fun h _ => h⟩
  refine wp_mono ?_ hguard
  rintro r L _ σ₂ ⟨rfl, hold, hr⟩
  cases r with
  | error e => exact fun σ' h => (hold.rely hR h).rest
  | ok a =>
    obtain ⟨hu, hadmin⟩ := hr a rfl
    simp only [wp_execute, wp_write, World.view_nil, List.nil_append]
    intro σ₃ uuid h₃
    have hold₃ := hold.rely hR h₃
    cases hrow : σ₃.db.userRoles.get? (user.id, role) with
    | none =>
      simp only [Option.toList_none, List.map_nil, List.flatMap_nil, Db.hasRole, hrow]
      refine ⟨hold₃.rest, by simp, fun _ => ⟨fun _ σ₄ h₄ => ?_, by simp⟩⟩
      simp only [List.not_mem_nil, Set.ofPred_false, Set.union_empty] at h₄ ⊢
      exact (hold₃.rely hR h₄).rest
    | some row =>
      obtain ⟨hmem, hkey⟩ := Table.get?_eq_some.mp hrow
      obtain ⟨hu', hrole⟩ : row.user = user.id ∧ row.role = role := by simpa using hkey
      have hlocked : row.role = .admin → Key.userRole row.id ∈ L := by
        intro hadm
        obtain ⟨r, hr, hru, hradm, hk⟩ := hadmin (hrole ▸ hadm)
        have hkeep : keeps (.userRole r.id) σ₂.db σ₃.db := hR.keeps h₃ hk
        have hsame := σ₃.db.userRoles.eq_of_key ((hkeep r rfl).mpr hr) hmem
          (by simp [hru, hradm, hu', hadm])
        exact hsame ▸ hk
      simp only [Option.toList_some, List.map_cons, List.map_nil, List.flatMap_cons, List.flatMap_nil,
        List.append_nil, Db.hasRole, hrow, Option.isSome_some, Bool.true_eq_false, IsEmpty.forall_iff,
        not_false_eq_true, forall_const, true_and]
      refine ⟨.deleting hold₃ row hmem (hu' ▸ hu) hlocked fun _ => rfl, by simp [violates, Engine.violates],
        fun _ σ₄ e₂ _ h₄ => ?_⟩
      have hdeleted : Holdings (L ∪ {k | k ∈ Engine.locks Db ⟨σ₃.now, uuid⟩ (Write.deleteUserRole row)})
          σ₃.db := by
        refine hold₃.widen ?_ ?_
        · simpa [Engine.locks, locks, hu'] using hu
        · simpa [Engine.locks, locks] using Or.inr ⟨row, hmem, rfl, Or.inr (hu' ▸ hu)⟩
      have hold₄ := hdeleted.rely hR h₄
      refine ⟨.filing hold₄ fun _ => rfl, fun _ σ₅ h₅ => (hold₄.rely hR h₅).rest, fun _ => ?_⟩
      have hfiled := hold₄.also (e := e₂) (x := .insertRoleGrant
        { user := user.id, role := role, action := .revoke, actedBy := actor, reason := reason })
        (by simp [Write.table])
      split
      · simp only [wp_write]
        intro σ₅ e₃ _ h₅
        have hold₅ := hfiled.rely hR h₅
        refine ⟨.still hold₅ (by simp [locks, hu]), fun _ σ₆ h₆ => (hold₅.rely hR h₆).rest, fun _ σ₆ h₆ => ?_⟩
        exact ((hold₅.also (by simp [Write.table])).rely hR h₆).rest
      · simp only [wp_pure]
        exact fun σ₅ h₅ => (hfiled.rely hR h₅).rest

end

/-- The calls that lock a user to change what roles they hold or wear. -/
def Call.aboutRoles : Call → Bool
  | .grantRole .. | .revokeRole .. | .setActiveRole .. => true
  | _ => false

def seatStage (call : Call) (L : Set Key) (_ : Pending Write) (σ : World Db) (ks : ℕ → List Key) : Prop :=
  match call with
  | .grantRole .. | .revokeRole .. | .setActiveRole .. => Seat call L σ.db ks
  | _ => True

theorem seatDiscipline : Discipline system owns
    (fun drift call => ⟨fun L w σ => Committed drift L w σ.db call, seatStage call⟩)
    (fun _ => Ended) := by
  refine discipline.withStage fun hR call σ => ?_
  cases call with
  | setActiveRole user target => exact setActiveRole_seat user target σ
  | grantRole target role actor reason => exact grantRole_seat hR target role actor reason σ
  | revokeRole target role actor reason => exact revokeRole_seat hR target role actor reason σ
  | _ => exact wp_trivial (fun _ _ _ _ => trivial) _ _ _ _

/-- Every session of a run about roles has its seat. -/
theorem seat_of_slot {ok : Config system → Event system → Prop} {σ₀ : World Db}
    {c : Config system} (hr : Config.Reaches ok (Config.idle σ₀) c) {t : ℕ} {s : Session system}
    (hs : c.slot t = some s) (hcall : s.call.aboutRoles = true) :
    Seat s.call (c.held t) c.world.db (s.needs c.world) := by
  have hc := seatDiscipline.holds hr
  by_cases hret : ∃ r, s.prog = .ret r
  · obtain ⟨r, hret⟩ := hret
    exact .outside (hc.post hs hret).1
  · have hstage := seatDiscipline.stage hc hs fun r hr => hret ⟨r, hr⟩
    cases hcall' : s.call <;> rw [hcall'] at hcall hstage <;> first | exact hstage | cases hcall

end Chamneul
