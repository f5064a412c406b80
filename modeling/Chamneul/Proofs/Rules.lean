import Chamneul.Proofs.Locks

/-! The weakest-precondition rules of the statements the services are written in,
and what a lock keeps from one statement to the next. -/

namespace Chamneul

open ReadCommitted ReadCommitted.Prog

def Ended {α : Type} : Post Db Key Write APIException α := fun _ L w _ => L = ∅ ∧ w = []

/-- A value is returned only where `C` may be committed. -/
def Returns {α : Type} (R : Rely Db Key Write) (C : Set Key → Pending Write → World Db → Prop) :
    Post Db Key Write APIException α :=
  fun r L w σ => ∀ a, r = .ok a → ∀ σ', R L w σ σ' → C L w σ'

section

variable {α : Type} {R : Rely Db Key Write} {G : Duty Db Key Write} {L : Set Key}
  {w : Pending Write} {σ : World Db}

@[simp] theorem ended_nil (r : Except APIException α) : Ended r ∅ [] σ ↔ True := by
  simp [Ended]

theorem returns_ok (C : Set Key → Pending Write → World Db → Prop) (a : α) :
    Returns R C (.ok a) L w σ ↔ ∀ σ', R L w σ σ' → C L w σ' := by
  simp [Returns]

theorem returns_error (C : Set Key → Pending Write → World Db → Prop) (e : APIException) :
    Returns R C (.error e : Except APIException α) L w σ ↔ True := by
  simp [Returns]

theorem wp_getOr (absent : APIException) (found : Option α) (Q : Post Db Key Write APIException α) :
    wp R G (Service.getOr absent found) L w σ Q ↔
      (∀ a, found = some a → Q (.ok a) L w σ) ∧ (found = none → Q (.error absent) L w σ) := by
  cases found with
  | none => simp [Service.getOr]
  | some a => simp [Service.getOr]

theorem wp_lockOr (absent : APIException) (k : Key) (row : Db → Option α)
    (Q : Post Db Key Write APIException α) : wp R G (Service.lockOr absent k row) L w σ Q ↔ ∀ σ', R L w σ σ' →
      (∀ a, row (σ'.view w) = some a → G.stage L w σ' (fun _ => [k]) ∧ Q (.ok a) (insert k L) w σ'.tick) ∧
      (row (σ'.view w) = none → G.stage L w σ' (fun _ => []) ∧ Q (.error absent) L w σ'.tick) := by
  simp only [Service.lockOr, wp_bind, wp_queryForUpdate, wp_getOr]
  refine forall_congr' fun σ' => forall_congr' fun _ => ?_
  cases hr : row (σ'.view w) with
  | none => simp
  | some a => simp

theorem wp_write (x : Write) (out : Env → Db → α) (Q : Post Db Key Write APIException α) :
    wp R G (Service.write x out) L w σ Q ↔ ∀ σ' e, e.now = σ'.now → R L w σ σ' →
      G.stage L w σ' (fun uuid => locks ⟨σ'.now, uuid⟩ x) ∧
      (violates (σ'.view w) e x = true → Q (.error .integrityError) L w σ'.tick) ∧
      (violates (σ'.view w) e x = false →
        Q (.ok (out e (σ'.view w))) (L ∪ {k | k ∈ locks e x}) (w ++ [(e, x)]) σ'.tick) := by
  simp only [Service.write, wp_execute, Engine.locks, Engine.violates, List.flatMap_singleton,
    List.any_cons, List.any_nil, Bool.or_false, List.map_cons, List.map_nil]
  constructor
  · intro h σ' e he
    obtain ⟨now, uuid⟩ := e
    obtain rfl : now = σ'.now := he
    exact h σ' uuid
  · intro h σ' uuid
    exact h σ' ⟨σ'.now, uuid⟩ rfl

def Db.FreshRole (db : Db) (id user : Id) (role : Role) : Prop :=
  db.hasRole user role = false ∧ ∀ r ∈ db.userRoles, r.id ≠ id

theorem freshRole_of_violates {db : Db} {e : Env} {u : Id} {role : Role}
    (h : violates db e (.insertUserRole { user := u, role := role }) = false) :
    db.FreshRole e.uuid u role := by
  simp only [violates, Bool.or_eq_false_iff, Table.any_eq_false_iff, decide_eq_false_iff_not] at h
  exact h

/-- The outermost transaction of a call: an exception commits nothing. -/
theorem wp_transaction {C : Set Key → Pending Write → World Db → Prop} {p : Service α}
    (h : wp R (Duty.ofCommit C) p L w σ (Returns R C)) :
    wp R (Duty.ofCommit C) p.atomic L w σ Ended := by
  rw [wp_atomic]
  refine wp_mono ?_ h
  intro r L w σ hr
  cases r with
  | error e => exact fun σ' _ => ⟨trivial, rfl, rfl⟩
  | ok a => exact fun σ' h => ⟨trivial, hr a rfl σ' h, rfl, rfl⟩

end

def Kept (L : Set Key) (db db' : Db) : Prop := ∀ k ∈ L, keeps k db db' ∧ owns k db db'

theorem Kept.refl (L : Set Key) (db : Db) : Kept L db db :=
  fun k _ => ⟨keeps_refl k db, owns_refl k db⟩

theorem Kept.rely {R : Rely Db Key Write} {drift : Db → Db → Prop}
    (hR : R.Locks owns drift) {L L₀ : Set Key} {w : Pending Write} {σ σ' : World Db}
    (h : R L w σ σ') (hL : L₀ ⊆ L) {db : Db} (hd : Kept L₀ db σ.db) : Kept L₀ db σ'.db := by
  intro k hk
  have hkeep : keeps k σ.db σ'.db := hR.keeps h (hL hk)
  have howns : owns k σ.db σ'.db := hR.owns h (hL hk)
  exact ⟨keeps_trans (hd k hk).1 hkeep, owns_trans (hd k hk).2 howns⟩

namespace Locks

variable {R : Rely Db Key Write} {drift : Db → Db → Prop} {L : Set Key} {w : Pending Write}
  {σ σ' : World Db}

theorem user (hR : R.Locks owns drift) (h : R L w σ.tick σ') {id : Id} (hk : Key.user id ∈ L) :
    σ'.db.users.get? id = σ.db.users.get? id :=
  hR.keeps h hk

theorem userRoleEntry (hR : R.Locks owns drift) (h : R L w σ.tick σ') {id : Id} {role : Role}
    (hk : Key.userRoleEntry id role ∈ L) :
    σ'.db.userRoles.get? (id, role) = σ.db.userRoles.get? (id, role) :=
  hR.keeps h hk

theorem concern (hR : R.Locks owns drift) (h : R L w σ.tick σ') {id : Id}
    (hk : Key.concern id ∈ L) : σ'.db.concerns.get? id = σ.db.concerns.get? id :=
  hR.keeps h hk

theorem assignment (hR : R.Locks owns drift) (h : R L w σ.tick σ') {id : Id}
    (hk : Key.assignment id ∈ L) : σ'.db.assignments.get? id = σ.db.assignments.get? id :=
  hR.keeps h hk

theorem notification (hR : R.Locks owns drift) (h : R L w σ.tick σ') {id : Id}
    (hk : Key.notification id ∈ L) : σ'.db.notifications.get? id = σ.db.notifications.get? id :=
  hR.keeps h hk

theorem roleGrant (hR : R.Locks owns drift) (h : R L w σ.tick σ') {id : Id}
    (hk : Key.roleGrant id ∈ L) : σ'.db.roleGrants.get? id = σ.db.roleGrants.get? id :=
  hR.keeps h hk

theorem application (hR : R.Locks owns drift) (h : R L w σ.tick σ') {id : Id}
    (hk : Key.application id ∈ L) : σ'.db.applications.get? id = σ.db.applications.get? id :=
  hR.keeps h hk

theorem advice (hR : R.Locks owns drift) (h : R L w σ.tick σ') {id : Id}
    (hk : Key.advice id ∈ L) : σ'.db.advices.get? id = σ.db.advices.get? id :=
  hR.keeps h hk

theorem historyEntry (hR : R.Locks owns drift) (h : R L w σ.tick σ') {id : Id} {version : ℕ}
    (hk : Key.historyEntry id version ∈ L) :
    σ'.db.histories.get? (id, version) = σ.db.histories.get? (id, version) :=
  hR.keeps h hk

theorem feedback (hR : R.Locks owns drift) (h : R L w σ.tick σ') {id : Id}
    (hk : Key.feedback id ∈ L) : σ'.db.feedbacks.get? id = σ.db.feedbacks.get? id :=
  hR.keeps h hk

/-- The assignments of a locked concern. -/
theorem assignments (hR : R.Locks owns drift) (h : R L w σ.tick σ') {c : Id}
    (hk : Key.concern c ∈ L) {a : Assignment} (ha : a.concern = c) :
    a ∈ σ'.db.assignments ↔ a ∈ σ.db.assignments :=
  hR.owns h hk a ha

/-- The history of a locked advice. -/
theorem histories (hR : R.Locks owns drift) (h : R L w σ.tick σ') {a : Id}
    (hk : Key.advice a ∈ L) {x : AdviceHistory} (hx : x.advice = a) :
    x ∈ σ'.db.histories ↔ x ∈ σ.db.histories :=
  hR.owns h hk x hx

theorem everAssigned (hR : R.Locks owns drift) (h : R L w σ.tick σ') {c : Id}
    (hk : Key.concern c ∈ L) : σ'.db.everAssigned c = σ.db.everAssigned c := by
  unfold Db.everAssigned
  rw [Bool.eq_iff_iff, Table.any_iff, Table.any_iff]
  constructor
  · rintro ⟨a, ha, hc⟩
    exact ⟨a, (assignments hR h hk (by simpa using hc)).mp ha, hc⟩
  · rintro ⟨a, ha, hc⟩
    exact ⟨a, (assignments hR h hk (by simpa using hc)).mpr ha, hc⟩

/-- What a locked user holds they go on holding. -/
theorem heldRoles (hR : R.Locks owns drift) (h : R L w σ.tick σ') {u : Id} (hk : Key.user u ∈ L)
    {role : Role} (hrole : role ∈ σ.db.heldRoles u) : role ∈ σ'.db.heldRoles u := by
  have hkeep := (hR.owns h hk).1
  simp only [Db.heldRoles, List.mem_cons, List.mem_filter] at hrole ⊢
  obtain hrole | ⟨hm, hr⟩ := hrole
  · exact .inl hrole
  · exact .inr ⟨hm, hkeep role hr⟩

/-- A row of `UserRole` that nobody else can take away or put back. -/
theorem userRole (hR : R.Locks owns drift) (h : R L w σ.tick σ') {r : UserRole}
    (hk : Key.userRole r.id ∈ L) : r ∈ σ'.db.userRoles ↔ r ∈ σ.db.userRoles :=
  hR.keeps h hk r rfl

/-- The key and the pair of a row about to be inserted stay free. -/
theorem freshRole (hR : R.Locks owns drift) (h : R L w σ.tick σ') {id u : Id} {role : Role}
    (hk : Key.userRole id ∈ L) (hk' : Key.userRoleEntry u role ∈ L)
    (hfresh : σ.db.FreshRole id u role) : σ'.db.FreshRole id u role := by
  refine ⟨?_, fun r hr hid => ?_⟩
  · rw [Db.hasRole, userRoleEntry hR h hk']
    exact hfresh.1
  · exact hfresh.2 r ((hR.keeps h hk r hid).mp hr) hid

theorem seen (hR : R.Locks owns drift) (h : R L w σ.tick σ') : drift σ.db σ'.db := by
  have hd := hR.drift h
  exact hd

theorem later {db : Db} (hR : R.Locks owns drift) (hd : drift db σ.db) (h : R L w σ.tick σ') :
    drift db σ'.db :=
  hR.drift_trans hd (seen hR h)

end Locks

end Chamneul
