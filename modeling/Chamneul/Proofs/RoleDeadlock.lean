import Chamneul.Proofs.RoleLocks
import Chamneul.Store.Waiting
import Chamneul.Store.Sessions

/-! Grants, revocations and switches of role waiting for each other. A revocation of
ADMIN locks its target first and the administrators afterwards, in the order of their
rows, each row before its user; and the commit of a grant or a revocation looks up the
user who makes it. There can be a cycle only once some session has locked the row of
an administrator and another, about to revoke that administrator, has locked the user;
or once somebody who acts is locked by a session that may have to wait itself. -/

namespace Chamneul

open ReadCommitted ReadCommitted.Prog Service

/-- `id` is the primary key of `UserRole`. -/
def DistinctIds (db : Db) : Prop :=
  ∀ r ∈ db.userRoles, ∀ r' ∈ db.userRoles, r.id = r'.id → r = r'

theorem distinctIds_insert {db : Db} {e : Env} {u : Id} {role : Role} (h : DistinctIds db)
    (hfresh : db.FreshRole e.uuid u role) :
    DistinctIds (apply e (.insertUserRole { user := u, role := role }) db) := by
  exact Table.unique_insert h hfresh.2

theorem distinctIds_delete {db : Db} {e : Env} {row : UserRole} (h : DistinctIds db) :
    DistinctIds (apply e (.deleteUserRole row) db) := fun r hr r' hr' hid =>
  h r (Table.mem_delete.mp hr).1 r' (Table.mem_delete.mp hr').1 hid

theorem distinctIds_of_committed {drift : Db → Db → Prop} {L : Set Key} {w : Pending Write} {db : Db}
    {call : Call} (h : Committed drift L w db call) (hd : DistinctIds db) :
    DistinctIds (applyAll w db) := by
  cases call with
  | grantRole target role actor reason =>
    obtain ⟨e₁, e₂, -, -, hfresh, -, rfl⟩ := h
    exact distinctIds_insert hd hfresh
  | revokeRole target role actor reason =>
    obtain ⟨e₁, e₂, user, row, -, -, -, -, -, -, demotion, rfl, hdem⟩ := h
    have hdeleted : DistinctIds (apply e₁ (.deleteUserRole row) db) := distinctIds_delete hd
    cases hdem with
    | ran e hc => exact hdeleted
    | skipped hc => exact hdeleted
  | reviewApplication id actor target reason =>
    obtain ⟨row, e₁, e₂, now, effects, -, -, -, -, -, rfl, happ, hrej⟩ := h
    by_cases ht : target = .approved
    · obtain ⟨e₃, role, hrole, -, rfl⟩ := happ ht
      cases hrole with
      | found db₀ _ _ => exact hd
      | created e _ _ hfresh => exact distinctIds_insert (e := e) hd hfresh
    · rw [hrej ht]
      exact hd
  | _ =>
    have hsame : Same .userRoles db (applyAll w db) := same_of_committed h (by simp [Call.tables])
    have hsame : (applyAll w db).userRoles = db.userRoles := hsame
    rw [DistinctIds, hsame]
    exact hd

/-- Session `t` is about to take ADMIN from `u`, or has. -/
def Demoting (c : Config system) (t : ℕ) (u : Id) : Prop :=
  ∃ s, c.slot t = some s ∧ s.call.demotes u = true

/-- The row of an administrator is locked by one session, and the user by another that
revokes the ADMIN. -/
def Crossing (c : Config system) : Prop :=
  ∃ r ∈ c.world.db.userRoles, r.role = .admin ∧ ∃ t t', t ≠ t' ∧ c.owner (.userRole r.id) = some t ∧
    c.owner (.user r.user) = some t' ∧ Demoting c t' r.user

/-- The step locks the row of an administrator whom another session has locked to revoke
the ADMIN; or it locks an administrator to revoke the ADMIN when another session has
locked the row. -/
def Crosses (c : Config system) : Event system → Prop
  | .run t uuid => ∃ s, c.slot t = some s ∧ ∃ r ∈ c.world.db.userRoles, r.role = .admin ∧
      (Key.userRole r.id ∈ s.needs c.world uuid ∧
          (∃ t' ≠ t, c.owner (.user r.user) = some t' ∧ Demoting c t' r.user) ∨
        Key.user r.user ∈ s.needs c.world uuid ∧ s.call.demotes r.user = true ∧
          ∃ t' ≠ t, c.owner (.userRole r.id) = some t')
  | _ => False

def Call.actor : Call → Option Id
  | .grantRole _ _ actor _ | .revokeRole _ _ actor _ => some actor
  | _ => none

/-- The rows that a call may have to wait for once it has locked its target: the user who makes
it, whom the commit looks up, and the administrators, if it goes through them. -/
inductive Call.Awaits (call : Call) (db : Db) : Key → Prop
  | actor (a : Id) (h : call.actor = some a) : Awaits call db (.user a)
  | row (h : call.purges = true) (r : UserRole) (hr : r ∈ db.userRoles) (hadmin : r.role = .admin) :
      Awaits call db (.userRole r.id)
  | user (h : call.purges = true) (r : UserRole) (hr : r ∈ db.userRoles) (hadmin : r.role = .admin) :
      Awaits call db (.user r.user)

/-- With the locks owned as `own` says, a session that owns a lock acts for a user whom another
has locked, and a row that this one may have to wait for is locked by a third, or by the first. -/
def Tangled (c : Config system) (own : Key → Option ℕ) : Prop :=
  ∃ t t' t'' s s' a k₀ k, t ≠ t' ∧ t' ≠ t'' ∧ c.slot t = some s ∧ c.slot t' = some s' ∧
    own k₀ = some t ∧ s.call.actor = some a ∧ own (.user a) = some t' ∧
    s'.call.Awaits c.world.db k ∧ own k = some t''

/-- The step takes locks that tangle. -/
def Tangles (c : Config system) : Event system → Prop
  | .run t uuid => ∃ s, c.slot t = some s ∧ Tangled c (c.acquire t (s.needs c.world uuid))
  | _ => False

/-- A run of grants, revocations and switches of role, no step of which crosses or tangles. -/
def Uncrossed (c : Config system) (e : Event system) : Prop :=
  e.startsOnly Call.aboutRoles = true ∧ ¬ Crosses c e ∧ ¬ Tangles c e

section

variable {c c' : Config system} {e : Event system}

/-- Who owns a lock after a step was serving the same call before. -/
theorem call_of_step (htidy : c.Tidy) (hs : c.step e = some c') {t : ℕ} {s' : Session system} {k : Key}
    (hk : c'.owner k = some t) (hslot' : c'.slot t = some s') :
    ∃ s, c.slot t = some s ∧ s.call = s'.call := by
  rcases Config.step_call hs hslot' with hold | rfl
  · exact hold
  · -- who has just begun owns nothing
    rcases Config.step_owner hs hk with hold | ⟨_, _, he, -⟩
    · obtain ⟨s, hslot⟩ := htidy.owned k t hold
      simp [Config.step, hslot] at hs
    · cases he

theorem demoting_of_step (htidy : c.Tidy) (hs : c.step e = some c') {t : ℕ} {u : Id} {k : Key}
    (hk : c'.owner k = some t) (h : Demoting c' t u) : Demoting c t u := by
  obtain ⟨s', hslot', hdem⟩ := h
  obtain ⟨s, hslot, hcall⟩ := call_of_step htidy hs hk hslot'
  exact ⟨s, hslot, hcall ▸ hdem⟩

theorem not_crossing_step (htidy : c.Tidy) (hs : c.step e = some c') (hok : ¬ Crosses c e)
    (h : ¬ Crossing c) : ¬ Crossing c' := by
  rintro ⟨r, hr, hadmin, t, t', hne, hrow, huser, hdem⟩
  have hdem := demoting_of_step htidy hs huser hdem
  rcases Config.step_owner hs hrow with hrow₀ | ⟨uuid, s, rfl, hslot, hneeds, hdb⟩
  · rcases Config.step_owner hs huser with huser₀ | ⟨uuid, s, rfl, hslot, hneeds, hdb⟩
    · have hkeep : keeps (.userRole r.id) c.world.db c'.world.db := htidy.kept hs hrow₀ hrow
      exact h ⟨r, (hkeep r rfl).mp hr, hadmin, t, t', hne, hrow₀, huser₀, hdem⟩
    · obtain ⟨s₀, hslot₀, hdem₀⟩ := hdem
      obtain rfl : s = s₀ := Option.some.inj (hslot.symm.trans hslot₀)
      exact hok ⟨s, hslot, r, hdb ▸ hr, hadmin, Or.inr ⟨hneeds, hdem₀, t, hne, hrow₀⟩⟩
  · rcases Config.step_owner hs huser with huser₀ | ⟨_, _, he, -⟩
    · exact hok ⟨s, hslot, r, hdb ▸ hr, hadmin, Or.inl ⟨hneeds, t', hne.symm, huser₀, hdem⟩⟩
    · cases he
      exact absurd rfl hne

/-- A role that is new was given by a session that has locked the row and the user. -/
theorem userRole_of_committed {L : Set Key} {w : Pending Write} {db : Db} {call : Call}
    (h : Committed (fun _ _ => True) L w db call) (hcall : call.aboutRoles = true)
    (hlocked : ∀ p ∈ w, ∀ k ∈ locks p.1 p.2, k ∈ L) {r : UserRole} (hr : r ∈ (applyAll w db).userRoles) :
    r ∈ db.userRoles ∨ Key.userRole r.id ∈ L ∧ Key.user r.user ∈ L := by
  cases call with
  | grantRole target role actor reason =>
    obtain ⟨e₁, e₂, -, htarget, -, -, rfl⟩ := h
    obtain hold | rfl := Table.mem_of_mem_insert hr
    · exact Or.inl hold
    · exact Or.inr ⟨hlocked _ List.mem_cons_self _ List.mem_cons_self, htarget⟩
  | revokeRole target role actor reason =>
    obtain ⟨e₁, e₂, user, row, -, -, -, -, -, -, demotion, rfl, hdem⟩ := h
    cases hdem <;> exact Or.inl (Table.mem_delete.mp hr).1
  | setActiveRole user target =>
    obtain ⟨e, -, -, rfl⟩ := h
    exact Or.inl hr
  | _ => cases hcall

/-- The commit of a grant or a revocation looks up its target, which it has locked, and the user
who makes it. -/
theorem refers_of_committed {L : Set Key} {w : Pending Write} {db : Db} {call : Call}
    (h : Committed (fun _ _ => True) L w db call) (hcall : call.aboutRoles = true) {k : Key}
    (hk : k ∈ w.flatMap fun p => Engine.refers Db p.2) :
    k ∈ L ∨ ∃ a, call.actor = some a ∧ k = .user a := by
  cases call with
  | grantRole target role actor reason =>
    obtain ⟨e₁, e₂, -, htarget, -, -, rfl⟩ := h
    have hk : k ∈ [Key.user target, .user target, .user actor] := hk
    simp only [List.mem_cons, List.not_mem_nil, or_false] at hk
    obtain rfl | rfl | rfl := hk
    · exact Or.inl htarget
    · exact Or.inl htarget
    · exact Or.inr ⟨actor, rfl, rfl⟩
  | revokeRole target role actor reason =>
    obtain ⟨e₁, e₂, user, row, -, htarget, -, -, -, -, demotion, rfl, hdem⟩ := h
    have hk : k ∈ [Key.user target, .user actor] := by
      cases hdem <;> exact hk
    simp only [List.mem_cons, List.not_mem_nil, or_false] at hk
    obtain rfl | rfl := hk
    · exact Or.inl htarget
    · exact Or.inr ⟨actor, rfl, rfl⟩
  | setActiveRole user target =>
    obtain ⟨e, -, -, rfl⟩ := h
    cases hk
  | _ => cases hcall

section

variable {ok : Config system → Event system → Prop} {σ₀ : World Db}

/-- What a call may have to wait for at a lock that is owned, it might have had to wait for before. -/
theorem awaits_of_step (hr : Config.Reaches ok (Config.idle σ₀) c)
    (hroles : ∀ {t s}, c.slot t = some s → s.call.aboutRoles = true) (hs : c.step e = some c')
    {call : Call} {k : Key} {t : ℕ} (hk : c'.owner k = some t) (h : call.Awaits c'.world.db k) :
    call.Awaits c.world.db k := by
  obtain hw | ⟨t₀, uuid, s, n, rfl, hslot, hp, hw⟩ := Config.step_world hs
  · rwa [hw] at h
  · have hcommitted := committed_of_slot hr hslot hp
    have htidy := (Config.Tidy.idle σ₀).reaches hr
    have hreleased : ∀ {key}, key ∈ c.held t₀ → c'.owner key ≠ some t := by
      intro key hheld hkey
      have hheld : c.owner key = some t₀ := hheld
      rw [Config.owner_of_commit hs hslot hp, Config.release, if_pos hheld] at hkey
      cases hkey
    have hold : ∀ r : UserRole, r ∈ c'.world.db.userRoles → r ∈ c.world.db.userRoles ∨
        Key.userRole r.id ∈ c.held t₀ ∧ Key.user r.user ∈ c.held t₀ := by
      intro r hmem
      rw [hw, World.commit_db] at hmem
      exact userRole_of_committed hcommitted (hroles hslot) (htidy.locked t₀ s hslot) hmem
    cases h with
    | actor a ha => exact .actor a ha
    | row hpurges r hmem hadmin =>
      obtain hmem | ⟨hheld, -⟩ := hold r hmem
      · exact .row hpurges r hmem hadmin
      · exact absurd hk (hreleased hheld)
    | user hpurges r hmem hadmin =>
      obtain hmem | ⟨-, hheld⟩ := hold r hmem
      · exact .user hpurges r hmem hadmin
      · exact absurd hk (hreleased hheld)

theorem not_tangled_step (hr : Config.Reaches ok (Config.idle σ₀) c)
    (hroles : ∀ {t s}, c.slot t = some s → s.call.aboutRoles = true) (hs : c.step e = some c')
    (hok : ¬ Tangles c e) (h : ¬ Tangled c c.owner) : ¬ Tangled c' c'.owner := by
  rintro ⟨t, t', t'', s, s', a, k₀, k, hne, hne', hslot, hslot', hown, hactor, hacts, hawaits, hk⟩
  have htidy := (Config.Tidy.idle σ₀).reaches hr
  obtain ⟨s₁, hslot₁, hcall⟩ := call_of_step htidy hs hown hslot
  obtain ⟨s₁', hslot₁', hcall'⟩ := call_of_step htidy hs hacts hslot'
  rw [← hcall] at hactor
  have hawaits := awaits_of_step hr hroles hs hk (hcall' ▸ hawaits)
  obtain hkept | ⟨t₀, uuid, s₀, rfl, hslot₀, howner, -⟩ := Config.step_locks hs
  · exact h ⟨t, t', t'', s₁, s₁', a, k₀, k, hne, hne', hslot₁, hslot₁', hkept _ _ hown, hactor,
      hkept _ _ hacts, hawaits, hkept _ _ hk⟩
  · rw [howner] at hown hacts hk
    exact hok ⟨s₀, hslot₀, t, t', t'', s₁, s₁', a, k₀, k, hne, hne', hslot₁, hslot₁', hown, hactor,
      hacts, hawaits, hk⟩

end

/-- How far session `t` has come: in its loop, or to its commit. -/
inductive Place (c : Config system) (t : ℕ) : WithTop ℕ → Prop
  | listing (s : Session system) (hs : c.slot t = some s) (hrefers : s.refers = []) (x : UserRole)
      (hloop : InLoop s.call (c.held t) c.world.db x) (hx : x ∈ c.world.db.userRoles)
      (hadmin : x.role = .admin)
      (hks : ∀ uuid, ∀ k ∈ s.needs c.world uuid, k = .userRole x.id) : Place c t (WithTop.some (2 * x.id))
  | taking (s : Session system) (hs : c.slot t = some s) (hrefers : s.refers = []) (x : UserRole)
      (hloop : InLoop s.call (c.held t) c.world.db x) (hx : x ∈ c.world.db.userRoles)
      (hadmin : x.role = .admin) (hrow : c.owner (.userRole x.id) = some t)
      (hks : ∀ uuid, ∀ k ∈ s.needs c.world uuid, k = .user x.user) : Place c t (WithTop.some (2 * x.id + 1))
  | committing (s : Session system) (hs : c.slot t = some s) (howned : ∃ k, c.owner k = some t)
      (hneeds : s.needs c.world = fun _ => [])
      (hks : ∀ k ∈ s.refers, c.owner k = some t ∨ ∃ a, s.call.actor = some a ∧ k = .user a) :
      Place c t ⊤

/-- Where a session waits, it may have to wait. -/
theorem Place.awaits {t t' : ℕ} {n : WithTop ℕ} (h : Place c t n) (hw : c.Waits t t') :
    ∃ s k, c.slot t = some s ∧ s.call.Awaits c.world.db k ∧ c.owner k = some t' := by
  obtain ⟨hne, s, hs, hn⟩ := hw
  cases h with
  | listing s₀ hs₀ hrefers x hloop hx hadmin hks =>
    obtain rfl := Option.some.inj (hs.symm.trans hs₀)
    obtain hn | ⟨k, hk, -⟩ := hn
    · obtain ⟨k, hk, ho⟩ := hn 0
      obtain rfl := hks 0 k hk
      exact ⟨s, _, hs, .row hloop.purges x hx hadmin, ho⟩
    · rw [hrefers] at hk
      cases hk
  | taking s₀ hs₀ hrefers x hloop hx hadmin hrow hks =>
    obtain rfl := Option.some.inj (hs.symm.trans hs₀)
    obtain hn | ⟨k, hk, -⟩ := hn
    · obtain ⟨k, hk, ho⟩ := hn 0
      obtain rfl := hks 0 k hk
      exact ⟨s, _, hs, .user hloop.purges x hx hadmin, ho⟩
    · rw [hrefers] at hk
      cases hk
  | committing s₀ hs₀ howned hneeds hks =>
    obtain rfl := Option.some.inj (hs.symm.trans hs₀)
    obtain hn | ⟨k, hk, ho⟩ := hn
    · obtain ⟨k, hk, -⟩ := hn 0
      rw [hneeds] at hk
      cases hk
    · obtain hown | ⟨a, ha, rfl⟩ := hks k hk
      · exact absurd (Config.owner_unique hown ho) hne
      · exact ⟨s, _, hs, .actor a ha, ho⟩

/-- Only the loop and the commit wait while they are waited for. -/
theorem place_of_waits (htidy : c.Tidy) (hids : DistinctIds c.world.db)
    (hseat : ∀ t s, c.slot t = some s → Seat s.call (c.held t) c.world.db (s.needs c.world))
    (hcommit : ∀ t s n, c.slot t = some s → s.prog = .commit n → ∀ k ∈ s.refers,
      k ∈ c.held t ∨ ∃ a, s.call.actor = some a ∧ k = .user a)
    {t t' t'' : ℕ} (hw : c.Waits t t') (hw' : c.Waits t' t'') : ∃ n, Place c t' n := by
  have hold : Holdings (c.held t'') c.world.db := by
    obtain ⟨k, hk⟩ := hw'.owned
    obtain ⟨s'', hs''⟩ := htidy.owned k t'' hk
    have hk : k ∈ c.held t'' := hk
    cases hseat t'' s'' hs'' with
    | outside h => rw [h] at hk; cases hk
    | still h | filing h | entering h | deleting h | listing h | taking h => exact h
  obtain ⟨hne, s, hs, hn | ⟨k, hk, -⟩⟩ := hw'
  · have hrefers : s.refers = [] := Config.refers_of_needs (hn 0).choose_spec.1
    cases hseat t' s hs with
    | outside h =>
      obtain ⟨k₀, hk₀⟩ := hw.owned
      have hk₀ : k₀ ∈ c.held t' := hk₀
      rw [h] at hk₀
      cases hk₀
    | still h hks =>
      obtain ⟨k, hk, ho⟩ := hn 0
      exact absurd (Config.owner_unique (hks 0 k hk) ho) hne
    | filing h hks =>
      obtain ⟨uuid, hfree⟩ := htidy.exists_free (f := Key.roleGrant) fun _ _ h => by cases h; rfl
      obtain ⟨k, hk, ho⟩ := hn uuid
      obtain rfl : k = .roleGrant uuid := by simpa [hks] using hk
      rw [hfree] at ho
      cases ho
    | entering h u role hu hks =>
      obtain ⟨uuid, hfree⟩ := htidy.exists_free (f := Key.userRole) fun _ _ h => by cases h; rfl
      obtain ⟨k, hk, ho⟩ := hn uuid
      obtain rfl | rfl : k = .userRole uuid ∨ k = .userRoleEntry u role := by simpa [hks] using hk
      · rw [hfree] at ho
        cases ho
      · exact absurd (Config.owner_unique hu (hold.entry u role ho)) hne
    | deleting h r hr hu hrow hks =>
      obtain ⟨k, hk, ho⟩ := hn 0
      obtain rfl | rfl : k = .userRole r.id ∨ k = .userRoleEntry r.user r.role := by
        simpa [hks] using hk
      · rcases hold.row r.id ho with hnone | ⟨r', hr', hid, hrole⟩
        · exact absurd rfl (hnone r hr)
        · obtain rfl : r' = r := hids r' hr' r hr hid
          rcases hrole with hadmin | hu'
          · exact absurd (Config.owner_unique (hrow hadmin) ho) hne
          · exact absurd (Config.owner_unique hu hu') hne
      · exact absurd (Config.owner_unique hu (hold.entry r.user r.role ho)) hne
    | listing h x hloop hx hadmin hks => exact ⟨_, .listing s hs hrefers x hloop hx hadmin hks⟩
    | taking h x hloop hx hadmin hrow hks => exact ⟨_, .taking s hs hrefers x hloop hx hadmin hrow hks⟩
  · have hp : ∃ n, s.prog = .commit n := by
      unfold Session.refers at hk
      split at hk
      · rename_i n hp
        exact ⟨n, hp⟩
      · cases hk
    obtain ⟨n, hp⟩ := hp
    refine ⟨⊤, .committing s hs hw.owned ?_ (hcommit t' s n hs hp)⟩
    funext uuid
    simp only [Session.needs, hp]

/-- Sessions wait for those that have come further. -/
theorem place_lt (hcross : ¬ Crossing c) (htangled : ¬ Tangled c c.owner) {t t' : ℕ} {a b : WithTop ℕ}
    (hw : c.Waits t t') (hnext : ∃ t'', c.Waits t' t'') (ha : Place c t a) (hb : Place c t' b) :
    a < b := by
  obtain ⟨t'', hw'⟩ := hnext
  obtain ⟨hne, s, hs, hn⟩ := hw
  cases ha with
  | listing s₀ hs₀ hrefers x hloop hx hadmin hks =>
    obtain rfl : s = s₀ := Option.some.inj (hs.symm.trans hs₀)
    obtain ⟨k, hk, ho⟩ := hn.resolve_right (by simp [hrefers]) 0
    obtain rfl := hks 0 k hk
    cases hb with
    | listing s' hs' hrefers' x' hloop' hx' hadmin' hks' =>
      have hlt : x.id ≠ x'.id := by
        intro hid
        obtain ⟨hne', s₁, hs₁, hn'⟩ := hw'
        obtain rfl : s₁ = s' := Option.some.inj (hs₁.symm.trans hs')
        obtain ⟨k', hk', ho'⟩ := hn'.resolve_right (by simp [hrefers']) 0
        obtain rfl := hks' 0 k' hk'
        rw [← hid] at ho'
        exact absurd (Config.owner_unique ho ho') hne'
      refine WithTop.coe_lt_coe.mpr ((Nat.mul_lt_mul_left Nat.two_pos).mpr ?_)
      exact lt_of_le_of_ne (hloop'.ids x.id ho) hlt
    | taking s' hs' hrefers' x' hloop' hx' hadmin' hrow' hks' =>
      refine WithTop.coe_lt_coe.mpr (Nat.lt_succ_of_le (Nat.mul_le_mul_left 2 ?_))
      exact hloop'.ids x.id ho
    | committing s' hs' howned hneeds hks' => exact WithTop.coe_lt_top _
  | taking s₀ hs₀ hrefers x hloop hx hadmin hrow hks =>
    obtain rfl : s = s₀ := Option.some.inj (hs.symm.trans hs₀)
    obtain ⟨k, hk, ho⟩ := hn.resolve_right (by simp [hrefers]) 0
    obtain rfl := hks 0 k hk
    have hloop_lt : ∀ s', c.slot t' = some s' → Accounted s'.call (c.held t') c.world.db → False := by
      intro s' hs' husers
      rcases husers x.user ho with hdem | ⟨r, hr, hru, hradmin, hown⟩
      · exact hcross ⟨x, hx, hadmin, t, t', hne, hrow, ho, s', hs', hdem⟩
      · obtain rfl : r = x := c.world.db.userRoles.eq_of_key hr hx (by simp [hru, hradmin, hadmin])
        exact absurd (Config.owner_unique hrow hown) hne
    cases hb with
    | listing s' hs' hrefers' x' hloop' hx' hadmin' hks' => exact (hloop_lt s' hs' hloop'.users).elim
    | taking s' hs' hrefers' x' hloop' hx' hadmin' hrow' hks' => exact (hloop_lt s' hs' hloop'.users).elim
    | committing s' hs' howned hneeds hks' => exact WithTop.coe_lt_top _
  | committing s₀ hs₀ howned hneeds hks =>
    -- who commits waits for a session that does not wait
    obtain rfl : s = s₀ := Option.some.inj (hs.symm.trans hs₀)
    obtain ⟨k, hk, ho⟩ := hn.resolve_left fun h => by simpa [hneeds] using h 0
    obtain hown | ⟨a, hactor, rfl⟩ := hks k hk
    · exact absurd (Config.owner_unique hown ho) hne
    · obtain ⟨k₀, hk₀⟩ := howned
      obtain ⟨s', k', hs', hawaits, hk'⟩ := hb.awaits hw'
      exact absurd ⟨t, t', t'', s, s', a, k₀, k', hne, hw'.1, hs, hs', hk₀, hactor, ho, hawaits, hk'⟩ htangled

/-- In no run of grants, revocations and switches of role whose steps neither cross nor tangle do
sessions wait for each other in a cycle. -/
theorem role_changes_never_deadlock {σ₀ : World Db} (h₀ : DistinctIds σ₀.db)
    (hr : Config.Reaches Uncrossed (Config.idle σ₀) c) : ¬ c.Deadlocked := by
  have htidy : ∀ {c}, Config.Reaches Uncrossed (Config.idle σ₀) c → c.Tidy :=
    fun hr => (Config.Tidy.idle σ₀).reaches hr
  have hroles : ∀ {c}, Config.Reaches Uncrossed (Config.idle σ₀) c →
      ∀ {t s}, c.slot t = some s → s.call.aboutRoles = true := by
    intro c hr t s hs
    exact hr.calls (P := fun call : Call => call.aboutRoles = true) (fun _ _ _ ho => ho.1) hs
  have hids : DistinctIds c.world.db := by
    refine discipline.invariant (J := DistinctIds) (fun call db db' hc hd => ?_) h₀ hr
    obtain ⟨L, w, σ, rfl, hcom, rfl⟩ := hc
    exact distinctIds_of_committed (show Committed (fun _ _ => True) L w σ.db call from hcom) hd
  have hcross : ¬ Crossing c := by
    refine hr.invariant (I := fun c => ¬ Crossing c) ?_ fun c e c' hr hi hok hs =>
      not_crossing_step (htidy hr) hs hok.2.1 hi
    rintro ⟨r, -, -, t, t', -, hk, -⟩
    cases hk
  have htangled : ¬ Tangled c c.owner := by
    refine hr.invariant (I := fun c => ¬ Tangled c c.owner) ?_ fun c e c' hr hi hok hs =>
      not_tangled_step hr (hroles hr) hs hok.2.2 hi
    rintro ⟨t, -, -, s, -, -, -, -, -, -, hs, -⟩
    cases hs
  have hseat : ∀ t s, c.slot t = some s → Seat s.call (c.held t) c.world.db (s.needs c.world) :=
    fun t s hs => seat_of_slot hr hs (hroles hr hs)
  have hcommit : ∀ t s n, c.slot t = some s → s.prog = .commit n → ∀ k ∈ s.refers,
      k ∈ c.held t ∨ ∃ a, s.call.actor = some a ∧ k = .user a := by
    intro t s n hs hp k hk
    refine refers_of_committed (committed_of_slot hr hs hp) (hroles hr hs) ?_
    simpa only [Session.refers, hp] using hk
  exact Config.not_deadlocked_of_order (Place c) (place_of_waits (htidy hr) hids hseat hcommit)
    (place_lt hcross htangled)

end

/-- Three administrators. -/
def triumvirate : World Db where
  db :=
    { users := ((Table.empty.insert { id := 1, nickname := "a" }).insert
        { id := 2, nickname := "b" }).insert { id := 3, nickname := "c" }
      userRoles := ((Table.empty.insert { id := 11, user := 1, role := .admin }).insert
        { id := 12, user := 2, role := .admin }).insert { id := 13, user := 3, role := .admin } }
  now := 0

theorem distinctIds_triumvirate : DistinctIds triumvirate.db := by
  have hrows : ∀ r ∈ triumvirate.db.userRoles.rows, ∀ r' ∈ triumvirate.db.userRoles.rows,
      r.id = r'.id → r = r' := by decide
  exact hrows

/-- The third takes ADMIN from the first and from the second. Each revocation has locked
its own target; the first one has come to the row of the other's target. -/
def purge : Config system :=
  (Config.idle triumvirate).after
    [.start 0 (.revokeRole 1 .admin 3 ""), .start 1 (.revokeRole 2 .admin 3 ""), .run 0 0, .run 1 0,
      .run 0 0, .run 0 0, .run 0 0, .run 0 0, .run 1 0]

theorem purge_deadlocked : DistinctIds triumvirate.db ∧
    Config.Reaches (fun _ e => e.startsOnly Call.aboutRoles = true) (Config.idle triumvirate) purge ∧
    purge.Deadlocked := by
  refine ⟨distinctIds_triumvirate, Config.reaches_after (fun _ _ h => h) (by decide), 0, ?_⟩
  have hfirst : purge.Waits 0 1 :=
    Config.waits_of_waitsAt (k := .user 2) (by decide) (by decide)
  have hsecond : purge.Waits 1 0 :=
    Config.waits_of_waitsAt (k := .userRole 11) (by decide) (by decide)
  exact (Relation.TransGen.single hfirst).tail hsecond

/-- Two administrators make each other advisors. Each grant is at its commit, which looks up the
other's target. -/
def mutualGrants : Config system :=
  (Config.idle triumvirate).after
    [.start 0 (.grantRole 1 .advisor 2 ""), .start 1 (.grantRole 2 .advisor 1 ""), .run 0 0, .run 1 0,
      .run 0 0, .run 1 0, .run 0 21, .run 1 22, .run 0 31, .run 1 32]

theorem mutualGrants_deadlocked :
    Config.Reaches (fun _ e => e.startsOnly Call.aboutRoles = true) (Config.idle triumvirate) mutualGrants ∧
    mutualGrants.Deadlocked := by
  refine ⟨Config.reaches_after (fun _ _ h => h) (by decide), 0, ?_⟩
  have hfirst : mutualGrants.Waits 0 1 :=
    Config.waits_of_waitsAt (k := .user 2) (by decide) (by decide)
  have hsecond : mutualGrants.Waits 1 0 :=
    Config.waits_of_waitsAt (k := .user 1) (by decide) (by decide)
  exact (Relation.TransGen.single hfirst).tail hsecond

/-- A step that locks a row while nobody else has its user, and the other way round; and that
locks nobody in whose name a session of `T` acts. -/
def keepsClear (T : List ℕ) (c : Config system) : Event system → Bool
  | .start _ call => Call.aboutRoles call
  | .run t uuid => (c.slot t).all fun s =>
      (c.world.db.userRoles.rows.all fun r =>
        (decide (Key.userRole r.id ∉ s.needs c.world uuid) || c.free t (.user r.user)) &&
        (decide (Key.user r.user ∉ s.needs c.world uuid) || !Call.demotes s.call r.user ||
          c.free t (.userRole r.id))) &&
      T.all fun t' => (c.slot t').all fun s' => (Call.actor s'.call).all fun a =>
        (c.acquire t (s.needs c.world uuid) (.user a)).all (· == t')
  | .abort _ => true

theorem uncrossed_of_keepsClear {T : List ℕ} {c : Config system} {e : Event system} (hwithin : c.Within T)
    (h : keepsClear T c e = true) : Uncrossed c e := by
  cases e with
  | start t call => exact ⟨h, id, id⟩
  | abort t => exact ⟨rfl, id, id⟩
  | run t uuid =>
    refine ⟨rfl, fun hcross => ?_, fun htangles => ?_⟩
    · obtain ⟨s, hslot, r, hr, -, hcase⟩ := hcross
      simp only [keepsClear, hslot, Option.all_some, List.all_eq_true, Bool.and_eq_true,
        Bool.or_eq_true, decide_eq_true_eq, Bool.not_eq_true'] at h
      obtain ⟨hrow, huser⟩ := h.1 r hr
      rcases hcase with ⟨hk, t', hne, ho, -⟩ | ⟨hk, hdem, t', hne, ho⟩
      · exact hne (Config.free_iff.mp (hrow.resolve_left (not_not_intro hk)) t' ho)
      · have hdem : ¬ Call.demotes s.call r.user = false := by simp [show Call.demotes s.call r.user = true from hdem]
        exact hne (Config.free_iff.mp (huser.resolve_left (by simp [hk, hdem])) t' ho)
    · obtain ⟨s, hslot, t₁, t₂, -, s₁, -, a, -, -, hne, -, hslot₁, -, -, hactor, hacts, -⟩ := htangles
      have hactor : Call.actor s₁.call = some a := hactor
      simp only [keepsClear, hslot, Option.all_some, Bool.and_eq_true] at h
      have hclear := List.all_eq_true.mp h.2 t₁ (hwithin.mem hslot₁)
      rw [hslot₁, Option.all_some, hactor, Option.all_some, hacts, Option.all_some, beq_iff_eq] at hclear
      exact hne hclear.symm

/-- A revocation has locked the row of the second administrator, who switches role. -/
def switchAside : Config system :=
  (Config.idle triumvirate).after
    [.start 0 (.revokeRole 1 .admin 3 ""), .run 0 0, .run 0 0, .run 0 0, .run 0 0, .run 0 0,
      .start 1 (.setActiveRole 2 .user), .run 1 0]

theorem role_changes_never_deadlock_switchAside : ¬ switchAside.Deadlocked ∧
    switchAside.waitsAt 0 1 (.user 2) = true :=
  ⟨role_changes_never_deadlock distinctIds_triumvirate
    ((Config.within_idle [0, 1] triumvirate).reaches_after
      (fun _ _ hwithin => uncrossed_of_keepsClear hwithin) (by decide) (by decide)), by decide⟩

end Chamneul
