import Chamneul.Proofs.AuthLocks
import Chamneul.Store.Pending

/-! Stored passwords in time. A password is written under the lock of its row and carries the
time it was set at, so in every schedule a user's stored password only ever gives way to a newer
one, and none comes back. -/

namespace Chamneul.Auth

open ReadCommitted ReadCommitted.Prog

def Write.SetsPassword (id : Id) : Write → Prop
  | .updateUser id' s => id' = id ∧ s.password ≠ none
  | _ => False

section

variable {e : Env} {x : Write} {db : Db} {id : Id} {u : User}

/-- One change: a user is still there, with the password it had or the one that was set. -/
theorem password_apply (h : db.users.get? id = some u) :
    ∃ v, (apply e x db).users.get? id = some v ∧
      (v.password = u.password ∨ x.SetsPassword id ∧ v.password.salt = e.now) := by
  cases x with
  | insertUser r =>
    exact ⟨u, Table.get?_insert_of_some h, Or.inl rfl⟩
  | updateUser id' s =>
    rw [get?_updateUser, h]
    split_ifs with hid
    · refine ⟨s.apply e u, rfl, ?_⟩
      cases hs : s.password with
      | none => exact Or.inl (by simp [UserSet.apply, hs])
      | some raw => exact Or.inr ⟨⟨hid.symm, by simp [hs]⟩, by simp [UserSet.apply, hs]⟩
    · exact ⟨u, rfl, Or.inl rfl⟩
  | _ => exact ⟨u, h, Or.inl rfl⟩

theorem password_apply_of_sets (h : db.users.get? id = some u) (hx : x.SetsPassword id) :
    ∃ v, (apply e x db).users.get? id = some v ∧ v.password.salt = e.now := by
  cases x with
  | updateUser id' s =>
    obtain ⟨rfl, hs⟩ := hx
    obtain ⟨raw, hraw⟩ := Option.ne_none_iff_exists'.mp hs
    rw [get?_updateUser, h, if_pos rfl]
    exact ⟨s.apply e u, rfl, by simp [UserSet.apply, hraw]⟩
  | _ => exact hx.elim

end

section

variable {w : Pending Write} {db : Db} {id : Id} {u : User}

/-- Several changes: the password is what it was or what one of them set. -/
theorem password_applyAll (h : db.users.get? id = some u) :
    ∃ v, (applyAll w db).users.get? id = some v ∧
      (v.password = u.password ∨ ∃ p ∈ w, p.2.SetsPassword id ∧ v.password.salt = p.1.now) := by
  induction w generalizing db u with
  | nil => exact ⟨u, h, Or.inl rfl⟩
  | cons p w ih =>
    obtain ⟨u₁, h₁, hu₁⟩ := password_apply (e := p.1) (x := p.2) h
    obtain ⟨u₂, h₂, hu₂⟩ := ih h₁
    refine ⟨u₂, h₂, ?_⟩
    rcases hu₂ with hu₂ | ⟨q, hq, hset⟩
    · rcases hu₁ with hu₁ | ⟨hset, hsalt⟩
      · exact Or.inl (hu₂.trans hu₁)
      · exact Or.inr ⟨p, by simp, hset, by rw [hu₂, hsalt]⟩
    · exact Or.inr ⟨q, by simp [hq], hset⟩

/-- If one of them sets it, it is one of those. -/
theorem password_applyAll_of_sets (h : db.users.get? id = some u)
    (hw : ∃ p ∈ w, p.2.SetsPassword id) :
    ∃ v, (applyAll w db).users.get? id = some v ∧
      ∃ p ∈ w, p.2.SetsPassword id ∧ v.password.salt = p.1.now := by
  induction w generalizing db u with
  | nil => simp at hw
  | cons p w ih =>
    by_cases hrest : ∃ q ∈ w, q.2.SetsPassword id
    · obtain ⟨u₁, h₁, -⟩ := password_apply (e := p.1) (x := p.2) h
      obtain ⟨v, hv, q, hq, hset⟩ := ih h₁ hrest
      exact ⟨v, hv, q, by simp [hq], hset⟩
    · obtain ⟨q, hq, hset⟩ := hw
      obtain rfl : q = p := by
        rcases List.mem_cons.mp hq with rfl | hq
        · rfl
        · exact absurd ⟨q, hq, hset⟩ hrest
      obtain ⟨u₁, h₁, hsalt⟩ := password_apply_of_sets (e := q.1) h hset
      obtain ⟨v, hv, hpass⟩ := password_applyAll (w := w) h₁
      rcases hpass with hpass | ⟨r, hr, hset', -⟩
      · exact ⟨v, hv, q, by simp, hset, by rw [hpass, hsalt]⟩
      · exact absurd ⟨r, hr, hset'⟩ hrest

/-- A stored password was stored before, or is one of those that were written. -/
theorem salt_apply {e : Env} {x : Write} : ∀ u ∈ (apply e x db).users,
    (∃ v ∈ db.users, u.password = v.password) ∨ u.password.salt = e.now := by
  refine users_apply (fun u hu => Or.inl ⟨u, hu, rfl⟩) (fun r _ => Or.inr rfl) fun id s _ u hu => ?_
  cases hs : s.password with
  | none => simpa [UserSet.apply, hs] using hu
  | some raw => exact Or.inr (by simp [UserSet.apply, hs])

theorem salt_applyAll (h : u ∈ (applyAll w db).users) :
    (∃ v ∈ db.users, u.password = v.password) ∨ ∃ p ∈ w, u.password.salt = p.1.now := by
  refine held_of_applyAll (I := fun db : Db => ∃ v ∈ db.users, u.password = v.password) ?_ ⟨u, h, rfl⟩
  rintro p db ⟨v, hv, huv⟩
  rcases salt_apply v hv with ⟨v₀, hv₀, hv⟩ | hsalt
  · exact Or.inl ⟨v₀, hv₀, huv.trans hv⟩
  · exact Or.inr (by rw [huv, hsalt])

theorem user_applyAll (h : db.users.get? id = some u) :
    ∃ v, (applyAll w db).users.get? id = some v := by
  obtain ⟨v, hv, -⟩ := password_applyAll (w := w) h
  exact ⟨v, hv⟩

end

def PastSalts (σ : World Db) : Prop := ∀ u ∈ σ.db.users, u.password.salt < σ.now

def PasswordsMove (db db' : Db) : Prop :=
  ∀ id u, db.users.get? id = some u → ∃ v, db'.users.get? id = some v ∧
    (v.password = u.password ∨ u.password.salt < v.password.salt)

theorem passwordsMove_refl (db : Db) : PasswordsMove db db := fun _ u h => ⟨u, h, Or.inl rfl⟩

theorem PasswordsMove.trans {db db' db'' : Db} (h : PasswordsMove db db') (h' : PasswordsMove db' db'') :
    PasswordsMove db db'' := by
  intro id u hu
  obtain ⟨v, hv, huv⟩ := h id u hu
  obtain ⟨x, hx, hvx⟩ := h' id v hv
  refine ⟨x, hx, ?_⟩
  rcases huv with huv | huv
  · rw [← huv]
    exact hvx
  · rcases hvx with hvx | hvx
    · rw [hvx]
      exact Or.inr huv
    · exact Or.inr (huv.trans hvx)

section

variable {S : Settings} {ok : Config (system S) → Event (system S) → Prop} {σ₀ : World Db}
  {c c' : Config (system S)}

theorem pastSalts_reaches (h₀ : PastSalts σ₀) (h : Config.Reaches ok (Config.idle σ₀) c) :
    PastSalts c.world := by
  refine h.invariant (I := fun c => PastSalts c.world) h₀ ?_
  intro c e c' hr hold _ hs u hu
  rw [Config.step_now hs]
  rcases Config.step_world hs with hw | ⟨t, uuid, s, n, -, hslot, -, hw⟩
  · rw [hw] at hu
    exact Nat.lt_succ_of_lt (hold u hu)
  · rw [hw, World.commit_db] at hu
    rcases salt_applyAll hu with ⟨v, hv, huv⟩ | ⟨p, hp, hsalt⟩
    · rw [huv]
      exact Nat.lt_succ_of_lt (hold v hv)
    · rw [hsalt]
      exact Nat.lt_succ_of_lt (((Config.Tidy.idle σ₀).reaches hr).past t s hslot p hp)

/-- A password that waits for its commit is newer than the one that is stored. -/
theorem pending_newer (h₀ : PastSalts σ₀) (h : Config.Reaches ok (Config.idle σ₀) c) {t : ℕ}
    {s : ReadCommitted.Session (system S)} (hs : c.slot t = some s) {p : Env × Write}
    (hp : p ∈ s.writes) {id : Id} (hset : p.2.SetsPassword id) {u : User}
    (hu : c.world.db.users.get? id = some u) : u.password.salt < p.1.now := by
  refine h.pending (F := fun e x db => ∀ id, x.SetsPassword id → ∀ u, db.users.get? id = some u →
    u.password.salt < e.now) ?_ ?_ hs p hp id hset u hu
  · intro c t uuid s stmt n hr _ _ _ x _ id _ u hu
    exact pastSalts_reaches h₀ hr u (Table.get?_eq_some.mp hu).1
  · intro e x db db' hkeep hold id hset u hu
    cases x with
    | updateUser id' s =>
      obtain ⟨rfl, hs⟩ := hset
      have hsame : db'.users.get? id' = db.users.get? id' := hkeep (.user id') List.mem_cons_self
      exact hold id' ⟨rfl, hs⟩ u (hsame ▸ hu)
    | _ => exact hset.elim

/-- The key of a user that waits to be inserted is free. -/
theorem pending_new (h : Config.Reaches ok (Config.idle σ₀) c) {t : ℕ}
    {s : ReadCommitted.Session (system S)} (hs : c.slot t = some s) {e : Env} {r : NewUser}
    (hp : (e, Write.insertUser r) ∈ s.writes) : c.world.db.users.get? e.uuid = none := by
  refine h.pending (F := fun e x db => ∀ r, x = .insertUser r → db.users.get? e.uuid = none)
    ?_ ?_ hs _ hp r rfl
  · rintro c t uuid s stmt n - - - hok x hx r rfl
    have hfree := List.any_eq_false.mp hok _ hx
    have hnone : violated (c.world.view s.writes) ⟨c.world.now, uuid⟩ (.insertUser r) = none := by
      simpa [Engine.violates] using hfree
    cases hu : c.world.db.users.get? uuid with
    | none => rfl
    | some u =>
      obtain ⟨v, hv⟩ := user_applyAll (w := s.writes) hu
      exact absurd hv (by rw [show (applyAll s.writes c.world.db).users.get? uuid = none from
        (insertUser_accepted.mp hnone).1]; simp)
  · rintro e x db db' hkeep hold r rfl
    have hsame : db'.users.get? e.uuid = db.users.get? e.uuid := hkeep (.user e.uuid) List.mem_cons_self
    rw [hsame]
    exact hold r rfl

/-- What a session has written moves the passwords when it is committed. -/
theorem passwordsMove_commit (h₀ : PastSalts σ₀) (h : Config.Reaches ok (Config.idle σ₀) c) {t : ℕ}
    {s : ReadCommitted.Session (system S)} (hs : c.slot t = some s) :
    PasswordsMove c.world.db (applyAll s.writes c.world.db) := by
  intro id u hu
  obtain ⟨v, hv, hpass⟩ := password_applyAll (w := s.writes) hu
  refine ⟨v, hv, hpass.imp (fun h => h) ?_⟩
  rintro ⟨p, hp, hset, hsalt⟩
  rw [hsalt]
  exact pending_newer h₀ h hs hp hset hu

theorem passwordsMove_step (h₀ : PastSalts σ₀) (h : Config.Reaches ok (Config.idle σ₀) c)
    {e : Event (system S)} (hs : c.step e = some c') : PasswordsMove c.world.db c'.world.db :=
  Config.step_keeps hs (passwordsMove_refl _) fun _ hslot _ => passwordsMove_commit h₀ h hslot

theorem passwordsMove_reaches (h₀ : PastSalts σ₀) (h : Config.Reaches ok (Config.idle σ₀) c)
    (h' : Config.Reaches ok c c') : PasswordsMove c.world.db c'.world.db := by
  induction h' with
  | refl => exact passwordsMove_refl _
  | step hr _ hs ih => exact ih.trans (passwordsMove_step h₀ (h.trans hr) hs)

/-- A commit with a password in it makes the user's password newer. -/
theorem newer_of_commit (h₀ : PastSalts σ₀) (h : Config.Reaches ok (Config.idle σ₀) c) {t : ℕ}
    {s : ReadCommitted.Session (system S)} (hs : c.slot t = some s) {id : Id}
    (hw : ∃ p ∈ s.writes, p.2.SetsPassword id) {u : User} (hu : c.world.db.users.get? id = some u) :
    ∃ v, (applyAll s.writes c.world.db).users.get? id = some v ∧ u.password.salt < v.password.salt := by
  obtain ⟨v, hv, p, hp, hset, hsalt⟩ := password_applyAll_of_sets hu hw
  exact ⟨v, hv, hsalt ▸ pending_newer h₀ h hs hp hset hu⟩

end

end Chamneul.Auth
