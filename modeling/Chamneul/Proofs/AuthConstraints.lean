import Chamneul.Proofs.AuthRules

/-! What the constraints of the account tables keep of every change the database accepts. -/

namespace Chamneul.Auth

open ReadCommitted ReadCommitted.Prog

/-- The unique columns and the foreign key of the linked accounts. -/
structure Constrained (db : Db) : Prop where
  email : ∀ u ∈ db.users, ∀ v ∈ db.users, u.email = v.email → u = v
  identityUser : ∀ i ∈ db.identities, ∀ j ∈ db.identities, i.user = j.user → i = j
  googleSub : ∀ i ∈ db.identities, ∀ j ∈ db.identities, i.googleSub = j.googleSub → i = j
  owner : ∀ i ∈ db.identities, ∃ u, db.users.get? i.user = some u

theorem constrained_empty : Constrained {} := by
  constructor <;> intro _ h <;> exact absurd h (Table.not_mem_empty _)

section

variable {e : Env} {db : Db}

/-- A constraint and those that are checked after it. -/
theorem check_eq_none {c : Prop} [Decidable c] {v : Constraint} {later : Option Constraint} :
    (if c then some v else later) = none ↔ ¬ c ∧ later = none := by
  split_ifs with hc <;> simp [hc]

/-- The insertions that are accepted. -/
theorem insertUser_accepted {r : NewUser} : violated db e (.insertUser r) = none ↔
    db.users.get? e.uuid = none ∧ (∀ u ∈ db.users, u.email ≠ r.email) ∧
      ∀ u ∈ db.users, u.nickname ≠ r.nickname := by
  simp [violated, check_eq_none, Table.any_eq_false_iff]

theorem insertIdentity_accepted {r : GoogleIdentity} : violated db e (.insertIdentity r) = none ↔
    db.identities.get? e.uuid = none ∧ (∀ i ∈ db.identities, i.user ≠ r.user) ∧
      (∀ i ∈ db.identities, i.googleSub ≠ r.googleSub) ∧ ∃ u, db.users.get? r.user = some u := by
  simp [violated, check_eq_none, Table.any_eq_false_iff, Option.ne_none_iff_exists']

/-- What an accepted update has checked of a new address. -/
theorem updateUser_accepted {id : Id} {s : UserSet} (h : violated db e (.updateUser id s) = none)
    {a : String} (ha : s.email = some a) : ∀ u ∈ db.users, u.id ≠ id → u.email ≠ a := by
  rw [violated, check_eq_none, ha] at h
  simpa [Table.any_eq_false_iff] using h.1

/-- The users after an update, by what they were. -/
theorem mem_updateUser {id : Id} {s : UserSet} {u : User} :
    u ∈ (apply e (.updateUser id s) db).users ↔
      ∃ v ∈ db.users, u = if v.id = id then s.apply e v else v :=
  (Table.mem_update : u ∈ db.users.update id (s.apply e) (s.key_apply e) ↔ _)

theorem get?_updateUser {id id' : Id} {s : UserSet} :
    (apply e (.updateUser id s) db).users.get? id' =
      if id' = id then (db.users.get? id').map (s.apply e) else db.users.get? id' :=
  Table.get?_update _ _ _ _ (s.key_apply e)

/-- What every user satisfies they satisfy after a change, if the one that is inserted or updated
does. -/
theorem users_apply {P : User → Prop} {x : Write} (h : ∀ u ∈ db.users, P u)
    (hinsert : ∀ r, x = .insertUser r → P (r.saved e))
    (hupdate : ∀ id s, x = .updateUser id s → ∀ u, P u → P (s.apply e u)) :
    ∀ u ∈ (apply e x db).users, P u := by
  cases x with
  | insertUser r => exact Table.forall_mem_insert h (hinsert r rfl)
  | updateUser id s =>
    intro u hu
    obtain ⟨v, hv, rfl⟩ := mem_updateUser.mp hu
    split_ifs
    · exact hupdate id s rfl v (h v hv)
    · exact h v hv
  | _ => exact h

/-- The same of the identities, which nothing updates. -/
theorem identities_apply {P : GoogleIdentity → Prop} {x : Write} (h : ∀ i ∈ db.identities, P i)
    (hinsert : ∀ r, x = .insertIdentity r → P (r.saved e)) :
    ∀ i ∈ (apply e x db).identities, P i := by
  cases x with
  | insertIdentity r => exact Table.forall_mem_insert h (hinsert r rfl)
  | _ => exact h

/-- The users after the three changes of a link. -/
theorem get?_linked {e₁ e₂ e₃ : Env} {row : GoogleIdentity} {user id : Id} {keys : List Id} :
    (applyAll [(e₁, .insertIdentity row), (e₂, .updateUser user { password := some none }),
      (e₃, .deleteSessions keys)] db).users.get? id =
      if id = user then (db.users.get? id).map (UserSet.apply e₂ { password := some none })
      else db.users.get? id :=
  (get?_updateUser : (apply e₂ (.updateUser user _) db).users.get? id = _)

/-- An accepted update gives nobody the address of somebody else. -/
theorem email_ne_of_updated {id : Id} {s : UserSet} (hdb : Constrained db)
    (h : violated db e (.updateUser id s) = none) {u v : User} (hu : u ∈ db.users) (hv : v ∈ db.users)
    (hid : u.id = id) (hne : v.id ≠ id) : (s.apply e u).email ≠ v.email := by
  intro heq
  cases ha : s.email with
  | none =>
    have hold : u.email = v.email := by simpa [UserSet.apply, ha] using heq
    exact hne (hdb.email u hu v hv hold ▸ hid)
  | some a =>
    have hnew : a = v.email := by simpa [UserSet.apply, ha] using heq
    exact updateUser_accepted h ha v hv hne hnew.symm

end

/-- A user stays in the table, under any change. -/
theorem user_apply {e : Env} {x : Write} {db : Db} {id : Id} {u : User} (h : db.users.get? id = some u) :
    ∃ v, (apply e x db).users.get? id = some v := by
  cases x with
  | insertUser r =>
    exact ⟨u, Table.get?_insert_of_some h⟩
  | updateUser id' s =>
    rw [get?_updateUser, h]
    split_ifs
    · exact ⟨s.apply e u, rfl⟩
    · exact ⟨u, rfl⟩
  | _ => exact ⟨u, h⟩

theorem Constrained.apply {e : Env} {x : Write} {db : Db} (hdb : Constrained db)
    (h : violated db e x = none) : Constrained (apply e x db) := by
  cases x with
  | insertUser r =>
    obtain ⟨hid, hemail, -⟩ := insertUser_accepted.mp h
    refine ⟨Table.unique_insert hdb.email hemail, hdb.identityUser, hdb.googleSub, fun i hi => ?_⟩
    obtain ⟨u, hu⟩ := hdb.owner i hi
    exact user_apply hu
  | updateUser id s =>
    refine ⟨?_, hdb.identityUser, hdb.googleSub, fun i hi => ?_⟩
    · intro u hu v hv huv
      rw [mem_updateUser] at hu hv
      obtain ⟨u', hu', rfl⟩ := hu
      obtain ⟨v', hv', rfl⟩ := hv
      split_ifs at huv ⊢ with hu hv hv
      · rw [db.users.eq_of_key hu' hv' (hu.trans hv.symm)]
      · exact absurd huv (email_ne_of_updated hdb h hu' hv' hu hv)
      · exact absurd huv.symm (email_ne_of_updated hdb h hv' hu' hv hu)
      · exact hdb.email u' hu' v' hv' huv
    · obtain ⟨u, hu⟩ := hdb.owner i hi
      exact user_apply hu
  | insertIdentity r =>
    obtain ⟨hid, huser, hsub, howner⟩ := insertIdentity_accepted.mp h
    exact ⟨hdb.email, Table.unique_insert hdb.identityUser huser, Table.unique_insert hdb.googleSub hsub,
      Table.forall_mem_insert hdb.owner howner⟩
  | insertSession _ | deleteSessions _ | insertUserRole _ =>
    exact ⟨hdb.email, hdb.identityUser, hdb.googleSub, hdb.owner⟩

/-! The lookups, which compare unique columns. -/

section

variable {db : Db}

theorem find?_eq_some_of_unique {α : Type} {p : α → Bool} {l : List α} {a : α}
    (h : ∀ b ∈ l, p b = true → b = a) (ha : a ∈ l) (hp : p a = true) : l.find? p = some a := by
  cases hf : l.find? p with
  | none => exact absurd hp (List.find?_eq_none.mp hf a ha)
  | some b => rw [h b (List.mem_of_find?_eq_some hf) (List.find?_some hf)]

theorem mem_sessionKeysOf {user key : Id} :
    key ∈ db.sessionKeysOf user ↔ ∃ s ∈ db.sessions, s.user = user ∧ s.key = key := by
  simp [Db.sessionKeysOf, Table.mem_def, and_assoc]

theorem userByEmail_eq_some (hdb : Constrained db) {a : String} {u : User} :
    db.userByEmail a = some u ↔ u ∈ db.users ∧ u.email = a := by
  constructor
  · intro h
    exact ⟨List.mem_of_find?_eq_some h, by simpa using List.find?_some h⟩
  · rintro ⟨hu, rfl⟩
    refine find?_eq_some_of_unique (fun v hv he => ?_) hu (by simp)
    exact hdb.email v hv u hu (by simpa using he)

theorem activeUserByEmail_eq (hdb : Constrained db) (a : String) :
    db.activeUserByEmail a = (db.userByEmail a).filter User.isActive := by
  cases h : db.userByEmail a with
  | none =>
    refine List.find?_eq_none.mpr fun u hu => ?_
    have hne := List.find?_eq_none.mp h u hu
    simp_all
  | some u =>
    obtain ⟨hu, rfl⟩ := (userByEmail_eq_some hdb).mp h
    cases hactive : u.isActive with
    | true =>
      rw [Option.filter_some, hactive, if_pos rfl]
      refine find?_eq_some_of_unique (fun v hv he => ?_) hu (by simp [hactive])
      simp only [Bool.and_eq_true, decide_eq_true_eq] at he
      exact hdb.email v hv u hu he.1
    | false =>
      simp only [Option.filter_some, hactive, Bool.false_eq_true, if_false]
      refine List.find?_eq_none.mpr fun v hv he => ?_
      simp only [Bool.and_eq_true, decide_eq_true_eq] at he
      rw [hdb.email v hv u hu he.1, hactive] at he
      simp at he

end

end Chamneul.Auth
