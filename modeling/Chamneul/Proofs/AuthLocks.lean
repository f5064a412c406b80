import Chamneul.Proofs.AuthConstraints
import Chamneul.Store.Discipline

/-! What each lock of the account tables protects. A row lock keeps the row; an index entry that
is free stays free for whoever holds it. -/

namespace Chamneul.Auth

open ReadCommitted

/-- The databases that agree on the row or entry `k`, as far as its holder may rely on it. -/
def keeps : Key → Db → Db → Prop
  | .user id, db, db' => db'.users.get? id = db.users.get? id
  | .email a, db, db' => (∀ u ∈ db.users, u.email ≠ a) → ∀ u ∈ db'.users, u.email ≠ a
  | .nickname n, db, db' => (∀ u ∈ db.users, u.nickname ≠ n) → ∀ u ∈ db'.users, u.nickname ≠ n
  | .identity id, db, db' => db'.identities.get? id = db.identities.get? id
  | .identityUser u, db, db' => (∀ i ∈ db.identities, i.user ≠ u) → ∀ i ∈ db'.identities, i.user ≠ u
  | .googleSub s, db, db' =>
    (∀ i ∈ db.identities, i.googleSub ≠ s) → ∀ i ∈ db'.identities, i.googleSub ≠ s
  | .session key, db, db' => db'.sessions.get? key = db.sessions.get? key
  | _, _, _ => True

theorem keeps_refl (k : Key) (db : Db) : keeps k db db := by
  cases k <;> simp [keeps]

theorem keeps_trans {k : Key} {db db' db'' : Db} (h : keeps k db db') (h' : keeps k db' db'') :
    keeps k db db'' := by
  cases k with
  | user _ | identity _ | session _ => exact Eq.trans h' h
  | userRole _ | userRoleEntry _ _ => trivial
  | _ => exact fun hfree => h' (h hfree)

/-- A change leaves alone every row and entry it does not lock. -/
theorem keeps_frame {k : Key} {e : Env} {x : Write} {db : Db} (h : k ∉ locks e x) :
    keeps k db (apply e x db) := by
  cases k with
  | user id =>
    cases x with
    | insertUser r =>
      have hne : e.uuid ≠ id := by rintro rfl; simp [locks] at h
      exact Table.get?_insert_of_ne _ _ hne
    | updateUser id' s =>
      have hne : id ≠ id' := by rintro rfl; simp [locks] at h
      rw [keeps, get?_updateUser, if_neg hne]
    | _ => rfl
  | email a =>
    refine fun hfree => users_apply hfree (fun r hx => ?_) fun id s hx u hu => ?_
    · rintro rfl
      exact h (by simp [hx, locks, NewUser.saved])
    · cases hs : s.email with
      | none => simpa [UserSet.apply, hs] using hu
      | some b =>
        have hne : b ≠ a := by rintro rfl; simp [hx, locks, hs] at h
        simpa [UserSet.apply, hs] using hne
  | nickname n =>
    refine fun hfree => users_apply hfree (fun r hx => ?_) fun id s hx u hu => ?_
    · rintro rfl
      exact h (by simp [hx, locks, NewUser.saved])
    · cases hs : s.nickname with
      | none => simpa [UserSet.apply, hs] using hu
      | some b =>
        have hne : b ≠ n := by rintro rfl; simp [hx, locks, hs] at h
        simpa [UserSet.apply, hs] using hne
  | identity id =>
    cases x with
    | insertIdentity r =>
      have hne : e.uuid ≠ id := by rintro rfl; simp [locks] at h
      exact Table.get?_insert_of_ne _ _ hne
    | _ => rfl
  | identityUser u =>
    refine fun hfree => identities_apply hfree fun r hx => ?_
    rintro rfl
    exact h (by simp [hx, locks, GoogleIdentity.saved])
  | googleSub sub =>
    refine fun hfree => identities_apply hfree fun r hx => ?_
    rintro rfl
    exact h (by simp [hx, locks, GoogleIdentity.saved])
  | session key =>
    cases x with
    | insertSession r =>
      have hne : e.uuid ≠ key := by rintro rfl; simp [locks] at h
      exact Table.get?_insert_of_ne _ _ hne
    | deleteSessions keys =>
      have hne : key ∉ keys := fun hm => h (by simpa [locks] using hm)
      simp only [keeps, apply, Table.get?_delete]
      cases hg : db.sessions.get? key with
      | none => rfl
      | some s =>
        have hkey : s.key = key := (Table.get?_eq_some.mp hg).2
        simp [hkey, hne]
    | _ => rfl
  | userRole _ | userRoleEntry _ _ => trivial

instance : Guarded Db where
  keeps := keeps
  refl := keeps_refl
  trans := keeps_trans
  frame := keeps_frame

end Chamneul.Auth
