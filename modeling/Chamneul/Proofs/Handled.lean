import Chamneul.Proofs.Effects
import Chamneul.Proofs.ForeignKeys
import Chamneul.Proofs.AdviceLifecycle
import Chamneul.Store.Draws

/-! What the API answers 500 to. Most statements cannot fail where the drawn identifier is free; the
others look for a row first, and the lock they hold or the state of the database makes the answer
last until the row is written. Only where a role is given is nothing held in between. -/

namespace Chamneul

open ReadCommitted ReadCommitted.Prog Service

structure Db.Unused (db : Db) (uuid : Id) : Prop where
  userRole : ∀ r ∈ db.userRoles, r.id ≠ uuid
  roleGrant : db.roleGrants.get? uuid = none
  application : db.applications.get? uuid = none
  concern : db.concerns.get? uuid = none
  assignment : db.assignments.get? uuid = none
  advice : db.advices.get? uuid = none
  feedback : db.feedbacks.get? uuid = none
  notification : db.notifications.get? uuid = none

/-- No foreign key dangles, no unique constraint is broken, and each advice has the history its
version counts. -/
structure Db.Sane (db : Db) : Prop where
  intact : db.Intact
  constrained : db.Constrained
  faithful : Dossiers Dossier.Faithful db

section

variable {α : Type} {R : Rely Db Key Write} {E : APIException → Prop}

end

/-! Those that look first. -/

section

variable {α : Type} {R : Rely Db Key Write} {F : Db → ℕ → Prop} {L : Set Key} {w : Pending Write}
  {σ : World Db}

end

namespace Db.Sane

variable {db : Db} (h : db.Sane)
include h

end Db.Sane

/-- The database is sane whatever the others do, and they take it along `J`. -/
abbrev Rely.sane (J : Db → Db → Prop) : Rely Db Key Write := Rely.keeping Db.Sane J

section

variable {J : Db → Db → Prop}

/-- The others leave the roles alone, if it matters. -/
def KeepsRoles (matters : Prop) (db db' : Db) : Prop := matters → db'.userRoles = db.userRoles

/-- And nobody deletes a user. -/
structure KeepsAccounts (matters : Prop) (db db' : Db) : Prop where
  roles : KeepsRoles matters db db'
  users : ∀ id, db.Has (.user id) → db'.Has (.user id)

theorem KeepsAccounts.refl {matters : Prop} (db : Db) : KeepsAccounts matters db db :=
  ⟨fun _ => rfl, fun _ h => h⟩

theorem KeepsAccounts.trans {matters : Prop} {db db' db'' : Db} (h : KeepsAccounts matters db db')
    (h' : KeepsAccounts matters db' db'') : KeepsAccounts matters db db'' :=
  ⟨fun hm => (h'.roles hm).trans (h.roles hm), fun id hid => h'.users id (h.users id hid)⟩

/-- The user whose own row the call gets. -/
def Call.self : Call → Option Id
  | .setActiveRole user _ | .updateProfile user _ => some user
  | _ => none

end

end Chamneul
