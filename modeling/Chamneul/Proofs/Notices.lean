import Chamneul.Proofs.Footprint

/-! The notices about one row: those of a type that carry the row's id in their payload. -/

namespace Chamneul

open ReadCommitted ReadCommitted.Prog Service

/-- The notices of one type that carry the application's id. -/
def Db.notices (db : Db) (type : NotificationType) (application : Id) : List Notification :=
  db.notifications.rows.filter fun n =>
    decide (n.type = type ∧ ("application_id", application) ∈ n.payload)

/-- The same about any row, which the payload names under `field`. -/
def Db.noticesAbout (db : Db) (type : NotificationType) (field : String) (id : Id) :
    List Notification :=
  db.notifications.rows.filter fun n => decide (n.type = type ∧ (field, id) ∈ n.payload)

variable {e : Env} {db db' : Db} {n : Notification} {type : NotificationType} {field : String}
  {i : Id}

theorem noticesAbout_same (h : Same .notifications db db') :
    db'.noticesAbout type field i = db.noticesAbout type field i := by
  have h : db'.notifications = db.notifications := h
  rw [Db.noticesAbout, h, Db.noticesAbout]

/-- A notice about something else. -/
theorem noticesAbout_other (h : ¬ (n.type = type ∧ (field, i) ∈ n.payload)) :
    (apply e (.insertNotification n) db).noticesAbout type field i = db.noticesAbout type field i := by
  simp only [Db.noticesAbout, apply, Table.insert]
  split_ifs
  · rw [List.filter_append]
    simp only [Notification.saved, List.filter_cons, List.filter_nil, h, decide_false,
      Bool.false_eq_true, if_false, List.append_nil]
  · rfl

theorem noticesAbout_insert (hfree : db.notifications.get? e.uuid = none)
    (h : n.type = type ∧ (field, i) ∈ n.payload) :
    (apply e (.insertNotification n) db).noticesAbout type field i =
      db.noticesAbout type field i ++ [n.saved e] := by
  simp only [Db.noticesAbout, apply]
  rw [Table.rows_insert hfree, List.filter_append]
  simp only [Notification.saved, List.filter_cons, List.filter_nil, h, and_self, decide_true, if_true]

/-- Reading a notice leaves it where it is. -/
theorem noticesAbout_read (id : Id) (t : Time) :
    (apply e (.readNotification id t) db).noticesAbout type field i =
      (db.noticesAbout type field i).map fun n => if n.id = id then n.marked t else n := by
  simp only [Db.noticesAbout, apply, Table.update, List.filter_map]
  congr 1
  refine List.filter_congr fun n _ => ?_
  simp only [Function.comp, Notification.key_eq]
  split_ifs <;> rfl

def Write.notifies (type : NotificationType) : Write → Bool
  | .insertNotification n => decide (n.type = type)
  | .readNotification _ _ => true
  | _ => false

theorem noticesAbout_apply {x : Write} (h : x.notifies type = false) :
    (apply e x db).noticesAbout type field i = db.noticesAbout type field i := by
  cases x with
  | insertNotification n =>
    exact noticesAbout_other fun hn => by simp [Write.notifies, hn.1] at h
  | readNotification id t => cases h
  | _ => rfl

theorem noticesAbout_applyAll {w : Pending Write} (h : ∀ p ∈ w, p.2.notifies type = false) :
    (applyAll w db).noticesAbout type field i = db.noticesAbout type field i := by
  refine holds_applyAll (I := fun db' : Db => db'.noticesAbout type field i =
    db.noticesAbout type field i) rfl fun p hp db' hold => ?_
  exact (noticesAbout_apply (h p hp)).trans hold

theorem RanIf.notifies {c : Prop} {x : Write} {w : Pending Write} (h : RanIf c x w)
    (hx : x.notifies type = false) : ∀ p ∈ w, p.2.notifies type = false := by
  cases h <;> simp [hx]

/-- A review of an application sends no notice of another type. -/
theorem reviewApplication_notifies {drift : Db → Db → Prop} {L : Set Key} {w : Pending Write}
    {id actor : Id} {target : AdvisorApplicationStatus} {reason : String}
    (h : Committed drift L w db (.reviewApplication id actor target reason))
    (happ : type ≠ .advisorApplicationApproved) (hrej : type ≠ .advisorApplicationRejected) :
    ∀ p ∈ w, p.2.notifies type = false := by
  obtain ⟨row, e₁, e₂, now, effects, -, -, -, -, -, rfl, happ', hrej'⟩ := h
  by_cases ht : target = .approved
  · obtain ⟨e₃, role, hrole, -, rfl⟩ := happ' ht
    cases hrole <;> simp [Write.notifies, approvedNotification, happ.symm]
  · rw [hrej' ht]
    simp [Write.notifies, rejectedNotification, hrej.symm]

end Chamneul
