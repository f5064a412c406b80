import Chamneul.Spec.Database
import Mathlib.Data.List.Sort

/-! `notifications.services`: a user's own notifications. -/

namespace Chamneul

open ReadCommitted ReadCommitted.Prog

/-- `Notification.objects.filter(recipient=user)`, one row by primary key. -/
def Db.ownNotification? (db : Db) (user id : Id) : Option Notification :=
  (db.notifications.get? id).filter fun n => decide (n.recipient = user)

/-- `order_by("-created_at", "-id")` puts `a` before `b`. -/
def Notification.newer (a b : Notification) : Prop :=
  b.createdAt < a.createdAt ∨ a.createdAt = b.createdAt ∧ b.id ≤ a.id

instance : DecidableRel Notification.newer := fun a b =>
  inferInstanceAs (Decidable (b.createdAt < a.createdAt ∨ a.createdAt = b.createdAt ∧ b.id ≤ a.id))

namespace Db

def listMyNotifications (db : Db) (user : Id) (isRead : Option Bool)
    (notificationType : Option NotificationType) : List Notification :=
  ((db.notifications.rows.filter fun n => decide (n.recipient = user)).insertionSort
    Notification.newer).filter fun n =>
      isRead.all (fun b => decide (n.isRead = b)) && notificationType.all fun t => decide (n.type = t)

/-- The filters of the list do not apply to it. -/
def unreadCount (db : Db) (user : Id) : ℕ :=
  (db.notifications.rows.filter fun n => decide (n.recipient = user ∧ n.isRead = false)).length

end Db

namespace Service

/-- `read_at` is written on the first read only. -/
def markRead (user notificationId : Id) : Service Notification :=
  atomic do
    let notification ← getForUpdate (.notification notificationId) fun db =>
      db.ownNotification? user notificationId
    if notification.isRead then pure notification
    else do
      let now ← time
      write (.readNotification notification.id now) fun _ _ => ()
      pure (notification.marked now)

end Service

end Chamneul
