import Chamneul.Spec.Http
import Chamneul.Spec.Notifications

/-! `notifications.views` and `notifications.serializers`. No serializer shows the
`actor_user` or the `payload`. -/

namespace Chamneul

open ReadCommitted ReadCommitted.Prog Service

/-- `NotificationListSerializer`. -/
structure NotificationListItem where
  notificationId : Id
  type : NotificationType
  title : String
  message : String
  targetUrl : String
  isRead : Bool
  createdAt : Time

def notificationListItem (n : Notification) : NotificationListItem :=
  ⟨n.id, n.type, n.title, n.message, n.targetUrl, n.isRead, n.createdAt⟩

/-- `NotificationDetailSerializer`: the list fields and `read_at`. -/
structure NotificationDetail extends NotificationListItem where
  readAt : Option Time

def notificationDetail (n : Notification) : NotificationDetail :=
  ⟨notificationListItem n, n.readAt⟩

/-- `NotificationReadResultSerializer`. -/
structure NotificationReadResult where
  notificationId : Id
  isRead : Bool
  readAt : Option Time

def notificationReadResult (n : Notification) : NotificationReadResult := ⟨n.id, n.isRead, n.readAt⟩

/-- `validated_data` of `NotificationQuerySerializer`. -/
structure NotificationQuery where
  isRead : Option Bool := none
  type : Option NotificationType := none

/-- The page with the `unread_count` added to its envelope. -/
structure NotificationPage extends Page NotificationListItem where
  unreadCount : ℕ

/-- GET (#39). -/
def NotificationListView.get (user : Id) (request : Validated NotificationQuery)
    (page : PageQuery) : Service (Response NotificationPage) :=
  isAuthenticated user fun _ => isValid request fun filters => query fun db =>
    match paginated page (db.listMyNotifications user filters.isRead filters.type)
      (List.map notificationListItem) with
    | .success status data => .success status ⟨data, db.unreadCount user⟩
    | .failure status error => .failure status error
    | .unhandled => .unhandled

/-- GET (#40). -/
def NotificationDetailView.get (user notificationId : Id) : Service (Response NotificationDetail) :=
  isAuthenticated user fun _ => respond "Notification" 200 do
    let found ← query fun db => db.ownNotification? user notificationId
    let notification ← getOr404 found
    pure (notificationDetail notification)

/-- PATCH (#41). -/
def NotificationReadView.patch (user notificationId : Id) :
    Service (Response NotificationReadResult) :=
  isAuthenticated user fun _ => respond "Notification" 200 do
    let notification ← markRead user notificationId
    pure (notificationReadResult notification)

end Chamneul
