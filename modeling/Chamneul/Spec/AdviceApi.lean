import Chamneul.Spec.Advice
import Chamneul.Spec.AdviceViews
import Chamneul.Spec.Http

/-! `advice.views` and `advice.serializers`: the advisor's and the owner's endpoints. -/

namespace Chamneul

open ReadCommitted ReadCommitted.Prog Service

/-! The advisor's side. -/

/-- `validated_data` of `AdviceCreateSerializer`. -/
structure AdviceCreateData where
  body : AdviceBody
  submit : Bool := true

/-- `AdviceCreateResultSerializer`. -/
structure AdviceCreateResult where
  adviceId : Id
  concernId : Id
  advisorUserId : Id
  status : AdviceStatus
  version : ℕ
  createdAt : Time

def adviceCreateResult (a : Advice) : AdviceCreateResult :=
  ⟨a.id, a.concern, a.advisor, a.status, a.version, a.createdAt⟩

/-- POST (#28). -/
def AdviceCreateView.post (advisor concernId : Id) (request : Validated AdviceCreateData) :
    Service (Response AdviceCreateResult) :=
  isAuthenticated advisor fun account => isActiveAdvisor account <| isValid request fun data =>
    respond "Concern" 201 do
      let advice ← createAdvice concernId advisor data.body data.submit
      pure (adviceCreateResult advice)

/-- `AdviceUpdateResultSerializer`. -/
structure AdviceUpdateResult where
  adviceId : Id
  status : AdviceStatus
  version : ℕ
  updatedAt : Time

def adviceUpdateResult (a : Advice) : AdviceUpdateResult := ⟨a.id, a.status, a.version, a.updatedAt⟩

/-- PATCH (#29). -/
def AdviceDetailView.patch (advisor adviceId : Id) (request : Validated AdviceEdit) :
    Service (Response AdviceUpdateResult) :=
  isAuthenticated advisor fun account => isActiveAdvisor account <| isValid request fun data =>
    respond "Advice" 200 do
      let advice ← updateAdvice adviceId advisor data
      pure (adviceUpdateResult advice)

/-- DELETE (#30). -/
def AdviceDetailView.delete (advisor adviceId : Id) : Service (Response Unit) :=
  isAuthenticated advisor fun account => isActiveAdvisor account <|
    respond "Advice" 204 (deleteAdvice adviceId advisor)

/-- `validated_data` of `AdviceWrittenQuerySerializer`. -/
structure AdviceWrittenQuery where
  concernId : Option Id := none
  status : Option AdviceStatus := none
  fromDate : Option ℕ := none
  toDate : Option ℕ := none

def AdviceWrittenQuery.selects (q : AdviceWrittenQuery) (a : Advice) : Bool :=
  q.concernId.all (fun c => decide (a.concern = c)) &&
    q.status.all (fun s => decide (a.status = s)) && dateMatches q.fromDate q.toDate a.createdAt

/-- `AdviceWrittenListSerializer`. -/
structure AdviceWrittenItem where
  adviceId : Id
  concernId : Id
  status : AdviceStatus
  version : ℕ
  isSubmitted : Bool
  createdAt : Time
  updatedAt : Time

def adviceWrittenItem (a : Advice) : AdviceWrittenItem :=
  ⟨a.id, a.concern, a.status, a.version, a.isSubmitted, a.createdAt, a.updatedAt⟩

/-- GET (#31). -/
def AdvicesWrittenView.get (advisor : Id) (request : Validated AdviceWrittenQuery)
    (page : PageQuery) : Service (Response (Page AdviceWrittenItem)) :=
  isAuthenticated advisor fun account => isActiveAdvisor account <| isValid request fun filters =>
    query fun db => paginated page ((db.listAdvicesWrittenBy advisor).filter filters.selects)
      (List.map adviceWrittenItem)

/-! One advice, for its author, the concern's owner and the admins. -/

/-- `AdviceDetailSerializer`, and `AdviceDetailWithReasonSerializer` with its last field. -/
structure AdviceDetail where
  adviceId : Id
  concernId : Id
  advisorDisplayName : String
  body : AdviceBody
  status : AdviceStatus
  version : ℕ
  isSubmitted : Bool
  createdAt : Time
  updatedAt : Time
  rejectReason : Option String

def adviceDetail (db : Db) (a : Advice) (viewer : Viewer) : AdviceDetail where
  adviceId := a.id
  concernId := a.concern
  advisorDisplayName := db.displayName (db.displayNamesByAdvisor [a.advisor]) a.advisor
  body := a.body
  status := a.status
  version := a.version
  isSubmitted := a.isSubmitted
  createdAt := a.createdAt
  updatedAt := a.updatedAt
  rejectReason := if viewer = .author ∨ viewer = .admin then some a.rejectReason else none

/-- GET (#27). -/
def AdviceDetailView.get (user adviceId : Id) : Service (Response AdviceDetail) :=
  isAuthenticated user fun _ => respond "Advice" 200 do
    let (advice, viewer) ← read fun db => db.getVisibleAdvice adviceId user
    query fun db => adviceDetail db advice viewer

/-! The owner's side. -/

/-- `validated_data` of `ReceivedAdviceQuerySerializer`. -/
structure ReceivedAdviceQuery where
  keyword : Option String := none
  fromDate : Option ℕ := none
  toDate : Option ℕ := none

/-- `icontains` is the database's match of a keyword, whatever its case. -/
def ReceivedAdviceQuery.selects (icontains : String → String → Bool) (q : ReceivedAdviceQuery)
    (row : Db.ReceivedAdvice) : Bool :=
  q.keyword.all (fun k => decide (k = "") || icontains row.concern.fields.concernSummary k) &&
    dateMatches q.fromDate q.toDate row.advice.createdAt

/-- `ReceivedAdviceListSerializer`. -/
structure ReceivedAdviceItem where
  adviceId : Id
  concernId : Id
  concernSummary : String
  advisorDisplayName : String
  createdAt : Time
  isFeedbackSubmitted : Bool

/-- The page's rows, with the display names resolved for all of them at once. -/
def receivedAdviceItems (db : Db) (rows : List Db.ReceivedAdvice) : List ReceivedAdviceItem :=
  let names := db.displayNamesByAdvisor (rows.map (·.advice.advisor))
  rows.map fun row =>
    ⟨row.advice.id, row.advice.concern, row.concern.fields.concernSummary,
      db.displayName names row.advice.advisor, row.advice.createdAt, row.isFeedbackSubmitted⟩

/-- GET (#26). -/
def ReceivedAdviceListView.get (icontains : String → String → Bool) (user : Id)
    (request : Validated ReceivedAdviceQuery) (page : PageQuery) :
    Service (Response (Page ReceivedAdviceItem)) :=
  isAuthenticated user fun _ => isValid request fun filters => query fun db =>
    paginated page ((db.listReceivedAdvices user).filter (filters.selects icontains))
      (receivedAdviceItems db)

/-- `FeedbackCreateResultSerializer`. -/
structure FeedbackCreateResult where
  feedbackId : Id
  adviceId : Id
  status : FeedbackStatus
  createdAt : Time

def feedbackCreateResult (f : Feedback) : FeedbackCreateResult := ⟨f.id, f.advice, f.status, f.createdAt⟩

/-- POST (#34). -/
def FeedbackCreateView.post (user adviceId : Id) (request : Validated FeedbackData) :
    Service (Response FeedbackCreateResult) :=
  isAuthenticated user fun _ => isValid request fun data => respond "Advice" 201 do
    let feedback ← createFeedback adviceId user data
    pure (feedbackCreateResult feedback)

end Chamneul
