import Chamneul.Rest.Forms
import Chamneul.Spec.Database

/-! `common`: what the endpoints share, that is the error envelope, the permissions and the
pagination. Texts of the framework are its English ones, which the settings ask for. -/

namespace Chamneul

open ReadCommitted ReadCommitted.Prog

/-- `error.details`: the field map of a validation error, or the reason of a conflict. -/
inductive ErrorDetails
  | fields (errors : Rest.Errors)
  | reason (reason : String)

structure ErrorBody where
  code : String
  message : String
  details : Option ErrorDetails

inductive Response (β : Type)
  | success (status : ℕ) (data : β)
  | failure (status : ℕ) (error : ErrorBody)
  /-- An exception the handler leaves to Django, which answers 500. -/
  | unhandled

/-- `_STATUS_TO_CODE`. -/
def statusToCode : ℕ → String
  | 400 => "INVALID_REQUEST"
  | 401 => "UNAUTHENTICATED"
  | 403 => "FORBIDDEN"
  | 404 => "NOT_FOUND"
  | 405 => "METHOD_NOT_ALLOWED"
  | 409 => "CONFLICT"
  | 412 => "PRECONDITION_FAILED"
  | 422 => "UNPROCESSABLE_ENTITY"
  | 429 => "RATE_LIMITED"
  | 500 => "INTERNAL_ERROR"
  | 502 => "BAD_GATEWAY"
  | _ => "ERROR"

section

variable {α β : Type}

def fail (status : ℕ) (message : String) (details : Option ErrorDetails) : Response β :=
  .failure status ⟨statusToCode status, message, details⟩

/-- `api_exception_handler`. `model` is the one `get_object_or_404` looked in. -/
def apiExceptionHandler (model : String) : APIException → Response β
  | .conflict detail reason => fail 409 detail ((reason.filter (· ≠ "")).map .reason)
  | .unprocessableEntity detail => fail 422 detail none
  | .preconditionFailed detail => fail 412 detail none
  | .permissionDenied detail => fail 403 detail none
  | .validationError field detail =>
    fail 400 "입력값을 확인해주세요." (some (.fields [(field, .messages [detail])]))
  | .notFound => fail 404 ("No " ++ model ++ " matches the given query.") none
  | .doesNotExist | .multipleObjectsReturned | .integrityError => .unhandled

/-- What a view returns, or the answer to what it raises. -/
def respond (model : String) (status : ℕ) (view : Service β) : Service (Response β) :=
  view.andThen fun
    | .ok data => pure (.success status data)
    | .error e => pure (apiExceptionHandler model e)

/-- A read that may raise. -/
def Service.read (q : Db → Except APIException α) : Service α := do
  let found ← query q
  .ret found

/-! `common.permissions` -/

/-- `IsAuthenticated`, for the user of the session. -/
def isAuthenticated (user : Id) (view : User → Service (Response β)) : Service (Response β) := do
  let found ← query fun db => (db.users.get? user).filter (·.isActive)
  match found with
  | none => pure (fail 401 "Authentication credentials were not provided." none)
  | some account => view account

/-- `IsActiveAdvisor`. -/
def isActiveAdvisor (account : User) (view : Service (Response β)) : Service (Response β) :=
  if account.activeRole = .advisor then view
  else pure (fail 403 "조언가 역할로 전환한 상태에서만 접근할 수 있습니다." none)

/-! Request data -/

/-- The outcome of a serializer's validation, which reads the request and nothing else. -/
abbrev Validated (α : Type) := Except Rest.Errors α

/-- `is_valid(raise_exception=True)`, then the view on `validated_data`. -/
def isValid (request : Validated α) (view : α → Service (Response β)) : Service (Response β) :=
  match request with
  | .ok data => view data
  | .error errors => pure (fail 400 "입력값을 확인해주세요." (some (.fields errors)))

/-- `if status_filter: queryset.filter(status=status_filter)`. -/
def statusMatches (filter : Option String) (value : String) : Bool :=
  filter.all fun s => decide (s = "" ∨ s = value)

/-- The UTC date of a time in microseconds. -/
def dateOf (t : Time) : ℕ := t / (24 * 60 * 60 * 1000000)

/-- `created_at__date__gte` and `created_at__date__lte`, each if sent. -/
def dateMatches (fromDate toDate : Option ℕ) (t : Time) : Bool :=
  fromDate.all (fun d => decide (d ≤ dateOf t)) && toDate.all fun d => decide (dateOf t ≤ d)

/-! `common.pagination` -/

/-- `?page=`, as far as it decides anything; an empty one counts as absent. -/
inductive PageParam
  | absent
  | last
  | number (n : ℤ)
  | malformed

/-- `size` is what `int` makes of `?size=`. -/
structure PageQuery where
  page : PageParam := .absent
  size : Option ℤ := none

/-- `get_page_size`, with `PAGE_SIZE` 20 and `max_page_size` 100. -/
def PageQuery.pageSize (q : PageQuery) : ℕ :=
  match q.size with
  | some n => if 0 < n then min n.toNat 100 else 20
  | none => 20

/-- `num_pages` of Django's paginator. -/
def numPages (count size : ℕ) : ℕ := (max 1 count + size - 1) / size

/-- `get_page_number` and `validate_number`. -/
def PageQuery.pageNumber (q : PageQuery) (pages : ℕ) : Option ℕ :=
  match q.page with
  | .absent => some 1
  | .last => some pages
  | .number n => if 1 ≤ n ∧ n ≤ pages then some n.toNat else none
  | .malformed => none

structure PageInfo where
  page : ℕ
  size : ℕ
  total : ℕ
  totalPages : ℕ

structure Page (α : Type) where
  items : List α
  pageInfo : PageInfo

/-- `paginate_queryset`. -/
def paginate (q : PageQuery) (rows : List α) : Option (Page α) :=
  let size := q.pageSize
  let pages := numPages rows.length size
  (q.pageNumber pages).map fun n =>
    ⟨(rows.drop ((n - 1) * size)).take size, ⟨n, size, rows.length, pages⟩⟩

/-- `get_paginated_response`, with the serializer as `items`. -/
def paginated (q : PageQuery) (rows : List α) (items : List α → List β) : Response (Page β) :=
  match paginate q rows with
  | some page => .success 200 ⟨items page.items, page.pageInfo⟩
  | none => fail 404 "Invalid page." none

end

end Chamneul
