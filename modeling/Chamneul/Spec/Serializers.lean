import Chamneul.Rest.Forms
import Chamneul.Spec.Api

/-! The serializers of request bodies. A `ModelSerializer` takes a field's options from its column,
and asks for no field that has a default; a text is trimmed. Bodies are JSON. -/

namespace Chamneul

open Rest Rest.Form Python ReadCommitted

/-! The stored values of the enumerations. -/

def ActiveRole.value : ActiveRole → String
  | .user => "USER"
  | .advisor => "ADVISOR"

def Role.value : Role → String
  | .user => "USER"
  | .advisor => "ADVISOR"
  | .admin => "ADMIN"

def ConcernType.value : ConcernType → String
  | .careerTransition => "career_transition"
  | .jobChange => "job_change"
  | .burnout => "burnout"
  | .startupFailure => "startup_failure"
  | .leadership => "leadership"
  | .relationship => "relationship"
  | .lifeDirection => "life_direction"
  | .majorLifeDecision => "major_life_decision"
  | .educationChoice => "education_choice"
  | .relocation => "relocation"
  | .financeMajorDecision => "finance_major_decision"

def ConcernType.all : List ConcernType :=
  [.careerTransition, .jobChange, .burnout, .startupFailure, .leadership, .relationship,
    .lifeDirection, .majorLifeDecision, .educationChoice, .relocation, .financeMajorDecision]

def PreferredAdvisorLane.value : PreferredAdvisorLane → String
  | .expert => "expert"
  | .senior => "senior"
  | .noPreference => "no_preference"

def TriageDecision.value : TriageDecision → String
  | .suitable => "suitable"
  | .needsMoreInfo => "needs_more_info"
  | .outOfScope => "out_of_scope"

def AssignmentPriority.value : AssignmentPriority → String
  | .low => "low"
  | .normal => "normal"
  | .high => "high"

def Decision.value : Decision → String
  | .approved => "approved"
  | .rejected => "rejected"

/-! The options of the columns. -/

namespace Column

def nickname : CharOptions := { minLength := 2, maxLength := some 20 }
def job : CharOptions := { maxLength := some 50, allowBlank := true }
def interest : CharOptions := { maxLength := some 200, allowBlank := true }
def profileImageUrl : CharOptions := { maxLength := some 500, allowBlank := true }
def displayName : CharOptions := { minLength := 2, maxLength := some 20 }
def careerNarrative : CharOptions := {}
def sampleAdviceResponse : CharOptions := { minLength := 200, maxLength := some 400 }
def rejectReason : CharOptions := { allowBlank := true }
def concernSummary : CharOptions := { maxLength := some 100 }
def decisionContext : CharOptions := { maxLength := some 4000, allowBlank := true }
def displayAlias : CharOptions := { maxLength := some 50, allowBlank := true }
def directionalGuidance : CharOptions := { maxLength := some 1500 }
def reflectiveQuestions : CharOptions := { allowBlank := true }
def considerations : CharOptions := { allowBlank := true }
def content : CharOptions := { allowBlank := true }
def memo : CharOptions := { allowBlank := true }

end Column

section

variable (F : Fields)

/-! accounts -/

/-- #8, always partial. -/
def UserUpdateSerializer.others : Form Service.ProfileData :=
  (fun job interest url => { job := job, interest := interest, profileImageUrl := url }) <$>
    optional "job" (F.char Column.job) <*>
    optional "interest" (F.char Column.interest) <*>
    optional "profile_image_url" (F.url Column.profileImageUrl)

/-- The errors of a body that is no object are not about the nickname. -/
def UserUpdateSerializer (body : Value) : UserUpdate where
  nickname :=
    match body with
    | .object items => optional "nickname" (F.char Column.nickname) items
    | _ => .ok none
  others := (UserUpdateSerializer.others F).run body

/-- #10 -/
def ActiveRoleSerializer : Form ActiveRole :=
  required "active_role" (F.member [.user, .advisor] ActiveRole.value)

/-- #42 -/
def RoleGrantRequestSerializer : Form RoleGrantData :=
  (fun role reason => { role := role, reason := reason.getD "" }) <$>
    required "role" (F.member Service.grantableRoles.attach fun role => role.1.value) <*>
    optional "reason" (F.char { allowBlank := true })

/-! advisors -/

inductive DomainCategory
  | planningStrategy | hrOrg | marketingPr | financeAccounting | itData | salesTrade | merchandising
  | rnd | medical | education | etc
  deriving DecidableEq

def DomainCategory.value : DomainCategory → String
  | .planningStrategy => "기획·전략"
  | .hrOrg => "인사·조직"
  | .marketingPr => "마케팅·PR"
  | .financeAccounting => "재무·회계"
  | .itData => "IT·데이터"
  | .salesTrade => "영업·무역"
  | .merchandising => "상품기획·MD"
  | .rnd => "R&D"
  | .medical => "의료"
  | .education => "교육"
  | .etc => "기타"

inductive ExperienceBand
  | band5To7 | band8To12 | band13Plus
  deriving DecidableEq

def ExperienceBand.value : ExperienceBand → String
  | .band5To7 => "5-7"
  | .band8To12 => "8-12"
  | .band13Plus => "13+"

inductive CurrentStatus
  | employed | freelancer | onLeave | resting | retired
  deriving DecidableEq

def CurrentStatus.value : CurrentStatus → String
  | .employed => "재직"
  | .freelancer => "프리랜서"
  | .onLeave => "휴직"
  | .resting => "휴식"
  | .retired => "은퇴"

inductive IntendedLane
  | expert | senior
  deriving DecidableEq

def IntendedLane.value : IntendedLane → String
  | .expert => "expert"
  | .senior => "senior"

/-- `validated_data` of `AdvisorApplicationCreateSerializer`. -/
structure AdvisorApplicationForm where
  displayName : String
  domainCategory : DomainCategory
  experienceBand : ExperienceBand
  currentStatus : CurrentStatus
  intendedLane : IntendedLane
  careerNarrative : String
  advisableConcernTypes : Option (List ConcernType)
  sampleAdviceResponse : String

/-- `validate_advisable_concern_types`, on a list that was sent. -/
def validateAdvisableConcernTypes (value : List ConcernType) : Checked (List ConcernType) :=
  if value = [] then .error (.messages ["최소 1개 이상 선택해야 합니다."]) else .ok value

/-- #11. The column of the list has a default, so that the field may be left out. -/
def AdvisorApplicationCreateSerializer : Form AdvisorApplicationForm :=
  AdvisorApplicationForm.mk <$>
    required "display_name" (F.char Column.displayName) <*>
    required "domain_category" (F.member [.planningStrategy, .hrOrg, .marketingPr,
      .financeAccounting, .itData, .salesTrade, .merchandising, .rnd, .medical, .education, .etc]
      DomainCategory.value) <*>
    required "experience_band" (F.member [.band5To7, .band8To12, .band13Plus]
      ExperienceBand.value) <*>
    required "current_status" (F.member [.employed, .freelancer, .onLeave, .resting, .retired]
      CurrentStatus.value) <*>
    required "intended_lane" (F.member [.expert, .senior] IntendedLane.value) <*>
    required "career_narrative" (F.char Column.careerNarrative) <*>
    optional "advisable_concern_types" (fun v => do
      let value ← listOf false (F.member ConcernType.all ConcernType.value) v
      validateAdvisableConcernTypes value) <*>
    required "sample_advice_response" (F.char Column.sampleAdviceResponse)

/-- #15 -/
def AdvisorApplicationReviewSerializer : Form AdvisorApplicationReview :=
  (fun status reason => ⟨status.1, status.2, reason.getD ""⟩) <$>
    required "status" (F.member
      (List.attach [.reviewing, .approved, .rejected]) fun status => status.1.value) <*>
    optional "reject_reason" (F.char Column.rejectReason)

/-! concerns -/

/-- The secondary types: at most two (`size=2`). -/
def concernTypeSecondaryField (v : Value) : Checked (List ConcernType) := do
  let types ← listOf true (F.member ConcernType.all ConcernType.value) v
  if 2 < types.length then
    throw (.messages
      ["List contains " ++ toString types.length ++ " items, it should contain no more than 2."])
  pure types

/-- #16 -/
def ConcernCreateSerializer : Form ConcernFields :=
  (fun summary type secondary lane context displayAlias anonymous =>
    { concernSummary := summary, concernType := type, concernTypeSecondary := secondary.getD []
      preferredAdvisorLane := lane.getD .noPreference, decisionContext := context.getD ""
      displayAlias := displayAlias.getD "", isAnonymous := anonymous.getD true }) <$>
    required "concern_summary" (F.char Column.concernSummary) <*>
    required "concern_type" (F.member ConcernType.all ConcernType.value) <*>
    optional "concern_type_secondary" (concernTypeSecondaryField F) <*>
    optional "preferred_advisor_lane"
      (F.member [.expert, .senior, .noPreference] PreferredAdvisorLane.value) <*>
    optional "decision_context" (F.char Column.decisionContext) <*>
    optional "display_alias" (F.char Column.displayAlias) <*>
    optional "is_anonymous" F.boolean

/-- #47: the same fields, partial. -/
def ConcernUpdateSerializer : Form ConcernEdit :=
  ConcernEdit.mk <$>
    optional "concern_summary" (F.char Column.concernSummary) <*>
    optional "concern_type" (F.member ConcernType.all ConcernType.value) <*>
    optional "concern_type_secondary" (concernTypeSecondaryField F) <*>
    optional "preferred_advisor_lane"
      (F.member [.expert, .senior, .noPreference] PreferredAdvisorLane.value) <*>
    optional "decision_context" (F.char Column.decisionContext) <*>
    optional "display_alias" (F.char Column.displayAlias) <*>
    optional "is_anonymous" F.boolean

/-- #24. The rationale is stored and read by nothing here. -/
def AssignmentCreateSerializer : Form AssignData :=
  (fun advisor decision _ priority =>
    { advisorUserId := advisor, triageDecision := decision, priority := priority.getD .normal }) <$>
    required "advisor_user_id" F.uuid <*>
    required "triage_decision"
      (F.member [.suitable, .needsMoreInfo, .outOfScope] TriageDecision.value) <*>
    optional "match_rationale" F.json <*>
    optional "priority" (F.member [.low, .normal, .high] AssignmentPriority.value)

/-! advice -/

/-- #28 -/
def AdviceCreateSerializer : Form AdviceCreateData :=
  (fun guidance questions considerations outOfScope submit =>
    { body := { directionalGuidance := guidance, reflectiveQuestions := questions.getD ""
                considerations := considerations.getD "", outOfScopeFlag := outOfScope.getD false }
      submit := submit.getD true }) <$>
    required "directional_guidance" (F.char Column.directionalGuidance) <*>
    optional "reflective_questions" (F.char Column.reflectiveQuestions) <*>
    optional "considerations" (F.char Column.considerations) <*>
    optional "out_of_scope_flag" F.boolean <*>
    optional "submit" F.boolean

/-- #29, always partial. `submit` is the column `is_submitted`. -/
def AdviceUpdateSerializer : Form AdviceEdit :=
  AdviceEdit.mk <$>
    optional "directional_guidance" (F.char Column.directionalGuidance) <*>
    optional "reflective_questions" (F.char Column.reflectiveQuestions) <*>
    optional "considerations" (F.char Column.considerations) <*>
    optional "out_of_scope_flag" F.boolean <*>
    optional "submit" F.boolean

/-- `IntegerField(min_value=1)`. -/
def expectedVersionField (v : Value) : Checked { n : ℕ // 1 ≤ n } := do
  let n ← F.integer (some 1) none v
  if h : 1 ≤ n.toNat then pure ⟨n.toNat, h⟩ else throw (.messages [])

/-- #33 -/
def AdviceReviewSerializer : Form AdviceReviewData :=
  (fun decision reason version => ⟨decision, reason.getD "", version.1, version.2⟩) <$>
    required "decision" (F.member [.approved, .rejected] Decision.value) <*>
    optional "reason" (F.char Column.rejectReason) <*>
    required "expected_version" (expectedVersionField F)

/-- `score`: from 1 to 5. -/
def scoreField (v : Value) : Checked ℕ := (F.integer (some 1) (some 5) v).map Int.toNat

/-- #34 -/
def FeedbackCreateSerializer : Form FeedbackData :=
  (fun score content => { score := score, content := content.getD "" }) <$>
    required "score" (scoreField F) <*>
    optional "content" (F.char Column.content)

/-- #38 -/
def AdminFeedbackTransitionSerializer : Form AdminFeedbackTransition :=
  AdminFeedbackTransition.mk <$>
    required "status" (F.member [.submitted, .reviewed, .archived] FeedbackStatus.value) <*>
    optional "memo" (F.char Column.memo)

end

/-! What two of the views answer, as JSON. -/

/-- How identifiers and times are written. -/
structure Rendering where
  id : Id → Value
  time : Time → Value

section

variable (R : Rendering)

def Db.ApprovedAdvice.json (a : Db.ApprovedAdvice) : Value :=
  record [("advice_id", R.id a.adviceId), ("advisor_display_name", text a.advisorDisplayName),
    ("created_at", R.time a.createdAt)]

/-- #18 -/
def ConcernDetailSerializer (d : ConcernDetail) : Value :=
  record [("concern_id", R.id d.concernId), ("concern_summary", text d.concernSummary),
    ("concern_type", text d.concernType.value),
    ("concern_type_secondary", .array (d.concernTypeSecondary.map fun type => text type.value)),
    ("preferred_advisor_lane", text d.preferredAdvisorLane.value),
    ("decision_context", text d.decisionContext), ("is_anonymous", .bool d.isAnonymous),
    ("status", text d.status.value), ("created_at", R.time d.createdAt),
    ("approved_advices", .array (d.approvedAdvices.map fun a => a.json R))]

/-- #27. The reason of a rejection is for the author and the admins. -/
def AdviceDetailSerializer (d : AdviceDetail) : Value :=
  record ([("advice_id", R.id d.adviceId), ("concern_id", R.id d.concernId),
    ("advisor_display_name", text d.advisorDisplayName),
    ("directional_guidance", text d.body.directionalGuidance),
    ("reflective_questions", text d.body.reflectiveQuestions),
    ("considerations", text d.body.considerations),
    ("out_of_scope_flag", .bool d.body.outOfScopeFlag), ("status", text d.status.value),
    ("version", .int d.version), ("is_submitted", .bool d.isSubmitted),
    ("created_at", R.time d.createdAt), ("updated_at", R.time d.updatedAt)] ++
    d.rejectReason.toList.map fun reason => ("reject_reason", text reason))

end

/-! What a client sends. -/

/-- The endpoints that take a body. -/
inductive Endpoint
  | updateMe
  | switchRole
  | apply
  | reviewApplication (applicationId : Id)
  | createConcern
  | editConcern (concernId : Id)
  | assign (concernId : Id)
  | createAdvice (concernId : Id)
  | updateAdvice (adviceId : Id)
  | reviewAdvice (adviceId : Id)
  | rate (adviceId : Id)
  | transitionFeedback (feedbackId : Id)
  | grantRole (userId : Id)

/-- The request that a body makes. -/
def Endpoint.request (F : Fields) (body : Value) : Endpoint → Request
  | .updateMe => .updateMe (UserUpdateSerializer F body)
  | .switchRole => .switchRole ((ActiveRoleSerializer F).run body)
  | .apply => .apply (((AdvisorApplicationCreateSerializer F).run body).map (·.displayName))
  | .reviewApplication id =>
    .reviewApplication id ((AdvisorApplicationReviewSerializer F).run body)
  | .createConcern => .createConcern ((ConcernCreateSerializer F).run body)
  | .editConcern id => .editConcern id ((ConcernUpdateSerializer F).run body)
  | .assign id => .assign id ((AssignmentCreateSerializer F).run body)
  | .createAdvice id => .createAdvice id ((AdviceCreateSerializer F).run body)
  | .updateAdvice id => .updateAdvice id ((AdviceUpdateSerializer F).run body)
  | .reviewAdvice id => .reviewAdvice id ((AdviceReviewSerializer F).run body)
  | .rate id => .rate id ((FeedbackCreateSerializer F).run body)
  | .transitionFeedback id =>
    .transitionFeedback id ((AdminFeedbackTransitionSerializer F).run body)
  | .grantRole id => .grantRole id ((RoleGrantRequestSerializer F).run body)

/-- The request carries no body. -/
def Request.bare : Request → Bool
  | .updateMe .. | .switchRole .. | .apply .. | .reviewApplication .. | .createConcern ..
  | .editConcern .. | .assign .. | .createAdvice .. | .updateAdvice .. | .reviewAdvice ..
  | .rate .. | .transitionFeedback .. | .grantRole .. => false
  | _ => true

def Arrival.bare : Arrival → Bool
  | .request _ r => r.bare
  | _ => true

/-- What a client sends: a body to an endpoint, or an arrival that needs none. -/
inductive Submission
  | send (user : Id) (endpoint : Endpoint) (body : Value)
  | bare (a : Arrival) (h : a.bare = true)

def Submission.arrival (F : Fields) : Submission → Arrival
  | .send user endpoint body => .request user (endpoint.request F body)
  | .bare a _ => a

/-- The API with its serializers. -/
abbrev site (F : Fields) (icontains : String → String → Bool) : System Db Key Write APIException :=
  ⟨Submission, fun s => (s.arrival F).Res, fun s => serve icontains (s.arrival F)⟩

end Chamneul
