import Chamneul.Proofs.OneApplication
import Chamneul.Proofs.RoleRefusals

/-! Applying again. The index on the name looks at every active application, the
applicant's own approved one included, which stays APPROVED when the role is revoked. -/

namespace Chamneul

open ReadCommitted ReadCommitted.Prog Service

def nameConflict : APIException := .conflict "이미 사용 중인 활동명입니다." none

def Db.nameTaken (db : Db) (displayName : String) : Bool :=
  db.applications.any fun b => decide (b.displayName = displayName) && b.status.isActive

theorem nameTaken_eq_true {db : Db} {displayName : String} : db.nameTaken displayName = true ↔
    ∃ a ∈ db.applications, a.displayName = displayName ∧ a.status.isActive = true := by
  simp [Db.nameTaken, Table.any_iff]

/-- Of the applicant's own applications only an approved one is active and does not block. -/
theorem approved_of_blocks {db : Db} {applicant : Id} {holdsAdvisor : Bool}
    (hfree : db.blocks applicant holdsAdvisor = false) {a : AdvisorApplication}
    (ha : a ∈ db.applications) (hown : a.applicant = applicant) (hactive : a.status.isActive = true) :
    a.status = .approved ∧ holdsAdvisor = false := by
  have hrow := (Table.any_eq_false_iff _ _).mp hfree a ha
  simpa [hown, hactive, and_comm] using hrow

/-- What comes of an application under `displayName` that nothing in progress stops. -/
structure NameRule (applicant : Id) (displayName : String) (σ : World Db)
    (out : Except APIException AdvisorApplication × World Db) : Prop where
  refused : out.1 = .error nameConflict ↔ ∃ a ∈ σ.db.applications, a.displayName = displayName ∧
    a.status.isActive = true ∧ (a.applicant ≠ applicant ∨ a.status = .approved)
  unchanged : out.1 = .error nameConflict → out.2.db = σ.db
  filed : out.1 ≠ .error nameConflict → ∃ a, out.1 = .ok a ∧ a.status = .pending ∧
    a.applicant = applicant ∧ a.displayName = displayName ∧ σ.db.applications.get? a.id = none ∧
    out.2.db = { σ.db with applications := σ.db.applications.insert a }

section

variable {applicant : Id} {displayName : String} {draw : ℕ → ℕ} {σ : World Db}

/-- What is left of the call once it has found nothing in progress. -/
theorem createApplication_alone (draw : ℕ → ℕ) (displayName : String)
    (hfree : σ.db.blocks applicant (σ.db.hasRole applicant .advisor) = false) :
    (createApplication applicant displayName).alone draw [] σ =
      (applicationInsert applicant displayName).alone draw [] σ.tick.tick := by
  rw [createApplication, alone_bind_ok (alone_query ..), alone_bind_ok (alone_query ..),
    alone_bind_ok (alone_raiseIf_of_not (by simpa using hfree) _)]
  rfl

theorem applicationInsert_taken (draw : ℕ → ℕ) (applicant : Id)
    (htaken : σ.db.nameTaken displayName = true) :
    (applicationInsert applicant displayName).alone draw [] σ =
      (.error nameConflict, [], σ.tick.tick) := by
  have hv : violates (σ.view []) ⟨σ.now, draw σ.now⟩ (.insertApplication
      { applicant := applicant, displayName := displayName }) = true := by
    simp only [violates, Bool.or_eq_true, Bool.and_eq_true]
    exact Or.inr ⟨rfl, htaken⟩
  rw [applicationInsert, alone_handle_error (alone_atomic_error (alone_write_refused hv _))]
  rfl

theorem applicationInsert_free (applicant : Id)
    (hdraw : σ.db.applications.get? (draw σ.now) = none)
    (hfree : σ.db.nameTaken displayName = false) :
    ∃ a σ', (applicationInsert applicant displayName).alone draw [] σ = (.ok a, [], σ') ∧
      a.status = .pending ∧ a.applicant = applicant ∧ a.displayName = displayName ∧
      σ.db.applications.get? a.id = none ∧
      σ'.db = { σ.db with applications := σ.db.applications.insert a } := by
  have hv : violates (σ.view []) ⟨σ.now, draw σ.now⟩ (.insertApplication
      { applicant := applicant, displayName := displayName }) = false := by
    simp only [violates, Bool.or_eq_false_iff, World.view_nil, hdraw, Option.isSome_none, true_and,
      Bool.and_eq_false_iff]
    exact Or.inr hfree
  exact ⟨_, _, alone_handle_ok (alone_atomic_ok (alone_write hv _)) _, rfl, rfl, rfl, hdraw, rfl⟩

theorem createApplication_nameRule (applicant : Id) (displayName : String)
    (hdraw : ∀ now, σ.db.applications.get? (draw now) = none)
    (hfree : σ.db.blocks applicant (σ.db.hasRole applicant .advisor) = false) :
    NameRule applicant displayName σ ((createApplication applicant displayName).exec draw [] σ) := by
  have hcall := createApplication_alone draw displayName hfree
  cases htaken : σ.db.nameTaken displayName with
  | true =>
    have hout := exec_of_alone (hcall.trans (applicationInsert_taken draw applicant htaken))
    obtain ⟨a, ha, hname, hactive⟩ := nameTaken_eq_true.mp htaken
    rw [hout]
    refine ⟨iff_of_true rfl ⟨a, ha, hname, hactive, ?_⟩, fun _ => rfl, fun h => absurd rfl h⟩
    by_cases hown : a.applicant = applicant
    · exact Or.inr (approved_of_blocks hfree ha hown hactive).1
    · exact Or.inl hown
  | false =>
    obtain ⟨a, σ', halone, hfiled⟩ :=
      applicationInsert_free (σ := σ.tick.tick) applicant (hdraw _) htaken
    have hnone : ¬ ∃ a ∈ σ.db.applications, a.displayName = displayName ∧
        a.status.isActive = true ∧ (a.applicant ≠ applicant ∨ a.status = .approved) := by
      rintro ⟨b, hb, hname, hactive, -⟩
      have : σ.db.nameTaken displayName = true := nameTaken_eq_true.mpr ⟨b, hb, hname, hactive⟩
      rw [htaken] at this
      cases this
    rw [exec_of_alone (hcall.trans halone)]
    exact ⟨iff_of_false nofun hnone, nofun, fun _ => ⟨a, rfl, hfiled⟩⟩

end

/-- An approval is final for the application, whatever becomes of the role. -/
theorem ApplicationsStep.approved {db db' : Db} {call : Call} (h : ApplicationsStep db call db')
    {a : AdvisorApplication} (ha : a ∈ db.applications) (happroved : a.status = .approved) :
    a ∈ db'.applications := by
  cases h with
  | filed new hcall hrows =>
    rw [hrows]
    exact Table.mem_insert_of_mem ha
  | reviewed row set hrow hset hrows =>
    have hid : a.id ≠ row.id := by
      intro hid
      obtain rfl : row = a :=
        Option.some.inj (hrow.symm.trans (Table.get?_eq_some.mpr ⟨ha, hid⟩))
      rw [happroved] at hset
      cases hset
    rw [hrows, Table.mem_update]
    exact ⟨a, ha, (if_neg hid).symm⟩
  | same hrows =>
    rw [hrows]
    exact ha

theorem applications_commits {drift : Db → Db → Prop} {call : Call} {db db' : Db}
    (h : (commits drift call).Commits db db') : ApplicationsStep db call db' := by
  obtain ⟨L, w, σ, rfl, hcom, rfl⟩ := h
  exact applications_committed hcom

theorem approved_reachable {σ₀ : World Db} {c : Config system}
    (hr : Config.Reachable (Config.idle σ₀) c) {a : AdvisorApplication}
    (ha : a ∈ σ₀.db.applications) (happroved : a.status = .approved) :
    a ∈ c.world.db.applications := by
  refine discipline.invariant (J := fun db => a ∈ db.applications) ?_ ha hr
  exact fun call db db' hc hmem => (applications_commits hc).approved hmem happroved

/-- The name is refused if and only if an active application carries it, the applicant's own
approved one included, and the name of an application once approved is refused for good. -/
theorem reapplication {σ₀ : World Db} {c : Config system} (applicant : Id) (displayName : String)
    (draw : ℕ → ℕ) (hr : Config.Reachable (Config.idle σ₀) c)
    (hdraw : ∀ now, c.world.db.applications.get? (draw now) = none)
    (hfree : c.world.db.blocks applicant (c.world.db.hasRole applicant .advisor) = false) :
    NameRule applicant displayName c.world
      ((createApplication applicant displayName).exec draw [] c.world) ∧
    ∀ a ∈ σ₀.db.applications, a.status = .approved → a.displayName = displayName →
      ((createApplication applicant displayName).exec draw [] c.world).1 = .error nameConflict := by
  have hrule := createApplication_nameRule applicant displayName hdraw hfree
  refine ⟨hrule, fun a ha happroved hname => ?_⟩
  refine hrule.refused.mpr ⟨a, approved_reachable hr ha happroved, hname, by rw [happroved]; rfl, ?_⟩
  exact Or.inr happroved

def applicantOnly : World Db :=
  ⟨{ users := Table.empty.insert { id := 1, nickname := "a" } }, 0⟩

/-- User 1 applies as "b", is taken on, and is let go. -/
def takenOnAndLetGo : List Call :=
  [.createApplication 1 "b", .reviewApplication 2 9 .reviewing "",
    .reviewApplication 2 9 .approved "", .revokeRole 1 .advisor 9 ""]

def Call.ofApplications : Call → Bool
  | .createApplication .. | .reviewApplication .. | .grantRole .. | .revokeRole .. => true
  | _ => false

/-- Nobody else has applied, and the name is refused to the one who had it. -/
theorem former_name_refused :
    Serial system (fun _ call => call.ofApplications = true) applicantOnly
      (system.serve id takenOnAndLetGo applicantOnly) ∧
    (let σ := system.serve id takenOnAndLetGo applicantOnly
    σ.db.hasRole 1 .advisor = false ∧ σ.db.blocks 1 (σ.db.hasRole 1 .advisor) = false ∧
      (∀ a ∈ σ.db.applications.rows, a.applicant = 1) ∧
      σ.db.applications.rows.map (·.status) = [.approved] ∧
      ((createApplication 1 "b").exec id [] σ).1 = .error nameConflict) := by
  refine ⟨Serial.refl.serve id fun _ => by decide, ?_⟩
  decide +kernel

/-- Any other name is not. -/
theorem reapplication_otherName :
    let σ := system.serve id takenOnAndLetGo applicantOnly
    NameRule 1 "c" σ ((createApplication 1 "c").exec (fun _ => 50) [] σ) ∧
      (∀ a ∈ σ.db.applications.rows, a.displayName ≠ "c") := by
  let c : Config system := .idle (system.serve id takenOnAndLetGo applicantOnly)
  have hhere : Config.Reachable c c := .refl
  exact ⟨(reapplication 1 "c" (fun _ => 50) hhere (fun _ => by decide +kernel) (by decide +kernel)).1,
    by decide +kernel⟩

end Chamneul
