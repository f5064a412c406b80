import Chamneul.Spec.Models
import Mathlib.Logic.Function.Basic

/-! One advice and the log of its earlier bodies. An author revises it until it is
reviewed; a review settles it for good. -/

namespace Chamneul

/-- `log v` is the body kept under version `v`. -/
structure Dossier where
  row : Advice
  log : ℕ → Option AdviceBody

/-- The status of an advice moves along these four edges. -/
inductive AdviceStatus.Moves : AdviceStatus → AdviceStatus → Prop
  | approve : Moves .pending .approved
  | reject : Moves .pending .rejected
  | withdraw : Moves .pending .deleted
  | discard : Moves .rejected .deleted

namespace Dossier

/-- Nobody has decided on it. -/
def Open (d : Dossier) : Prop := d.row.status = .pending ∨ d.row.status = .reviewing

/-- What a review may decide, given the row's own `reject_reason`. -/
def Decides (old : String) (status : AdviceStatus) (reason : String) : Prop :=
  (status = .approved ∧ reason = old) ∨ (status = .rejected ∧ strip reason ≠ "")

/-- The steps of a dossier, each with the columns it sets. -/
inductive Step (d : Dossier) : Dossier → Prop
  | stay : Step d d
  | touch (isSubmitted : Bool) (updatedAt : Time) (ho : d.Open) :
      Step d { d with row := { d.row with isSubmitted := isSubmitted, updatedAt := updatedAt } }
  | revise (body : AdviceBody) (isSubmitted : Bool) (updatedAt : Time) (ho : d.Open)
      (hne : body ≠ d.row.body) :
      Step d
        { row :=
            { d.row with
              body := body
              version := d.row.version + 1
              isSubmitted := isSubmitted
              updatedAt := updatedAt }
          log := Function.update d.log d.row.version (some d.row.body) }
  | review (status : AdviceStatus) (reviewedBy : Id) (reviewedAt updatedAt : Time) (reason : String)
      (ho : d.Open) (hsub : d.row.isSubmitted = true)
      (hdec : Decides d.row.rejectReason status reason) :
      Step d
        { d with
          row :=
            { d.row with
              status := status
              reviewedBy := some reviewedBy
              reviewedAt := some reviewedAt
              rejectReason := reason
              updatedAt := updatedAt } }
  | withdraw (ho : d.Open ∨ d.row.status = .rejected) :
      Step d { d with row := { d.row with status := .deleted } }

/-- A new advice, its log empty. -/
structure New (d : Dossier) : Prop where
  status : d.row.status = .pending
  unreviewed : d.row.reviewedBy = none ∧ d.row.reviewedAt = none ∧ d.row.rejectReason = ""
  version : d.row.version = 1
  log : ∀ v, d.log v = none

end Dossier

/-- The status and the review columns of an advice agree. -/
structure AdviceFits (a : Advice) : Prop where
  settled : a.status ≠ .reviewing
  pending : a.status = .pending →
    a.reviewedBy = none ∧ a.reviewedAt = none ∧ a.rejectReason = ""
  reviewed : a.status = .approved ∨ a.status = .rejected →
    a.isSubmitted = true ∧ a.reviewedBy ≠ none ∧ a.reviewedAt ≠ none
  rejected : a.status = .rejected → strip a.rejectReason ≠ ""
  approved : a.status = .approved → a.rejectReason = ""

/-- `a'` has the content and the review of `a`. -/
structure SameContent (a a' : Advice) : Prop where
  body : a'.body = a.body
  version : a'.version = a.version
  isSubmitted : a'.isSubmitted = a.isSubmitted
  reviewedBy : a'.reviewedBy = a.reviewedBy
  reviewedAt : a'.reviewedAt = a.reviewedAt
  rejectReason : a'.rejectReason = a.rejectReason

theorem SameContent.trans {a a' a'' : Advice} (h : SameContent a a') (h' : SameContent a' a'') :
    SameContent a a'' where
  body := h'.body.trans h.body
  version := h'.version.trans h.version
  isSubmitted := h'.isSubmitted.trans h.isSubmitted
  reviewedBy := h'.reviewedBy.trans h.reviewedBy
  reviewedAt := h'.reviewedAt.trans h.reviewedAt
  rejectReason := h'.rejectReason.trans h.rejectReason

namespace Dossier

variable {d d' : Dossier}

theorem New.fits (h : d.New) : AdviceFits d.row where
  settled := by rw [h.status]; simp
  pending _ := h.unreviewed
  reviewed := by rw [h.status]; simp
  rejected := by rw [h.status]; simp
  approved := by rw [h.status]; simp

theorem pending_of_open (hf : AdviceFits d.row) (ho : d.Open) : d.row.status = .pending :=
  ho.resolve_right hf.settled

theorem Step.fits (h : Step d d') (hf : AdviceFits d.row) : AdviceFits d'.row := by
  cases h with
  | stay => exact hf
  | touch isSubmitted updatedAt ho | revise body isSubmitted updatedAt ho hne =>
    have hp := pending_of_open hf ho
    exact ⟨hf.settled, hf.pending, by simp [hp], hf.rejected, hf.approved⟩
  | review status reviewedBy reviewedAt updatedAt reason ho hsub hdec =>
    obtain ⟨-, -, hblank⟩ := hf.pending (pending_of_open hf ho)
    rcases hdec with ⟨rfl, rfl⟩ | ⟨rfl, hr⟩
    · exact ⟨by simp, by simp, by simp [hsub], by simp, fun _ => hblank⟩
    · exact ⟨by simp, by simp, by simp [hsub], fun _ => hr, by simp⟩
  | withdraw ho => constructor <;> simp

theorem Step.moves (h : Step d d') (hf : AdviceFits d.row) :
    d'.row.status = d.row.status ∨ d.row.status.Moves d'.row.status := by
  cases h with
  | stay | touch _ _ _ | revise _ _ _ _ _ => exact Or.inl rfl
  | review status reviewedBy reviewedAt updatedAt reason ho hsub hdec =>
    right
    rw [pending_of_open hf ho]
    rcases hdec with ⟨rfl, -⟩ | ⟨rfl, -⟩
    · exact .approve
    · exact .reject
  | withdraw ho =>
    right
    rcases ho with ho | ho
    · rw [pending_of_open hf ho]
      exact .withdraw
    · rw [ho]
      exact .discard

/-- What has left PENDING stays as it is, but for being discarded. -/
theorem Step.frozen (h : Step d d') (hf : AdviceFits d.row) (hs : d.row.status ≠ .pending) :
    d'.row.status ≠ .pending ∧ SameContent d.row d'.row := by
  cases h with
  | stay => exact ⟨hs, ⟨rfl, rfl, rfl, rfl, rfl, rfl⟩⟩
  | touch _ _ ho | revise _ _ _ ho _ | review _ _ _ _ _ ho _ _ =>
    exact absurd (pending_of_open hf ho) hs
  | withdraw ho => exact ⟨by simp, ⟨rfl, rfl, rfl, rfl, rfl, rfl⟩⟩

/-- The body under version `v`: kept in the log, or current. -/
def bodyAt (d : Dossier) (v : ℕ) : Option AdviceBody :=
  if v = d.row.version then some d.row.body else d.log v

/-- `d'` is a later state of `d`: what `d` has under a version, `d'` has too. -/
structure Extends (d d' : Dossier) : Prop where
  version : d.row.version ≤ d'.row.version
  bodyAt : ∀ v ≤ d.row.version, d'.bodyAt v = d.bodyAt v

theorem Extends.refl (d : Dossier) : Extends d d := ⟨le_rfl, fun _ _ => rfl⟩

theorem Extends.trans {d'' : Dossier} (h : Extends d d') (h' : Extends d' d'') : Extends d d'' where
  version := h.version.trans h'.version
  bodyAt v hv := (h'.bodyAt v (hv.trans h.version)).trans (h.bodyAt v hv)

/-- A step keeps what every version says, old ones and the current one. -/
theorem Step.extends (h : Step d d') : Extends d d' := by
  cases h with
  | stay | touch _ _ _ | review _ _ _ _ _ _ _ _ | withdraw _ => exact ⟨le_rfl, fun _ _ => rfl⟩
  | revise body isSubmitted updatedAt ho hne =>
    refine ⟨Nat.le_succ _, fun v hv => ?_⟩
    have hnew : v ≠ d.row.version + 1 := by omega
    simp only [Dossier.bodyAt, if_neg hnew]
    split_ifs with hcur
    · rw [hcur, Function.update_self]
    · rw [Function.update_of_ne hcur]

/-- A step that changes the body files the old one and counts it; any other leaves
the version and the log alone. -/
def Logs (d d' : Dossier) : Prop :=
  (d'.row.body = d.row.body ∧ d'.row.version = d.row.version ∧ d'.log = d.log) ∨
    (d'.row.body ≠ d.row.body ∧ d'.row.version = d.row.version + 1 ∧
      d'.log = Function.update d.log d.row.version (some d.row.body))

theorem Step.logs (h : Step d d') : Logs d d' := by
  cases h with
  | stay | touch _ _ _ | review _ _ _ _ _ _ _ _ | withdraw _ => exact Or.inl ⟨rfl, rfl, rfl⟩
  | revise body isSubmitted updatedAt ho hne => exact Or.inr ⟨hne, rfl, rfl⟩

/-- The log has every earlier version once, and no two neighbours are the same. -/
structure Faithful (d : Dossier) : Prop where
  pos : 1 ≤ d.row.version
  log : ∀ v, d.log v ≠ none ↔ 1 ≤ v ∧ v < d.row.version
  differ : ∀ v, 1 ≤ v → v < d.row.version → d.bodyAt v ≠ d.bodyAt (v + 1)

theorem New.faithful (h : d.New) : d.Faithful where
  pos := h.version.ge
  log v := by
    rw [h.log, h.version]
    simp only [ne_eq, not_true, false_iff]
    omega
  differ v := by
    rw [h.version]
    omega

theorem Step.faithful (h : Step d d') (hf : d.Faithful) : d'.Faithful := by
  have hext := h.extends
  cases h with
  | stay => exact hf
  | touch _ _ _ | review _ _ _ _ _ _ _ _ | withdraw _ => exact ⟨hf.pos, hf.log, hf.differ⟩
  | revise body isSubmitted updatedAt ho hne =>
    refine ⟨Nat.le_succ_of_le hf.pos, fun v => ?_, fun v hv hlt => ?_⟩
    · by_cases hvn : v = d.row.version
      · subst hvn
        simp [hf.pos]
      · have := hf.log v
        simp only [Function.update_of_ne hvn, this]
        omega
    · have hle : v ≤ d.row.version := Nat.lt_succ_iff.mp hlt
      rw [hext.bodyAt v hle]
      by_cases hvn : v = d.row.version
      · -- The body that was current, against the one that replaced it.
        subst hvn
        simpa [bodyAt] using hne.symm
      · have hlt' : v < d.row.version := by omega
        rw [hext.bodyAt (v + 1) hlt']
        exact hf.differ v hv hlt'

end Dossier

end Chamneul
