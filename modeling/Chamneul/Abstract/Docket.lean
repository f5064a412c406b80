import Chamneul.Spec.Models

/-! One application and the notices sent about it. A decision sends one; taking the
application up is no decision, and sends one all the same. The applicant may read
them at any time. -/

namespace Chamneul

structure Docket where
  row : Option AdvisorApplication
  approvals : List Notification
  rejections : List Notification

namespace Docket

inductive Event
  | stay
  | file
  | takeUp
  | approve
  | reject
  | read

/-- The steps of a docket. `takeUp` sends a notice of rejection. -/
inductive Step (d : Docket) : Event → Docket → Prop
  | stay : Step d .stay d
  | file (a : AdvisorApplication) (hnew : d.row = none) (ha : a.status = .pending) :
      Step d .file { d with row := some a }
  | takeUp (a : AdvisorApplication) (reviewedBy : Option Id) (reviewedAt : Option Time)
      (n : Notification) (ha : d.row = some a) (hs : a.status = .pending) :
      Step d .takeUp
        { d with
          row := some
            { a with status := .reviewing, reviewedBy := reviewedBy, reviewedAt := reviewedAt }
          rejections := d.rejections ++ [n] }
  | approve (a : AdvisorApplication) (reviewedBy : Option Id) (reviewedAt : Option Time)
      (n : Notification) (ha : d.row = some a) (hs : a.status = .reviewing)
      (hn : n.recipient = a.applicant) :
      Step d .approve
        { d with
          row := some { a with status := .approved, reviewedBy := reviewedBy, reviewedAt := reviewedAt }
          approvals := d.approvals ++ [n] }
  | reject (a : AdvisorApplication) (reviewedBy : Option Id) (reviewedAt : Option Time)
      (reason : String) (n : Notification) (ha : d.row = some a) (hs : a.status = .reviewing)
      (hr : strip reason ≠ "") (hn : n.recipient = a.applicant ∧ n.message = reason) :
      Step d .reject
        { d with
          row := some
            { a with
              status := .rejected
              reviewedBy := reviewedBy
              reviewedAt := reviewedAt
              rejectReason := reason }
          rejections := d.rejections ++ [n] }
  | read (f : Notification → Notification)
      (hf : ∀ n, (f n).recipient = n.recipient ∧ (f n).message = n.message) :
      Step d .read { d with approvals := d.approvals.map f, rejections := d.rejections.map f }

/-- Exactly one notice to the applicant, whose text is `message` if it has to be one. -/
def Notified (a : AdvisorApplication) (message : Option String) (notices : List Notification) : Prop :=
  ∃ n, notices = [n] ∧ n.recipient = a.applicant ∧ ∀ m ∈ message, n.message = m

/-- The notices of an application are the one of its decision. -/
def Fits (d : Docket) : Prop :=
  match d.row with
  | none => d.approvals = [] ∧ d.rejections = []
  | some a =>
    match a.status with
    | .approved => Notified a none d.approvals ∧ d.rejections = []
    | .rejected => d.approvals = [] ∧ Notified a (some a.rejectReason) d.rejections ∧
        strip a.rejectReason ≠ ""
    | _ => d.approvals = [] ∧ d.rejections = []

variable {d d' : Docket} {e : Event}

theorem Step.to {d₁ d₂ : Docket} (h : Step d e d₁) (he : d₂ = d₁) : Step d e d₂ := he ▸ h

theorem Notified.map {a : AdvisorApplication} {message : Option String} {notices : List Notification}
    (h : Notified a message notices) {f : Notification → Notification}
    (hf : ∀ n, (f n).recipient = n.recipient ∧ (f n).message = n.message) :
    Notified a message (notices.map f) := by
  obtain ⟨n, rfl, hto, htext⟩ := h
  exact ⟨f n, rfl, (hf n).1.trans hto, fun m hm => (hf n).2.trans (htext m hm)⟩

theorem Step.fits (h : Step d e d') (he : e ≠ .takeUp) (hf : d.Fits) : d'.Fits := by
  unfold Fits at hf ⊢
  cases h with
  | stay => exact hf
  | file a hnew ha =>
    rw [hnew] at hf
    simpa [ha] using hf
  | takeUp => exact absurd rfl he
  | approve a reviewedBy reviewedAt n ha hs hn =>
    simp only [ha, hs] at hf
    obtain ⟨happ, hrej⟩ := hf
    exact ⟨⟨n, by simp [happ], hn, by simp⟩, hrej⟩
  | reject a reviewedBy reviewedAt reason n ha hs hr hn =>
    simp only [ha, hs] at hf
    obtain ⟨happ, hrej⟩ := hf
    exact ⟨happ, ⟨n, by simp [hrej], hn.1, by simpa using hn.2⟩, hr⟩
  | read f hf' =>
    dsimp only
    cases hrow : d.row with
    | none => simpa [hrow] using hf
    | some a =>
      simp only [hrow] at hf ⊢
      cases hs : a.status with
      | approved =>
        simp only [hs] at hf ⊢
        exact ⟨hf.1.map hf', by simp [hf.2]⟩
      | rejected =>
        simp only [hs] at hf ⊢
        exact ⟨by simp [hf.1], hf.2.1.map hf', hf.2.2⟩
      | _ => simpa [hs] using hf

/-- An application that is taken up has a notice it should not have. -/
theorem Step.not_fits (h : Step d .takeUp d') : ¬ d'.Fits := by
  cases h with
  | takeUp a reviewedBy reviewedAt n ha hs => simp [Fits]

end Docket

end Chamneul
