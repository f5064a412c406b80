import Chamneul.Spec.Models

/-! Rows and the notices sent about them. An assignment is announced once, when it is
made; an advice gets the notice of its review, and keeps it whatever becomes of it. -/

namespace Chamneul

/-- There is one notice, and it is as `P` says. -/
def One (P : Notification → Prop) (notices : List Notification) : Prop := ∃ n, notices = [n] ∧ P n

/-- Reading a notice leaves what was sent. -/
structure SameNotice (n n' : Notification) : Prop where
  recipient : n'.recipient = n.recipient
  message : n'.message = n.message
  payload : n'.payload = n.payload

theorem One.append {P : Notification → Prop} {notices : List Notification} (h : notices = [])
    {n : Notification} (hn : P n) : One P (notices ++ [n]) := ⟨n, by rw [h, List.nil_append], hn⟩

theorem One.map {P : Notification → Prop} {notices : List Notification} (h : One P notices)
    {f : Notification → Notification} (hf : ∀ n, P n → P (f n)) : One P (notices.map f) := by
  obtain ⟨n, rfl, hn⟩ := h
  exact ⟨f n, rfl, hf n hn⟩

theorem One.mono {P P' : Notification → Prop} {notices : List Notification} (h : One P notices)
    (hP : ∀ n, P n → P' n) : One P' notices := by
  obtain ⟨n, rfl, hn⟩ := h
  exact ⟨n, rfl, hP n hn⟩

/-! Assignments -/

/-- The notice of an assignment goes to its advisor and carries its ids. -/
structure Announces (a : Assignment) (n : Notification) : Prop where
  recipient : n.recipient = a.advisor
  payload : n.payload = [("concern_id", a.concern), ("assignment_id", a.id)]

theorem Announces.read {a : Assignment} {n n' : Notification} (h : Announces a n)
    (hn : SameNotice n n') : Announces a n' :=
  ⟨hn.recipient.trans h.recipient, hn.payload.trans h.payload⟩

/-- An assignment and the notices about it. -/
structure Posting where
  row : Option Assignment
  notices : List Notification

namespace Posting

inductive Step (d : Posting) : Posting → Prop
  | stay : Step d d
  | assign (a : Assignment) (n : Notification) (hnew : d.row = none) (hn : Announces a n) :
      Step d ⟨some a, d.notices ++ [n]⟩
  | release (f : Assignment → Assignment) (hf : ∀ a n, Announces a n → Announces (f a) n) :
      Step d { d with row := d.row.map f }
  | read (f : Notification → Notification) (hf : ∀ n, SameNotice n (f n)) :
      Step d { d with notices := d.notices.map f }

def Fits (d : Posting) : Prop :=
  match d.row with
  | none => d.notices = []
  | some a => One (Announces a) d.notices

variable {d d' : Posting}

theorem Step.to {d₁ : Posting} (h : Step d d₁) (he : d' = d₁) : Step d d' := he ▸ h

theorem Step.fits (h : Step d d') (hd : d.Fits) : d'.Fits := by
  unfold Fits at hd ⊢
  cases h with
  | stay => exact hd
  | assign a n hnew hn =>
    rw [hnew] at hd
    exact .append hd hn
  | release f hf =>
    cases hrow : d.row with
    | none => simpa [hrow] using hd
    | some a =>
      rw [hrow] at hd
      exact hd.mono (hf a)
  | read f hf =>
    dsimp only
    cases hrow : d.row with
    | none => simpa [hrow] using hd
    | some a =>
      rw [hrow] at hd
      exact hd.map fun n hn => hn.read (hf n)

end Posting

/-! Advices -/

/-- An advice, the author of its concern, and the notices of its review. -/
structure Verdict where
  row : Option Advice
  author : Option Id
  approvals : List Notification
  rejections : List Notification

namespace Verdict

/-- The notice of a rejection goes to the advisor and says why. -/
structure Explains (a : Advice) (n : Notification) : Prop where
  recipient : n.recipient = a.advisor
  message : n.message = a.rejectReason

/-- Nobody has decided on it. -/
def Waiting (a : Advice) : Prop := a.status = .pending ∨ a.status = .reviewing

inductive Step (d : Verdict) : Verdict → Prop
  | stay : Step d d
  | know (author : Option Id) (hnew : d.author = none) : Step d { d with author := author }
  | write (a : Advice) (author : Option Id) (hnew : d.row = none) (ha : Waiting a)
      (hr : a.reviewedBy = none) : Step d { d with row := some a, author := author }
  | revise (a a' : Advice) (ha : d.row = some a) (hw : Waiting a) (hw' : Waiting a')
      (hr : a'.reviewedBy = a.reviewedBy) : Step d { d with row := some a' }
  | withdraw (a : Advice) (ha : d.row = some a) (hw : Waiting a ∨ a.status = .rejected) :
      Step d { d with row := some { a with status := .deleted } }
  | approve (a a' : Advice) (n : Notification) (ha : d.row = some a) (hw : Waiting a)
      (hs : a'.status = .approved) (hn : d.author = some n.recipient) :
      Step d { d with row := some a', approvals := d.approvals ++ [n] }
  | reject (a a' : Advice) (n : Notification) (ha : d.row = some a) (hw : Waiting a)
      (hs : a'.status = .rejected) (hr : a'.reviewedBy ≠ none) (hn : Explains a' n) :
      Step d { d with row := some a', rejections := d.rejections ++ [n] }
  | read (f : Notification → Notification) (hf : ∀ n, SameNotice n (f n)) :
      Step d { d with approvals := d.approvals.map f, rejections := d.rejections.map f }

/-- The notices are those of the review the row records. -/
def Fits (d : Verdict) : Prop :=
  match d.row with
  | none => d.approvals = [] ∧ d.rejections = []
  | some a =>
    match a.status with
    | .pending | .reviewing => a.reviewedBy = none ∧ d.approvals = [] ∧ d.rejections = []
    | .approved => One (fun n => d.author = some n.recipient) d.approvals ∧ d.rejections = []
    | .rejected => a.reviewedBy ≠ none ∧ d.approvals = [] ∧ One (Explains a) d.rejections
    | .deleted => d.approvals = [] ∧ (a.reviewedBy = none → d.rejections = []) ∧
        (a.reviewedBy ≠ none → One (Explains a) d.rejections)

/-- Rejected, and perhaps withdrawn since. -/
def WasRejected (a : Advice) : Prop :=
  a.status = .rejected ∨ a.status = .deleted ∧ a.reviewedBy ≠ none

/-- What fits advice `a`, one column of notices at a time. -/
structure Due (d : Verdict) (a : Advice) : Prop where
  approved : a.status = .approved → One (fun n => d.author = some n.recipient) d.approvals
  notApproved : a.status ≠ .approved → d.approvals = []
  rejected : WasRejected a → One (Explains a) d.rejections
  notRejected : ¬ WasRejected a → d.rejections = []
  waiting : Waiting a → a.reviewedBy = none
  reviewed : a.status = .rejected → a.reviewedBy ≠ none

variable {d d' : Verdict}

theorem fits_iff_due {a : Advice} (ha : d.row = some a) : d.Fits ↔ d.Due a := by
  simp only [Fits, ha]
  constructor
  · intro h
    cases hs : a.status with
    | pending | reviewing =>
      simp only [hs] at h
      exact ⟨by simp [hs], fun _ => h.2.1, by simp [WasRejected, hs], fun _ => h.2.2, fun _ => h.1,
        by simp [hs]⟩
    | approved =>
      simp only [hs] at h
      exact ⟨fun _ => h.1, by simp [hs], by simp [WasRejected, hs], fun _ => h.2,
        by simp [Waiting, hs], by simp [hs]⟩
    | rejected =>
      simp only [hs] at h
      exact ⟨by simp [hs], fun _ => h.2.1, fun _ => h.2.2, by simp [WasRejected, hs],
        by simp [Waiting, hs], fun _ => h.1⟩
    | deleted =>
      simp only [hs] at h
      refine ⟨by simp [hs], fun _ => h.1, fun hr => ?_, fun hr => ?_, by simp [Waiting, hs], by simp [hs]⟩
      · exact h.2.2 (by simpa [WasRejected, hs] using hr)
      · exact h.2.1 (by simpa [WasRejected, hs] using hr)
  · intro h
    cases hs : a.status with
    | pending | reviewing =>
      exact ⟨h.waiting (by simp [Waiting, hs]), h.notApproved (by simp [hs]),
        h.notRejected (by simp [WasRejected, hs])⟩
    | approved => exact ⟨h.approved hs, h.notRejected (by simp [WasRejected, hs])⟩
    | rejected => exact ⟨h.reviewed hs, h.notApproved (by simp [hs]), h.rejected (Or.inl hs)⟩
    | deleted =>
      refine ⟨h.notApproved (by simp [hs]), fun hr => h.notRejected ?_, fun hr => h.rejected ?_⟩
      · simp [WasRejected, hs, hr]
      · exact Or.inr ⟨hs, hr⟩

theorem Step.to {d₁ : Verdict} (h : Step d d₁) (he : d' = d₁) : Step d d' := he ▸ h

/-- What fits while nobody has decided. -/
theorem Fits.waiting {a : Advice} (h : d.Fits) (ha : d.row = some a) (hw : Waiting a) :
    a.reviewedBy = none ∧ d.approvals = [] ∧ d.rejections = [] := by
  simp only [Fits, ha] at h
  rcases hw with hs | hs <;> simpa [hs] using h

theorem fits_of_waiting {a : Advice} (ha : d.row = some a) (hw : Waiting a)
    (h : a.reviewedBy = none ∧ d.approvals = [] ∧ d.rejections = []) : d.Fits := by
  simp only [Fits, ha]
  rcases hw with hs | hs <;> simpa [hs] using h

theorem Step.fits (h : Step d d') (hd : d.Fits) : d'.Fits := by
  cases h with
  | stay => exact hd
  | know author hnew =>
    unfold Fits at hd ⊢
    cases hrow : d.row with
    | none => simpa [hrow] using hd
    | some a =>
      simp only [hrow] at hd ⊢
      cases hs : a.status with
      | approved =>
        -- An approved advice is one of a known author.
        obtain ⟨⟨n, -, hn⟩, -⟩ : One (fun n => d.author = some n.recipient) d.approvals ∧ _ := by
          simpa [hs] using hd
        rw [hnew] at hn
        cases hn
      | _ => simpa [hs] using hd
  | write a author hnew ha hr =>
    simp only [Fits, hnew] at hd
    exact fits_of_waiting rfl ha ⟨hr, hd⟩
  | revise a a' ha hw hw' hr =>
    have h := hd.waiting ha hw
    exact fits_of_waiting rfl hw' ⟨hr.trans h.1, h.2⟩
  | withdraw a ha hw =>
    simp only [Fits]
    rcases hw with hw | hs
    · obtain ⟨hr, happ, hrej⟩ := hd.waiting ha hw
      exact ⟨happ, fun _ => hrej, fun hne => absurd hr hne⟩
    · simp only [Fits, ha, hs] at hd
      exact ⟨hd.2.1, fun hr => absurd hr hd.1, fun _ => hd.2.2.mono fun n hn => ⟨hn.1, hn.2⟩⟩
  | approve a a' n ha hw hs hn =>
    obtain ⟨-, happ, hrej⟩ := hd.waiting ha hw
    simp only [Fits, hs]
    exact ⟨.append happ hn, hrej⟩
  | reject a a' n ha hw hs hr hn =>
    obtain ⟨-, happ, hrej⟩ := hd.waiting ha hw
    simp only [Fits, hs]
    exact ⟨hr, happ, .append hrej hn⟩
  | read f hf =>
    have hexplains : ∀ a n, Explains a n → Explains a (f n) := fun a n hn =>
      ⟨(hf n).recipient.trans hn.recipient, (hf n).message.trans hn.message⟩
    unfold Fits at hd ⊢
    dsimp only
    cases hrow : d.row with
    | none => simpa [hrow] using hd
    | some a =>
      simp only [hrow] at hd ⊢
      cases hs : a.status with
      | pending | reviewing => simpa [hs] using hd
      | approved =>
        simp only [hs] at hd ⊢
        exact ⟨hd.1.map fun n hn => hn.trans (congrArg some (hf n).recipient.symm), by simp [hd.2]⟩
      | rejected =>
        simp only [hs] at hd ⊢
        exact ⟨hd.1, by simp [hd.2.1], hd.2.2.map (hexplains a)⟩
      | deleted =>
        simp only [hs] at hd ⊢
        exact ⟨by simp [hd.1], fun hr => by simp [hd.2.1 hr], fun hr => (hd.2.2 hr).map (hexplains a)⟩

end Verdict

end Chamneul
