import Chamneul.Proofs.ConcernLifecycle
import Chamneul.Proofs.CorrespondenceRefinement

/-! The notices about assignments and advices are those of their rows, whatever runs
and whatever of it fails. -/

namespace Chamneul

open ReadCommitted ReadCommitted.Prog Service

/-- Assignments and advices have exactly the notices they should have. The last two
fields are about rows nobody has decided on and rows that do not exist. -/
structure NoticesMatch (db : Db) : Prop where
  announced : ∀ a ∈ db.assignments, One (Announces a)
    (db.noticesAbout .assignmentCreated "assignment_id" a.id)
  announcement : ∀ n ∈ db.notifications, n.type = .assignmentCreated →
    ∃ a ∈ db.assignments, Announces a n
  approved : ∀ a ∈ db.advices, a.status = .approved →
    One (fun n => db.authorOf a.concern = some n.recipient)
      (db.noticesAbout .adviceApproved "advice_id" a.id)
  notApproved : ∀ a ∈ db.advices, a.status ≠ .approved →
    db.noticesAbout .adviceApproved "advice_id" a.id = []
  rejected : ∀ a ∈ db.advices, Verdict.WasRejected a →
    One (Verdict.Explains a) (db.noticesAbout .adviceRejected "advice_id" a.id)
  notRejected : ∀ a ∈ db.advices, ¬ Verdict.WasRejected a →
    db.noticesAbout .adviceRejected "advice_id" a.id = []
  reviewer : ∀ a ∈ db.advices, (Verdict.Waiting a → a.reviewedBy = none) ∧
    (a.status = .rejected → a.reviewedBy ≠ none)
  absent : ∀ i, db.advices.get? i = none → db.noticesAbout .adviceApproved "advice_id" i = [] ∧
    db.noticesAbout .adviceRejected "advice_id" i = []

def Addressed (db : Db) : Prop :=
  ∀ n ∈ db.notifications, n.type = .assignmentCreated →
    ∃ c i, n.payload = [("concern_id", c), ("assignment_id", i)]

theorem addressed_apply {e : Env} {x : Write} {db : Db} (h : Addressed db)
    (hx : ∀ n, x = .insertNotification n → n.type = .assignmentCreated →
      ∃ c i, n.payload = [("concern_id", c), ("assignment_id", i)]) : Addressed (apply e x db) := by
  cases x with
  | insertNotification n => exact Table.forall_mem_insert h (hx n rfl)
  | readNotification id t =>
    intro n' hn'
    rw [apply, Table.mem_update] at hn'
    obtain ⟨n, hn, rfl⟩ := hn'
    split_ifs <;> exact h n hn
  | _ => exact h

theorem addressed_applyAll {w : Pending Write} {db : Db} (h : Addressed db)
    (hw : ∀ p ∈ w, ∀ n, p.2 = .insertNotification n → n.type = .assignmentCreated →
      ∃ c i, n.payload = [("concern_id", c), ("assignment_id", i)]) : Addressed (applyAll w db) :=
  holds_applyAll h fun p hp _ hold => addressed_apply hold (hw p hp)

theorem addressed_committed {drift : Db → Db → Prop} {L : Set Key} {w : Pending Write} {db : Db}
    {call : Call} (h : Committed drift L w db call) (hdb : Addressed db) :
    Addressed (applyAll w db) := by
  refine addressed_applyAll hdb fun p hp n hn htype => ?_
  have htable : .notifications ∈ call.tables := by
    have := table_of_committed h p hp
    rwa [hn] at this
  have hquiet : p.2.notifies .assignmentCreated = true := by rw [hn]; simp [Write.notifies, htype]
  cases call with
  | assignAdvisor id actor data =>
    obtain ⟨e₁, e₂, row, transition, -, -, -, -, -, -, -, rfl, htrans⟩ := h
    simp only [List.mem_append, List.mem_singleton] at hp
    obtain (rfl | hp) | rfl := hp
    · cases hn
    · rw [htrans.notifies rfl p hp] at hquiet
      cases hquiet
    · cases hn
      exact ⟨_, _, rfl⟩
  | reviewApplication id actor target reason =>
    rw [reviewApplication_notifies h (by simp) (by simp) p hp] at hquiet
    cases hquiet
  | reviewAdvice id actor decision reason expectedVersion =>
    obtain ⟨e₁, e₂, now, row, concern, transition, -, -, -, -, -, -, -, -, -, -, rfl, htrans⟩ := h
    simp only [List.mem_append, List.mem_singleton] at hp
    obtain (rfl | hp) | rfl := hp
    · cases hn
    · rw [htrans.notifies rfl p hp] at hquiet
      cases hquiet
    · cases hn
      cases decision <;> cases htype
  | markRead user id =>
    obtain ⟨row, -, -, -, ⟨-, rfl⟩ | ⟨-, e, now, rfl⟩⟩ := h
    · cases hp
    · obtain rfl := List.mem_singleton.mp hp
      cases hn
  | _ => simp [Call.tables] at htable

theorem NoticesMatch.posting {db : Db} (h : NoticesMatch db) (i : Id) : (posting db i).Fits := by
  cases hrow : db.assignments.get? i with
  | none =>
    simp only [Posting.Fits, Chamneul.posting, hrow]
    refine List.filter_eq_nil_iff.mpr fun n hn hsel => ?_
    obtain ⟨htype, hmem⟩ := of_decide_eq_true hsel
    obtain ⟨a, ha, hann⟩ := h.announcement n hn htype
    have hi : a.id = i := by simpa [hann.payload, eq_comm] using hmem
    exact Table.get?_eq_none.mp hrow a ha hi
  | some a =>
    obtain ⟨ha, hi⟩ := Table.get?_eq_some.mp hrow
    simp only [Posting.Fits, Chamneul.posting, hrow]
    exact hi ▸ h.announced a ha

theorem verdict_row {db : Db} {a : Advice} (ha : a ∈ db.advices) : (verdict db a.id).row = some a :=
  Table.mem_iff_get?.mp ha

theorem verdict_author {db : Db} {a : Advice} (ha : a ∈ db.advices) :
    (verdict db a.id).author = db.authorOf a.concern := by
  have hrow : db.advices.get? a.id = some a := verdict_row ha
  simp only [verdict, hrow, Option.bind_some]

theorem NoticesMatch.verdict {db : Db} (h : NoticesMatch db) (i : Id) : (verdict db i).Fits := by
  cases hrow : db.advices.get? i with
  | none => simpa only [Verdict.Fits, Chamneul.verdict, hrow] using h.absent i hrow
  | some a =>
    obtain ⟨ha, hi⟩ := Table.get?_eq_some.mp hrow
    obtain rfl : a.id = i := hi
    refine (Verdict.fits_iff_due hrow).mpr ⟨fun hs => ?_, h.notApproved a ha, h.rejected a ha,
      h.notRejected a ha, (h.reviewer a ha).1, (h.reviewer a ha).2⟩
    rw [verdict_author ha]
    exact h.approved a ha hs

/-- The postings and the verdicts say all of it. -/
theorem noticesMatch_iff {db : Db} : NoticesMatch db ↔
    (∀ i, (posting db i).Fits) ∧ (∀ i, (verdict db i).Fits) ∧ Addressed db := by
  constructor
  · intro h
    refine ⟨h.posting, h.verdict, fun n hn htype => ?_⟩
    obtain ⟨a, -, hann⟩ := h.announcement n hn htype
    exact ⟨a.concern, a.id, hann.payload⟩
  · rintro ⟨hposting, hverdict, haddressed⟩
    have hassigned : ∀ a ∈ db.assignments, One (Announces a)
        (db.noticesAbout .assignmentCreated "assignment_id" a.id) := by
      intro a ha
      have hrow : db.assignments.get? a.id = some a := Table.mem_iff_get?.mp ha
      simpa only [Posting.Fits, posting, hrow] using hposting a.id
    have hdue : ∀ a ∈ db.advices, (verdict db a.id).Due a := fun a ha =>
      (Verdict.fits_iff_due (verdict_row ha)).mp (hverdict a.id)
    refine
      { announced := hassigned
        announcement := fun n hn htype => ?_
        approved := fun a ha hs => ?_
        notApproved := fun a ha => (hdue a ha).notApproved
        rejected := fun a ha => (hdue a ha).rejected
        notRejected := fun a ha => (hdue a ha).notRejected
        reviewer := fun a ha => ⟨(hdue a ha).waiting, (hdue a ha).reviewed⟩
        absent := fun i hi => ?_ }
    · obtain ⟨c, i, hpayload⟩ := haddressed n hn htype
      have hmem : n ∈ db.noticesAbout .assignmentCreated "assignment_id" i :=
        List.mem_filter.mpr ⟨hn, decide_eq_true ⟨htype, by simp [hpayload]⟩⟩
      cases hrow : db.assignments.get? i with
      | none =>
        have hnone : db.noticesAbout .assignmentCreated "assignment_id" i = [] := by
          simpa only [Posting.Fits, posting, hrow] using hposting i
        rw [hnone] at hmem
        cases hmem
      | some a =>
        obtain ⟨ha, hi⟩ := Table.get?_eq_some.mp hrow
        obtain rfl : a.id = i := hi
        obtain ⟨n', hnotices, hann⟩ := hassigned a ha
        rw [hnotices, List.mem_singleton] at hmem
        exact ⟨a, ha, hmem ▸ hann⟩
    · have hone := (hdue a ha).approved hs
      rwa [verdict_author ha] at hone
    · have hfit := hverdict i
      rw [Verdict.Fits, show (verdict db i).row = none from hi] at hfit
      exact hfit

/-- Notices match rows in every state of every run. -/
theorem notices_match {σ₀ : World Db} {c : Config system} (h₀ : NoticesMatch σ₀.db)
    (hr : Config.Reachable (Config.idle σ₀) c) : NoticesMatch c.world.db := by
  refine noticesMatch_iff.mpr (discipline.invariant
    (J := fun db => (∀ i, (posting db i).Fits) ∧ (∀ i, (verdict db i).Fits) ∧ Addressed db) ?_
    (noticesMatch_iff.mp h₀) hr)
  rintro call db db' ⟨L, w, σ, rfl, hcom, rfl⟩ ⟨hposting, hverdict, haddressed⟩
  have hcom : Committed (fun _ _ => True) L w σ.db call := hcom
  exact ⟨fun i => (posting_step hcom i).fits (hposting i),
    fun i => (verdict_step hcom i).fits (hverdict i), addressed_committed hcom haddressed⟩

theorem noticesMatch_advisorOnly : NoticesMatch advisorOnly.db where
  announced a ha := absurd ha (Table.not_mem_empty a)
  announcement n hn := absurd hn (Table.not_mem_empty n)
  approved a ha := absurd ha (Table.not_mem_empty a)
  notApproved a ha := absurd ha (Table.not_mem_empty a)
  rejected a ha := absurd ha (Table.not_mem_empty a)
  notRejected a ha := absurd ha (Table.not_mem_empty a)
  reviewer a ha := absurd ha (Table.not_mem_empty a)
  absent _ _ := ⟨rfl, rfl⟩

/-- An advice is rejected, withdrawn by its advisor, and written anew. -/
def rewritten : Config system :=
  assigning.after
    [.start 2 (.createAdvice 0 2 { directionalGuidance := "a" } true), .run 2 20, .run 2 20,
      .run 2 20, .run 2 20, .start 3 (.reviewAdvice 20 9 .rejected "b" 1), .run 3 21, .run 3 21,
      .run 3 21, .run 3 21, .run 3 21, .run 3 21, .start 4 (.deleteAdvice 20 2), .run 4 0, .run 4 0,
      .run 4 0, .start 5 (.createAdvice 0 2 { directionalGuidance := "c" } true), .run 5 22,
      .run 5 22, .run 5 22, .run 5 22]

theorem notices_match_rewritten : NoticesMatch rewritten.world.db ∧
    (rewritten.world.db.noticesAbout .adviceRejected "advice_id" 20).map (·.message) = ["b"] ∧
    rewritten.world.db.noticesAbout .adviceRejected "advice_id" 22 = [] := by
  refine ⟨notices_match noticesMatch_advisorOnly ?_, by decide, by decide⟩
  exact (Config.reachable_after _ _).trans (Config.reachable_after _ _)

end Chamneul
