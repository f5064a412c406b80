import Chamneul.Proofs.Atomic
import Chamneul.Proofs.DocketRefinement

/-! The life of an application: the notices its applicant gets are its decision, as
long as nobody takes one up. -/

namespace Chamneul

open ReadCommitted ReadCommitted.Prog Service

/-- Every application has the notice of its decision, and no other. -/
def NoticesFit (db : Db) : Prop := ∀ i, (docket db i).Fits

/-- A committed transaction is one step of each docket. -/
theorem docket_commits {drift : Db → Db → Prop} {call : Call} {db db' : Db}
    (h : (commits drift call).Commits db db') (i : Id) :
    ∃ e, (docket db i).Step e (docket db' i) ∧ (e = .takeUp ↔ TakesUp db call i) := by
  obtain ⟨L, w, σ, rfl, hcom, rfl⟩ := h
  exact docket_step hcom i

/-- The notices fit as long as no review takes an application up; one that does
fails, or leaves a notice that does not fit. -/
theorem application_notices {σ₀ σ : World Db} (h₀ : NoticesFit σ₀.db)
    (hr : Serial system (fun db call => ∀ i, ¬ TakesUp db call i) σ₀ σ) :
    NoticesFit σ.db ∧ ∀ call draw i, TakesUp σ.db call i →
      ((program call).exec draw [] σ).2.db = σ.db ∨
        ¬ NoticesFit ((program call).exec draw [] σ).2.db := by
  constructor
  · refine discipline.serial program_once (J := NoticesFit) ?_ hr h₀
    intro call db db' hok hdb hc i
    obtain ⟨e, hstep, he⟩ := docket_commits hc i
    exact hstep.fits (fun htake => hok i (he.mp htake)) (hdb i)
  · intro call draw i htake
    have hprog := discipline.program (Rely.alone_locks owns_refl) call σ
    rcases (program_once call).exec_serves draw hprog rfl le_rfl (.nil _ _) with hsame | hc
    · exact Or.inl hsame
    · obtain ⟨e, hstep, he⟩ := docket_commits hc.commits i
      obtain rfl := he.mpr htake
      exact Or.inr fun hfit => hstep.not_fits (hfit i)

def blank : World Db := ⟨{}, 0⟩

theorem noticesFit_blank : NoticesFit blank.db := fun _ => ⟨rfl, rfl⟩

def takenUp : List Call := [.createApplication 1 "b", .reviewApplication 2 9 .reviewing ""]

theorem takenUp_notified : NoticesFit blank.db ∧
    Serial system (fun _ _ => True) blank (system.serve id takenUp blank) ∧
    ¬ NoticesFit (system.serve id takenUp blank).db := by
  refine ⟨noticesFit_blank, Serial.refl.serve id fun _ _ _ => trivial, fun h => ?_⟩
  have hstatus : ((system.serve id takenUp blank).db.applications.get? 2).map (·.status) =
      some .reviewing := by decide
  have hnotices : ((system.serve id takenUp blank).db.notices .advisorApplicationRejected 2).length =
      1 := by decide
  obtain ⟨a, ha, hs⟩ := Option.map_eq_some_iff.mp hstatus
  have hfit := h 2
  simp only [Docket.Fits, docket, ha, hs] at hfit
  rw [hfit.2] at hnotices
  cases hnotices

def underReview : World Db where
  db :=
    { applications := Table.empty.insert
        { id := 2, applicant := 1, displayName := "b", status := .reviewing } }
  now := 3

theorem application_notices_approved :
    NoticesFit (system.serve id [.reviewApplication 2 9 .approved ""] underReview).db ∧
    ((system.serve id [.reviewApplication 2 9 .approved ""] underReview).db.applications.get? 2).map
      (·.status) = some .approved := by
  have h₀ : NoticesFit underReview.db := by
    intro i
    by_cases hi : i = 2
    · subst hi
      exact ⟨rfl, rfl⟩
    · have hrow : underReview.db.applications.get? i = none :=
        Table.get?_insert_of_ne _ _ (Ne.symm hi)
      simp only [Docket.Fits, docket, hrow]
      exact ⟨rfl, rfl⟩
  have hr : Serial system (fun db call => ∀ i, ¬ TakesUp db call i) underReview
      (system.serve id [.reviewApplication 2 9 .approved ""] underReview) := by
    refine Serial.refl.serve id fun db call hcall i htake => ?_
    obtain ⟨_, _, _, rfl, -, -⟩ := htake
    simp at hcall
  exact ⟨(application_notices h₀ hr).1, by decide⟩

end Chamneul
