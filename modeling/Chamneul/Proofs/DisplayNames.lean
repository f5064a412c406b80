import Chamneul.Proofs.Queries
import Chamneul.Spec.AdviceApi

/-! The names that advisors are shown under. Sorting the approved applications and keeping the first
of each applicant keeps the latest, whoever else is asked for. -/

namespace Chamneul

open ReadCommitted

/-! Keeping the first row of each key. -/

section

variable {α κ : Type} [DecidableEq κ] {key : α → κ}

theorem mem_distinctOn {rows : List α} {a : α} : a ∈ distinctOn key rows ↔
    rows.find? (fun b => decide (key b = key a)) = some a := by
  induction rows with
  | nil => simp [distinctOn]
  | cons x rows ih =>
    rw [distinctOn, List.mem_cons, List.mem_filter, ih, List.find?_cons]
    by_cases hx : key x = key a
    · simp [hx, eq_comm]
    · have hne : a ≠ x := by
        rintro rfl
        exact hx rfl
      simp [hx, hne, Ne.symm hx]

theorem find?_distinctOn (rows : List α) (k : κ) :
    (distinctOn key rows).find? (fun a => decide (key a = k)) =
      rows.find? fun a => decide (key a = k) := by
  induction rows with
  | nil => rfl
  | cons x rows ih =>
    rw [distinctOn, List.find?_cons, List.find?_cons]
    by_cases hx : key x = k
    · simp [hx]
    · simp only [hx, decide_false]
      rw [List.find?_filter, ← ih]
      congr 1
      funext a
      by_cases ha : key a = k <;> simp [ha, Ne.symm hx]

theorem nodup_distinctOn (rows : List α) : ((distinctOn key rows).map key).Nodup := by
  induction rows with
  | nil => exact List.nodup_nil
  | cons x rows ih =>
    rw [distinctOn, List.map_cons, List.nodup_cons]
    refine ⟨?_, (List.filter_sublist.map key).nodup ih⟩
    simp

/-- A dict of one item a row has, for each key, the value of the first row of that key. -/
theorem lookup_map_rows {β : Type} (value : α → β) (rows : List α) (k : κ) :
    (rows.map fun a => (key a, value a)).lookup k =
      (rows.find? fun a => decide (key a = k)).map value := by
  induction rows with
  | nil => rfl
  | cons x rows ih =>
    rw [List.map_cons, List.lookup_cons, List.find?_cons]
    by_cases hx : key x = k
    · simp [hx]
    · have hne : (k == key x) = false := beq_eq_false_iff_ne.mpr (Ne.symm hx)
      simp only [hne, hx, decide_false]
      exact ih

end

/-! The latest approved application. -/

structure Db.LatestApproved (db : Db) (advisor : Id) (a : AdvisorApplication) : Prop where
  mem : a ∈ db.applications
  applicant : a.applicant = advisor
  approved : a.status = .approved
  latest : ∀ b ∈ db.applications, b.applicant = advisor → b.status = .approved →
    b.submittedAt ≤ a.submittedAt

def Db.NeverApproved (db : Db) (advisor : Id) : Prop :=
  ∀ a ∈ db.applications, a.applicant = advisor → a.status ≠ .approved

/-- An advisor is known by the name in their latest approved application, or else by their nickname. -/
def Db.KnownAs (db : Db) (advisor : Id) (name : String) : Prop :=
  (∃ a, db.LatestApproved advisor a ∧ a.displayName = name) ∨
    (db.NeverApproved advisor ∧ db.nickname advisor = name)

def Db.SubmittedApart (db : Db) : Prop :=
  ∀ a ∈ db.applications, ∀ b ∈ db.applications, a.applicant = b.applicant →
    a.submittedAt = b.submittedAt → a = b

section

variable {db : Db} {advisor : Id}

def Db.approvedOf (db : Db) (advisor : Id) : List AdvisorApplication :=
  newestFirst AdvisorApplication.submittedAt (db.applications.rows.filter fun a =>
    decide (a.applicant = advisor ∧ a.status = .approved))

theorem mem_approvedOf {a : AdvisorApplication} : a ∈ db.approvedOf advisor ↔
    a ∈ db.applications ∧ a.applicant = advisor ∧ a.status = .approved := by
  simp [Db.approvedOf, mem_newestFirst, Table.mem_def]

/-- Among the rows of one user, in the order they are looked through, are their approved
applications if they are asked for. -/
theorem filter_sorted (ids : List Id) :
    (((newestFirst AdvisorApplication.submittedAt (db.applications.rows.filter fun a =>
      decide (a.applicant ∈ ids ∧ a.status = .approved))).insertionSort
        fun a b => a.applicant ≤ b.applicant).filter fun a => decide (a.applicant = advisor)) =
      if advisor ∈ ids then db.approvedOf advisor else [] := by
  have : IsTrans AdvisorApplication fun a b => a.applicant ≤ b.applicant :=
    ⟨fun _ _ _ hab hbc => Nat.le_trans hab hbc⟩
  have : Std.Total fun a b : AdvisorApplication => a.applicant ≤ b.applicant :=
    ⟨fun _ _ => Nat.le_total _ _⟩
  rw [filter_insertionSort, filter_newestFirst, List.filter_filter]
  split_ifs with hids
  · have hsame : ∀ a : AdvisorApplication,
        (decide (a.applicant = advisor) && decide (a.applicant ∈ ids ∧ a.status = .approved)) =
          decide (a.applicant = advisor ∧ a.status = .approved) := by
      intro a
      by_cases ha : a.applicant = advisor <;> simp [ha, hids]
    simp only [hsame]
    refine List.Pairwise.insertionSort_eq (List.Pairwise.imp_of_mem ?_ (sorted_newestFirst _ _))
    intro a b ha hb _
    rw [((mem_approvedOf.mp ha).2).1, ((mem_approvedOf.mp hb).2).1]
  · have hnone : (db.applications.rows.filter fun a =>
        decide (a.applicant = advisor) && decide (a.applicant ∈ ids ∧ a.status = .approved)) = [] := by
      refine List.filter_eq_nil_iff.mpr fun a _ => ?_
      by_cases ha : a.applicant = advisor <;> simp [ha, hids]
    rw [hnone]
    rfl

/-- What `distinct` keeps of the rows of one user. -/
theorem mem_displayNamesByAdvisor {ids : List Id} {name : String} :
    (advisor, name) ∈ db.displayNamesByAdvisor ids ↔
      advisor ∈ ids ∧ ∃ a, (db.approvedOf advisor).head? = some a ∧ a.displayName = name := by
  simp only [Db.displayNamesByAdvisor, List.mem_map, mem_distinctOn, Prod.mk.injEq]
  constructor
  · rintro ⟨a, hfind, rfl, rfl⟩
    rw [← List.head?_filter, filter_sorted] at hfind
    split_ifs at hfind with hids
    · exact ⟨hids, a, hfind, rfl⟩
    · cases hfind
  · rintro ⟨hids, a, hhead, rfl⟩
    have ha : a.applicant = advisor := (mem_approvedOf.mp (List.mem_of_mem_head? hhead)).2.1
    refine ⟨a, ?_, ha, rfl⟩
    rw [ha, ← List.head?_filter, filter_sorted, if_pos hids, hhead]

/-- Who is asked for gets the name of their newest approved application, whoever else is asked for. -/
theorem lookup_displayNamesByAdvisor (ids : List Id) : (db.displayNamesByAdvisor ids).lookup advisor =
    if advisor ∈ ids then (db.approvedOf advisor).head?.map (·.displayName) else none := by
  rw [Db.displayNamesByAdvisor, lookup_map_rows, find?_distinctOn, ← List.head?_filter, filter_sorted]
  split_ifs <;> rfl

theorem keys_displayNamesByAdvisor (ids : List Id) :
    ((db.displayNamesByAdvisor ids).map Prod.fst).Nodup := by
  rw [Db.displayNamesByAdvisor, List.map_map]
  exact nodup_distinctOn _

/-- The newest is the latest. -/
theorem latest_of_head? {a : AdvisorApplication} (h : (db.approvedOf advisor).head? = some a) :
    db.LatestApproved advisor a := by
  have hsorted := sorted_newestFirst AdvisorApplication.submittedAt (db.applications.rows.filter
    fun a => decide (a.applicant = advisor ∧ a.status = .approved))
  obtain ⟨hmem, happlicant, hstatus⟩ := mem_approvedOf.mp (List.mem_of_mem_head? h)
  refine ⟨hmem, happlicant, hstatus, fun b hb hbu hbs => ?_⟩
  have hmemb := mem_approvedOf.mpr ⟨hb, hbu, hbs⟩
  obtain ⟨rest, hrest⟩ : ∃ rest, db.approvedOf advisor = a :: rest := List.head?_eq_some_iff.mp h
  rw [hrest, List.mem_cons] at hmemb
  rcases hmemb with rfl | hmemb
  · exact Nat.le_refl _
  · rw [show newestFirst AdvisorApplication.submittedAt _ = a :: rest from hrest] at hsorted
    exact List.rel_of_pairwise_cons hsorted hmemb

theorem Db.LatestApproved.unique (hapart : db.SubmittedApart) {a b : AdvisorApplication}
    (ha : db.LatestApproved advisor a) (hb : db.LatestApproved advisor b) : a = b :=
  hapart a ha.mem b hb.mem (ha.applicant.trans hb.applicant.symm) (Nat.le_antisymm
    (hb.latest a ha.mem ha.applicant ha.approved) (ha.latest b hb.mem hb.applicant hb.approved))

/-- Times that differ leave no choice of the newest. -/
theorem head?_approvedOf (hapart : db.SubmittedApart) {a : AdvisorApplication} :
    (db.approvedOf advisor).head? = some a ↔ db.LatestApproved advisor a := by
  refine ⟨latest_of_head?, fun h => ?_⟩
  have hmem := mem_approvedOf.mpr ⟨h.mem, h.applicant, h.approved⟩
  cases hhead : (db.approvedOf advisor).head? with
  | none =>
    rw [List.head?_eq_none_iff.mp hhead] at hmem
    cases hmem
  | some b => rw [(latest_of_head? hhead).unique hapart h]

theorem head?_approvedOf_none :
    (db.approvedOf advisor).head? = none ↔ db.NeverApproved advisor := by
  rw [List.head?_eq_none_iff, List.eq_nil_iff_forall_not_mem]
  constructor
  · intro hnone a ha hau has
    exact hnone a (mem_approvedOf.mpr ⟨ha, hau, has⟩)
  · intro hnone a ha
    obtain ⟨hmem, hau, has⟩ := mem_approvedOf.mp ha
    exact hnone a hmem hau has

/-- The name one advisor is shown under: with no list of ids in it. -/
def Db.advisorName (db : Db) (advisor : Id) : String :=
  ((db.approvedOf advisor).head?.map (·.displayName)).getD (db.nickname advisor)

theorem knownAs_advisorName : db.KnownAs advisor (db.advisorName advisor) := by
  cases hhead : (db.approvedOf advisor).head? with
  | none => exact Or.inr ⟨head?_approvedOf_none.mp hhead, by simp [Db.advisorName, hhead]⟩
  | some a => exact Or.inl ⟨a, latest_of_head? hhead, by simp [Db.advisorName, hhead]⟩

/-- What a view shows for an advisor it has asked for. -/
theorem displayName_eq {ids : List Id} (h : advisor ∈ ids) :
    db.displayName (db.displayNamesByAdvisor ids) advisor = db.advisorName advisor := by
  rw [Db.displayName, lookup_displayNamesByAdvisor, if_pos h, Db.advisorName]

end

section

variable {db : Db}

theorem approvedAdvicesViewData_eq (concern : Id) : db.approvedAdvicesViewData concern =
    (db.approvedAdvices concern).map fun a => ⟨a.id, db.advisorName a.advisor, a.createdAt⟩ := by
  refine List.map_congr_left fun a ha => ?_
  rw [displayName_eq (List.mem_map_of_mem ha)]

theorem adminAssignments_eq (concern : Concern) : (db.adminConcernDetailViewData concern).assignments =
    (newestFirst Assignment.assignedAt (db.assignments.rows.filter fun a =>
      decide (a.concern = concern.id))).map fun a =>
        ⟨a.id, a.advisor, db.advisorName a.advisor, a.assignedAt, a.assignedBy, a.isActive⟩ := by
  refine List.map_congr_left fun a ha => ?_
  rw [displayName_eq (List.mem_map_of_mem ha)]

theorem receivedAdviceItems_eq (rows : List Db.ReceivedAdvice) : receivedAdviceItems db rows =
    rows.map fun row => ⟨row.advice.id, row.advice.concern, row.concern.fields.concernSummary,
      db.advisorName row.advice.advisor, row.advice.createdAt, row.isFeedbackSubmitted⟩ := by
  refine List.map_congr_left fun row hrow => ?_
  rw [displayName_eq (List.mem_map_of_mem hrow)]

theorem adviceDetail_advisorDisplayName (a : Advice) (viewer : Viewer) :
    (adviceDetail db a viewer).advisorDisplayName = db.advisorName a.advisor :=
  displayName_eq (List.mem_singleton_self _)

/-- Whoever else is asked for, an advisor gets the name of their latest approved application, and
the four views show them under one name. -/
theorem display_names_agree (hapart : db.SubmittedApart) :
    (∀ ids : List Id,
      ((db.displayNamesByAdvisor ids).map Prod.fst).Nodup ∧
      (∀ advisor, advisor ∈ (db.displayNamesByAdvisor ids).map Prod.fst ↔
        advisor ∈ ids ∧ ¬ db.NeverApproved advisor) ∧
      ∀ advisor name, (advisor, name) ∈ db.displayNamesByAdvisor ids ↔
        advisor ∈ ids ∧ ∃ a, db.LatestApproved advisor a ∧ a.displayName = name) ∧
    ∃ shown : Id → String, (∀ advisor, db.KnownAs advisor (shown advisor)) ∧
      (∀ concern, db.approvedAdvicesViewData concern =
        (db.approvedAdvices concern).map fun a => ⟨a.id, shown a.advisor, a.createdAt⟩) ∧
      (∀ concern : Concern, (db.adminConcernDetailViewData concern).assignments =
        (newestFirst Assignment.assignedAt (db.assignments.rows.filter fun a =>
          decide (a.concern = concern.id))).map fun a =>
            ⟨a.id, a.advisor, shown a.advisor, a.assignedAt, a.assignedBy, a.isActive⟩) ∧
      (∀ rows : List Db.ReceivedAdvice, receivedAdviceItems db rows = rows.map fun row =>
        ⟨row.advice.id, row.advice.concern, row.concern.fields.concernSummary,
          shown row.advice.advisor, row.advice.createdAt, row.isFeedbackSubmitted⟩) ∧
      ∀ (a : Advice) (viewer : Viewer), (adviceDetail db a viewer).advisorDisplayName = shown a.advisor := by
  refine ⟨fun ids => ⟨keys_displayNamesByAdvisor ids, ?_, ?_⟩, db.advisorName,
    fun advisor => knownAs_advisorName, approvedAdvicesViewData_eq, adminAssignments_eq,
    receivedAdviceItems_eq, adviceDetail_advisorDisplayName⟩
  · intro advisor
    rw [← head?_approvedOf_none, ← ne_eq, Option.ne_none_iff_exists']
    constructor
    · intro hkey
      obtain ⟨⟨_, name⟩, hmem, rfl⟩ := List.mem_map.mp hkey
      obtain ⟨hids, a, hhead, -⟩ := mem_displayNamesByAdvisor.mp hmem
      exact ⟨hids, a, hhead⟩
    · rintro ⟨hids, a, hhead⟩
      exact List.mem_map.mpr
        ⟨(advisor, a.displayName), mem_displayNamesByAdvisor.mpr ⟨hids, a, hhead, rfl⟩, rfl⟩
  · intro advisor name
    simp only [mem_displayNamesByAdvisor, head?_approvedOf hapart]

end

/-- User 1 was approved, revoked and approved again under a new name; user 2 waits for a review. -/
def approvedAgain : Db :=
  { users := (Table.empty.insert { id := 1, nickname := "가람" }).insert { id := 2, nickname := "바다" }
    applications := ((Table.empty.insert
      { id := 10, applicant := 1, displayName := "산들", status := .approved, submittedAt := 3 }).insert
      { id := 11, applicant := 1, displayName := "나래", status := .approved, submittedAt := 8 }).insert
      { id := 12, applicant := 2, displayName := "윤슬", submittedAt := 5 } }

theorem approvedAgain_apart : approvedAgain.SubmittedApart := by
  intro a ha b hb
  have hrows : ∀ a ∈ approvedAgain.applications.rows, ∀ b ∈ approvedAgain.applications.rows,
      a.applicant = b.applicant → a.submittedAt = b.submittedAt → a = b := by
    decide
  exact hrows a ha b hb

theorem display_names_agree_approvedAgain :
    ((approvedAgain.displayNamesByAdvisor [2, 1, 7, 1]).map Prod.fst).Nodup ∧
      (1, "나래") ∈ approvedAgain.displayNamesByAdvisor [2, 1, 7, 1] ∧
      ∃ shown : Id → String, (∀ advisor, approvedAgain.KnownAs advisor (shown advisor)) ∧
        ∀ (a : Advice) (viewer : Viewer),
          (adviceDetail approvedAgain a viewer).advisorDisplayName = shown a.advisor := by
  have hlatest : approvedAgain.LatestApproved 1
      { id := 11, applicant := 1, displayName := "나래", status := .approved, submittedAt := 8 } := by
    refine ⟨?_, rfl, rfl, ?_⟩
    · exact Table.mem_def _ _ |>.mpr (by decide)
    · have hrows : ∀ b ∈ approvedAgain.applications.rows, b.applicant = 1 → b.status = .approved →
          b.submittedAt ≤ 8 := by
        decide
      exact hrows
  obtain ⟨hdict, shown, hknown, -, -, -, hsingle⟩ := display_names_agree approvedAgain_apart
  obtain ⟨hnodup, -, hitems⟩ := hdict [2, 1, 7, 1]
  exact ⟨hnodup, (hitems 1 "나래").mpr ⟨by decide, _, hlatest, rfl⟩, shown, hknown, hsingle⟩

end Chamneul
