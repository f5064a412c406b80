import Chamneul.Spec.ListApi
import Chamneul.Spec.NotificationApi
import Chamneul.Store.Paging
import Chamneul.Proofs.Queries

/-! Paging through a list. A page is a query of its own, and nine of the ten lists leave it
to the database in which order rows of one timestamp come. -/

namespace Chamneul

open Paging ReadCommitted

/-! The ten lists. -/

/-- A paged list with the filters of the request. -/
inductive ListQuery
  | advisorApplications (status : Option String)
  | myConcerns (user : Id) (status : Option String)
  | assignedConcerns (advisor : Id) (status : Option String)
  | concernsForAdmin (filters : AdminConcernQuery)
  | receivedAdvices (user : Id) (filters : ReceivedAdviceQuery)
  | advicesWritten (advisor : Id) (filters : AdviceWrittenQuery)
  | advicesForAdmin (status : Option AdviceStatus)
  | myFeedbacks (author : Id)
  | feedbacksForAdmin (filters : AdminFeedbackQuery)
  | myNotifications (user : Id) (filters : NotificationQuery)

namespace ListQuery

abbrev Row : ListQuery → Type
  | advisorApplications _ => AdvisorApplication
  | myConcerns .. => Concern × Bool
  | assignedConcerns .. => Db.AssignedConcern
  | concernsForAdmin _ => Concern × ℕ
  | receivedAdvices .. => Db.ReceivedAdvice
  | advicesWritten .. => Advice
  | advicesForAdmin _ => Advice
  | myFeedbacks _ => Feedback
  | feedbacksForAdmin _ => Feedback × Advice
  | myNotifications .. => Notification

/-- The filtered rows, as the view pages through them. -/
def rows (icontains : String → String → Bool) (db : Db) : (q : ListQuery) → List q.Row
  | advisorApplications status => db.advisorApplicationsForAdmin status
  | myConcerns user status =>
    (db.listMyConcerns user).filter fun row => statusMatches status row.1.status.value
  | assignedConcerns advisor status =>
    (db.listAssignedConcerns advisor).filter fun row => statusMatches status row.concern.status.value
  | concernsForAdmin filters =>
    (db.listConcernsForAdmin (isTrueValue filters.includeDeleted)).filter fun row =>
      filters.selects icontains row.1
  | receivedAdvices user filters => (db.listReceivedAdvices user).filter (filters.selects icontains)
  | advicesWritten advisor filters => (db.listAdvicesWrittenBy advisor).filter filters.selects
  | advicesForAdmin status => db.listAdvicesForAdminReview status
  | myFeedbacks author => db.listFeedbacksWrittenBy author
  | feedbacksForAdmin filters => db.listFeedbacksForAdmin filters
  | myNotifications user filters => db.listMyNotifications user filters.isRead filters.type

def time : (q : ListQuery) → q.Row → Time
  | advisorApplications _ => AdvisorApplication.submittedAt
  | myConcerns .. => fun row => row.1.createdAt
  | assignedConcerns .. => fun row => row.assignment.assignedAt
  | concernsForAdmin _ => fun row => row.1.createdAt
  | receivedAdvices .. => fun row => row.advice.createdAt
  | advicesWritten .. => Advice.createdAt
  | advicesForAdmin _ => Advice.createdAt
  | myFeedbacks _ => Feedback.createdAt
  | feedbacksForAdmin _ => fun row => row.1.createdAt
  | myNotifications .. => Notification.createdAt

/-- The second key of `order_by`; a constant where the list has none. -/
def tiebreak : (q : ListQuery) → q.Row → ℕ
  | myNotifications .. => Notification.id
  | _ => fun _ => 0

/-- The keys of `order_by`, descending, let `a` come before `b`. -/
def before (q : ListQuery) (a b : q.Row) : Prop :=
  q.time b < q.time a ∨ q.time a = q.time b ∧ q.tiebreak b ≤ q.tiebreak a

variable {icontains : String → String → Bool} {db : Db} {q : ListQuery}

instance : DecidableRel q.before := fun a b =>
  inferInstanceAs (Decidable
    (q.time b < q.time a ∨ q.time a = q.time b ∧ q.tiebreak b ≤ q.tiebreak a))

instance : IsTrans q.Row q.before := ⟨fun a b c hab hbc => by
  rcases hab with hab | ⟨hab, htab⟩ <;> rcases hbc with hbc | ⟨hbc, htbc⟩
  · exact .inl (hbc.trans hab)
  · exact .inl (hbc ▸ hab)
  · exact .inl (hab ▸ hbc)
  · exact .inr ⟨hab.trans hbc, htbc.trans htab⟩⟩

instance : Std.Total q.before := ⟨fun a b => by
  rcases Nat.lt_trichotomy (q.time a) (q.time b) with h | h | h
  · exact .inr (.inl h)
  · exact (Nat.le_total (q.tiebreak b) (q.tiebreak a)).imp (fun ht => .inr ⟨h, ht⟩)
      fun ht => .inr ⟨h.symm, ht⟩
  · exact .inl (.inl h)⟩

/-! The rows. -/

/-- A join that keeps the row it starts from repeats none. -/
theorem nodup_join {α β : Type} {join : α → Option β} (source : β → α)
    (hsource : ∀ a b, join a = some b → source b = a) {rows : List α} (h : rows.Nodup) :
    (rows.filterMap join).Nodup :=
  h.filterMap fun a a' b hb hb' => (hsource a b hb).symm.trans (hsource a' b hb')

/-- A row appears in a list once, whatever it is joined with. -/
theorem nodup_rows : (q.rows icontains db).Nodup := by
  have hnd {α ι : Type} [Keyed α ι] (t : Table α) (time : α → Time) (p : α → Bool) :
      (newestFirst time (t.rows.filter p)).Nodup :=
    nodup_newestFirst.mpr ((rows_nodup t).filter p)
  cases q with
  | advisorApplications => exact (nodup_newestFirst.mpr (rows_nodup _)).filter _
  | myConcerns => exact ((hnd _ _ _).map fun a b h => congrArg Prod.fst h).filter _
  | assignedConcerns =>
    refine (nodup_join Db.AssignedConcern.assignment ?_ (hnd _ _ _)).filter _
    intro a row hrow
    obtain ⟨c, -, rfl⟩ := Option.map_eq_some_iff.mp hrow
    rfl
  | concernsForAdmin => exact ((hnd _ _ _).map fun a b h => congrArg Prod.fst h).filter _
  | receivedAdvices =>
    refine (nodup_join Db.ReceivedAdvice.advice ?_ (hnd _ _ _)).filter _
    intro a row hrow
    obtain ⟨c, -, rfl⟩ := Option.map_eq_some_iff.mp hrow
    rfl
  | advicesWritten => exact (hnd _ _ _).filter _
  | advicesForAdmin => exact (hnd _ _ _).filter _
  | myFeedbacks => exact hnd _ _ _
  | feedbacksForAdmin =>
    refine (nodup_join Prod.fst ?_ (nodup_newestFirst.mpr (rows_nodup _))).filter _
    intro f row hrow
    obtain ⟨a, -, rfl⟩ := Option.map_eq_some_iff.mp hrow
    rfl
  | myNotifications =>
    exact ((List.perm_insertionSort _ _).nodup_iff.mpr ((rows_nodup _).filter _)).filter _

theorem sorted_join {α β : Type} {join : α → Option β} (source : β → α) (time : α → Time)
    (hsource : ∀ a b, join a = some b → source b = a) (rows : List α) :
    ((newestFirst time rows).filterMap join).Pairwise fun b b' => time (source b') ≤ time (source b) :=
  (sorted_newestFirst time rows).filterMap join fun a a' h b hb b' hb' => by
    rw [hsource a b hb, hsource a' b' hb']
    exact h

theorem sorted_of_time (hq : ∀ row, q.tiebreak row = 0) {rows : List q.Row}
    (h : rows.Pairwise fun a b => q.time b ≤ q.time a) : rows.Pairwise q.before :=
  h.imp fun {a b} hle => (Nat.lt_or_eq_of_le hle).imp id fun heq => ⟨heq.symm, by rw [hq, hq]⟩

theorem sorted_insertionSort (q : ListQuery) (rows : List q.Row) :
    (rows.insertionSort q.before).Pairwise q.before :=
  List.pairwise_insertionSort _ _

/-- The order the view itself lists the rows in is one the database may answer with. -/
theorem isAnswer_rows : IsAnswer q.before (q.rows icontains db) (q.rows icontains db) := by
  refine ⟨.refl _, ?_⟩
  cases q with
  | advisorApplications =>
    exact sorted_of_time (fun _ => rfl) ((sorted_newestFirst AdvisorApplication.submittedAt _).filter _)
  | myConcerns =>
    exact sorted_of_time (fun _ => rfl)
      ((List.pairwise_map.mpr (sorted_newestFirst Concern.createdAt _)).filter _)
  | assignedConcerns =>
    refine sorted_of_time (fun _ => rfl)
      ((sorted_join Db.AssignedConcern.assignment Assignment.assignedAt ?_ _).filter _)
    intro a row hrow
    obtain ⟨c, -, rfl⟩ := Option.map_eq_some_iff.mp hrow
    rfl
  | concernsForAdmin =>
    exact sorted_of_time (fun _ => rfl)
      ((List.pairwise_map.mpr (sorted_newestFirst Concern.createdAt _)).filter _)
  | receivedAdvices =>
    refine sorted_of_time (fun _ => rfl)
      ((sorted_join Db.ReceivedAdvice.advice Advice.createdAt ?_ _).filter _)
    intro a row hrow
    obtain ⟨c, -, rfl⟩ := Option.map_eq_some_iff.mp hrow
    rfl
  | advicesWritten =>
    exact sorted_of_time (fun _ => rfl) ((sorted_newestFirst Advice.createdAt _).filter _)
  | advicesForAdmin =>
    exact sorted_of_time (fun _ => rfl) ((sorted_newestFirst Advice.createdAt _).filter _)
  | myFeedbacks => exact sorted_of_time (fun _ => rfl) (sorted_newestFirst Feedback.createdAt _)
  | feedbacksForAdmin =>
    refine sorted_of_time (fun _ => rfl) ((sorted_join Prod.fst Feedback.createdAt ?_ _).filter _)
    intro f row hrow
    obtain ⟨a, -, rfl⟩ := Option.map_eq_some_iff.mp hrow
    rfl
  | myNotifications user filters =>
    exact (sorted_insertionSort (myNotifications user filters) _).filter _

/-! The pages. -/

/-- The items of pages 1 to `total_pages`, one request a page. Each of them runs the query
again, and gets the answer of its own. -/
def allPages (q : ListQuery) (size total : ℕ) (answers : ℕ → List q.Row) : List q.Row :=
  (List.range (numPages total size)).flatMap fun k : ℕ =>
    ((paginate ⟨.number (k + 1), some size⟩ (answers k)).map Page.items).getD []

/-- Whatever order the database puts tying rows in for each page, the pages together show
every row exactly once. -/
def ShowsEachRowOnce (icontains : String → String → Bool) (db : Db) (q : ListQuery) (size : ℕ) :
    Prop :=
  ∀ answers : ℕ → List q.Row, (∀ k, IsAnswer q.before (q.rows icontains db) (answers k)) →
    (q.allPages size (q.rows icontains db).length answers).Perm (q.rows icontains db)

theorem pageSize_some {size : ℕ} (h : 1 ≤ size) (hmax : size ≤ 100) (page : PageParam) :
    PageQuery.pageSize ⟨page, some size⟩ = size := by
  have hpos : (0 : ℤ) < size := by omega
  simp only [PageQuery.pageSize, hpos, if_true, Int.toNat_natCast]
  omega

theorem le_numPages_mul {size : ℕ} (h : 1 ≤ size) (total : ℕ) :
    total ≤ numPages total size * size := by
  have := Nat.lt_div_mul_add (a := max 1 total + size - 1) h
  rw [numPages]
  omega

/-- Each page there is is found, and is the piece of its answer that its number says. -/
theorem allPages_eq {size total : ℕ} (h : 1 ≤ size) (hmax : size ≤ 100)
    {answers : ℕ → List q.Row} (hlen : ∀ k, (answers k).length = total) :
    q.allPages size total answers = concat size (numPages total size) answers := by
  refine List.flatMap_congr fun k hk => ?_
  have hk' : (k : ℤ) + 1 ≤ numPages total size := by
    have := List.mem_range.mp hk
    omega
  have hnum : ((k : ℤ) + 1).toNat = k + 1 := by omega
  simp [paginate, pageSize_some h hmax, PageQuery.pageNumber, hlen, hk', hnum, page]

theorem showsEachRowOnce_concat {size : ℕ} (h : 1 ≤ size) (hmax : size ≤ 100) :
    ShowsEachRowOnce icontains db q size ↔
      ∀ answers : ℕ → List q.Row, (∀ k, IsAnswer q.before (q.rows icontains db) (answers k)) →
        (concat size (numPages (q.rows icontains db).length size) answers).Perm
          (q.rows icontains db) := by
  refine forall_congr' fun answers => imp_congr_right fun hans => ?_
  rw [allPages_eq h hmax fun k => (hans k).perm.length_eq]

theorem ShowsEachRowOnce.not_straddles {size : ℕ} (h : 1 ≤ size) (hmax : size ≤ 100)
    (honce : ShowsEachRowOnce icontains db q size) :
    ¬ Straddles q.before size (q.rows icontains db) :=
  (concat_perm_iff nodup_rows (le_numPages_mul h _)).mp ((showsEachRowOnce_concat h hmax).mp honce)

theorem showsEachRowOnce_of_not_straddles {size : ℕ} (h : 1 ≤ size) (hmax : size ≤ 100)
    (hs : ¬ Straddles q.before size (q.rows icontains db)) :
    ShowsEachRowOnce icontains db q size :=
  (showsEachRowOnce_concat h hmax).mpr ((concat_perm_iff nodup_rows (le_numPages_mul h _)).mpr hs)

/-- A list shows each row exactly once if and only if no group of rows that tie, on the
timestamp and for the notifications on the id as well, lies across a page's end. -/
theorem showsEachRowOnce_iff (icontains : String → String → Bool) (db : Db) (q : ListQuery)
    (size : ℕ) (h : 1 ≤ size) (hmax : size ≤ 100) :
    ShowsEachRowOnce icontains db q size ↔ ¬ Straddles q.before size (q.rows icontains db) :=
  ⟨fun honce => honce.not_straddles h hmax, showsEachRowOnce_of_not_straddles h hmax⟩

def concernAt (id : Id) (t : Time) : Concern :=
  { id := id, author := 1, fields := { concernSummary := "", concernType := .burnout }, createdAt := t }

/-- A user's three concerns. The newer two were submitted at one instant. -/
def twins : Db where
  concerns := ((Table.empty.insert (concernAt 1 0)).insert (concernAt 2 5)).insert (concernAt 3 5)

/-- In pages of two, the twins are on one page. -/
theorem showsEachRowOnce_twins :
    ShowsEachRowOnce (fun _ _ => true) twins (.myConcerns 1 none) 2 := by
  refine (showsEachRowOnce_iff _ _ _ _ (by decide) (by decide)).mpr ?_
  rintro ⟨row, hrow, k, hlo, hhi⟩
  have hplace : ∀ row ∈ (myConcerns 1 none).rows (fun _ _ => true) twins,
      upTo (myConcerns 1 none).before ((myConcerns 1 none).rows (fun _ _ => true) twins) row =
        if row.1.createdAt = 5 then 2 else 3 := by decide
  have hplace' : ∀ row ∈ (myConcerns 1 none).rows (fun _ _ => true) twins,
      ahead (myConcerns 1 none).before ((myConcerns 1 none).rows (fun _ _ => true) twins) row =
        if row.1.createdAt = 5 then 0 else 2 := by decide
  rw [hplace row hrow] at hhi
  rw [hplace' row hrow] at hlo
  split_ifs at hlo hhi <;> omega

/-- In pages of one, the first page and the second may show the same twin. -/
theorem twins_repeated :
    ¬ ∀ (icontains : String → String → Bool) (db : Db) (q : ListQuery) (size : ℕ),
      1 ≤ size → size ≤ 100 → ShowsEachRowOnce icontains db q size := by
  intro hall
  have honce := hall (fun _ _ => true) twins (.myConcerns 1 none) 1 (by decide) (by decide)
  exact honce.not_straddles (by decide) (by decide)
    ⟨(concernAt 2 5, false), by decide, 1, by decide, by decide⟩

/-- Where the keys tell the rows apart, no page repeats or loses one. -/
theorem showsEachRowOnce_of_keys {size : ℕ} (h : 1 ≤ size) (hmax : size ≤ 100)
    (hkeys : ∀ a ∈ q.rows icontains db, ∀ b ∈ q.rows icontains db,
      q.time a = q.time b → q.tiebreak a = q.tiebreak b → a = b) :
    ShowsEachRowOnce icontains db q size := by
  refine showsEachRowOnce_of_not_straddles h hmax
    (not_straddles nodup_rows fun a ha b hb hab hba => ?_)
  obtain hab | ⟨htime, hab⟩ := hab <;> obtain hba | ⟨htime', hba⟩ := hba
  · exact absurd hab (Nat.lt_asymm hba)
  · exact absurd htime' (Nat.ne_of_lt hab)
  · exact absurd htime (Nat.ne_of_lt hba)
  · exact hkeys a ha b hb htime (Nat.le_antisymm hba hab)

/-- The ids tell any two notifications apart. -/
theorem notifications_showEachRowOnce (user : Id) (filters : NotificationQuery) {size : ℕ}
    (h : 1 ≤ size) (hmax : size ≤ 100) :
    ShowsEachRowOnce icontains db (.myNotifications user filters) size := by
  refine showsEachRowOnce_of_keys h hmax fun a ha b hb _ hid => ?_
  have hmem {n : Notification} (hn : n ∈ rows icontains db (.myNotifications user filters)) :
      n ∈ db.notifications :=
    (List.mem_filter.mp ((List.mem_insertionSort _).mp (List.mem_filter.mp hn).1)).1
  exact db.notifications.eq_of_key (hmem ha) (hmem hb) hid

end ListQuery

end Chamneul
