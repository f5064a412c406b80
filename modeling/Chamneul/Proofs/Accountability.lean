import Chamneul.Proofs.Authorization
import Chamneul.Proofs.Origins

/-! The rows name who did what: who granted a role, filed, assigned, wrote, edited, reviewed, rated or
notified. Every name an API run adds is one of somebody who had the standing for it before. Reviews
are stamped by the program, with a time off the clock, and all else by the statement that inserts it. -/

namespace Chamneul

open ReadCommitted ReadCommitted.Prog Service

/-- Some row says that a user did something that takes the standing, and when. -/
inductive Signed (db : Db) : Standing → Id → Option Time → Prop
  | granted (g : RoleGrant) (h : g ∈ db.roleGrants) : Signed db .admin g.actedBy (some g.actedAt)
  | applied (a : AdvisorApplication) (h : a ∈ db.applications) :
      Signed db .member a.applicant (some a.submittedAt)
  | decided (a : AdvisorApplication) (h : a ∈ db.applications) (user : Id)
      (hby : a.reviewedBy = some user) : Signed db .admin user a.reviewedAt
  | asked (c : Concern) (h : c ∈ db.concerns) : Signed db .member c.author (some c.createdAt)
  | assigned (a : Assignment) (h : a ∈ db.assignments) :
      Signed db .admin a.assignedBy (some a.assignedAt)
  | advised (a : Advice) (h : a ∈ db.advices) : Signed db .advisor a.advisor (some a.createdAt)
  | reviewed (a : Advice) (h : a ∈ db.advices) (user : Id) (hby : a.reviewedBy = some user) :
      Signed db .admin user a.reviewedAt
  | edited (x : AdviceHistory) (h : x ∈ db.histories) : Signed db .advisor x.editedBy (some x.editedAt)
  | rated (f : Feedback) (h : f ∈ db.feedbacks) : Signed db .member f.author (some f.createdAt)
  | filed (f : Feedback) (h : f ∈ db.feedbacks) (user : Id) (hby : f.reviewedBy = some user) :
      Signed db .admin user f.reviewedAt
  | notified (n : Notification) (h : n ∈ db.notifications) (user : Id)
      (hby : n.actorUser = some user) : Signed db .admin user (some n.createdAt)

def Write.reviewedAt : Write → Option Time
  | .updateApplication _ s => s.reviewedAt
  | .saveAdvice a => a.reviewedAt
  | .updateFeedback _ s => s.reviewed.map (·.2)
  | _ => none

/-- One change, permitted on `db₁`, signs nothing but in the name of who makes it. -/
theorem signed_apply {user : Id} {standing : Standing} {db₁ db : Db} {e : Env} {x : Write}
    (hx : Permits user standing db₁ x) {st : Standing} {u : Id} {stamp : Option Time}
    (h : Signed (apply e x db) st u stamp) :
    Signed db st u stamp ∨ Signed db₁ st u stamp ∨
      st = standing ∧ u = user ∧ (stamp = some e.now ∨ stamp = x.reviewedAt) := by
  cases h with
  | granted g h =>
    obtain h | ⟨y, rfl, rfl⟩ := roleGrant_origin h
    · exact .inl (.granted g h)
    · exact .inr (.inr ⟨hx.1.symm, hx.2, .inl rfl⟩)
  | applied a h =>
    obtain h | ⟨y, rfl, rfl⟩ | ⟨id, s, a₀, h₀, rfl, rfl⟩ := application_origin h
    · exact .inl (.applied a h)
    · exact .inr (.inr ⟨hx.1.symm, hx.2.1, .inl rfl⟩)
    · exact .inl (.applied a₀ h₀)
  | decided a h _ hby =>
    obtain h | ⟨y, rfl, rfl⟩ | ⟨id, s, a₀, h₀, rfl, rfl⟩ := application_origin h
    · exact .inl (.decided a h u hby)
    · exact absurd (hby.symm.trans hx.2.2.2) (Option.some_ne_none u)
    · exact .inr (.inr ⟨hx.1.symm, Option.some.inj (hby.symm.trans hx.2.1), .inr rfl⟩)
  | asked c h =>
    obtain h | ⟨y, rfl, rfl⟩ | ⟨id, s, c₀, h₀, rfl, rfl⟩ := concern_origin h
    · exact .inl (.asked c h)
    · exact .inr (.inr ⟨hx.1.symm, hx.2.1, .inl rfl⟩)
    · exact .inl (.asked c₀ h₀)
  | assigned a h =>
    obtain h | ⟨y, rfl, rfl⟩ | ⟨id, t, a₀, h₀, rfl, rfl⟩ := assignment_origin h
    · exact .inl (.assigned a h)
    · exact .inr (.inr ⟨hx.1.symm, hx.2, .inl rfl⟩)
    · exact .inl (.assigned a₀ h₀)
  | advised a h =>
    obtain h | ⟨y, rfl, rfl⟩ | ⟨id, s, a₀, h₀, rfl, rfl⟩ | ⟨y, a₀, h₀, rfl, rfl⟩ := advice_origin h
    · exact .inl (.advised a h)
    · exact .inr (.inr ⟨hx.1.symm, hx.2.1, .inl rfl⟩)
    · exact .inl (.advised a₀ h₀)
    · -- the instance was read from `db₁`, and brings its author along
      obtain ⟨-, -, a₁, hget, -, hadvisor, -, -, hcreated⟩ := hx
      have hold := Signed.advised a₁ (Table.get?_eq_some.mp hget).1
      rw [← hadvisor, ← hcreated] at hold
      exact .inr (.inl hold)
  | reviewed a h _ hby =>
    obtain h | ⟨y, rfl, rfl⟩ | ⟨id, s, a₀, h₀, rfl, rfl⟩ | ⟨y, a₀, h₀, rfl, rfl⟩ := advice_origin h
    · exact .inl (.reviewed a h u hby)
    · exact absurd (hby.symm.trans hx.2.2.2) (Option.some_ne_none u)
    · exact .inl (.reviewed a₀ h₀ u hby)
    · exact .inr (.inr ⟨hx.1.symm, Option.some.inj (hby.symm.trans hx.2.1), .inr rfl⟩)
  | edited y h =>
    obtain h | ⟨z, rfl, rfl⟩ := history_origin h
    · exact .inl (.edited y h)
    · exact .inr (.inr ⟨hx.1.symm, hx.2.1, .inl rfl⟩)
  | rated f h =>
    obtain h | ⟨y, rfl, rfl⟩ | ⟨id, s, f₀, h₀, rfl, rfl⟩ := feedback_origin h
    · exact .inl (.rated f h)
    · exact .inr (.inr ⟨hx.1.symm, hx.2.1, .inl rfl⟩)
    · exact .inl (.rated f₀ h₀)
  | filed f h _ hby =>
    obtain h | ⟨y, rfl, rfl⟩ | ⟨id, s, f₀, h₀, rfl, rfl⟩ := feedback_origin h
    · exact .inl (.filed f h u hby)
    · exact absurd (hby.symm.trans hx.2.2.1) (Option.some_ne_none u)
    · cases hs : s.reviewed with
      | none =>
        rw [FeedbackSet.apply, hs] at hby ⊢
        exact .inl (.filed f₀ h₀ u hby)
      | some r =>
        rw [FeedbackSet.apply, hs] at hby
        refine .inr (.inr ⟨hx.1.symm, (Option.some.inj hby).symm.trans (hx.2 r hs), .inr ?_⟩)
        rw [FeedbackSet.apply, Write.reviewedAt, hs]
        rfl
  | notified n h _ hby =>
    obtain h | ⟨y, rfl, rfl⟩ | ⟨id, t, n₀, h₀, rfl, rfl⟩ := notification_origin h
    · exact .inl (.notified n h u hby)
    · exact .inr (.inr ⟨hx.1.symm, Option.some.inj (hby.symm.trans hx.2), .inl rfl⟩)
    · exact .inl (.notified n₀ h₀ u hby)

theorem signed_of_update {db : Db} {e : Env} {id : Id} {s : ConcernSet} {st : Standing} {u : Id}
    {stamp : Option Time} (h : Signed (apply e (.updateConcern id s) db) st u stamp) :
    Signed db st u stamp := by
  cases h with
  | asked c h =>
    obtain h | ⟨c₀, h₀, -, rfl⟩ := Table.of_mem_update (s.key_apply e) h
    · exact .asked c h
    · exact .asked c₀ h₀
  | granted g h => exact .granted g h
  | applied a h => exact .applied a h
  | decided a h _ hby => exact .decided a (show a ∈ db.applications from h) u hby
  | assigned a h => exact .assigned a h
  | advised a h => exact .advised a h
  | reviewed a h _ hby => exact .reviewed a (show a ∈ db.advices from h) u hby
  | edited x h => exact .edited x h
  | rated f h => exact .rated f h
  | filed f h _ hby => exact .filed f (show f ∈ db.feedbacks from h) u hby
  | notified n h _ hby => exact .notified n (show n ∈ db.notifications from h) u hby

/-- The same of an arrival: the staff signs nothing. -/
theorem signed_arrival {a : Arrival} {db₁ db : Db} {e : Env} {x : Write} (hx : a.Permits db₁ x)
    {st : Standing} {u : Id} {stamp : Option Time} (h : Signed (apply e x db) st u stamp) :
    Signed db st u stamp ∨ Signed db₁ st u stamp ∨
      ∃ r, a = .request u r ∧ st = r.standing ∧ (stamp = some e.now ∨ stamp = x.reviewedAt) := by
  cases a with
  | request user r =>
    obtain hold | hold | ⟨hst, rfl, hstamp⟩ := signed_apply hx h
    · exact .inl hold
    · exact .inr (.inl hold)
    · exact .inr (.inr ⟨r, rfl, hst, hstamp⟩)
  | closeSelected ids | softDeleteSelected ids | restoreSelected ids =>
    obtain ⟨id, s, rfl, -⟩ := hx
    exact .inl (signed_of_update h)

def Call.Reviews : Call → Prop
  | .reviewApplication .. | .reviewAdvice .. | .transitionFeedback .. => True
  | _ => False

theorem reviews_of_committed {drift : Db → Db → Prop} {L : Set Key} {w : Pending Write} {db : Db}
    {call : Call} (h : Committed drift L w db call) :
    ∀ p ∈ w, ∀ t ∈ p.2.reviewedAt, call.Reviews := by
  intro p hp t ht
  have htable := table_of_committed h p hp
  cases call with
  | reviewApplication | reviewAdvice | transitionFeedback => trivial
  | createApplication applicant displayName =>
    obtain ⟨e, db₁, db₂, -, -, -, -, rfl⟩ := h
    obtain rfl := List.mem_singleton.mp hp
    cases ht
  | createAdvice id advisor body submit =>
    obtain ⟨e, db₁, db₂, row, -, -, -, -, -, rfl⟩ := h
    obtain rfl := List.mem_singleton.mp hp
    cases ht
  | updateAdvice id actor data =>
    obtain ⟨e, row, snapshot, -, -, -, -, rfl, -, hsnap⟩ := h
    obtain hp | hp := List.mem_append.mp hp
    · rw [hsnap.eq_of_mem hp] at ht
      cases ht
    · obtain rfl := List.mem_singleton.mp hp
      cases ht
  | deleteAdvice id actor =>
    obtain ⟨e, row, -, -, -, -, rfl⟩ := h
    obtain rfl := List.mem_singleton.mp hp
    cases ht
  | createFeedback id author data =>
    obtain ⟨e, db₁, row, concern, -, -, -, -, -, -, rfl⟩ := h
    obtain rfl := List.mem_singleton.mp hp
    cases ht
  | _ =>
    obtain ⟨e, x⟩ := p
    cases x <;> simp [Write.table, Call.tables, Write.reviewedAt] at htable ht

section

variable {lo : ℕ}

def Write.Dated (lo : ℕ) (x : Write) : Prop := ∀ t ∈ x.reviewedAt, lo < t

theorem dated_of_none {x : Write} (h : x.reviewedAt = none) : x.Dated lo := by
  intro t ht
  rw [h] at ht
  cases ht

theorem writesAfter_write {α : Type} {x : Write} {out : Env → Db → α} (h : x.Dated lo) :
    (write x out).WritesAfter lo (Write.Dated lo) :=
  writesAfter_execute fun _ _ hx => List.mem_singleton.mp hx ▸ h

theorem writesAfter_getOr {α : Type} {P : Write → Prop} (absent : APIException) (found : Option α) :
    (getOr absent found).WritesAfter lo P := by
  cases found <;> trivial

theorem writesAfter_lockOr {α : Type} {P : Write → Prop} {absent : APIException} (k : Key)
    (row : Db → Option α) : (lockOr absent k row).WritesAfter lo P :=
  (writesAfter_queryForUpdate _ _).bind fun _ => writesAfter_getOr _ _

theorem writesAfter_reviewEffects (application : AdvisorApplication) (actor : Id)
    (target : AdvisorApplicationStatus) (reason : String) :
    (reviewEffects application actor target reason).WritesAfter lo (Write.Dated lo) := by
  have hrole : (getOrCreateAdvisorRole application.applicant).WritesAfter lo (Write.Dated lo) := by
    refine (writesAfter_query _).bind fun _ => ?_
    split
    · trivial
    · exact (writesAfter_write (dated_of_none rfl)).handle fun _ =>
        (writesAfter_query _).bind fun _ => writesAfter_raiseIf _ _
  unfold reviewEffects
  split
  · exact hrole.bind fun _ => (writesAfter_write (dated_of_none rfl)).bind fun _ =>
      writesAfter_write (dated_of_none rfl)
  · exact writesAfter_write (dated_of_none rfl)

theorem writesAfter_decisionEffects (advice : Advice) (concern : Concern) (actor : Id)
    (decision : Decision) (reason : String) :
    (decisionEffects advice concern actor decision reason).WritesAfter lo (Write.Dated lo) := by
  cases decision with
  | approved =>
    exact (writesAfter_write (dated_of_none rfl)).runIf.bind fun _ =>
      writesAfter_write (dated_of_none rfl)
  | rejected => exact writesAfter_write (dated_of_none rfl)

end

/-- The time of a review comes off the clock. -/
theorem program_dated {call : Call} (h : call.Reviews) (lo : ℕ) :
    (program call).WritesAfter lo (Write.Dated lo) := by
  cases call with
  | reviewApplication id actor target reason =>
    refine WritesAfter.atomic ((writesAfter_lockOr _ _).bind fun application => ?_)
    refine (writesAfter_raiseIf _ _).bind fun _ => (writesAfter_raiseIf _ _).bind fun _ => ?_
    refine writesAfter_time_bind fun now hnow => (writesAfter_write ?_).bind fun _ =>
      (writesAfter_reviewEffects _ _ _ _).bind fun _ => trivial
    exact fun t ht => Option.mem_some.mp ht ▸ hnow
  | reviewAdvice id actor decision reason expectedVersion =>
    refine WritesAfter.atomic ((writesAfter_lockOr _ _).bind fun advice => ?_)
    refine (writesAfter_raiseIf _ _).bind fun _ => (writesAfter_raiseIf _ _).bind fun _ =>
      (writesAfter_raiseIf _ _).bind fun _ => (writesAfter_raiseIf _ _).bind fun _ => ?_
    refine (writesAfter_queryForUpdate _ _).bind fun found => (writesAfter_getOr _ _).bind fun concern =>
      (writesAfter_raiseIf _ _).bind fun _ => ?_
    refine writesAfter_time_bind fun now hnow => (writesAfter_write ?_).bind fun _ =>
      (writesAfter_decisionEffects _ _ _ _ _).bind fun _ => trivial
    exact fun t ht => Option.mem_some.mp ht ▸ hnow
  | transitionFeedback id actor newStatus memo =>
    refine (writesAfter_query _).bind fun _ => (writesAfter_getOr _ _).bind fun _ =>
      (writesAfter_raiseIf _ _).bind fun _ => ?_
    refine writesAfter_time_bind fun now hnow => WritesAfter.atomic (writesAfter_write fun t ht => ?_)
    obtain ⟨r, hr, rfl⟩ := Option.mem_map.mp ht
    unfold transitionSet at hr
    split_ifs at hr
    · exact Option.mem_some.mp hr ▸ hnow
    · cases hr
  | _ => cases h

/-- One world of the run gave the user the standing, and before the time stamped on the row. -/
def Vouched (σs : List (World Db)) (standing : Standing) (user : Id) (stamp : Option Time) : Prop :=
  ∃ σ ∈ σs, (∀ t ∈ stamp, σ.now < t) ∧ standing.holds σ.db user

theorem Vouched.later {σs : List (World Db)} {standing : Standing} {user : Id} {stamp : Option Time}
    (h : Vouched σs standing user stamp) (σ : World Db) : Vouched (σs ++ [σ]) standing user stamp := by
  obtain ⟨σ₁, hσ₁, hstamp, hholds⟩ := h
  exact ⟨σ₁, List.mem_append_left _ hσ₁, hstamp, hholds⟩

theorem signed_commit {σ₀ : World Db} {d : Config system} {σs : List (World Db)}
    (hd : Config.Through (fun db call => ∃ a : Arrival, a.Admits db call) (Config.idle σ₀) d σs)
    {t : ℕ} {s : Session system} {n} (hslot : d.slot t = some s) (hp : s.prog = .commit n)
    {st : Standing} {u : Id} {stamp : Option Time}
    (h : Signed (applyAll s.writes d.world.db) st u stamp) :
    Signed d.world.db st u stamp ∨ Vouched σs st u stamp := by
  obtain ⟨σ, hσ, -, ⟨a, hadmits⟩, hlate, hdated⟩ := hd.admitted hslot
  have hcommitted := settled_of_slot hd.reaches hslot hp
  have hpermits := permitted_of_admitted hcommitted hadmits
  have hmade : ∀ (p : Env × Write) (db : Db), Signed (apply p.1 p.2 db) st u stamp →
      Signed db st u stamp ∨ (a.Permits d.world.db p.2 → Signed d.world.db st u stamp ∨
        ∃ r, a = .request u r ∧ st = r.standing ∧
          (stamp = some p.1.now ∨ stamp = p.2.reviewedAt)) := by
    intro p db hafter
    by_cases hx : a.Permits d.world.db p.2
    · exact (signed_arrival hx hafter).imp id fun hnew _ => hnew
    · exact .inr fun hx' => absurd hx' hx
  obtain hold | ⟨p, hmem, hnew⟩ :=
    held_of_applyAll (I := fun db : Db => Signed db st u stamp) hmade h
  · exact .inl hold
  obtain hold | ⟨r, rfl, rfl, hstamp⟩ := hnew (hpermits p hmem)
  · exact .inl hold
  refine .inr ⟨σ, hσ, fun t ht => ?_, hadmits.2⟩
  obtain rfl | rfl := hstamp
  · obtain rfl := Option.mem_some.mp ht
    exact hlate p hmem
  · have hreviews := reviews_of_committed hcommitted p hmem t ht
    exact (hdated _ (program_dated hreviews _)).2 p hmem t ht

/-- Every row that names who did something was there, or names somebody who had the standing for it
in a world of the run, and had it before the time the row is stamped with. -/
theorem records_accountable {icontains : String → String → Bool} {σ₀ : World Db}
    {c : Config (api icontains)} {σs : List (World Db)} (h : Config.Run (Config.idle σ₀) c σs)
    {standing : Standing} {user : Id} {stamp : Option Time}
    (hs : Signed c.world.db standing user stamp) :
    Signed σ₀.db standing user stamp ∨ Vouched σs standing user stamp := by
  obtain ⟨d, hd, hbehind⟩ := services_behind h
  rw [← hbehind.world] at hs
  refine hd.invariant (I := fun σs db => ∀ st u stamp, Signed db st u stamp →
    Signed σ₀.db st u stamp ∨ Vouched σs st u stamp) (fun _ _ _ hs => .inl hs) ?_ ?_ _ _ _ hs
  · exact fun σs σ hold st u stamp hs => (hold st u stamp hs).imp id fun hv => hv.later σ
  · intro d σs t s n hd hslot hp hold st u stamp hs
    obtain hs | hv := signed_commit hd hslot hp hs
    · exact hold st u stamp hs
    · exact .inr hv

def memberPosted : Config (api fun _ _ => false) := memberPosting.after [.run 0 0]

theorem not_signed_oneMember (standing : Standing) (user : Id) (stamp : Option Time) :
    ¬ Signed oneMember.db standing user stamp := by
  intro h
  cases h with
  | granted _ h | applied _ h | decided _ h | asked _ h | assigned _ h | advised _ h | reviewed _ h
  | edited _ h | rated _ h | filed _ h | notified _ h => exact absurd h (Table.not_mem_empty _)

theorem records_accountable_posted : ∃ σs, Config.Run (Config.idle oneMember) memberPosted σs ∧
    Signed memberPosted.world.db .member 1 (some 2) ∧ Vouched σs .member 1 (some 2) := by
  have hposted : Config.Reachable (Config.idle oneMember) memberPosted :=
    (Config.reachable_after _ _).trans (Config.reachable_after _ _)
  obtain ⟨σs, h⟩ := hposted.through
  have hsigned : Signed memberPosted.world.db .member 1 (some 2) :=
    .asked { id := 7, author := 1, fields := { concernSummary := "", concernType := .burnout }
             createdAt := 2, updatedAt := 2 } (List.mem_singleton_self _)
  exact ⟨σs, h, hsigned, (records_accountable h hsigned).resolve_left (not_signed_oneMember _ _ _)⟩

end Chamneul
