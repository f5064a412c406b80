import Chamneul.Proofs.ApplicationLifecycle
import Chamneul.Store.Sessions

/-! One application in progress per user. `create_application` looks for one and then
inserts, and no constraint backs the look: the rule holds as long as a user's calls
do not pass it together. -/

namespace Chamneul

open ReadCommitted ReadCommitted.Prog Service

def AdvisorApplication.InProgress (a : AdvisorApplication) : Prop :=
  a.status = .pending ∨ a.status = .reviewing

def OneInProgress (db : Db) : Prop :=
  ∀ a ∈ db.applications, ∀ b ∈ db.applications, a.applicant = b.applicant → a.InProgress →
    b.InProgress → a = b

def NoneInProgress (user : Id) (db : Db) : Prop :=
  ∀ a ∈ db.applications, a.applicant = user → ¬ a.InProgress

/-- What `blocking` looks for is there if an application is in progress. -/
theorem noneInProgress_of_blocks {db : Db} {user : Id} {holdsAdvisor : Bool}
    (h : db.blocks user holdsAdvisor = false) : NoneInProgress user db := by
  intro a ha huser hprogress
  have hrow := (Table.any_eq_false_iff _ _).mp h a ha
  rcases hprogress with hs | hs <;>
    simp [huser, hs, AdvisorApplicationStatus.isActive] at hrow

/-! What a transaction does to the applications. -/

/-- One application more, or one reviewed, or the table as it was. -/
inductive ApplicationsStep (db : Db) (call : Call) (db' : Db) : Prop
  | filed (new : AdvisorApplication)
      (hcall : call = .createApplication new.applicant new.displayName)
      (hrows : db'.applications = db.applications.insert new)
  | reviewed (row : AdvisorApplication) (set : ApplicationSet)
      (hrow : db.applications.get? row.id = some row) (hset : set.status ∈ row.status.allowed)
      (hrows : db'.applications = db.applications.update row.id set.apply set.key_apply)
  | same (hrows : db'.applications = db.applications)

theorem applications_committed {drift : Db → Db → Prop} {L : Set Key} {w : Pending Write} {db : Db}
    {call : Call} (h : Committed drift L w db call) : ApplicationsStep db call (applyAll w db) := by
  cases call with
  | createApplication applicant displayName =>
    obtain ⟨e, db₁, db₂, -, -, -, -, rfl⟩ := h
    exact .filed _ rfl rfl
  | reviewApplication id actor target reason =>
    obtain ⟨row, e₁, e₂, now, effects, -, hrow, htarget, -, -, rfl, happ, hrej⟩ := h
    obtain rfl : row.id = id := (Table.get?_eq_some.mp hrow).2
    have heffects : ∀ p ∈ effects, p.2.table ≠ .applications := by
      by_cases ht : target = .approved
      · obtain ⟨e₃, role, hrole, -, rfl⟩ := happ ht
        cases hrole <;> simp [Write.table]
      · rw [hrej ht]
        simp [Write.table]
    exact .reviewed row _ hrow htarget (same_applyAll (t := .applications) heffects)
  | _ => exact .same (same_of_committed h (t := .applications) (by simp [Call.tables]))

/-- What is in progress afterwards is the application filed or was in progress before. -/
theorem ApplicationsStep.inProgress {db db' : Db} {call : Call} (h : ApplicationsStep db call db') :
    (∃ applicant displayName new, call = .createApplication applicant displayName ∧
      new.applicant = applicant ∧ ∀ a ∈ db'.applications, a ∈ db.applications ∨ a = new) ∨
    ∀ a' ∈ db'.applications, ∃ a ∈ db.applications, a.id = a'.id ∧ a.applicant = a'.applicant ∧
      (a'.InProgress → a.InProgress) := by
  cases h with
  | filed new hcall hrows =>
    refine Or.inl ⟨_, _, new, hcall, rfl, fun a ha => ?_⟩
    rw [hrows] at ha
    exact Table.mem_of_mem_insert ha
  | reviewed row set hrow hset hrows =>
    refine Or.inr fun a' ha' => ?_
    rw [hrows, Table.mem_update] at ha'
    obtain ⟨a, ha, rfl⟩ := ha'
    refine ⟨a, ha, ?_⟩
    split_ifs with hid
    · refine ⟨rfl, rfl, fun hprogress => ?_⟩
      obtain rfl : row = a :=
        Option.some.inj (hrow.symm.trans (Table.get?_eq_some.mpr ⟨ha, hid⟩))
      -- Only a pending application can be in progress after it.
      cases hs : row.status <;> simp only [hs, AdvisorApplicationStatus.allowed, List.mem_cons,
        List.not_mem_nil, or_false] at hset
      · exact Or.inl hs
      · exact Or.inr hs
    · exact ⟨rfl, rfl, fun h => h⟩
  | same hrows =>
    refine Or.inr fun a ha => ?_
    rw [hrows] at ha
    exact ⟨a, ha, rfl, rfl, fun h => h⟩

/-! What a `create_application` knows. -/

section

variable (applicant : Id) (displayName : String)

/-- What is left of `create_application` when nothing is in progress. -/
def applicationInsert : Service AdvisorApplication :=
  let application : AdvisorApplication := { applicant := applicant, displayName := displayName }
  handle (atomic (write (.insertApplication application) fun e _ => application.saved e)) fun _ =>
    raise (.conflict "이미 사용 중인 활동명입니다." none)

/-- What is left of it when the role is read. -/
def blockingCheck (holdsAdvisor : Bool) : Service AdvisorApplication := do
  let blocking ← query fun db => db.blocks applicant holdsAdvisor
  raiseIf (blocking = true) (.conflict "이미 진행 중인 조언가 신청이 있습니다." none)
  applicationInsert applicant displayName

theorem createApplication_reads : ∃ n, createApplication applicant displayName = .select n ∧
    ∀ db, n db = blockingCheck applicant displayName (db.hasRole applicant .advisor) :=
  ⟨_, rfl, fun _ => rfl⟩

theorem blockingCheck_reads (holdsAdvisor : Bool) :
    ∃ n, blockingCheck applicant displayName holdsAdvisor = .select n ∧ ∀ db,
      (db.blocks applicant holdsAdvisor = false ∧ n db = applicationInsert applicant displayName) ∨
        ∃ e, n db = .ret (.error e) := by
  refine ⟨_, rfl, fun db => ?_⟩
  cases hblocks : db.blocks applicant holdsAdvisor with
  | true =>
    right
    exact ⟨.conflict "이미 진행 중인 조언가 신청이 있습니다." none, by
      simp [hblocks, raiseIf, raise, Prog.andThen, bind]⟩
  | false =>
    left
    exact ⟨rfl, by simp [hblocks, raiseIf, pure, Prog.andThen, bind]⟩

theorem applicationInsert_savesLast : (applicationInsert applicant displayName).SavesLast :=
  ⟨_, _, rfl, fun _ _ => ⟨⟨_, rfl⟩, ⟨_, rfl⟩⟩⟩

/-- Where a `create_application` stands; once past its check, `P` holds. -/
inductive ApplicationPhase (P : Prop) : Service AdvisorApplication → Pending Write → Prop
  | start : ApplicationPhase P (createApplication applicant displayName) []
  | read (holdsAdvisor : Bool) :
      ApplicationPhase P (blockingCheck applicant displayName holdsAdvisor) []
  | passed (p : Service AdvisorApplication) (w : Pending Write)
      (h : Saving P (applicationInsert applicant displayName) p w) : ApplicationPhase P p w

end

section

variable {applicant : Id} {displayName : String} {c c' : Config system} {t uuid : ℕ}
  {p : Service AdvisorApplication} {w : Pending Write}

theorem ApplicationPhase.turn {P : Db → Prop}
    (hP : ∀ db holdsAdvisor, db.blocks applicant holdsAdvisor = false → P db)
    (h : ApplicationPhase applicant displayName (P c.world.db) p w)
    (ht : Config.Turn c t uuid ⟨.createApplication applicant displayName, p, w⟩ c') :
    ∃ p' w', c'.slot t = some ⟨.createApplication applicant displayName, p', w'⟩ ∧
      ApplicationPhase applicant displayName (P c'.world.db) p' w' ∧
      (p'.saving = true → p.saving = true ∨ ∃ holdsAdvisor,
        p = blockingCheck applicant displayName holdsAdvisor ∧
        c.world.db.blocks applicant holdsAdvisor = false) := by
  cases h with
  | start =>
    obtain ⟨n, hp, hn⟩ := createApplication_reads applicant displayName
    obtain ⟨-, hslot⟩ := ht.of_select hp
    refine ⟨_, _, hslot, ?_⟩
    rw [hn]
    exact ⟨.read _, fun hsaving => by cases hsaving⟩
  | read holdsAdvisor =>
    obtain ⟨n, hp, hn⟩ := blockingCheck_reads applicant displayName holdsAdvisor
    obtain ⟨hworld, hslot⟩ := ht.of_select hp
    refine ⟨_, _, hslot, ?_⟩
    rcases hn c.world.db with ⟨hblocks, hnext⟩ | ⟨e, hnext⟩
    · rw [World.view_nil, hnext, hworld]
      exact ⟨.passed _ _ (.passed (hP _ _ hblocks)), fun _ => Or.inr ⟨holdsAdvisor, rfl, hblocks⟩⟩
    · rw [World.view_nil, hnext]
      exact ⟨.passed _ _ (.returned _ _), fun hsaving => by cases hsaving⟩
  | passed p w h =>
    obtain ⟨p', w', hslot, h'⟩ :=
      Config.Turn.saving (applicationInsert_savesLast applicant displayName) h ht
    refine ⟨p', w', hslot, .passed p' w' h', fun hsaving => Or.inl ?_⟩
    cases h with
    | passed _ => exact (applicationInsert_savesLast applicant displayName).saving
    | committing r w _ => rfl
    | failing r w =>
      cases Option.some.inj ((ht.of_rollback rfl).2.symm.trans hslot)
      cases hsaving
    | returned r w => exact (ht.not_ret rfl).elim

end

def ApplicationSession (P : Id → Db → Prop) (s : Session system) (db : Db) : Prop :=
  match s with
  | ⟨.createApplication applicant displayName, p, w⟩ =>
    ApplicationPhase applicant displayName (P applicant db) p w
  | _ => True

/-- The session serves a `create_application` of `user`, which has passed its check and
has not ended. -/
def PassedCheck (user : Id) : Session system → Prop
  | ⟨.createApplication applicant _, p, _⟩ => applicant = user ∧ p.saving = true
  | _ => False

/-- The step takes a `create_application` past its check while another one of the same
user is past its own and has not ended. -/
def PassesTogether (c : Config system) (e : Event system) : Prop :=
  ∃ t t' uuid user name holdsAdvisor w s', e = .run t uuid ∧ t ≠ t' ∧
    c.slot t = some ⟨.createApplication user name, blockingCheck user name holdsAdvisor, w⟩ ∧
    c.world.db.blocks user holdsAdvisor = false ∧ c.slot t' = some s' ∧ PassedCheck user s'

/-- Where the sessions stand, given what no commit of another session spoils. -/
theorem applicationSession {ok : Config system → Event system → Prop} {σ₀ : World Db}
    {P : Id → Db → Prop}
    (hP : ∀ user db holdsAdvisor, db.blocks user holdsAdvisor = false → P user db)
    (hother : ∀ {c t t' uuid s s' n user}, Config.Reaches ok (Config.idle σ₀) c → t ≠ t' →
      ok c (.run t' uuid) → c.slot t = some s → c.slot t' = some s' → s'.prog = .commit n →
      PassedCheck user s → P user c.world.db → P user (applyAll s'.writes c.world.db))
    {c : Config system} (hr : Config.Reaches ok (Config.idle σ₀) c) {t : ℕ} {s : Session system}
    (hs : c.slot t = some s) : ApplicationSession P s c.world.db := by
  obtain ⟨call, p, w⟩ := s
  cases call with
  | createApplication applicant displayName =>
    refine hr.knows (I := fun p w db => ApplicationPhase applicant displayName (P applicant db) p w)
      (fun _ => .start) ?_ ?_ hs
    · intro c c' t uuid p w hphase hturn
      obtain ⟨p', w', hslot', hphase', -⟩ :=
        ApplicationPhase.turn (P := P applicant) (hP applicant) hphase hturn
      exact ⟨p', w', hslot', hphase'⟩
    · intro c t t' uuid p w s' n hr' hok hne hslot hslot' hp hphase
      cases hphase with
      | start => exact .start
      | read holdsAdvisor => exact .read holdsAdvisor
      | passed p w h =>
        refine .passed p w
          (h.keep (applicationInsert_savesLast applicant displayName) fun hsaving hknown => ?_)
        exact hother hr' hne hok hslot hslot' hp ⟨rfl, hsaving⟩ hknown
  | _ => trivial

section

variable {σ₀ : World Db} {c : Config system}

/-- One call of a user at a time is past its check. -/
theorem passedCheck_unique
    (hr : Config.Reaches (fun c e => ¬ PassesTogether c e) (Config.idle σ₀) c) {t t' : ℕ}
    {s s' : Session system} {user : Id} (hs : c.slot t = some s) (hs' : c.slot t' = some s')
    (hp : PassedCheck user s) (hp' : PassedCheck user s') : t = t' := by
  induction hr generalizing t t' s s' with
  | refl => cases hs
  | @step c c' e hr hok hstep ih =>
    -- A session that gets past its check leaves the others where they were.
    have hcases : ∀ {t s}, c'.slot t = some s → PassedCheck user s →
        (∃ s₀, c.slot t = some s₀ ∧ PassedCheck user s₀) ∨
        ∃ uuid name holdsAdvisor w, e = .run t uuid ∧
          c.slot t = some ⟨.createApplication user name, blockingCheck user name holdsAdvisor, w⟩ ∧
          c.world.db.blocks user holdsAdvisor = false := by
      intro t s hs hp
      obtain hold | ⟨-, hfresh⟩ | ⟨uuid, s₀, he, hslot, hcall, hturn⟩ := Config.step_slot hstep hs
      · exact Or.inl ⟨s, hold, hp⟩
      · obtain ⟨call, p, w⟩ := s
        cases call with
        | createApplication applicant name =>
          obtain ⟨-, hsaving⟩ := hp
          rw [show p = createApplication applicant name from hfresh.prog] at hsaving
          cases hsaving
        | _ => exact hp.elim
      · obtain ⟨call, p, w⟩ := s
        obtain ⟨call₀, p₀, w₀⟩ := s₀
        obtain rfl : call₀ = call := hcall
        cases call₀ with
        | createApplication applicant name =>
          obtain ⟨rfl, hsaving⟩ := hp
          have hphase : ApplicationPhase applicant name True p₀ w₀ :=
            applicationSession (P := fun _ _ => True) (fun _ _ _ _ => trivial)
              (fun _ _ _ _ _ _ _ _ => trivial) hr hslot
          obtain ⟨p', w', hslot', -, hpass⟩ :=
            ApplicationPhase.turn (P := fun _ => True) (fun _ _ _ => trivial) hphase hturn
          cases Option.some.inj (hslot'.symm.trans hs)
          rcases hpass hsaving with hsaving₀ | ⟨holdsAdvisor, rfl, hblocks⟩
          · exact Or.inl ⟨_, hslot, rfl, hsaving₀⟩
          · exact Or.inr ⟨uuid, name, holdsAdvisor, w₀, he, hslot, hblocks⟩
        | _ => exact hp.elim
    rcases hcases hs hp with ⟨s₀, hs₀, hp₀⟩ | ⟨uuid, name, holdsAdvisor, w, he, hslot, hblocks⟩
    · rcases hcases hs' hp' with ⟨s₁, hs₁, hp₁⟩ | ⟨uuid, name, holdsAdvisor, w, he, hslot, hblocks⟩
      · exact ih hs₀ hs₁ hp₀ hp₁
      · by_contra hne
        exact hok ⟨t', t, uuid, user, name, holdsAdvisor, w, s₀, he, fun h => hne h.symm, hslot, hblocks,
          hs₀, hp₀⟩
    · rcases hcases hs' hp' with ⟨s₁, hs₁, hp₁⟩ | ⟨uuid', name', holdsAdvisor', w', he', -, -⟩
      · by_contra hne
        exact hok ⟨t, t', uuid, user, name, holdsAdvisor, w, s₁, he, hne, hslot, hblocks, hs₁, hp₁⟩
      · have hrun := he.symm.trans he'
        cases hrun
        rfl

/-- A session past its check has nothing else of its user in progress. -/
theorem noneInProgress_of_passed
    (hr : Config.Reaches (fun c e => ¬ PassesTogether c e) (Config.idle σ₀) c) {t : ℕ}
    {s : Session system} {user : Id} (hs : c.slot t = some s) (hp : PassedCheck user s) :
    NoneInProgress user c.world.db := by
  have hsession := applicationSession (P := NoneInProgress)
    (fun user db holdsAdvisor => noneInProgress_of_blocks) ?_ hr hs
  · obtain ⟨call, p, w⟩ := s
    cases call with
    | createApplication applicant name =>
      obtain ⟨rfl, hsaving⟩ := hp
      cases hsession with
      | start => cases hsaving
      | read holdsAdvisor => cases hsaving
      | passed _ _ h => exact h.of_saving hsaving
    | _ => exact hp.elim
  · intro c t t' uuid s s' n user hr' hne _ hslot hslot' hprog hp hnone
    have hcom := committed_of_slot hr' hslot' hprog
    intro a ha huser
    rcases (applications_committed hcom).inProgress with ⟨applicant, name, new, hcall, hnew, hrows⟩ | hrows
    · -- The new application is of another user.
      rcases hrows a ha with hold | rfl
      · exact hnone a hold huser
      · refine absurd (passedCheck_unique hr' hslot hslot' hp ?_) hne
        obtain ⟨call, p, w⟩ := s'
        obtain rfl : call = .createApplication applicant name := hcall
        have hprog : p = .commit n := hprog
        exact ⟨hnew.symm.trans huser, by rw [hprog]; rfl⟩
    · obtain ⟨b, hb, -, happlicant, hprogress⟩ := hrows a ha
      exact fun h => hnone b hb (happlicant.trans huser) (hprogress h)

/-- Nobody has two applications in progress, as long as no `create_application` passes its
check while another one of the same user is between its check and its end. -/
theorem one_in_progress (h₀ : OneInProgress σ₀.db)
    (hr : Config.Reaches (fun c e => ¬ PassesTogether c e) (Config.idle σ₀) c) :
    OneInProgress c.world.db := by
  refine hr.invariant (I := fun c => OneInProgress c.world.db) h₀ ?_
  intro c e c' hr' hone hok hs
  refine Config.step_keeps hs hone ?_
  rintro t uuid s n rfl hslot hprog a ha b hb huser hprogressA hprogressB
  have hcom := committed_of_slot hr' hslot hprog
  rcases (applications_committed hcom).inProgress with ⟨applicant, name, new, hcall, hnew, hrows⟩ | hrows
  · have hnone : NoneInProgress applicant c.world.db := by
      refine noneInProgress_of_passed hr' hslot ?_
      obtain ⟨call, p, w⟩ := s
      obtain rfl : call = .createApplication applicant name := hcall
      have hprog : p = .commit n := hprog
      exact ⟨rfl, by rw [hprog]; rfl⟩
    rcases hrows a ha with holdA | rfl
    · rcases hrows b hb with holdB | rfl
      · exact hone a holdA b holdB huser hprogressA hprogressB
      · exact absurd hprogressA (hnone a holdA (huser.trans hnew))
    · rcases hrows b hb with holdB | rfl
      · exact absurd hprogressB (hnone b holdB (huser.symm.trans hnew))
      · rfl
  · obtain ⟨a₀, ha₀, hida, happa, hpa⟩ := hrows a ha
    obtain ⟨b₀, hb₀, hidb, happb, hpb⟩ := hrows b hb
    have hsame := hone a₀ ha₀ b₀ hb₀ (happa.trans (huser.trans happb.symm)) (hpa hprogressA)
      (hpb hprogressB)
    exact Table.eq_of_key _ ha hb (hida.symm.trans ((congrArg AdvisorApplication.id hsame).trans hidb))

end

theorem oneInProgress_blank : OneInProgress blank.db := fun a ha => absurd ha (Table.not_mem_empty a)

/-- Two calls of user 1 pass their checks together. -/
def doubled : Config system :=
  (Config.idle blank).after
    [.start 0 (.createApplication 1 "a"), .start 1 (.createApplication 1 "b"), .run 0 0, .run 1 0,
      .run 0 0, .run 1 0, .run 0 20, .run 0 0, .run 1 21, .run 1 0]

theorem two_in_progress : OneInProgress blank.db ∧
    Config.Reachable (Config.idle blank) doubled ∧ ¬ OneInProgress doubled.world.db := by
  refine ⟨oneInProgress_blank, Config.reachable_after _ _, fun h => ?_⟩
  have hfiled : ∀ i ∈ [20, 21], (doubled.world.db.applications.get? i).map
      (fun a => (a.applicant, a.status)) = some (1, .pending) := by decide
  obtain ⟨a, ha, hrowA⟩ := Option.map_eq_some_iff.mp (hfiled 20 (by simp))
  obtain ⟨b, hb, hrowB⟩ := Option.map_eq_some_iff.mp (hfiled 21 (by simp))
  obtain ⟨haA, hsA⟩ : a.applicant = 1 ∧ a.status = .pending := by simpa using hrowA
  obtain ⟨hbB, hsB⟩ : b.applicant = 1 ∧ b.status = .pending := by simpa using hrowB
  obtain ⟨hmA, hidA⟩ := Table.get?_eq_some.mp ha
  obtain ⟨hmB, hidB⟩ := Table.get?_eq_some.mp hb
  have hsame := h a hmA b hmB (haA.trans hbB.symm) (Or.inl hsA) (Or.inl hsB)
  rw [hsame] at hidA
  exact absurd (hidA.symm.trans hidB) (by decide)

def apartAmong (T : List ℕ) (c : Config system) : Event system → Bool
  | .run t _ => T.all fun t' => decide (t' = t) ||
      match c.slot t, c.slot t' with
      | some ⟨.createApplication a _, _, _⟩, some ⟨.createApplication b _, p, _⟩ =>
        !(decide (a = b) && p.saving)
      | _, _ => true
  | _ => true

theorem not_passesTogether {T : List ℕ} {c : Config system} {e : Event system} (hT : c.Within T)
    (h : apartAmong T c e = true) : ¬ PassesTogether c e := by
  rintro ⟨t, t', uuid, user, name, holdsAdvisor, w, s', rfl, hne, hslot, -, hslot', hp⟩
  have ht' : t' ∈ T := hT.mem hslot'
  have hapart := List.all_eq_true.mp h t' ht'
  obtain ⟨call, p, w'⟩ := s'
  cases call with
  | createApplication applicant name' =>
    obtain ⟨rfl, hsaving⟩ := hp
    simp [hslot, hslot', hne.symm, hsaving] at hapart
  | _ => exact hp.elim

/-- The second call of user 1 looks once the first has ended; user 2 applies meanwhile. -/
def apart : Config system :=
  (Config.idle blank).after
    [.start 0 (.createApplication 1 "a"), .start 1 (.createApplication 1 "b"),
      .start 2 (.createApplication 2 "c"), .run 0 0, .run 1 0, .run 2 0, .run 0 0, .run 2 0,
      .run 0 20, .run 0 0, .run 2 21, .run 2 0, .run 1 0]

theorem one_in_progress_apart : OneInProgress apart.world.db ∧
    apart.world.db.applications.rows.map (·.applicant) = [1, 2] := by
  refine ⟨one_in_progress oneInProgress_blank ?_, by decide⟩
  exact (Config.within_idle [0, 1, 2] _).reaches_after (fun _ _ => not_passesTogether) (by decide)
    (by decide)

end Chamneul
