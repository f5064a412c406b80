import Chamneul.Proofs.DossierRefinement

/-! The life of an advice: what its author and its reviewer may do to it, and the
log of its revisions. -/

namespace Chamneul

open ReadCommitted ReadCommitted.Prog Service

/-- Every dossier satisfies `P`, and nothing is filed for an advice that is not there. -/
structure Dossiers (P : Dossier → Prop) (db : Db) : Prop where
  known : ∀ i, dossier db i = none → ∀ v, db.log i v = none
  each : ∀ i d, dossier db i = some d → P d

theorem Dossiers.commits {P : Dossier → Prop} (hnew : ∀ d, d.New → P d)
    (hstep : ∀ d d', d.Step d' → P d → P d') {drift : Db → Db → Prop} {call : Call} {db db' : Db}
    (hc : (commits drift call).Commits db db') (h : Dossiers P db) : Dossiers P db' := by
  obtain ⟨L, w, σ, rfl, hcom, rfl⟩ := hc
  constructor
  · intro i hi v
    cases dossier_step hcom i with
    | absent hi₀ _ hlog => rw [hlog, h.known i hi₀]
    | created _ _ h' _ | stepped _ _ _ h' _ =>
      rw [hi] at h'
      cases h'
  · intro i d hd
    cases dossier_step hcom i with
    | absent _ h' _ =>
      rw [h'] at hd
      cases hd
    | created d' hi₀ h' hn =>
      obtain rfl : d' = d := Option.some.inj (h'.symm.trans hd)
      exact hnew d' (hn (h.known i hi₀))
    | stepped d₀ d' h₀ h' hs =>
      obtain rfl : d' = d := Option.some.inj (h'.symm.trans hd)
      exact hstep d₀ d' hs (h.each i d₀ h₀)

def EachDossier (Q : Dossier → Dossier → Prop) (db db' : Db) : Prop :=
  ∀ i d, dossier db i = some d → ∃ d', dossier db' i = some d' ∧ Q d d'

theorem EachDossier.mono {Q Q' : Dossier → Dossier → Prop} {db db' : Db}
    (hQ : ∀ d d', Q d d' → Q' d d') (h : EachDossier Q db db') : EachDossier Q' db db' := by
  intro i d hd
  obtain ⟨d', hd', hq⟩ := h i d hd
  exact ⟨d', hd', hQ d d' hq⟩

theorem eachDossier_commits {drift : Db → Db → Prop} {call : Call} {db db' : Db}
    (hc : (commits drift call).Commits db db') : EachDossier Dossier.Step db db' := by
  obtain ⟨L, w, σ, rfl, hcom, rfl⟩ := hc
  intro i d hd
  cases dossier_step hcom i with
  | absent h _ _ | created _ h _ _ =>
    rw [h] at hd
    cases hd
  | stepped d₀ d' h₀ h' hs =>
    obtain rfl : d₀ = d := Option.some.inj (h₀.symm.trans hd)
    exact ⟨d', h', hs⟩

variable {σ₀ : World Db} {c : Config system}

theorem dossiers_reachable {P : Dossier → Prop} (hnew : ∀ d, d.New → P d)
    (hstep : ∀ d d', d.Step d' → P d → P d') (h₀ : Dossiers P σ₀.db)
    (hr : Config.Reachable (Config.idle σ₀) c) : Dossiers P c.world.db :=
  discipline.invariant (fun _ _ _ hc => Dossiers.commits hnew hstep hc) h₀ hr

/-- One step of a schedule is at most one step of each dossier. -/
theorem eachDossier_step (hr : Config.Reachable (Config.idle σ₀) c) {e : Event system}
    {c' : Config system} (hs : c.step e = some c') :
    EachDossier Dossier.Step c.world.db c'.world.db := by
  rcases discipline.step_commits (discipline.holds hr) hs with he | ⟨call, hc⟩
  · rw [he]
    exact fun i d hd => ⟨d, hd, .stay⟩
  · exact eachDossier_commits hc

/-- What each step keeps of a dossier the whole run keeps. -/
theorem eachDossier_run {P : Dossier → Prop} {Q : Dossier → Dossier → Prop}
    (hrefl : ∀ d, Q d d) (htrans : ∀ d d' d'', Q d d' → Q d' d'' → Q d d'')
    (hnew : ∀ d, d.New → P d) (hstep : ∀ d d', d.Step d' → P d → P d')
    (hQ : ∀ d d', d.Step d' → P d → Q d d') (h₀ : Dossiers P σ₀.db)
    (hr : Config.Reachable (Config.idle σ₀) c) {c' : Config system}
    (hr' : Config.Reachable c c') : EachDossier Q c.world.db c'.world.db := by
  induction hr' with
  | refl => exact fun i d hd => ⟨d, hd, hrefl d⟩
  | step hr'' _ hs ih =>
    intro i d hd
    obtain ⟨d', hd', hq⟩ := ih i d hd
    have hreach := hr.trans hr''
    obtain ⟨d'', hd'', hs'⟩ := eachDossier_step hreach hs i d' hd'
    have hP := (dossiers_reachable hnew hstep h₀ hreach).each i d' hd'
    exact ⟨d'', hd'', htrans _ _ _ hq (hQ d' d'' hs' hP)⟩

/-- In every schedule the status of each advice agrees with its review columns;
each commit takes one step of it, on the committed row, so neither side overwrites
the other; and what has left PENDING stays as it is. -/
theorem advice_lifecycle (h₀ : Dossiers (fun d => AdviceFits d.row) σ₀.db)
    (hr : Config.Reachable (Config.idle σ₀) c) :
    (∀ a ∈ c.world.db.advices, AdviceFits a) ∧
    (∀ e c', c.step e = some c' → EachDossier (fun d d' => d.Step d' ∧
      (d'.row.status = d.row.status ∨ d.row.status.Moves d'.row.status)) c.world.db c'.world.db) ∧
    ∀ c', Config.Reachable c c' → EachDossier (fun d d' => d.row.status ≠ .pending →
      d'.row.status ≠ .pending ∧ SameContent d.row d'.row) c.world.db c'.world.db := by
  have hfit := dossiers_reachable (fun d hn => hn.fits) (fun d d' hs => hs.fits) h₀ hr
  refine ⟨fun a ha => ?_, fun e c' hs i d hd => ?_, fun c' hr' => ?_⟩
  · exact hfit.each a.id ⟨a, c.world.db.log a.id⟩
      (dossier_eq_some.mpr ⟨Table.mem_iff_get?.mp ha, rfl⟩)
  · obtain ⟨d', hd', hstep⟩ := eachDossier_step hr hs i d hd
    exact ⟨d', hd', hstep, hstep.moves (hfit.each i d hd)⟩
  · refine eachDossier_run (P := fun d => AdviceFits d.row) ?_ ?_ (fun d hn => hn.fits)
      (fun d d' hs => hs.fits) ?_ h₀ hr hr'
    · exact fun d hp => ⟨hp, ⟨rfl, rfl, rfl, rfl, rfl, rfl⟩⟩
    · intro d d' d'' h h' hp
      obtain ⟨hp', hs⟩ := h hp
      obtain ⟨hp'', hs'⟩ := h' hp'
      exact ⟨hp'', hs.trans hs'⟩
    · exact fun d d' hs hf hp => hs.frozen hf hp

def desk : World Db where
  db :=
    { concerns := Table.empty.insert
        { id := 0, author := 1, fields := { concernSummary := "", concernType := .burnout }
          status := .assigned }
      assignments := Table.empty.insert
        { id := 1, concern := 0, advisor := 2, assignedBy := 9, triageDecision := .suitable } }
  now := 0

theorem dossiers_desk (P : Dossier → Prop) : Dossiers P desk.db where
  known _ _ _ := rfl
  each i d hd := by
    obtain ⟨hrow, -⟩ := dossier_eq_some.mp hd
    cases hrow

/-- An advice is written, revised and approved, each in its own session. -/
def revising : Config system :=
  (Config.idle desk).after
    [.start 0 (.createAdvice 0 2 { directionalGuidance := "a" } true), .run 0 5, .run 0 5, .run 0 5,
      .run 0 5, .start 1 (.updateAdvice 5 2 { directionalGuidance := some "b" }), .run 1 5,
      .run 1 5, .run 1 5, .run 1 5, .start 2 (.reviewAdvice 5 9 .approved "" 2), .run 2 6, .run 2 6,
      .run 2 6, .run 2 6, .run 2 6, .run 2 6, .run 2 6]

theorem advice_lifecycle_revising : (∀ a ∈ revising.world.db.advices, AdviceFits a) ∧
    (revising.world.db.advices.get? 5).map (fun a => (a.status, a.version)) = some (.approved, 2) :=
  ⟨(advice_lifecycle (dossiers_desk _) (Config.reachable_after _ _)).1, by decide⟩

/-! Where a history row is inserted. -/

section

variable {R : Rely Db Key Write} {drift : Db → Db → Prop}

/-- The first change of a transaction may file a body, under the version of its advice. -/
def Snapshots (_ : Set Key) (w : Pending Write) (σ : World Db) (ks : ℕ → List Key) : Prop :=
  ∀ uuid a v, Key.historyEntry a v ∈ ks uuid →
    w = [] ∧ ∃ row, σ.db.advices.get? a = some row ∧ row.version = v

theorem createAdvice_snapshots (id advisor : Id) (body : AdviceBody) (submit : Bool)
    (σ : World Db) : wp R ⟨fun _ _ _ => True, Snapshots⟩ (createAdvice id advisor body submit) ∅ [] σ
      fun _ _ _ _ => True := by
  simp [createAdvice, wp_bind, wp_query, wp_getOr, wp_raiseIf, wp_handle, wp_atomic, wp_write, locks,
    Snapshots]

theorem updateAdvice_snapshots (hR : R.Locks owns drift) (id actor : Id) (data : AdviceEdit)
    (σ : World Db) : wp R ⟨fun _ _ _ => True, Snapshots⟩ (updateAdvice id actor data) ∅ [] σ
      fun _ _ _ _ => True := by
  simp only [updateAdvice, lockOwnAdvice, wp_bind, wp_lockOr, wp_raiseIf, wp_runIf, wp_atomic,
    wp_write, wp_pure, locks, World.view_nil, Snapshots, List.mem_cons, reduceCtorEq,
    List.not_mem_nil, or_self, true_and, IsEmpty.forall_iff, implies_true, ne_eq, insert_empty_eq,
    and_self, Decidable.not_not, Key.historyEntry.injEq, or_false, and_imp, forall_eq_apply_imp_iff,
    forall_eq, and_true, Bool.not_eq_true]
  intro σ₁ h₁ row hrow _ _ _ σ₂ e _ h₂
  obtain rfl : row.id = id := (Table.get?_eq_some.mp hrow).2
  refine fun _ => ⟨row, ?_, rfl⟩
  rw [Locks.advice hR h₂ (by simp)]
  exact hrow

theorem deleteAdvice_snapshots (id actor : Id) (σ : World Db) :
    wp R ⟨fun _ _ _ => True, Snapshots⟩ (deleteAdvice id actor) ∅ [] σ fun _ _ _ _ => True := by
  simp [deleteAdvice, lockOwnAdvice, wp_bind, wp_lockOr, wp_raiseIf, wp_atomic, wp_write, locks,
    Snapshots]

theorem reviewAdvice_snapshots (id actor : Id) (decision : Decision) (reason : String)
    (expectedVersion : ℕ) (σ : World Db) :
    wp R ⟨fun _ _ _ => True, Snapshots⟩ (reviewAdvice id actor decision reason expectedVersion) ∅ [] σ
      fun _ _ _ _ => True := by
  cases decision <;>
    simp [reviewAdvice, decisionEffects, wp_bind, wp_lockOr, wp_raiseIf, wp_runIf, wp_queryForUpdate,
      wp_getOr, wp_time, wp_atomic, wp_write, locks, Snapshots]

end

def Call.onAdvice : Call → Bool
  | .createAdvice .. | .updateAdvice .. | .deleteAdvice .. | .reviewAdvice .. => true
  | _ => false

/-- The stages of a call: of an advice call, where it inserts a history row. -/
def adviceStage : Call → Set Key → Pending Write → World Db → (ℕ → List Key) → Prop
  | .createAdvice .. | .updateAdvice .. | .deleteAdvice .. | .reviewAdvice .. => Snapshots
  | _ => fun _ _ _ _ => True

theorem adviceDiscipline : Discipline system owns
    (fun drift call => ⟨fun L w σ => Committed drift L w σ.db call, adviceStage call⟩)
    (fun _ => Ended) := by
  refine discipline.withStage fun hR call σ => ?_
  cases call with
  | createAdvice id advisor body submit => exact createAdvice_snapshots id advisor body submit σ
  | updateAdvice id actor data => exact updateAdvice_snapshots hR id actor data σ
  | deleteAdvice id actor => exact deleteAdvice_snapshots id actor σ
  | reviewAdvice id actor decision reason expectedVersion =>
    exact reviewAdvice_snapshots id actor decision reason expectedVersion σ
  | _ => exact wp_trivial (fun _ _ _ _ => trivial) _ _ _ _

theorem Snapshots.free {L : Set Key} {w : Pending Write} {σ : World Db} {ks : ℕ → List Key}
    (hd : Dossiers Dossier.Faithful σ.db) (hs : Snapshots L w σ ks) {uuid : ℕ} {a : Id} {v : ℕ}
    (hk : Key.historyEntry a v ∈ ks uuid) : w = [] ∧ σ.db.histories.get? (a, v) = none := by
  obtain ⟨hw, row, hrow, rfl⟩ := hs uuid a v hk
  refine ⟨hw, ?_⟩
  have hlog := (hd.each a ⟨row, σ.db.log a⟩ (dossier_eq_some.mpr ⟨hrow, rfl⟩)).log row.version
  by_contra hne
  exact lt_irrefl _ (hlog.mp (by simpa [Db.log] using hne)).2

/-- In every schedule the history of each advice has its earlier versions, each once,
neighbours differing; each commit files the body it replaces, and only then; what an
advice had under a version stays on file; and filing it never meets a row that is
already there. -/
theorem advice_history (h₀ : Dossiers Dossier.Faithful σ₀.db)
    (hr : Config.Reachable (Config.idle σ₀) c) :
    Dossiers Dossier.Faithful c.world.db ∧
    (∀ e c', c.step e = some c' → EachDossier Dossier.Logs c.world.db c'.world.db) ∧
    (∀ c', Config.Reachable c c' → EachDossier Dossier.Extends c.world.db c'.world.db) ∧
    ∀ t s, c.slot t = some s → s.call.onAdvice = true → ∀ stmt n, s.prog = .write stmt n →
      ∀ uuid h, Write.insertHistory h ∈ stmt (c.world.view s.writes) →
        violates (c.world.view s.writes) ⟨c.world.now, uuid⟩ (.insertHistory h) = false := by
  have hfaithful := dossiers_reachable (fun d hn => hn.faithful) (fun d d' hs => hs.faithful) h₀ hr
  refine ⟨hfaithful, fun e c' hs => (eachDossier_step hr hs).mono fun _ _ h => h.logs,
    fun c' hr' => ?_, fun t s hslot hcall stmt n hp uuid h hm => ?_⟩
  · exact eachDossier_run .refl (fun _ _ _ h h' => h.trans h') (fun d hn => hn.faithful)
      (fun d d' hs => hs.faithful) (fun d d' hs _ => hs.extends) h₀ hr hr'
  · have hstage := adviceDiscipline.stage (adviceDiscipline.holds hr) hslot
      (fun r hret => by rw [hp] at hret; cases hret)
    have hsnap : Snapshots (c.held t) s.writes c.world (s.needs c.world) := by
      cases hc : s.call <;> rw [hc] at hcall hstage <;> first | exact hstage | cases hcall
    have hk : Key.historyEntry h.advice h.version ∈ s.needs c.world uuid := by
      simp only [Session.needs, hp]
      exact List.mem_flatMap.mpr ⟨_, hm, by simp [Engine.locks, locks]⟩
    obtain ⟨hw, hfree⟩ := hsnap.free hfaithful hk
    simp [violates, hw, hfree]

theorem advice_history_revising : Dossiers Dossier.Faithful revising.world.db ∧
    (revising.world.db.histories.get? (5, 1)).map (·.body.directionalGuidance) = some "a" :=
  ⟨(advice_history (dossiers_desk _) (Config.reachable_after _ _)).1, by decide⟩

end Chamneul
