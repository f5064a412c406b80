import Chamneul.Proofs.AdviceLifecycle
import Chamneul.Proofs.Exposure
import Chamneul.Store.Sessions

/-! What a reader of an advice was shown is what a review under the same version
decides on, and a review under an older version is refused. -/

namespace Chamneul

open ReadCommitted ReadCommitted.Prog Service

def Dossier.Decided (d : Dossier) : Prop :=
  d.row.status = .approved ∨ d.row.status = .rejected ∨ d.row.status = .deleted

/-- A decided advice stays decided, and its body stays. -/
theorem Dossier.Step.decided {d d' : Dossier} (h : d.Step d') (hd : d.Decided) :
    d'.Decided ∧ d'.row.body = d.row.body := by
  have hclosed : ¬ d.Open := by
    rintro (ho | ho) <;> simp [Dossier.Decided, ho] at hd
  cases h with
  | stay => exact ⟨hd, rfl⟩
  | touch _ _ ho | revise _ _ _ ho _ | review _ _ _ _ _ ho _ _ => exact absurd ho hclosed
  | withdraw _ => exact ⟨Or.inr (Or.inr rfl), rfl⟩

variable {σ₀ : World Db} {c c' : Config system}

/-- What every step does to a dossier a whole run does. -/
theorem eachDossier_history {Q : Dossier → Dossier → Prop} (hrefl : ∀ d, Q d d)
    (htrans : ∀ d d' d'', Q d d' → Q d' d'' → Q d d'') (hQ : ∀ d d', d.Step d' → Q d d')
    (hr : Config.Reachable (Config.idle σ₀) c) (hr' : Config.Reachable c c') :
    EachDossier Q c.world.db c'.world.db := by
  induction hr' with
  | refl => exact fun i d hd => ⟨d, hd, hrefl d⟩
  | step hr'' _ hs ih =>
    intro i d hd
    obtain ⟨d', hd', hq⟩ := ih i d hd
    obtain ⟨d'', hd'', hs'⟩ := eachDossier_step (hr.trans hr'') hs i d' hd'
    exact ⟨d'', hd'', htrans _ _ _ hq (hQ d' d'' hs')⟩

/-- Versions and bodies of an advice between two moments of a run. -/
theorem advice_extends (hr : Config.Reachable (Config.idle σ₀) c) (hr' : Config.Reachable c c')
    {i : Id} {row : Advice} (hrow : c.world.db.advices.get? i = some row) :
    ∃ row', c'.world.db.advices.get? i = some row' ∧ row.version ≤ row'.version ∧
      (row'.version = row.version → row'.body = row.body) := by
  obtain ⟨d', hd', hext⟩ := eachDossier_history .refl (fun _ _ _ h h' => h.trans h')
    (fun _ _ h => h.extends) hr hr' i ⟨row, c.world.db.log i⟩ (dossier_eq_some.mpr ⟨hrow, rfl⟩)
  refine ⟨d'.row, (dossier_eq_some.mp hd').1, hext.version, fun hv => ?_⟩
  have hbody := hext.bodyAt row.version le_rfl
  simpa [Dossier.bodyAt, hv] using hbody

/-- A step that changes the body of an advice raises its version. -/
theorem version_lt_of_edit (hr : Config.Reachable (Config.idle σ₀) c) {e : Event system}
    (hs : c.step e = some c') {i : Id} {row row' : Advice}
    (hrow : c.world.db.advices.get? i = some row) (hrow' : c'.world.db.advices.get? i = some row')
    (hne : row'.body ≠ row.body) : row.version < row'.version := by
  obtain ⟨d', hd', hstep⟩ := eachDossier_step hr hs i ⟨row, c.world.db.log i⟩
    (dossier_eq_some.mpr ⟨hrow, rfl⟩)
  obtain rfl : d'.row = row' := Option.some.inj ((dossier_eq_some.mp hd').1.symm.trans hrow')
  rcases hstep.logs with ⟨hsame, -, -⟩ | ⟨-, hv, -⟩
  · exact absurd hsame hne
  · exact hv ▸ Nat.lt_succ_self _

/-- A decided advice keeps its body for good. -/
theorem decided_body (hr : Config.Reachable (Config.idle σ₀) c) (hr' : Config.Reachable c c')
    {i : Id} {row : Advice} (hrow : c.world.db.advices.get? i = some row)
    (hd : Dossier.Decided ⟨row, c.world.db.log i⟩) :
    ∃ row', c'.world.db.advices.get? i = some row' ∧ row'.body = row.body := by
  obtain ⟨d', hd', hq⟩ := eachDossier_history
    (Q := fun d d' => d.Decided → d'.Decided ∧ d'.row.body = d.row.body)
    (fun _ h => ⟨h, rfl⟩)
    (fun _ _ _ h h' hd => ⟨(h' (h hd).1).1, ((h' (h hd).1).2).trans (h hd).2⟩)
    (fun _ _ h => h.decided) hr hr' i ⟨row, c.world.db.log i⟩ (dossier_eq_some.mpr ⟨hrow, rfl⟩)
  exact ⟨d'.row, (dossier_eq_some.mp hd').1, (hq hd).2⟩

/-- Whoever is shown advice `i` is shown the committed row. -/
theorem getVisibleAdvice_row {db : Db} {i user : Id} {shown : Advice} {viewer : Viewer}
    (h : db.getVisibleAdvice i user = .ok (shown, viewer)) : db.advices.get? i = some shown := by
  simp only [Db.getVisibleAdvice, getObjectOr404_toList] at h
  cases hfound : db.adviceAndConcern? i with
  | none => simp [hfound, bind, Except.bind] at h
  | some found =>
    obtain ⟨advice, concern⟩ := found
    simp only [hfound, Option.elim_some, bind, Except.bind] at h
    obtain rfl : advice = shown := by
      split_ifs at h <;> cases h <;> rfl
    exact (adviceAndConcern?_eq_some.mp hfound).1

/-- The inbox shows committed rows. -/
theorem listReceivedAdvices_row {db : Db} {user : Id} {x : Db.ReceivedAdvice}
    (h : x ∈ db.listReceivedAdvices user) : db.advices.get? x.advice.id = some x.advice := by
  have hexposed : x.advice ∈ db.exposed user := (mem_listReceivedAdvices.mp h).1
  exact Table.mem_iff_get?.mp (mem_exposed.mp hexposed).1

inductive Refusal : APIException → Prop
  | conflict (detail : String) (reason : Option String) : Refusal (.conflict detail reason)
  | preconditionFailed (detail : String) : Refusal (.preconditionFailed detail)

/-- The program has been refused, and all that is left is to say so. -/
def Refused {α : Type} (p : Service α) : Prop :=
  ∃ e, Refusal e ∧ (p = .rollback (.ret (.error e)) ∨ p = .ret (.error e))

/-- A review under another version than the committed one goes no further than its lock. -/
theorem reviewAdvice_stale (i actor : Id) (decision : Decision) (reason : String) (v : ℕ) :
    ∃ rows n, reviewAdvice i actor decision reason v = .forUpdate rows n ∧
      ∀ db row, db.advices.get? i = some row → row.version ≠ v →
        ∃ e, Refusal e ∧ n db = .rollback (.ret (.error e)) := by
  refine ⟨_, _, rfl, fun db row hrow hv => ?_⟩
  simp only [hrow, getOr, Prog.andThen, bind, pure]
  by_cases hsub : row.isSubmitted = false
  · refine ⟨.conflict "제출되지 않은 초안은 리뷰할 수 없습니다." none, .conflict _ _, ?_⟩
    simp [raiseIf, hsub, raise, Prog.andThen]
  · by_cases hstatus : row.status ∈ reviewableStatuses
    · refine ⟨.preconditionFailed "리소스가 조회 이후 변경되었습니다. 다시 조회 후 시도하세요.",
        .preconditionFailed _, ?_⟩
      simp [raiseIf, hsub, hstatus, hv, raise, Prog.andThen, pure]
    · refine ⟨.conflict (row.status.value ++ " 상태의 조언은 리뷰할 수 없습니다.") none,
        .conflict _ _, ?_⟩
      simp [raiseIf, hsub, hstatus, raise, Prog.andThen, pure]

def Call.reviews (i : Id) (v : ℕ) : Call → Bool
  | .reviewAdvice j _ _ _ w => decide (j = i ∧ w = v)
  | _ => false

/-- Nothing is written, and nothing but a refusal can come of it. -/
structure Doomed (s : Session system) : Prop where
  writes : s.writes = []
  prog : s.prog = system.program s.call ∨ Refused s.prog

/-- A review under another version than the committed one stays doomed. -/
theorem Doomed.turn {t uuid : ℕ} {s : Session system} {i : Id} {v : ℕ} {row : Advice} (h : Doomed s)
    (hs : s.call.reviews i v = true) (hrow : c.world.db.advices.get? i = some row)
    (hv : row.version ≠ v) (ht : Config.Turn c t uuid s c') :
    c'.world = c.world.tick ∧ ∃ s', c'.slot t = some s' ∧ Doomed s' := by
  obtain ⟨call, prog, writes⟩ := s
  obtain ⟨hw, hp⟩ := h
  obtain rfl : writes = [] := hw
  cases call with
  | reviewAdvice j actor decision reason w =>
    obtain ⟨rfl, rfl⟩ : j = i ∧ w = v := by simpa [Call.reviews] using hs
    rcases hp with hp | ⟨e, he, hp | hp⟩
    · -- The locked read sees a version that is not the expected one.
      obtain ⟨rows, n, hprog, hn⟩ := reviewAdvice_stale j actor decision reason w
      obtain ⟨e, he, hnext⟩ := hn _ row hrow hv
      obtain ⟨hworld, hslot⟩ := ht.of_forUpdate (hp.trans hprog)
      exact ⟨hworld, _, hslot, rfl, Or.inr ⟨e, he, Or.inl hnext⟩⟩
    · obtain ⟨hworld, hslot⟩ := ht.of_rollback hp
      exact ⟨hworld, _, hslot, rfl, Or.inr ⟨e, he, Or.inr rfl⟩⟩
    · exact (ht.not_ret hp).elim
  | _ => cases hs

theorem Doomed.outcome {s : Session system} {i : Id} {v : ℕ} (h : Doomed s)
    (hs : s.call.reviews i v = true) {r} (hr : s.prog = .ret r) : ∃ e, r = .error e ∧ Refusal e := by
  rcases h.prog with hp | ⟨e, he, hp | hp⟩
  · obtain ⟨call, prog, writes⟩ := s
    cases call with
    | reviewAdvice j actor decision reason w =>
      obtain ⟨rows, n, hprog, -⟩ := reviewAdvice_stale j actor decision reason w
      exact absurd (hr.symm.trans (hp.trans hprog)) (by simp)
    | _ => cases hs
  · exact absurd (hr.symm.trans hp) (by simp)
  · have hret : r = .error e := by simpa using hr.symm.trans hp
    exact ⟨e, hret, he⟩

/-- Once a newer version is committed, every review under the old one that has not begun
is doomed. -/
theorem doomed_run (hr : Config.Reachable (Config.idle σ₀) c) (hr' : Config.Reachable c c')
    {i : Id} {v : ℕ} {row : Advice} (hrow : c.world.db.advices.get? i = some row)
    (hv : v < row.version) {t : ℕ}
    (ht : ∀ s, c.slot t = some s → s.call.reviews i v = true → s.Fresh) {s : Session system}
    (hs : c'.slot t = some s) (hcall : s.call.reviews i v = true) : Doomed s := by
  induction hr' generalizing s with
  | refl => exact ⟨(ht s hs hcall).writes, Or.inl (ht s hs hcall).prog⟩
  | step hr'' _ hstep ih =>
    obtain hold | ⟨-, hfresh⟩ | ⟨uuid, s₀, -, hslot, hsame, hturn⟩ := Config.step_slot hstep hs
    · exact ih hold hcall
    · exact ⟨hfresh.writes, Or.inl hfresh.prog⟩
    · obtain ⟨row', hrow', hle, -⟩ := advice_extends hr hr'' hrow
      have hcall₀ : s₀.call.reviews i v = true := hsame ▸ hcall
      obtain ⟨-, s', hs', hdoomed⟩ := (ih hslot hcall₀).turn hcall₀ hrow' (hv.trans_le hle).ne' hturn
      exact Option.some.inj (hs'.symm.trans hs) ▸ hdoomed

def Decision.status : Decision → AdviceStatus
  | .approved => .approved
  | .rejected => .rejected

/-- What a review commits: the decision, on the body under the version it expects. -/
theorem reviewAdvice_commits {L : Set Key} {w : Pending Write} {db : Db} {i actor : Id}
    {decision : Decision} {reason : String} {v : ℕ}
    (h : Committed (fun _ _ => True) L w db (.reviewAdvice i actor decision reason v)) :
    ∃ row row', db.advices.get? i = some row ∧ row.version = v ∧
      (applyAll w db).advices.get? i = some row' ∧ row'.status = decision.status ∧
      row'.body = row.body := by
  obtain ⟨e₁, e₂, now, row, concern, transition, -, -, hrow, -, -, hv, -, -, -, -, rfl, htrans⟩ := h
  have hid : row.id = i := (Table.get?_eq_some.mp hrow).2
  refine ⟨row, (reviewed row actor decision reason now).overwritten e₁ row, hrow, hv, ?_, ?_, rfl⟩
  · have hsave : (apply e₁ (.saveAdvice (reviewed row actor decision reason now)) db).advices.get? i =
        some ((reviewed row actor decision reason now).overwritten e₁ row) := by
      have hkey : i = (reviewed row actor decision reason now).id := hid.symm
      rw [apply, Table.get?_update, if_pos hkey, hrow, Option.map_some]
    cases htrans <;> exact hsave
  · cases decision <;> rfl

/-- Whatever runs between an unlocked read of an advice and a review under the version
read: if the review commits, the body it decides on is the body that was read, and
everyone is shown that body from then on; and if an edit of the body was committed
before the review began, the review can only be refused, and writes nothing. -/
theorem review_protects_the_read (hr : Config.Reachable (Config.idle σ₀) c) {i : Id} {row : Advice}
    (hread : c.world.db.advices.get? i = some row) :
    (∀ c₁ c₂ t uuid s n actor decision reason, Config.Reachable c c₁ → c₁.slot t = some s →
      s.call = .reviewAdvice i actor decision reason row.version → s.prog = .commit n →
      c₁.step (.run t uuid) = some c₂ →
      (∃ row₂, c₂.world.db.advices.get? i = some row₂ ∧ row₂.status = decision.status ∧
        row₂.body = row.body) ∧
      ∀ c₃, Config.Reachable c₂ c₃ →
        (∃ row₃, c₃.world.db.advices.get? i = some row₃ ∧ row₃.body = row.body) ∧
        (∀ user shown viewer, c₃.world.db.getVisibleAdvice i user = .ok (shown, viewer) →
          shown.body = row.body) ∧
        ∀ user, ∀ x ∈ c₃.world.db.listReceivedAdvices user, x.advice.id = i →
          x.advice.body = row.body) ∧
    ∀ c₁ e c₂ row₁ row₂, Config.Reachable c c₁ → c₁.step e = some c₂ →
      c₁.world.db.advices.get? i = some row₁ → c₂.world.db.advices.get? i = some row₂ →
      row₂.body ≠ row₁.body → ∀ c₃ t, Config.Reachable c₂ c₃ →
      (∀ s, c₃.slot t = some s → s.call.reviews i row.version = true → s.Fresh) →
      ∀ c₄ s, Config.Reachable c₃ c₄ → c₄.slot t = some s → s.call.reviews i row.version = true →
        s.writes = [] ∧ (∀ r, s.prog = .ret r → ∃ e, r = .error e ∧ Refusal e) ∧
        ∀ uuid c₅, c₄.step (.run t uuid) = some c₅ → c₅.world.db = c₄.world.db := by
  refine ⟨?_, ?_⟩
  · intro c₁ c₂ t uuid s n actor decision reason hr₁ hslot hcall hp hs
    have hcom := committed_of_slot (hr.trans hr₁) hslot hp
    rw [hcall] at hcom
    obtain ⟨row₁, row₂, hrow₁, hv, hrow₂, hstatus, hbody⟩ := reviewAdvice_commits hcom
    obtain ⟨row₁', hrow₁', -, hsame⟩ := advice_extends hr hr₁ hread
    obtain rfl : row₁ = row₁' := Option.some.inj (hrow₁.symm.trans hrow₁')
    have hbody₂ : row₂.body = row.body := hbody.trans (hsame hv)
    have hworld : c₂.world = c₁.world.commit s.writes :=
      ((Config.turn_of_run hslot hs).of_commit hp).1
    have hget₂ : c₂.world.db.advices.get? i = some row₂ := by rw [hworld]; exact hrow₂
    refine ⟨⟨row₂, hget₂, hstatus, hbody₂⟩, fun c₃ hr₃ => ?_⟩
    have hdecided : Dossier.Decided ⟨row₂, c₂.world.db.log i⟩ := by
      cases decision <;> simp [Dossier.Decided, hstatus, Decision.status]
    obtain ⟨row₃, hget₃, hbody₃⟩ := decided_body ((hr.trans hr₁).trans (.step .refl trivial hs)) hr₃
      hget₂ hdecided
    have hlater : ∀ a, c₃.world.db.advices.get? i = some a → a.body = row.body := by
      intro a ha
      obtain rfl : row₃ = a := Option.some.inj (hget₃.symm.trans ha)
      exact hbody₃.trans hbody₂
    refine ⟨⟨row₃, hget₃, hlater row₃ hget₃⟩, fun user shown viewer hshown => ?_, fun user x hx hi => ?_⟩
    · exact hlater shown (getVisibleAdvice_row hshown)
    · exact hlater x.advice (hi ▸ listReceivedAdvices_row hx)
  · intro c₁ e c₂ row₁ row₂ hr₁ hs hrow₁ hrow₂ hne c₃ t hr₃ hbegun c₄ s hr₄ hslot hcall
    have hreach₂ := (hr.trans hr₁).trans (.step .refl trivial hs)
    -- The edit raised the version above the one that was read, and it never falls again.
    obtain ⟨row₁', hrow₁', hle, -⟩ := advice_extends hr hr₁ hread
    obtain rfl : row₁ = row₁' := Option.some.inj (hrow₁.symm.trans hrow₁')
    have hlt : row.version < row₂.version :=
      hle.trans_lt (version_lt_of_edit (hr.trans hr₁) hs hrow₁ hrow₂ hne)
    obtain ⟨row₃, hrow₃, hle₃, -⟩ := advice_extends hreach₂ hr₃ hrow₂
    have hlt₃ : row.version < row₃.version := hlt.trans_le hle₃
    have hdoomed := doomed_run (hreach₂.trans hr₃) hr₄ hrow₃ hlt₃ hbegun hslot hcall
    refine ⟨hdoomed.writes, fun r hret => hdoomed.outcome hcall hret, fun uuid c₅ hs₅ => ?_⟩
    obtain ⟨row₄, hrow₄, hle₄, -⟩ := advice_extends (hreach₂.trans hr₃) hr₄ hrow₃
    have hturn := Config.turn_of_run hslot hs₅
    rw [(hdoomed.turn hcall hrow₄ (hlt₃.trans_le hle₄).ne' hturn).1, World.tick_db]

/-- User 2 has written an advice, which is now read at version 1. -/
def published : Config system :=
  (Config.idle desk).after
    [.start 0 (.createAdvice 0 2 { directionalGuidance := "a" } true), .run 0 5, .run 0 5, .run 0 5,
      .run 0 5]

/-- A review of it under version 1, about to commit. -/
def deciding : Config system :=
  published.after
    [.start 1 (.reviewAdvice 5 9 .approved "" 1), .run 1 6, .run 1 6, .run 1 6, .run 1 6, .run 1 6,
      .run 1 6]

/-- An edit of it, about to commit. -/
def editing : Config system :=
  published.after
    [.start 1 (.updateAdvice 5 2 { directionalGuidance := some "b" }), .run 1 6, .run 1 6, .run 1 6]

theorem review_protects_the_read_published : ∃ row, published.world.db.advices.get? 5 = some row ∧
    (∀ c₃, Config.Reachable (deciding.after [.run 1 6]) c₃ →
      ∃ row₃, c₃.world.db.advices.get? 5 = some row₃ ∧ row₃.body = row.body) ∧
    ∀ c₄ s, Config.Reachable (editing.after [.run 1 6]) c₄ → c₄.slot 2 = some s →
      s.call.reviews 5 1 = true → ∀ r, s.prog = .ret r → ∃ e, r = .error e ∧ Refusal e := by
  have hr : Config.Reachable (Config.idle desk) published := Config.reachable_after _ _
  have h := review_protects_the_read hr (i := 5) rfl
  refine ⟨_, rfl, fun c₃ hr₃ => ?_, fun c₄ s hr₄ hslot hcall => ?_⟩
  · exact ((h.1 deciding (deciding.after [.run 1 6]) 1 6 _ _ _ _ _ (Config.reachable_after _ _) rfl
      rfl rfl rfl).2 c₃ hr₃).1
  · exact (h.2 editing (.run 1 6) (editing.after [.run 1 6]) _ _ (Config.reachable_after _ _) rfl rfl
      rfl (by decide) _ 2 .refl (fun s hs => by cases hs) c₄ s hr₄ hslot hcall).2.1

end Chamneul
