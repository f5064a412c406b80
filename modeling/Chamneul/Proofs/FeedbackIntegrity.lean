import Chamneul.Proofs.ConcernDeletion
import Chamneul.Proofs.FeedbackLifecycle
import Chamneul.Proofs.OptimisticLock
import Chamneul.Store.Alone

/-! What a feedback is a feedback of. `create_feedback` checks rows it does not lock: an
approval is final and a concern keeps its author, so what it has checked stays so, and
the unique index decides between two calls. -/

namespace Chamneul

open ReadCommitted ReadCommitted.Prog Service

def Db.Ratable (db : Db) (id author : Id) : Prop :=
  ∃ a c, db.advices.get? id = some a ∧ a.status = .approved ∧
    db.concerns.get? a.concern = some c ∧ c.author = author

/-- Every feedback rates an approved advice, once, by the author of the concern. -/
structure FeedbacksFit (db : Db) : Prop where
  ratable : ∀ f ∈ db.feedbacks, db.Ratable f.advice f.author
  once : ∀ f ∈ db.feedbacks, ∀ g ∈ db.feedbacks, f.advice = g.advice → f = g

structure SameRating (f f' : Feedback) : Prop where
  advice : f'.advice = f.advice
  author : f'.author = f.author
  score : f'.score = f.score
  content : f'.content = f.content

theorem SameRating.trans {f f' f'' : Feedback} (h : SameRating f f') (h' : SameRating f' f'') :
    SameRating f f'' where
  advice := h'.advice.trans h.advice
  author := h'.author.trans h.author
  score := h'.score.trans h.score
  content := h'.content.trans h.content

/-! What a commit does to the rows a feedback rests on. -/

section

variable {drift : Db → Db → Prop} {L : Set Key} {w : Pending Write} {db : Db} {call : Call}

/-- An approved advice is not touched any more. -/
theorem approved_committed (h : Committed drift L w db call) {id : Id} {a : Advice}
    (ha : db.advices.get? id = some a) (happroved : a.status = .approved) :
    (applyAll w db).advices.get? id = some a := by
  have hcommits : (commits drift call).Commits db (applyAll w db) := ⟨L, w, ⟨db, 0⟩, rfl, h, rfl⟩
  obtain ⟨d', hd', hstep⟩ := eachDossier_commits hcommits id ⟨a, db.log id⟩
    (dossier_eq_some.mpr ⟨ha, rfl⟩)
  have hclosed : ¬ Dossier.Open ⟨a, db.log id⟩ := by
    rintro (ho | ho) <;> simp [happroved] at ho
  have hsame : d'.row = a := by
    cases hstep with
    | stay => rfl
    | touch _ _ ho | revise _ _ _ ho _ | review _ _ _ _ _ ho _ _ => exact absurd ho hclosed
    | withdraw ho =>
      rcases ho with ho | ho
      · exact absurd ho hclosed
      · simp [happroved] at ho
  rw [(dossier_eq_some.mp hd').1, hsame]

theorem ratable_committed (h : Committed drift L w db call) {id author : Id}
    (hr : db.Ratable id author) : (applyAll w db).Ratable id author := by
  obtain ⟨a, c, ha, happroved, hc, rfl⟩ := hr
  obtain ⟨c', hc', hauthor, -⟩ := concern_applyAll w hc
  exact ⟨a, c', approved_committed h ha happroved, happroved, hc', hauthor⟩

/-- Where no feedback is inserted, those there are go back to those there were. -/
theorem feedbacks_before (h : Committed drift L w db call)
    (hcall : ∀ id author data, call ≠ .createFeedback id author data) {f' : Feedback}
    (hf' : f' ∈ (applyAll w db).feedbacks) :
    ∃ f ∈ db.feedbacks, f.id = f'.id ∧ SameRating f f' := by
  cases call with
  | createFeedback id author data => exact absurd rfl (hcall id author data)
  | transitionFeedback id actor newStatus memo =>
    obtain ⟨e, now, db₁, read, -, -, -, -, rfl⟩ := h
    simp only [applyAll_cons, applyAll_nil, Engine.apply, apply, Table.mem_update] at hf'
    obtain ⟨f, hf, rfl⟩ := hf'
    refine ⟨f, hf, ?_, ?_⟩ <;> split_ifs <;> first | rfl | exact ⟨rfl, rfl, rfl, rfl⟩
  | _ =>
    have hsame : (applyAll w db).feedbacks = db.feedbacks :=
      same_of_committed h (t := .feedbacks) (by simp [Call.tables])
    exact ⟨f', hsame ▸ hf', rfl, ⟨rfl, rfl, rfl, rfl⟩⟩

/-- A feedback stays, and stays what it says. -/
theorem feedbacks_after (h : Committed drift L w db call) {id : Id} {f : Feedback}
    (hf : db.feedbacks.get? id = some f) :
    ∃ f', (applyAll w db).feedbacks.get? id = some f' ∧ SameRating f f' := by
  rcases feedbacks_committed h hf with hkept | ⟨actor, newStatus, memo, now, -, hmoved⟩
  · exact ⟨f, hkept, ⟨rfl, rfl, rfl, rfl⟩⟩
  · exact ⟨_, hmoved, ⟨rfl, rfl, rfl, rfl⟩⟩

end

/-! What a `create_feedback` knows. -/

def Db.Unrated (db : Db) (id : Id) : Prop := ∀ f ∈ db.feedbacks, f.advice ≠ id

theorem unrated_apply {e : Env} {x : Write} {db : Db} {id : Id} (hx : Key.feedbackEntry id ∉ locks e x)
    (h : db.Unrated id) : (apply e x db).Unrated id := by
  cases x with
  | insertFeedback r =>
    refine Table.forall_mem_insert h ?_
    rintro rfl
    simp [locks, Feedback.saved] at hx
  | updateFeedback k s =>
    intro f hf
    rw [apply, Table.mem_update] at hf
    obtain ⟨f₀, hf₀, rfl⟩ := hf
    split_ifs
    · exact h f₀ hf₀
    · exact h f₀ hf₀
  | _ => exact h

theorem unrated_applyAll {w : Pending Write} {db : Db} {id : Id}
    (hw : ∀ p ∈ w, Key.feedbackEntry id ∉ locks p.1 p.2) (h : db.Unrated id) :
    (applyAll w db).Unrated id :=
  holds_applyAll (I := fun db : Db => db.Unrated id) h fun p hp _ hold => unrated_apply (hw p hp) hold

def alreadyRated : APIException := .conflict "이미 이 조언에 피드백을 작성했습니다." none

def newFeedback (id author : Id) (data : FeedbackData) : Feedback :=
  { advice := id, author := author, score := data.score, content := data.content }

/-- Where a `create_feedback` stands; what it has checked stays so, and once it has
inserted its row nobody else can. -/
inductive CreateKnows (id author : Id) (data : FeedbackData) (db : Db) :
    Service Feedback → Pending Write → Prop
  | start : CreateKnows id author data db (createFeedback id author data) []
  | passed (h : db.Ratable id author) : CreateKnows id author data db (feedbackInsert id author data) []
  | written (e : Env) (h : db.Ratable id author) (hfree : db.Unrated id)
      (hid : db.feedbacks.get? e.uuid = none) :
      CreateKnows id author data db (.commit (.ret (.ok ((newFeedback id author data).saved e))))
        [(e, .insertFeedback (newFeedback id author data))]
  | taken : CreateKnows id author data db (.rollback (.ret (.error alreadyRated))) []
  | ended (r : Except APIException Feedback) : CreateKnows id author data db (.ret r) []

theorem ratable_of_exposed {db : Db} {author id : Id} (h : ∃ a ∈ db.exposed author, a.id = id) :
    db.Ratable id author := by
  obtain ⟨a, ha, rfl⟩ := h
  obtain ⟨hmem, happroved, c, hc, hauthor, -⟩ := mem_exposed.mp ha
  exact ⟨a, c, Table.mem_iff_get?.mp hmem, happroved, hc, hauthor⟩

theorem feedbackInsert_writes (id author : Id) (data : FeedbackData) :
    ∃ n, feedbackInsert id author data =
        Prog.write (fun _ => [.insertFeedback (newFeedback id author data)]) n ∧
      (∀ e v, n e v true = .commit (.ret (.ok ((newFeedback id author data).saved e)))) ∧
      ∀ e v, n e v false = .rollback (.ret (.error alreadyRated)) :=
  ⟨_, rfl, fun _ _ => rfl, fun _ _ => rfl⟩

theorem unrated_of_violates {db : Db} {e : Env} {id author : Id} {data : FeedbackData}
    (hv : violates db e (.insertFeedback (newFeedback id author data)) = false) :
    db.feedbacks.get? e.uuid = none ∧ db.Unrated id := by
  rw [violates, Bool.or_eq_false_iff, Table.any_eq_false_iff] at hv
  exact ⟨by simpa using hv.1, fun f hf => of_decide_eq_false (hv.2 f hf)⟩

/-- What one statement of a `create_feedback` does, seen from the advice: it goes on, or
refuses a caller that is not eligible, or says that the advice is rated, or rates it. -/
inductive CreateTurn (id author : Id) (data : FeedbackData) (db : Db) (p : Service Feedback)
    (w : Pending Write) : Service Feedback → Db → Prop
  | goesOn (p') (hp : ∀ r, p' ≠ .ret r) : CreateTurn id author data db p w p' db
  | refused (e : APIException) (hp : p = createFeedback id author data)
      (h : ∀ a ∈ db.exposed author, a.id ≠ id) :
      CreateTurn id author data db p w (.ret (.error e)) db
  | taken : CreateTurn id author data db p w (.ret (.error alreadyRated)) db
  | rated (e : Env) (h : db.Ratable id author) (hfree : db.Unrated id)
      (hid : db.feedbacks.get? e.uuid = none) :
      CreateTurn id author data db p w (.ret (.ok ((newFeedback id author data).saved e)))
        (applyAll [(e, .insertFeedback (newFeedback id author data))] db)

section

variable {id author : Id} {data : FeedbackData}

theorem CreateKnows.turn {c c' : Config system} {t uuid : ℕ} {p : Service Feedback}
    {w : Pending Write} (h : CreateKnows id author data c.world.db p w)
    (ht : Config.Turn c t uuid ⟨.createFeedback id author data, p, w⟩ c') :
    ∃ p' w', c'.slot t = some ⟨.createFeedback id author data, p', w'⟩ ∧
      CreateKnows id author data c'.world.db p' w' ∧
      CreateTurn id author data c.world.db p w p' c'.world.db := by
  cases h with
  | start =>
    obtain ⟨n, hp, hn⟩ := createFeedback_reads id author data
    obtain ⟨hworld, hslot⟩ := ht.of_select hp
    refine ⟨_, _, hslot, ?_⟩
    rw [hworld, World.view_nil, World.tick_db]
    rcases hn c.world.db with ⟨hexposed, hnext⟩ | ⟨hnone, e, -, hnext⟩ <;> rw [hnext]
    · exact ⟨.passed (ratable_of_exposed hexposed), .goesOn _ fun r hr => by cases hr⟩
    · exact ⟨.ended _, .refused e rfl hnone⟩
  | passed h =>
    obtain ⟨n, hp, htrue, hfalse⟩ := feedbackInsert_writes id author data
    obtain ⟨hworld, hslot | ⟨hv, hslot⟩⟩ := ht.of_write hp <;> refine ⟨_, _, hslot, ?_⟩ <;>
      rw [hworld, World.view_nil, World.tick_db]
    · rw [hfalse]
      exact ⟨.taken, .goesOn _ fun r hr => by cases hr⟩
    · obtain ⟨hid, hfree⟩ := unrated_of_violates (by simpa [Engine.violates] using hv)
      rw [htrue]
      exact ⟨.written _ h hfree hid, .goesOn _ fun r hr => by cases hr⟩
  | written e h hfree hid =>
    obtain ⟨hworld, hslot⟩ := ht.of_commit rfl
    refine ⟨_, _, hslot, .ended _, ?_⟩
    rw [hworld, World.commit_db]
    exact .rated e h hfree hid
  | taken =>
    obtain ⟨hworld, hslot⟩ := ht.of_rollback rfl
    refine ⟨_, _, hslot, .ended _, ?_⟩
    rw [hworld, World.tick_db]
    exact .taken
  | ended r => exact (ht.not_ret rfl).elim

theorem CreateKnows.of_commit {db : Db} {p : Service Feedback} {w : Pending Write} {n}
    (h : CreateKnows id author data db p w) (hp : p = .commit n) :
    ∃ e, w = [(e, .insertFeedback (newFeedback id author data))] ∧ db.Ratable id author ∧
      db.Unrated id ∧ db.feedbacks.get? e.uuid = none := by
  cases h with
  | start =>
    obtain ⟨n', hprog, -⟩ := createFeedback_reads id author data
    exact absurd (hp.symm.trans hprog) (by simp)
  | passed _ =>
    obtain ⟨n', hprog, -⟩ := feedbackInsert_writes id author data
    exact absurd (hp.symm.trans hprog) (by simp)
  | written e h hfree hid => exact ⟨e, rfl, h, hfree, hid⟩
  | taken => cases hp
  | ended r => cases hp

theorem CreateKnows.keep {db db' : Db} {p : Service Feedback} {w : Pending Write}
    (h : CreateKnows id author data db p w)
    (hratable : db.Ratable id author → db'.Ratable id author)
    (hfree : ∀ e, w = [(e, .insertFeedback (newFeedback id author data))] →
      (db.Unrated id → db'.Unrated id) ∧
        (db.feedbacks.get? e.uuid = none → db'.feedbacks.get? e.uuid = none)) :
    CreateKnows id author data db' p w := by
  cases h with
  | start => exact .start
  | passed h => exact .passed (hratable h)
  | written e h hun hid => exact .written e (hratable h) ((hfree e rfl).1 hun) ((hfree e rfl).2 hid)
  | taken => exact .taken
  | ended r => exact .ended r

end

variable {σ₀ : World Db} {c : Config system}

theorem createFeedback_knows {ok : Config system → Event system → Prop}
    (hr : Config.Reaches ok (Config.idle σ₀) c) {t : ℕ} {id author : Id} {data : FeedbackData}
    {p : Service Feedback} {w : Pending Write}
    (hs : c.slot t = some ⟨.createFeedback id author data, p, w⟩) :
    CreateKnows id author data c.world.db p w := by
  refine hr.knows (I := fun p w db => CreateKnows id author data db p w) (fun _ => .start) ?_ ?_ hs
  · intro c c' t uuid p w h ht
    obtain ⟨p', w', hslot', hknows, -⟩ := h.turn ht
    exact ⟨p', w', hslot', hknows⟩
  · intro c t t' uuid p w s' n hr' _ hne hslot hslot' hp hknows
    refine hknows.keep (ratable_committed (committed_of_slot hr' hslot' hp)) ?_
    rintro e rfl
    -- The session owns the entry it has inserted, so the other one has not written it.
    have htidy := (Config.Tidy.idle σ₀).reaches hr'
    have hentries : ∀ k ∈ locks e (.insertFeedback (newFeedback id author data)),
        ∀ q ∈ s'.writes, k ∉ Engine.locks Db q.1 q.2 := by
      intro k hk q hq hk'
      have hmine := htidy.locked t _ hslot _ (List.mem_singleton.mpr rfl) k hk
      exact hne (Config.owner_unique hmine (htidy.locked t' _ hslot' q hq k hk'))
    refine ⟨unrated_applyAll (hentries _ (by simp [locks, newFeedback])), fun hid => ?_⟩
    have hkeeps : Guarded.keeps (Key.feedback e.uuid) c.world.db (applyAll s'.writes c.world.db) :=
      keeps_applyAll fun q hq => hentries _ (by simp [locks]) q hq
    exact (show (applyAll s'.writes c.world.db).feedbacks.get? e.uuid = _ from hkeeps).trans hid

/-! The invariant. -/

theorem ratable_rated {e : Env} {r : Feedback} {db : Db} {id author : Id} :
    (applyAll [(e, .insertFeedback r)] db).Ratable id author ↔ db.Ratable id author := Iff.rfl

/-- One transaction keeps every feedback in its place. -/
theorem feedbacksFit_commit (hr : Config.Reachable (Config.idle σ₀) c) (hf : FeedbacksFit c.world.db)
    {t : ℕ} {s : Session system} {n} (hslot : c.slot t = some s) (hp : s.prog = .commit n) :
    FeedbacksFit (applyAll s.writes c.world.db) := by
  have hcom := committed_of_slot hr hslot hp
  by_cases hcreate : ∃ id author data, s.call = .createFeedback id author data
  · obtain ⟨id, author, data, hcall⟩ := hcreate
    obtain ⟨call, p, w⟩ := s
    obtain rfl : call = .createFeedback id author data := hcall
    obtain ⟨e, rfl, hratable, hfree, hid⟩ := (createFeedback_knows hr hslot).of_commit hp
    exact ⟨Table.forall_mem_insert (fun f hmem => ratable_rated.mpr (hf.ratable f hmem))
      (ratable_rated.mpr hratable), Table.unique_insert hf.once hfree⟩
  · simp only [not_exists] at hcreate
    constructor
    · intro f' hf'
      obtain ⟨f, hf₀, -, hsame⟩ := feedbacks_before hcom hcreate hf'
      rw [hsame.advice, hsame.author]
      exact ratable_committed hcom (hf.ratable f hf₀)
    · intro f' hf' g' hg' hfg
      obtain ⟨f, hf₀, hfid, hfs⟩ := feedbacks_before hcom hcreate hf'
      obtain ⟨g, hg₀, hgid, hgs⟩ := feedbacks_before hcom hcreate hg'
      have hfg₀ : f = g := hf.once f hf₀ g hg₀ (hfs.advice.symm.trans (hfg.trans hgs.advice))
      exact Table.eq_of_key _ hf' hg' (hfid.symm.trans ((congrArg Feedback.id hfg₀).trans hgid))

theorem feedbacksFit_reachable (h₀ : FeedbacksFit σ₀.db) (hr : Config.Reachable (Config.idle σ₀) c) :
    FeedbacksFit c.world.db := by
  refine hr.invariant (I := fun c => FeedbacksFit c.world.db) h₀ ?_
  intro c e c' hr' hf _ hs
  exact Config.step_keeps hs hf fun _ hslot hp => feedbacksFit_commit hr' hf hslot hp

/-- Along a run a feedback keeps what it says, and an approved advice its row. -/
theorem ratings_run (hr : Config.Reachable (Config.idle σ₀) c) {c' : Config system}
    (hr' : Config.Reachable c c') :
    (∀ id f, c.world.db.feedbacks.get? id = some f →
      ∃ f', c'.world.db.feedbacks.get? id = some f' ∧ SameRating f f') ∧
    ∀ id a, c.world.db.advices.get? id = some a → a.status = .approved →
      c'.world.db.advices.get? id = some a := by
  induction hr' with
  | refl => exact ⟨fun id f hf => ⟨f, hf, ⟨rfl, rfl, rfl, rfl⟩⟩, fun id a ha _ => ha⟩
  | step hr'' _ hs ih =>
    rcases Config.step_world hs with hw | ⟨t, uuid, s, n, -, hslot, hp, hw⟩
    · rw [hw]
      exact ih
    · rw [hw, World.commit_db]
      have hcom := committed_of_slot (hr.trans hr'') hslot hp
      refine ⟨fun id f hf => ?_, fun id a ha happroved => ?_⟩
      · obtain ⟨f₁, hf₁, hs₁⟩ := ih.1 id f hf
        obtain ⟨f₂, hf₂, hs₂⟩ := feedbacks_after hcom hf₁
        exact ⟨f₂, hf₂, hs₁.trans hs₂⟩
      · exact approved_committed hcom (ih.2 id a ha happroved) happroved

/-! The second feedback. -/

/-- A statement of a `create_feedback` on an advice that is rated already changes nothing,
and answers, if it answers, that it is, unless it has just found its caller not eligible. -/
theorem second_step (hr : Config.Reachable (Config.idle σ₀) c) {f : Feedback}
    (hf : f ∈ c.world.db.feedbacks) {t uuid : ℕ} {author : Id} {data : FeedbackData}
    {p : Service Feedback} {w : Pending Write} {c' : Config system}
    (hslot : c.slot t = some ⟨.createFeedback f.advice author data, p, w⟩)
    (hs : c.step (.run t uuid) = some c') :
    c'.world.db = c.world.db ∧ ∀ r,
      c'.answer? t = some ⟨.createFeedback f.advice author data, r⟩ →
        r = .error alreadyRated ∨ (p = createFeedback f.advice author data ∧
          (∀ a ∈ c.world.db.exposed author, a.id ≠ f.advice) ∧ ∃ e, r = .error e) := by
  obtain ⟨p', w', hslot', -, hturn⟩ := (createFeedback_knows hr hslot).turn (Config.turn_of_run hslot hs)
  have hanswer : ∀ r, c'.answer? t = some ⟨.createFeedback f.advice author data, r⟩ → p' = .ret r := by
    intro r hr
    rw [Config.answer?_of_slot hslot'] at hr
    cases p' with
    | ret r' =>
      cases hr
      rfl
    | _ => cases hr
  generalize c'.world.db = db' at hturn ⊢
  cases hturn with
  | goesOn _ hp => exact ⟨rfl, fun r hr => absurd (hanswer r hr) (hp r)⟩
  | refused e hp hnone =>
    refine ⟨rfl, fun r hr => Or.inr ⟨hp, hnone, e, ?_⟩⟩
    exact Prog.ret.inj (hanswer r hr).symm
  | taken =>
    refine ⟨rfl, fun r hr => Or.inl ?_⟩
    exact Prog.ret.inj (hanswer r hr).symm
  | rated e _ hfree _ => exact absurd rfl (hfree f hf)

/-- Run alone, it comes to the refusal. -/
theorem second_alone (draw : ℕ → ℕ) {σ : World Db} {f : Feedback} (hf : f ∈ σ.db.feedbacks)
    {author : Id} (data : FeedbackData) (hexposed : ∃ a ∈ σ.db.exposed author, a.id = f.advice) :
    (createFeedback f.advice author data).exec draw [] σ =
      (.error alreadyRated, ⟨σ.db, σ.now + 3⟩) := by
  obtain ⟨n, hp, hn⟩ := createFeedback_reads f.advice author data
  rcases hn σ.db with ⟨-, hnext⟩ | ⟨hnone, -⟩
  · obtain ⟨n', hp', -, hfalse⟩ := feedbackInsert_writes f.advice author data
    have hv : violates σ.db ⟨σ.tick.now, draw σ.tick.now⟩
        (.insertFeedback (newFeedback f.advice author data)) = true := by
      rw [violates, Bool.or_eq_true]
      exact Or.inr ((Table.any_iff _ _).mpr ⟨f, hf, by simp [newFeedback]⟩)
    rw [hp, exec, World.view_nil, hnext, hp', exec]
    simp only [World.view_nil, World.tick_db, Engine.violates, List.any_cons, hv, Bool.true_or, if_true,
      hfalse, exec]
    rfl
  · obtain ⟨a, ha, hid⟩ := hexposed
    exact absurd hid (hnone a ha)

/-- In every schedule each feedback rates an approved advice, once, by the author of its
concern; what it says stays, and so does the advice; and a call on an advice that is
rated changes nothing and tells an eligible caller so. -/
theorem feedback_integrity (h₀ : FeedbacksFit σ₀.db) (hr : Config.Reachable (Config.idle σ₀) c) :
    FeedbacksFit c.world.db ∧
    (∀ c', Config.Reachable c c' → ∀ f ∈ c.world.db.feedbacks,
      (∃ f', c'.world.db.feedbacks.get? f.id = some f' ∧ SameRating f f') ∧
      ∃ a, a.status = .approved ∧ c.world.db.advices.get? f.advice = some a ∧
        c'.world.db.advices.get? f.advice = some a) ∧
    ∀ f ∈ c.world.db.feedbacks, ∀ author data,
      (∀ t uuid p w c', c.slot t = some ⟨.createFeedback f.advice author data, p, w⟩ →
        c.step (.run t uuid) = some c' → c'.world.db = c.world.db ∧ ∀ r,
          c'.answer? t = some ⟨.createFeedback f.advice author data, r⟩ →
            r = .error alreadyRated ∨ (p = createFeedback f.advice author data ∧
              (∀ a ∈ c.world.db.exposed author, a.id ≠ f.advice) ∧ ∃ e, r = .error e)) ∧
      ∀ draw, (∃ a ∈ c.world.db.exposed author, a.id = f.advice) →
        (createFeedback f.advice author data).exec draw [] c.world =
          (.error alreadyRated, ⟨c.world.db, c.world.now + 3⟩) := by
  have hfit := feedbacksFit_reachable h₀ hr
  refine ⟨hfit, fun c' hr' f hf => ?_, fun f hf author data => ⟨?_, ?_⟩⟩
  · obtain ⟨hkept, hfrozen⟩ := ratings_run hr hr'
    obtain ⟨a, -, ha, happroved, -⟩ := hfit.ratable f hf
    exact ⟨hkept f.id f (Table.mem_iff_get?.mp hf), a, happroved, ha, hfrozen _ a ha happroved⟩
  · exact fun t uuid p w c' hslot hs => second_step hr hf hslot hs
  · exact fun draw hexposed => second_alone draw hf data hexposed

def ratable : World Db :=
  ⟨{ concerns := Table.empty.insert
      { id := 1, author := 1, fields := { concernSummary := "", concernType := .burnout } }
     advices := Table.empty.insert
      { id := 5, concern := 1, advisor := 2, body := { directionalGuidance := "" }, status := .approved } },
    0⟩

/-- Two calls have passed their checks, and one has rated the advice. -/
def rating : Config system :=
  (Config.idle ratable).after
    [.start 0 (.createFeedback 5 1 { score := 4 }), .start 1 (.createFeedback 5 1 { score := 2 }),
      .run 0 0, .run 1 0, .run 0 7, .run 0 0]

theorem feedback_integrity_rating : FeedbacksFit rating.world.db ∧
    (rating.after [.run 1 8]).world.db = rating.world.db ∧
    ∃ f ∈ rating.world.db.feedbacks, f.score = 4 ∧
      (createFeedback f.advice 1 { score := 3 }).exec id [] rating.world =
        (.error alreadyRated, ⟨rating.world.db, rating.world.now + 3⟩) := by
  have h₀ : FeedbacksFit ratable.db :=
    ⟨fun f hf => absurd hf (Table.not_mem_empty f), fun f hf => absurd hf (Table.not_mem_empty f)⟩
  have hr : Config.Reachable (Config.idle ratable) rating := Config.reachable_after _ _
  obtain ⟨hfit, -, hsecond⟩ := feedback_integrity h₀ hr
  obtain ⟨f, hget, hscore, hadvice⟩ : ∃ f, rating.world.db.feedbacks.get? 7 = some f ∧ f.score = 4 ∧
      f.advice = 5 := ⟨_, rfl, rfl, rfl⟩
  have hf : f ∈ rating.world.db.feedbacks := (Table.get?_eq_some.mp hget).1
  have hslot : rating.slot 1 = some ⟨.createFeedback f.advice 1 { score := 2 },
      feedbackInsert f.advice 1 { score := 2 }, []⟩ := by
    rw [hadvice]
    rfl
  refine ⟨hfit, ?_, f, hf, hscore, ?_⟩
  · exact ((hsecond f hf 1 { score := 2 }).1 1 8 _ _ _ hslot rfl).1
  · refine (hsecond f hf 1 { score := 3 }).2 id ?_
    rw [hadvice]
    exact ⟨_, mem_exposed.mpr ⟨List.mem_singleton.mpr rfl, rfl, _, rfl, rfl, rfl⟩, rfl⟩

end Chamneul
