import Chamneul.Proofs.Disciplined

/-! The entries of the unique indexes as facts a lock owns. A session that holds the lock of an entry
is the only one to come into it, so what the engine found free when a row was written is free when
the row is committed. -/

namespace Chamneul

open ReadCommitted ReadCommitted.Prog Service

/-- Row `i` holds the entry `k` of a unique index, partial ones included. -/
def Db.Holder (db : Db) : Key → Id → Prop
  | .nickname name, i => ∃ u, db.users.get? i = some u ∧ u.nickname = name
  | .displayName name, i =>
    ∃ a, db.applications.get? i = some a ∧ a.displayName = name ∧ a.status.isActive = true
  | .assignmentEntry c v, i =>
    ∃ a, db.assignments.get? i = some a ∧ a.concern = c ∧ a.advisor = v ∧ a.isActive = true
  | .adviceEntry c v, i =>
    ∃ a, db.advices.get? i = some a ∧ a.concern = c ∧ a.advisor = v ∧ a.status ≠ .deleted
  | .feedbackEntry a, i => ∃ f, db.feedbacks.get? i = some f ∧ f.advice = a
  | _, _ => False

/-- What a lock owns, and besides: no row comes into a locked entry. -/
def ownsEntries (k : Key) (db db' : Db) : Prop :=
  owns k db db' ∧ ∀ i, db'.Holder k i → db.Holder k i

theorem ownsEntries_refl (k : Key) (db : Db) : ownsEntries k db db :=
  ⟨owns_refl k db, fun _ h => h⟩

theorem ownsEntries_trans {k : Key} {db db' db'' : Db} (h : ownsEntries k db db')
    (h' : ownsEntries k db' db'') : ownsEntries k db db'' :=
  ⟨owns_trans h.1 h'.1, fun i hi => h.2 i (h'.2 i hi)⟩

/-- The entry is locked, and no row but perhaps `i` holds it. -/
structure Entering (L : Set Key) (db : Db) (k : Key) (i : Id) : Prop where
  locked : k ∈ L
  alone : ∀ j, db.Holder k j → j = i

/-- What the lock of an entry keeps from one statement to the next. -/
theorem Locks.holder {R : Rely Db Key Write} {drift : Db → Db → Prop}
    (hR : R.Locks ownsEntries drift) {L : Set Key} {w : Pending Write} {σ σ' : World Db}
    (h : R L w σ.tick σ') {k : Key} (hk : k ∈ L) {j : Id} (hj : σ'.db.Holder k j) : σ.db.Holder k j :=
  (hR.owns h hk).2 j hj

def Call.entry : Call → Option Key
  | .updateProfile _ data => data.nickname.map .nickname
  | .createApplication _ displayName => some (.displayName displayName)
  | .assignAdvisor id _ data => some (.assignmentEntry id data.advisorUserId)
  | .createAdvice id advisor _ _ => some (.adviceEntry id advisor)
  | .createFeedback id _ _ => some (.feedbackEntry id)
  | _ => none

def entrant : Pending Write → Option Id
  | (_, .updateUser id _) :: _ => some id
  | (e, _) :: _ => some e.uuid
  | [] => none

/-- Who is given a role that was asked for by name. -/
def Call.grantee : Call → Option Id
  | .grantRole target _ _ _ => some target
  | _ => none

/-- What a call knows, when it commits, of the entry it brings a row into, and of its grantee. -/
structure Entries (L : Set Key) (w : Pending Write) (db : Db) (call : Call) : Prop where
  entering : ∀ k ∈ call.entry, ∀ i ∈ entrant w, Entering L db k i
  grantee : ∀ user ∈ call.grantee, (db.users.get? user).isSome = true

abbrev entries (call : Call) : Duty Db Key Write := Duty.ofCommit fun L w σ => Entries L w σ.db call

theorem entries_of_entering {L : Set Key} {w : Pending Write} {db : Db} {call : Call} {k : Key} {i : Id}
    (hcall : call.entry = some k) (hnone : call.grantee = none) (hw : entrant w = some i)
    (h : Entering L db k i) : Entries L w db call := by
  constructor
  · intro k' hk' i' hi'
    obtain rfl := Option.some.inj (hcall.symm.trans hk')
    obtain rfl := Option.some.inj (hw.symm.trans hi')
    exact h
  · intro user huser
    rw [hnone] at huser
    cases huser

/-! What the engine checks when a row comes into an entry. -/

section

variable {db : Db} {e : Env}

theorem nickname_alone {id : Id} {set : UserSet} {name : String} (hname : name ∈ set.nickname)
    (hv : violates db e (.updateUser id set) = false) {j : Id} (hj : db.Holder (.nickname name) j) :
    j = id := by
  obtain ⟨u, hu, hnick⟩ := hj
  obtain ⟨hmem, hkey⟩ := Table.get?_eq_some.mp hu
  rw [User.key_eq] at hkey
  have hset : set.nickname = some name := hname
  simp only [violates, hset, Table.any_eq_false_iff, decide_eq_false_iff_not] at hv
  by_contra hne
  exact hv u hmem ⟨hkey ▸ hne, hnick⟩

theorem displayName_alone {a : AdvisorApplication} (ha : a.status.isActive = true)
    (hv : violates db e (.insertApplication a) = false) {j : Id} :
    ¬ db.Holder (.displayName a.displayName) j := by
  rintro ⟨b, hb, hname, hactive⟩
  rw [violates, Bool.or_eq_false_iff, ha, Bool.true_and, Table.any_eq_false_iff] at hv
  have hfree := hv.2 b (Table.get?_eq_some.mp hb).1
  simp [hname, hactive] at hfree

theorem assignment_alone {a : Assignment} (ha : a.isActive = true)
    (hv : violates db e (.insertAssignment a) = false) {j : Id} :
    ¬ db.Holder (.assignmentEntry a.concern a.advisor) j := by
  rintro ⟨b, hb, hconcern, hadvisor, hactive⟩
  rw [violates, Bool.or_eq_false_iff, ha, Bool.true_and, Table.any_eq_false_iff] at hv
  have hfree := hv.2 b (Table.get?_eq_some.mp hb).1
  simp [hconcern, hadvisor, hactive] at hfree

theorem advice_alone {a : Advice} (ha : a.status ≠ .deleted)
    (hv : violates db e (.insertAdvice a) = false) {j : Id} :
    ¬ db.Holder (.adviceEntry a.concern a.advisor) j := by
  rintro ⟨b, hb, hconcern, hadvisor, hlive⟩
  rw [violates, Bool.or_eq_false_iff, decide_eq_true ha, Bool.true_and, Table.any_eq_false_iff] at hv
  have hfree := hv.2 b (Table.get?_eq_some.mp hb).1
  simp [hconcern, hadvisor, hlive] at hfree

theorem feedback_alone {f : Feedback} (hv : violates db e (.insertFeedback f) = false) {j : Id} :
    ¬ db.Holder (.feedbackEntry f.advice) j := by
  rintro ⟨b, hb, hadvice⟩
  rw [violates, Bool.or_eq_false_iff, Table.any_eq_false_iff] at hv
  have hfree := hv.2 b (Table.get?_eq_some.mp hb).1
  simp [hadvice] at hfree

end

section

variable {R : Rely Db Key Write} {drift : Db → Db → Prop}

/-- The outermost transaction of a call, where only what it commits matters. -/
theorem wp_transaction_commits {α : Type} {C : Set Key → Pending Write → World Db → Prop}
    {p : Service α} {L : Set Key} {w : Pending Write} {σ : World Db}
    (h : wp R (Duty.ofCommit C) p L w σ (Returns R C)) :
    wp R (Duty.ofCommit C) p.atomic L w σ fun _ _ _ _ => True :=
  wp_mono (fun _ _ _ _ _ => trivial) (wp_transaction h)

theorem updateProfile_entries (hR : R.Locks ownsEntries drift) (user : Id) (data : ProfileData)
    (σ : World Db) : wp R (entries (.updateProfile user data)) (updateProfile user data) ∅ [] σ
      fun _ _ _ _ => True := by
  refine wp_transaction_commits ?_
  simp only [getOwnRow, wp_bind, wp_lockOr, wp_handle, wp_raise, wp_write,
    Duty.ofCommit_stage, true_and, implies_true, and_true, returns_ok, returns_error,
    World.view_nil, List.nil_append]
  intro σ₁ h₁ row hrow σ₂ e _ h₂ hv σ₃ h₃
  refine ⟨fun k hk i hi => ?_, fun _ hnone => by cases hnone⟩
  obtain rfl : row.id = i := Option.some.inj hi
  obtain ⟨name, hname, rfl⟩ := Option.map_eq_some_iff.mp hk
  have hset : data.toSet.nickname = some name := hname
  have hlocked : Key.nickname name ∈ locks e (.updateUser row.id data.toSet) := by simp [locks, hset]
  exact ⟨Or.inr hlocked, fun j hj => nickname_alone hname hv (Locks.holder hR h₃ (Or.inr hlocked) hj)⟩

theorem grantRole_entries (hR : R.Locks ownsEntries drift) (target : Id) (role : Role) (actor : Id)
    (reason : String) (σ : World Db) : wp R (entries (.grantRole target role actor reason))
      (grantRole target role actor reason) ∅ [] σ fun _ _ _ _ => True := by
  have hR' : R.Locks owns drift := hR.mono And.left
  simp only [grantRole, wp_bind, wp_raiseIf, implies_true, true_and]
  intro hrole
  refine wp_transaction_commits ?_
  simp only [getUserForUpdate, wp_bind, wp_lockOr, wp_query, wp_raiseIf, wp_write, wp_pure,
    Duty.ofCommit_stage, true_and, implies_true, and_true, returns_ok, returns_error,
    World.view_nil, List.nil_append, List.cons_append]
  intro σ₁ h₁ user huser σ₂ h₂ hheld σ₃ e₁ _ h₃ hv₃ σ₄ e₂ _ h₄ hv₄ σ₅ h₅
  refine ⟨fun _ hnone => (by cases hnone), fun u hu => ?_⟩
  obtain rfl : target = u := Option.some.inj hu
  rw [Locks.user hR' h₅ (by simp), Locks.user hR' h₄ (by simp), Locks.user hR' h₃ (by simp),
    Locks.user hR' h₂ (by simp), huser]
  rfl

/-- One `INSERT` in a transaction of its own. -/
theorem insert_entering (hR : R.Locks ownsEntries drift) {C : Set Key → Pending Write → World Db → Prop}
    {x : Write} {k : Key} {α : Type} {out : Env → Db → α} {h : APIException → Service α} {σ : World Db}
    (hlocked : ∀ e, k ∈ locks e x)
    (hfree : ∀ {db e}, violates db e x = false → ∀ j, ¬ db.Holder k j)
    (hC : ∀ {L σ e}, Entering L σ.db k e.uuid → C L [(e, x)] σ)
    (hh : ∀ e, ∃ e', h e = raise e') :
    wp R (Duty.ofCommit C) (handle (atomic (write x out)) h) ∅ [] σ fun _ _ _ _ => True := by
  rw [wp_handle]
  refine wp_mono ?_ (wp_transaction_commits ?_)
  · intro r L w σ _
    cases r with
    | ok a => trivial
    | error e =>
      obtain ⟨e', he⟩ := hh e
      show wp R (Duty.ofCommit C) (h e) L w σ fun _ _ _ _ => True
      rw [he]
      trivial
  · simp only [wp_write, Duty.ofCommit_stage, true_and, implies_true, returns_ok, returns_error,
      World.view_nil, List.nil_append]
    intro σ₁ e _ h₁ hv σ₂ h₂
    have hk : k ∈ (∅ : Set Key) ∪ {k | k ∈ locks e x} := Or.inr (hlocked e)
    exact hC ⟨hk, fun j hj => absurd (Locks.holder hR h₂ hk hj) (hfree hv j)⟩

theorem createApplication_entries (hR : R.Locks ownsEntries drift) (applicant : Id)
    (displayName : String) (σ : World Db) :
    wp R (entries (.createApplication applicant displayName))
      (createApplication applicant displayName) ∅ [] σ fun _ _ _ _ => True := by
  simp only [createApplication, wp_bind, wp_query, wp_raiseIf, Duty.ofCommit_stage, true_and,
    implies_true]
  intro σ₁ h₁ σ₂ h₂ hfree
  refine insert_entering hR (fun e => by simp [locks]) (fun hv j => displayName_alone rfl hv)
    (entries_of_entering rfl rfl rfl) fun _ => ⟨_, rfl⟩

theorem assignAdvisor_entries (hR : R.Locks ownsEntries drift) (id actor : Id) (data : AssignData)
    (σ : World Db) : wp R (entries (.assignAdvisor id actor data)) (assignAdvisor id actor data) ∅ []
      σ fun _ _ _ _ => True := by
  simp only [assignAdvisor, wp_bind, wp_query, wp_raiseIf, Duty.ofCommit_stage, true_and,
    implies_true]
  intro σ₁ h₁ _
  refine wp_transaction_commits ?_
  simp only [wp_bind, wp_raiseIf, wp_lockOr, wp_handle, wp_write, wp_runIf, wp_pure, wp_raise,
    Duty.ofCommit_stage, true_and, implies_true, and_true, returns_ok, returns_error,
    World.view_nil, List.nil_append, List.cons_append, Decidable.not_not]
  intro σ₂ h₂ row hrow hlive hopen σ₃ e₁ he₁ h₃ hv₁
  obtain rfl : row.id = id := (Table.get?_eq_some.mp hrow).2
  have hlocked : Key.assignmentEntry row.id data.advisorUserId ∈ locks e₁ (.insertAssignment
      { concern := row.id, advisor := data.advisorUserId, assignedBy := actor
        triageDecision := data.triageDecision, priority := data.priority }) := by simp [locks]
  have hfree : ∀ j, ¬ σ₃.db.Holder (.assignmentEntry row.id data.advisorUserId) j :=
    fun j hj => assignment_alone rfl hv₁ hj
  refine ⟨fun _ σ₄ e₂ _ h₄ _ σ₅ e₃ _ h₅ _ σ₆ h₆ => ?_, fun _ σ₅ e₃ _ h₅ _ σ₆ h₆ => ?_⟩
  · refine entries_of_entering rfl rfl rfl ⟨.inl (.inl (.inr hlocked)), fun j hj => absurd ?_ (hfree j)⟩
    have h₅' := Locks.holder hR h₆ (.inl (.inl (.inr hlocked))) hj
    exact Locks.holder hR h₄ (.inr hlocked) (Locks.holder hR h₅ (.inl (.inr hlocked)) h₅')
  · refine entries_of_entering rfl rfl rfl ⟨.inl (.inr hlocked), fun j hj => absurd ?_ (hfree j)⟩
    exact Locks.holder hR h₅ (.inr hlocked) (Locks.holder hR h₆ (.inl (.inr hlocked)) hj)

theorem createAdvice_entries (hR : R.Locks ownsEntries drift) (id advisor : Id) (body : AdviceBody)
    (submit : Bool) (σ : World Db) : wp R (entries (.createAdvice id advisor body submit))
      (createAdvice id advisor body submit) ∅ [] σ fun _ _ _ _ => True := by
  simp only [createAdvice, wp_bind, wp_query, wp_getOr, wp_raiseIf, Duty.ofCommit_stage, true_and,
    implies_true, and_true]
  intro σ₁ h₁ row hrow σ₂ h₂ hassigned
  obtain ⟨hrow, -⟩ := Option.filter_eq_some_iff.mp hrow
  obtain rfl : row.id = id := (Table.get?_eq_some.mp hrow).2
  refine insert_entering hR (fun e => by simp [locks]) (fun hv j => advice_alone (by simp) hv)
    (entries_of_entering rfl rfl rfl) fun _ => ⟨_, rfl⟩

theorem createFeedback_entries (hR : R.Locks ownsEntries drift) (id author : Id)
    (data : FeedbackData) (σ : World Db) : wp R (entries (.createFeedback id author data))
      (createFeedback id author data) ∅ [] σ fun _ _ _ _ => True := by
  simp only [createFeedback, wp_bind, wp_query, wp_getOr, wp_raiseIf, Duty.ofCommit_stage, true_and,
    implies_true, and_true]
  rintro σ₁ h₁ ⟨row, concern⟩ hfound hauthor hlive happroved
  have hget := (adviceAndConcern?_eq_some.mp hfound).1
  obtain rfl : row.id = id := (Table.get?_eq_some.mp hget).2
  refine insert_entering hR (fun e => by simp [locks]) (fun hv j => feedback_alone hv)
    (entries_of_entering rfl rfl rfl) fun _ => ⟨_, rfl⟩

theorem program_entries (hR : R.Locks ownsEntries drift) (call : Call) (σ : World Db) :
    wp R (entries call) (program call) ∅ [] σ fun _ _ _ _ => True := by
  have hnothing : ∀ {call : Call}, call.entry = none → call.grantee = none →
      wp R (entries call) (program call) ∅ [] σ fun _ _ _ _ => True := by
    intro call hentry hgrantee
    have hduty : entries call = ⟨fun _ _ _ => True, fun _ _ _ _ => True⟩ := by
      simp only [Duty.ofCommit, Duty.mk.injEq, and_true]
      funext L w σ
      exact eq_true ⟨by simp [hentry], by simp [hgrantee]⟩
    rw [hduty]
    exact wp_trivial (fun _ _ _ _ => trivial) _ _ _ _
  cases call with
  | updateProfile user data => exact updateProfile_entries hR user data σ
  | grantRole target role actor reason => exact grantRole_entries hR target role actor reason σ
  | createApplication applicant displayName =>
    exact createApplication_entries hR applicant displayName σ
  | assignAdvisor id actor data => exact assignAdvisor_entries hR id actor data σ
  | createAdvice id advisor body submit => exact createAdvice_entries hR id advisor body submit σ
  | createFeedback id author data => exact createFeedback_entries hR id author data σ
  | _ => exact hnothing rfl rfl

end

/-! Which rows a commit brings into an entry. -/

section

variable {drift : Db → Db → Prop} {L : Set Key} {w : Pending Write} {db db' : Db} {call : Call}

def Key.indexed : Key → Option TableName
  | .nickname _ => some .users
  | .displayName _ => some .applications
  | .assignmentEntry _ _ => some .assignments
  | .adviceEntry _ _ => some .advices
  | .feedbackEntry _ => some .feedbacks
  | _ => none

theorem holder_of_same {t : TableName} {k : Key} {i : Id} (hk : k.indexed = some t)
    (hsame : Same t db db') (h : db'.Holder k i) : db.Holder k i := by
  cases k with
  | nickname _ | displayName _ | assignmentEntry _ _ | adviceEntry _ _ | feedbackEntry _ =>
    obtain rfl := Option.some.inj hk
    simpa only [Db.Holder, show _ = _ from hsame] using h
  | _ => cases hk

/-- The row a change may bring into an entry. -/
inductive Enters (e : Env) (db : Db) : Write → Key → Id → Prop
  | renamed (id : Id) (s : UserSet) (name : String) (hs : name ∈ s.nickname) :
      Enters e db (.updateUser id s) (.nickname name) id
  | applied (a : AdvisorApplication) :
      Enters e db (.insertApplication a) (.displayName a.displayName) e.uuid
  | reviewed (id : Id) (s : ApplicationSet) (a : AdvisorApplication)
      (hget : db.applications.get? id = some a) (hs : s.status.isActive = true) :
      Enters e db (.updateApplication id s) (.displayName a.displayName) id
  | assigned (a : Assignment) :
      Enters e db (.insertAssignment a) (.assignmentEntry a.concern a.advisor) e.uuid
  | advised (a : Advice) : Enters e db (.insertAdvice a) (.adviceEntry a.concern a.advisor) e.uuid
  | moved (id : Id) (s : AdviceSet) (c v : Id) (t : AdviceStatus) (hs : t ∈ s.status)
      (ht : t ≠ .deleted) : Enters e db (.updateAdvice id s) (.adviceEntry c v) id
  | saved (a r : Advice) (hget : db.advices.get? r.id = some a) :
      Enters e db (.saveAdvice r) (.adviceEntry r.concern r.advisor) r.id
  | rated (f : Feedback) : Enters e db (.insertFeedback f) (.feedbackEntry f.advice) e.uuid

theorem holder_apply {e : Env} {x : Write} {k : Key} {i : Id} (h : (apply e x db).Holder k i) :
    db.Holder k i ∨ Enters e db x k i := by
  cases k with
  | nickname name =>
    cases x with
    | updateUser id s =>
      obtain ⟨u, hu, hname⟩ := h
      obtain hu | ⟨rfl, u₀, h₀, rfl⟩ := Table.get?_update_cases (s.key_apply e) hu
      · exact .inl ⟨u, hu, hname⟩
      · cases hs : s.nickname with
        | none =>
          rw [UserSet.apply, hs] at hname
          exact .inl ⟨u₀, h₀, hname⟩
        | some name' =>
          rw [UserSet.apply, hs] at hname
          exact .inr (.renamed _ s name (hs.trans (congrArg some hname)))
    | _ => exact .inl h
  | displayName name =>
    cases x with
    | insertApplication a =>
      obtain ⟨b, hb, rfl, hactive⟩ := h
      obtain hb | ⟨rfl, rfl⟩ := Table.get?_insert_cases hb
      · exact .inl ⟨b, hb, rfl, hactive⟩
      · exact .inr (.applied a)
    | updateApplication id s =>
      obtain ⟨b, hb, rfl, hactive⟩ := h
      obtain hb | ⟨rfl, b₀, h₀, rfl⟩ := Table.get?_update_cases s.key_apply hb
      · exact .inl ⟨b, hb, rfl, hactive⟩
      · exact .inr (.reviewed _ s b₀ h₀ hactive)
    | _ => exact .inl h
  | assignmentEntry c v =>
    cases x with
    | insertAssignment a =>
      obtain ⟨b, hb, rfl, rfl, hactive⟩ := h
      obtain hb | ⟨rfl, rfl⟩ := Table.get?_insert_cases hb
      · exact .inl ⟨b, hb, rfl, rfl, hactive⟩
      · exact .inr (.assigned a)
    | deactivateAssignment id t =>
      obtain ⟨b, hb, rfl, rfl, hactive⟩ := h
      obtain hb | ⟨rfl, b₀, h₀, rfl⟩ := Table.get?_update_cases (key_deactivated t) hb
      · exact .inl ⟨b, hb, rfl, rfl, hactive⟩
      · cases hactive
    | _ => exact .inl h
  | adviceEntry c v =>
    cases x with
    | insertAdvice a =>
      obtain ⟨b, hb, rfl, rfl, hlive⟩ := h
      obtain hb | ⟨rfl, rfl⟩ := Table.get?_insert_cases hb
      · exact .inl ⟨b, hb, rfl, rfl, hlive⟩
      · exact .inr (.advised a)
    | updateAdvice id s =>
      obtain ⟨b, hb, rfl, rfl, hlive⟩ := h
      obtain hb | ⟨rfl, b₀, h₀, rfl⟩ := Table.get?_update_cases (s.key_apply e) hb
      · exact .inl ⟨b, hb, rfl, rfl, hlive⟩
      · cases hs : s.status with
        | none =>
          rw [AdviceSet.apply, hs] at hlive
          exact .inl ⟨b₀, h₀, rfl, rfl, hlive⟩
        | some status =>
          rw [AdviceSet.apply, hs] at hlive
          exact .inr (.moved _ s _ _ status hs hlive)
    | saveAdvice r =>
      obtain ⟨b, hb, rfl, rfl, hlive⟩ := h
      obtain hb | ⟨rfl, b₀, h₀, rfl⟩ := Table.get?_update_cases (key_overwritten e r) hb
      · exact .inl ⟨b, hb, rfl, rfl, hlive⟩
      · exact .inr (.saved b₀ r h₀)
    | _ => exact .inl h
  | feedbackEntry a =>
    cases x with
    | insertFeedback f =>
      obtain ⟨b, hb, rfl⟩ := h
      obtain hb | ⟨rfl, rfl⟩ := Table.get?_insert_cases hb
      · exact .inl ⟨b, hb, rfl⟩
      · exact .inr (.rated f)
    | updateFeedback id s =>
      obtain ⟨b, hb, rfl⟩ := h
      obtain hb | ⟨rfl, b₀, h₀, rfl⟩ := Table.get?_update_cases s.key_apply hb
      · exact .inl ⟨b, hb, rfl⟩
      · exact .inl ⟨b₀, h₀, rfl⟩
    | _ => exact .inl h
  | _ => exact h.elim

theorem holder_tail {t : TableName} {k : Key} {i : Id} (hk : k.indexed = some t)
    (hw : ∀ p ∈ w, p.2.table ≠ t) (h : (applyAll w db).Holder k i) : db.Holder k i :=
  holder_of_same hk (same_applyAll hw) h

/-- A commit that starts with its one change to the table. -/
theorem holder_head {t : TableName} {k : Key} {i : Id} {e : Env} {x : Write} (hk : k.indexed = some t)
    (hw : ∀ p ∈ w, p.2.table ≠ t) (h : (applyAll ((e, x) :: w) db).Holder k i) :
    db.Holder k i ∨ Enters e db x k i :=
  holder_apply (holder_tail hk hw h)

theorem holder_single {k : Key} {i : Id} {e : Env} {x : Write}
    (h : (applyAll [(e, x)] db).Holder k i) : db.Holder k i ∨ Enters e db x k i := holder_apply h

theorem Db.Holder.indexed {k : Key} {i : Id} (h : db.Holder k i) :
    ∃ t ∈ [TableName.users, .applications, .assignments, .advices, .feedbacks],
      k.indexed = some t := by
  cases k with
  | nickname _ | displayName _ | assignmentEntry _ _ | adviceEntry _ _ | feedbackEntry _ =>
    exact ⟨_, by decide, rfl⟩
  | _ => exact h.elim

/-- A commit brings into an entry only the row its call is about. -/
theorem entered_committed (h : Committed drift L w db call) {k : Key} {i : Id}
    (hh : (applyAll w db).Holder k i) : db.Holder k i ∨ k ∈ call.entry ∧ i ∈ entrant w := by
  obtain ⟨t, hindexed, hk⟩ := hh.indexed
  by_cases ht : t ∈ call.tables
  swap
  · exact .inl (holder_of_same hk (same_of_committed h ht) hh)
  cases call with
  | setActiveRole user target =>
    obtain ⟨e, -, -, rfl⟩ := h
    obtain hold | hnew := holder_single hh
    · exact .inl hold
    · cases hnew with
      | renamed _ _ _ hs => cases hs
  | updateProfile user data =>
    obtain ⟨e, -, rfl⟩ := h
    obtain hold | hnew := holder_single hh
    · exact .inl hold
    · cases hnew with
      | renamed _ _ name hs => exact .inr ⟨Option.map_eq_some_iff.mpr ⟨name, hs, rfl⟩, rfl⟩
  | revokeRole target role actor reason =>
    obtain ⟨e₁, e₂, user, row, -, -, -, -, -, -, demotion, rfl, hdem⟩ := h
    obtain rfl : t = .users := by cases t <;> simp [Call.tables] at ht hindexed ⊢
    rw [applyAll_append] at hh
    have hbefore : ∀ {i}, (applyAll [(e₁, Write.deleteUserRole row), (e₂, .insertRoleGrant
        { user := target, role := role, action := .revoke, actedBy := actor
          reason := reason })] db).Holder k i → db.Holder k i := holder_tail hk (by simp [Write.table])
    cases hdem with
    | ran e _ =>
      obtain hold | hnew := holder_single hh
      · exact .inl (hbefore hold)
      · cases hnew with
        | renamed _ _ _ hs => cases hs
    | skipped _ => exact .inl (hbefore hh)
  | createApplication applicant displayName =>
    obtain ⟨e, db₁, db₂, -, -, -, -, rfl⟩ := h
    obtain hold | hnew := holder_single hh
    · exact .inl hold
    · cases hnew
      exact .inr ⟨rfl, rfl⟩
  | reviewApplication id actor target reason =>
    obtain ⟨row, e₁, e₂, now, effects, -, hget, hallowed, -, -, rfl, happroved, hother⟩ := h
    obtain rfl : t = .applications := by cases t <;> simp [Call.tables] at ht hindexed ⊢
    have heffects : ∀ p ∈ effects, p.2.table ≠ .applications := by
      by_cases ha : target = .approved
      · obtain ⟨e₃, role, hrole, -, rfl⟩ := happroved ha
        cases hrole <;> simp [Write.table]
      · rw [hother ha]
        simp [Write.table]
    obtain hold | hnew := holder_head hk heffects hh
    · exact .inl hold
    · cases hnew with
      | reviewed _ _ a ha hs =>
        obtain rfl := Option.some.inj (hget.symm.trans ha)
        refine .inl ⟨row, hget, rfl, ?_⟩
        cases hrow : row.status <;> simp [hrow, AdvisorApplicationStatus.allowed] at hallowed <;> rfl
  | assignAdvisor id actor data =>
    obtain ⟨e₁, e₂, row, transition, -, -, -, -, -, -, -, rfl, htrans⟩ := h
    obtain rfl : t = .assignments := by cases t <;> simp [Call.tables] at ht hindexed ⊢
    have hrest : ∀ n, ∀ p ∈ transition ++ [(e₂, Write.insertNotification n)],
        p.2.table ≠ .assignments := by
      cases htrans <;> simp [Write.table]
    rw [List.append_assoc, List.singleton_append] at hh
    obtain hold | hnew := holder_head hk (hrest _) hh
    · exact .inl hold
    · cases hnew
      exact .inr ⟨rfl, rfl⟩
  | unassignAdvisor id assignmentId =>
    obtain ⟨e₁, now, row, a, transition, -, -, -, -, -, rfl, htrans⟩ := h
    obtain rfl : t = .assignments := by cases t <;> simp [Call.tables] at ht hindexed ⊢
    obtain hold | hnew := holder_head hk (by cases htrans <;> simp [Write.table]) hh
    · exact .inl hold
    · cases hnew
  | createAdvice id advisor body submit =>
    obtain ⟨e, db₁, db₂, row, -, -, -, -, -, rfl⟩ := h
    obtain hold | hnew := holder_single hh
    · exact .inl hold
    · cases hnew
      exact .inr ⟨rfl, rfl⟩
  | updateAdvice id actor data =>
    obtain ⟨e, row, snapshot, -, -, -, -, rfl, -, hsnap⟩ := h
    obtain rfl : t = .advices := by cases t <;> simp [Call.tables] at ht hindexed ⊢
    rw [applyAll_append] at hh
    obtain hold | hnew := holder_single hh
    · exact .inl (holder_tail hk (by cases hsnap <;> simp [Write.table]) hold)
    · cases hnew with
      | moved _ _ _ _ status hs _ => cases hs
  | deleteAdvice id actor =>
    obtain ⟨e, row, -, hget, -, -, rfl⟩ := h
    obtain hold | hnew := holder_single hh
    · exact .inl hold
    · cases hnew with
      | moved _ _ _ _ status hs hne => exact absurd (Option.some.inj hs).symm hne
  | reviewAdvice id actor decision reason expectedVersion =>
    obtain ⟨e₁, e₂, now, row, concern, transition, -, -, hget, -, hstatus, -, -, -, -, -, rfl, htrans⟩ := h
    obtain rfl : t = .advices := by cases t <;> simp [Call.tables] at ht hindexed ⊢
    have hid : row.id = id := (Table.get?_eq_some.mp hget).2
    have hrest : ∀ n, ∀ p ∈ transition ++ [(e₂, Write.insertNotification n)],
        p.2.table ≠ .advices := by
      cases htrans <;> simp [Write.table]
    rw [List.append_assoc, List.singleton_append] at hh
    obtain hold | hnew := holder_head hk (hrest _) hh
    · exact .inl hold
    · cases hnew with
      | saved a _ ha =>
        refine .inl ⟨row, ?_, rfl, rfl, ?_⟩
        · rw [show (reviewed row actor decision reason now).id = id from hid]
          exact hget
        · rintro hdeleted
          simp [hdeleted, reviewableStatuses] at hstatus
  | createFeedback id author data =>
    obtain ⟨e, db₁, row, concern, -, -, -, -, -, -, rfl⟩ := h
    obtain hold | hnew := holder_single hh
    · exact .inl hold
    · cases hnew
      exact .inr ⟨rfl, rfl⟩
  | transitionFeedback id actor newStatus memo =>
    obtain ⟨e, now, db₁, row, -, -, -, -, rfl⟩ := h
    obtain hold | hnew := holder_single hh
    · exact .inl hold
    · cases hnew
  | _ => cases t <;> simp [Call.tables] at ht hindexed

end

end Chamneul
