import Chamneul.Proofs.AuthSpecs
import Chamneul.Proofs.Passwords
import Chamneul.Store.Answers

/-! Reset links. Nothing is stored to revoke a link. It is good for one password, and an accepted
one puts a newer password in its place, under the lock under which it was checked. -/

namespace Chamneul.Auth

open ReadCommitted ReadCommitted.Prog

def Call.resets : Call → Bool
  | .confirmPasswordReset .. | .linkOrCreateGoogleUser .. | .updateProfile .. => true
  | .requestPasswordReset .. => true
  | _ => false

def accepts {S : Settings} (token : ResetToken) : Answer (system S) → Bool
  | ⟨.confirmPasswordReset _ (some t) _, .ok _⟩ => decide (t = token)
  | _ => false

theorem accepts_iff {S : Settings} {token : ResetToken} {a : Answer (system S)} :
    accepts token a = true ↔
      ∃ uid newPassword user, a = ⟨.confirmPasswordReset uid (some token) newPassword, .ok user⟩ := by
  constructor
  · intro h
    unfold accepts at h
    split at h
    · obtain rfl := of_decide_eq_true h
      exact ⟨_, _, _, rfl⟩
    · cases h
  · rintro ⟨uid, newPassword, user, rfl⟩
    simp [accepts]

/-- The user has a newer password than the one the link was made for. -/
def Spent (token : ResetToken) (db : Db) : Prop :=
  ∃ v, db.users.get? token.user = some v ∧ token.password.salt < v.password.salt

theorem Spent.move {token : ResetToken} {db db' : Db} (h : Spent token db) (hm : PasswordsMove db db') :
    Spent token db' := by
  obtain ⟨v, hv, hsalt⟩ := h
  obtain ⟨x, hx, hvx⟩ := hm _ v hv
  refine ⟨x, hx, ?_⟩
  rcases hvx with hvx | hvx
  · rw [hvx]
    exact hsalt
  · exact hsalt.trans hvx

theorem transacts_confirmPasswordReset (S : Settings) (uid : Option Id) (token : Option ResetToken)
    (newPassword : String) : (confirmPasswordReset S uid token newPassword).Transacts := by
  refine Quiet.transacts_atomic ((quiet_queryForUpdate _ _).bind fun user => ?_)
  have hallowed : ∀ user, (resetAllowed user).Quiet := by
    intro user
    unfold resetAllowed
    split
    · exact quiet_pure _
    · exact quiet_query _
  split
  · exact quiet_raise _
  · refine (hallowed _).bind fun _ => (quiet_raiseIf _ _).bind fun _ => quiet_time.bind fun _ =>
      (quiet_raiseIf _ _).bind fun _ => (quiet_raiseIf _ _).bind fun _ => ?_
    refine (quiet_write _ _).bind fun _ => Quiet.bind ?_ fun _ => quiet_pure _
    exact (quiet_query _).bind fun _ => quiet_write _ _

theorem identity_applyAll {w : Pending Write} {db : Db} {i : GoogleIdentity}
    (h : i ∈ (applyAll w db).identities) :
    i ∈ db.identities ∨ ∃ p ∈ w, ∃ row, p.2 = Write.insertIdentity row ∧ i = row.saved p.1 := by
  refine held_of_applyAll (I := fun db : Db => i ∈ db.identities) ?_ h
  rintro ⟨e, x⟩ db hi
  cases x with
  | insertIdentity row => exact (Table.mem_of_mem_insert hi).imp id fun hi => ⟨row, rfl, hi⟩
  | _ => exact Or.inl hi

theorem session_applyAll {w : Pending Write} {db : Db} {s : SessionRow}
    (h : s ∈ (applyAll w db).sessions) :
    s ∈ db.sessions ∨ ∃ p ∈ w, ∃ row, p.2 = Write.insertSession row ∧ s = row.saved p.1 := by
  refine held_of_applyAll (I := fun db : Db => s ∈ db.sessions) ?_ h
  rintro ⟨e, x⟩ db hs
  cases x with
  | insertSession row => exact (Table.mem_of_mem_insert hs).imp id fun hs => ⟨row, rfl, hs⟩
  | deleteSessions keys => exact Or.inl (Table.mem_delete.mp hs).1
  | _ => exact Or.inl hs

section

variable {S : Settings} {ok : Config (system S) → Event (system S) → Prop} {σ₀ : World Db}
  {c c' : Config (system S)} {e : Event (system S)}

/-- An accepted link was made for the row as it is, and is spent from then on. -/
theorem accepted_step (h₀ : PastSalts σ₀) (h : Config.Reaches ok (Config.idle σ₀) c)
    (hs : c.step e = some c') {uid : Option Id} {token : Option ResetToken} {newPassword : String}
    {r : User}
    (ha : c'.answer? e.session = some ⟨.confirmPasswordReset uid token newPassword, .ok r⟩) :
    ∃ u t, uid = some u.id ∧ token = some t ∧ c.world.db.users.get? u.id = some u ∧
      t = makeToken u t.madeAt ∧ Spent t c'.world.db := by
  obtain ⟨t, uuid, s, n, -, hslot, hcall, hp, hw⟩ := h.committed_of_answer hs ha
    (transacts_confirmPasswordReset S uid token newPassword)
  have hcommit : Committed (fun _ _ => True) s.call s.writes c.world.db :=
    Sound.commit (auth_discipline S).verified ((auth_discipline S).holds h) hslot hp
  rw [hcall] at hcommit
  obtain ⟨u, tok, e₁, e₂, db₁, rfl, rfl, hu, htok, -, hwrites⟩ := hcommit.row
  refine ⟨u, tok, rfl, rfl, hu, htok, ?_⟩
  have hset : ∃ p ∈ s.writes, p.2.SetsPassword u.id := by
    rw [hwrites]
    exact ⟨_, List.mem_cons_self, rfl, by simp⟩
  obtain ⟨v, hv, hsalt⟩ := newer_of_commit h₀ h hslot hset hu
  rw [Spent, htok, hw]
  exact ⟨v, hv, hsalt⟩

theorem not_spent_of_makeToken {db : Db} {u : User} {t : ResetToken}
    (hu : db.users.get? u.id = some u) (ht : t = makeToken u t.madeAt) : ¬ Spent t db := by
  rintro ⟨v, hv, hsalt⟩
  rw [ht] at hv hsalt
  obtain rfl := Option.some.inj (hu.symm.trans hv)
  exact lt_irrefl _ hsalt

/-- A spent link is never accepted. -/
theorem no_answer_of_spent (h₀ : PastSalts σ₀) (h : Config.Reaches ok (Config.idle σ₀) c)
    {token : ResetToken} (hspent : Spent token c.world.db) {as : List (Answer (system S))}
    (has : Config.Answers ok c c' as) : as.countP (accepts token) = 0 := by
  induction has with
  | refl => rfl
  | @step c₁ c₂ e as has _ hs ih =>
    have hr := h.trans has.reaches
    rw [List.countP_append, ih, Nat.zero_add, List.countP_eq_zero]
    rintro a ha haccepts
    obtain ⟨uid, newPassword, r, rfl⟩ := accepts_iff.mp haccepts
    obtain ⟨u, t, -, ht, hu, hmade, -⟩ := accepted_step h₀ hr hs (Option.mem_toList.mp ha)
    obtain rfl := Option.some.inj ht
    exact not_spent_of_makeToken hu hmade (hspent.move (passwordsMove_reaches h₀ h has.reaches))

/-- A run accepts a link at most once, and then it is spent. -/
theorem accepted_once (h₀ : PastSalts σ₀) (token : ResetToken) {as : List (Answer (system S))}
    (has : Config.Answers ok (Config.idle σ₀) c as) :
    as.countP (accepts token) = 0 ∨ as.countP (accepts token) = 1 ∧ Spent token c.world.db := by
  induction has with
  | refl => exact Or.inl rfl
  | @step c₁ c₂ e as has _ hs ih =>
    have hr := has.reaches
    rw [List.countP_append]
    cases ha : c₂.answer? e.session with
    | none =>
      refine ih.imp (fun h => by simp [h]) fun ⟨h, hspent⟩ => ⟨by simp [h], ?_⟩
      exact hspent.move (passwordsMove_step h₀ hr hs)
    | some a =>
      by_cases haccepts : accepts token a = true
      · obtain ⟨uid, newPassword, r, rfl⟩ := accepts_iff.mp haccepts
        obtain ⟨u, t, -, ht, hu, hmade, hspent⟩ := accepted_step h₀ hr hs ha
        obtain rfl := Option.some.inj ht
        rcases ih with ih | ⟨-, hold⟩
        · exact Or.inr ⟨by simp [ih, haccepts], hspent⟩
        · exact absurd hold (not_spent_of_makeToken hu hmade)
      · refine ih.imp (fun h => by simp [h, haccepts]) fun ⟨h, hspent⟩ => ⟨by simp [h, haccepts], ?_⟩
        exact hspent.move (passwordsMove_step h₀ hr hs)

/-- A Google account is linked to an old account only together with an unusable password. -/
theorem link_commit (h : Config.Reaches ok (Config.idle σ₀) c) (hs : c.step e = some c') {u : User}
    (hu : c.world.db.users.get? u.id = some u) {i : GoogleIdentity} (hi : i ∈ c'.world.db.identities)
    (hnew : i ∉ c.world.db.identities) (hiu : i.user = u.id) :
    ∃ t uuid s n e₁ e₂ e₃ row keys, e = .run t uuid ∧ c.slot t = some s ∧ s.prog = .commit n ∧
      c'.world = c.world.commit s.writes ∧
      s.writes = [(e₁, .insertIdentity row), (e₂, .updateUser u.id { password := some none }),
        (e₃, .deleteSessions keys)] := by
  rcases Config.step_world hs with hw | ⟨t, uuid, s, n, he, hslot, hp, hw⟩
  · rw [hw] at hi
    exact absurd hi hnew
  · obtain hi | ⟨⟨e, _⟩, hrow, row, rfl, rfl⟩ := identity_applyAll (hw ▸ hi)
    · exact absurd hi hnew
    have hcommit : Committed (fun _ _ => True) s.call s.writes c.world.db :=
      Sound.commit (auth_discipline S).verified ((auth_discipline S).holds h) hslot hp
    obtain ⟨ws, ⟨x, rfl, hissues⟩, hx⟩ := (h.writes (program_writes S) hslot).2 _ hrow
    obtain rfl := List.mem_singleton.mp hx
    obtain ⟨email, name, draws, hcall⟩ := call_of_insertIdentity hissues
    rw [hcall] at hcommit
    cases hcommit with
    | nothing hnil =>
      rw [hnil] at hrow
      cases hrow
    | @linked u' _ _ _ row' _ _ _ _ huser _ hwrites =>
      obtain rfl : row = row' := by
        rw [hwrites] at hrow
        exact (by simpa using hrow : e = _ ∧ row = row').2
      rw [show u'.id = u.id from huser.symm.trans hiu] at hwrites
      exact ⟨t, uuid, s, n, _, _, _, _, _, he, hslot, hp, hw, hwrites⟩
    | @created e₁ _ new row' _ huser hwrites =>
      obtain rfl : row = row' := by
        rw [hwrites] at hrow
        exact (by simpa using hrow : e = _ ∧ row = row').2
      have hfree := pending_new h hslot (e := e₁) (r := new) (by rw [hwrites]; exact List.mem_cons_self)
      rw [show e₁.uuid = u.id from huser.symm.trans hiu, hu] at hfree
      cases hfree

/-- It is newer than the one that was stored. -/
theorem linked_step (h₀ : PastSalts σ₀) (h : Config.Reaches ok (Config.idle σ₀) c)
    (hs : c.step e = some c') {u : User} (hu : c.world.db.users.get? u.id = some u)
    {i : GoogleIdentity} (hi : i ∈ c'.world.db.identities) (hnew : i ∉ c.world.db.identities)
    (hiu : i.user = u.id) :
    ∃ v, c'.world.db.users.get? u.id = some v ∧ u.password.salt < v.password.salt := by
  obtain ⟨t, uuid, s, n, e₁, e₂, e₃, row, keys, -, hslot, -, hw, hwrites⟩ :=
    link_commit h hs hu hi hnew hiu
  rw [hw]
  refine newer_of_commit h₀ h hslot ?_ hu
  rw [hwrites]
  exact ⟨_, List.mem_cons_of_mem _ List.mem_cons_self, rfl, by simp⟩

end

/-! Sessions. -/

def SessionsShrink (db db' : Db) : Prop := ∀ s ∈ db'.sessions, s ∈ db.sessions

theorem sessionsShrink_refl (db : Db) : SessionsShrink db db := fun _ h => h

theorem sessionsShrink_trans {db db' db'' : Db} (h : SessionsShrink db db')
    (h' : SessionsShrink db' db'') : SessionsShrink db db'' := fun s hs => h s (h' s hs)

theorem sessionsShrink_applyAll {w : Pending Write} {db : Db}
    (hw : ∀ p ∈ w, ∀ row, p.2 ≠ .insertSession row) : SessionsShrink db (applyAll w db) := by
  intro s hs
  obtain hs | ⟨p, hp, row, hrow, -⟩ := session_applyAll hs
  · exact hs
  · exact absurd hrow (hw p hp row)

abbrev resetting {S : Settings} : Config (system S) → Event (system S) → Prop :=
  fun _ e => e.startsOnly Call.resets = true

section

variable {S : Settings} {σ₀ : World Db} {c c' : Config (system S)} {e : Event (system S)}

theorem resets_of_reaches (h : Config.Reaches resetting (Config.idle σ₀) c) {t : ℕ}
    {s : ReadCommitted.Session (system S)} (hs : c.slot t = some s) : s.call.resets = true :=
  h.calls (P := fun call : Call => call.resets = true) (fun _ _ _ he => he) hs

theorem holds_shrinking (h : Config.Reaches resetting (Config.idle σ₀) c) :
    Sound (Rely.drifting ownsNothing SessionsShrink) (commits SessionsShrink)
      (fun _ _ _ _ _ => True) c := by
  refine (auth_discipline S).holds_drifting sessionsShrink_refl (fun h h' => sessionsShrink_trans h h') ?_ h
  intro c t s hr hslot _
  refine sessionsShrink_applyAll fun p hp row hrow => ?_
  obtain ⟨ws, ⟨x, rfl, hissues⟩, hx⟩ := (hr.writes (program_writes S) hslot).2 p hp
  obtain rfl := List.mem_singleton.mp hx
  rw [hrow] at hissues
  have hresets := resets_of_reaches hr hslot
  obtain ⟨_, _, _, hcall⟩ | ⟨_, _, hcall⟩ := call_of_insertSession hissues <;>
    rw [hcall] at hresets <;> cases hresets

/-- An accepted link ends every session of its user and no other. -/
theorem sessions_of_accepted (h : Config.Reaches resetting (Config.idle σ₀) c)
    (hs : c.step e = some c') {uid : Option Id} {token : Option ResetToken} {newPassword : String}
    {r : User}
    (ha : c'.answer? e.session = some ⟨.confirmPasswordReset uid token newPassword, .ok r⟩)
    (s : SessionRow) :
    s ∈ c'.world.db.sessions ↔ s ∈ c.world.db.sessions ∧ uid ≠ some s.user := by
  obtain ⟨t, uuid, s₀, n, -, hslot, hcall, hp, hw⟩ := h.committed_of_answer hs ha
    (transacts_confirmPasswordReset S uid token newPassword)
  have hver : Verified (system S) (Rely.drifting ownsNothing SessionsShrink) (commits SessionsShrink)
      (fun _ _ _ _ _ => True) :=
    (auth_discipline S).verified_drifting sessionsShrink_refl (fun h h' => sessionsShrink_trans h h')
  have hcommit : Committed SessionsShrink s₀.call s₀.writes c.world.db :=
    Sound.commit hver (holds_shrinking h) hslot hp
  rw [hcall] at hcommit
  obtain ⟨u, tok, e₁, e₂, db₁, rfl, rfl, hu, htok, hshrink, hwrites⟩ := hcommit.row
  have hsessions : s ∈ c'.world.db.sessions ↔
      s ∈ c.world.db.sessions ∧ s.key ∉ db₁.sessionKeysOf u.id := by
    rw [hw, World.commit_db, hwrites]
    exact Table.mem_delete.trans (and_congr_right' (by simp))
  rw [hsessions, mem_sessionKeysOf]
  refine and_congr_right fun hmem => not_congr ?_
  constructor
  · rintro ⟨s', hs', huser, hkey⟩
    rw [db₁.sessions.eq_of_key hs' (hshrink s hmem) hkey] at huser
    rw [huser]
  · intro huser
    exact ⟨s, hshrink s hmem, (Option.some.inj huser).symm, rfl⟩

def Renews (user : Id) (c c' : Config (system S)) (e : Event (system S)) : Prop :=
  (∃ token newPassword r,
    c'.answer? e.session = some ⟨.confirmPasswordReset (some user) token newPassword, .ok r⟩) ∨
  ∃ i ∈ c'.world.db.identities, i ∉ c.world.db.identities ∧ i.user = user

theorem spent_of_renews {ok : Config (system S) → Event (system S) → Prop} (h₀ : PastSalts σ₀)
    (h : Config.Reaches ok (Config.idle σ₀) c) (hs : c.step e = some c') {v : User}
    (hv : c.world.db.users.get? v.id = some v) (hrenews : Renews v.id c c' e) :
    ∃ x, c'.world.db.users.get? v.id = some x ∧ v.password.salt < x.password.salt := by
  rcases hrenews with ⟨token, newPassword, r, ha⟩ | ⟨i, hi, hnew, hiu⟩
  · obtain ⟨u, t, huid, -, hu, hmade, x, hx, hsalt⟩ := accepted_step h₀ h hs ha
    rw [Option.some.inj huid, hu] at hv
    obtain rfl := Option.some.inj hv
    rw [hmade] at hx hsalt
    exact ⟨x, hx, hsalt⟩
  · exact linked_step h₀ h hs hv hi hnew hiu

/-- A link made before a reset or a Google link of its user is not accepted after it. -/
theorem earlier_link_refused {ok : Config (system S) → Event (system S) → Prop} (h₀ : PastSalts σ₀)
    {c₁ c₂ c₃ c₄ : Config (system S)} (h₁ : Config.Reaches ok (Config.idle σ₀) c₁) {u : User}
    (hu : u ∈ c₁.world.db.users) (h₂ : Config.Reaches ok c₁ c₂) (hok : ok c₂ e)
    (hs : c₂.step e = some c₃) (hrenews : Renews u.id c₂ c₃ e) (madeAt : Time)
    {as : List (Answer (system S))} (has : Config.Answers ok c₃ c₄ as) :
    as.countP (accepts (makeToken u madeAt)) = 0 := by
  have hr := h₁.trans h₂
  obtain ⟨v, hv, huv⟩ := passwordsMove_reaches h₀ h₁ h₂ u.id u (Table.mem_iff_get?.mp hu)
  have hid : v.id = u.id := (Table.get?_eq_some.mp hv).2
  rw [← hid] at hv hrenews
  obtain ⟨x, hx, hvx⟩ := spent_of_renews h₀ hr hs hv hrenews
  refine no_answer_of_spent h₀ (hr.step hok hs) ⟨x, ?_, ?_⟩ has
  · rw [hid] at hx
    exact hx
  · rcases huv with huv | huv
    · rw [huv] at hvx
      exact hvx
    · exact huv.trans hvx

/-- In every run of resets, Google sign-ins and profile updates a link is accepted at most once,
and none is that was made before a reset or a Google link of its user committed. An accepted reset
ends every session of its user and no other session; a refused one changes no row. -/
theorem reset_link_works_once (S : Settings) {σ₀ : World Db} (h₀ : PastSalts σ₀) :
    (∀ (token : ResetToken) c as, Config.Answers resetting (Config.idle σ₀) c as →
      (as.countP (accepts (S := S) token)) ≤ 1) ∧
    (∀ (c₁ c₂ c₃ c₄ : Config (system S)) e u as madeAt,
      Config.Reaches resetting (Config.idle σ₀) c₁ → u ∈ c₁.world.db.users →
      Config.Reaches resetting c₁ c₂ → resetting c₂ e → c₂.step e = some c₃ → Renews u.id c₂ c₃ e →
      Config.Answers resetting c₃ c₄ as → as.countP (accepts (makeToken u madeAt)) = 0) ∧
    (∀ (c c' : Config (system S)) e uid token newPassword r s,
      Config.Reaches resetting (Config.idle σ₀) c → c.step e = some c' →
      c'.answer? e.session = some ⟨.confirmPasswordReset uid token newPassword, .ok r⟩ →
      (s ∈ c'.world.db.sessions ↔ s ∈ c.world.db.sessions ∧ uid ≠ some s.user)) ∧
    ∀ (c c' : Config (system S)) e s uid token newPassword,
      Config.Reaches resetting (Config.idle σ₀) c → c.step e = some c' →
      c.slot e.session = some s → s.call = .confirmPasswordReset uid token newPassword →
      c'.world.db = c.world.db ∨ ∃ r, c'.answer? e.session = some ⟨s.call, .ok r⟩ := by
  refine ⟨fun token c as has => ?_, ?_, ?_, ?_⟩
  · rcases accepted_once h₀ token has with h | ⟨h, -⟩ <;> omega
  · intro c₁ c₂ c₃ c₄ e u as madeAt h₁ hu h₂ hok hs hrenews has
    exact earlier_link_refused h₀ h₁ hu h₂ hok hs hrenews madeAt has
  · intro c c' e uid token newPassword r s h hs ha
    exact sessions_of_accepted h hs ha s
  · intro c c' e s uid token newPassword h hs hslot hcall
    refine h.unchanged_or_answer hs hslot ?_
    rw [hcall]
    exact transacts_confirmPasswordReset S uid token newPassword

end

def oneUser : World Db :=
  ⟨{ users := Table.empty.insert { id := 1, email := "a@x", nickname := "n", password := ⟨some "old", 0⟩ }
     sessions := Table.empty.insert { key := 5, user := 1, hash := ⟨some "old", 0⟩ } }, 1⟩

def firstLink : ResetToken :=
  { user := 1, password := ⟨some "old", 0⟩, lastLogin := none, email := "a@x", madeAt := 0 }

def twoResets : List (Event (system asciiSettings)) :=
  [.start 0 (.confirmPasswordReset (some 1) (some firstLink) "new"),
    .start 1 (.confirmPasswordReset (some 1) (some firstLink) "other")] ++
    List.replicate 6 (.run 0 0) ++ List.replicate 3 (.run 1 0)

theorem pastSalts_oneUser : PastSalts oneUser :=
  Table.forall_mem_insert (fun u hu => absurd hu (Table.not_mem_empty u)) Nat.one_pos

/-- One of the two is accepted. -/
theorem reset_link_works_once_twoResets :
    ((Config.idle oneUser).answersAfter twoResets).countP (accepts firstLink) = 1 := by
  have has : Config.Answers resetting (Config.idle oneUser) ((Config.idle oneUser).after twoResets)
      ((Config.idle oneUser).answersAfter twoResets) :=
    (Config.within_idle [0, 1] oneUser).answers_after (fun _ _ _ h => h) rfl (by decide) rfl
  refine le_antisymm ?_ (by decide)
  exact (reset_link_works_once asciiSettings pastSalts_oneUser).1 firstLink _ _ has

end Chamneul.Auth
