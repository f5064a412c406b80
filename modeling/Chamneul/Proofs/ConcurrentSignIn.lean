import Chamneul.Proofs.GoogleSignIn
import Chamneul.Proofs.ResetLinks
import Chamneul.Store.Answers
import Chamneul.Store.Solo

/-! Sign-ins with one Google account at the same time. The check for a known Google account comes
before the transaction, and nothing in the transaction repeats it. A call that has passed it while
another call commits the link takes the link for that of another account, or tries to create the
account again under every nickname it has. -/

namespace Chamneul.Auth

open ReadCommitted ReadCommitted.Prog

@[simp] theorem solo_write {α : Type} {db : Db} {fresh : ℕ → Prop} {w : Pending Write} {x : Write}
    {out : Env → Db → α} {C : AuthService α → Pending Write → Prop}
    {Q : Except Failure α → Pending Write → Prop} :
    (write x out).Solo db fresh C Q w ↔ ∀ e : Env, fresh e.uuid →
      (violated (applyAll w db) e x ≠ none →
        Q (.error (.integrityError (violated (applyAll w db) e x))) w) ∧
      (violated (applyAll w db) e x = none → Q (.ok (out e (applyAll w db))) (w ++ [(e, x)])) := by
  refine forall_congr' fun e => imp_congr_right fun _ => ?_
  simp [Engine.violates, Solo, ← Option.isSome_iff_ne_none]

/-- The address is nobody's, or that of one active user who has no Google account. -/
structure SignInReady (S : Settings) (email : String) (db : Db) : Prop where
  constrained : Constrained db
  address : S.text.canonicalEmail email ≠ "" ∧ (∀ u ∈ db.users, u.email ≠ S.text.canonicalEmail email) ∨
    ∃ u ∈ db.users, u.email = S.text.canonicalEmail email ∧ u.isActive = true ∧
      ∀ i ∈ db.identities, i.user ≠ u.id

def BaseFree (S : Settings) (email name : String) (db : Db) : Prop :=
  ∀ u ∈ db.users, u.nickname ≠ deriveNicknameBase name (S.text.canonicalEmail email)

def Unused (db : Db) (uuid : ℕ) : Prop :=
  db.users.get? uuid = none ∧ db.identities.get? uuid = none

/-- What is left returns the user that the changes link to the Google account. -/
def LinksAndReturns (googleSub : String) (db : Db) (n : AuthService User) (w : Pending Write) : Prop :=
  ∃ u v, n = .ret (.ok u) ∧ (applyAll w db).linkedUser googleSub = some v ∧ v.id = u.id

section

variable {S : Settings} {db : Db} {googleSub email name : String}

theorem deriveNicknameBase_ne (name email : String) : deriveNicknameBase name email ≠ "" := by
  intro hempty
  unfold deriveNicknameBase at hempty
  dsimp only at hempty
  rw [Option.getD_eq_iff] at hempty
  obtain hfound | ⟨-, h⟩ := hempty
  · simpa using List.find?_some hfound
  · exact absurd h (by decide)

theorem solo_linkExisting (hdb : Constrained db) (hsub : ∀ i ∈ db.identities, i.googleSub ≠ googleSub)
    {u : User} (hu : u ∈ db.users) (hemail : u.email = email) (hactive : u.isActive = true)
    (hunlinked : ∀ i ∈ db.identities, i.user ≠ u.id) {C : AuthService (Option User) → Pending Write → Prop}
    {Q : Except Failure (Option User) → Pending Write → Prop}
    (hC : ∀ u' w, LinksExisting googleSub u u' db (applyAll w db) → Constrained (applyAll w db) →
      C (.ret (.ok (some u'))) w) :
    (linkExisting googleSub email).Solo db (Unused db) C Q [] := by
  have hfind : db.userByEmail email = some u := (userByEmail_eq_some hdb).mpr ⟨hu, hemail⟩
  have hget : db.users.get? u.id = some u := Table.mem_iff_get?.mp hu
  simp only [linkExisting, solo_atomic, solo_bind, solo_queryForUpdate, applyAll_nil, hfind, hactive,
    if_true, solo_query, solo_raiseIf, solo_write, solo_pure, purgeSessionsOf]
  have hlinked : ¬ db.isLinked u.id = true := by simpa [isLinked_iff] using hunlinked
  refine ⟨fun h => absurd h hlinked, fun _ e he => ?_⟩
  have hrow : violated db e
      (.insertIdentity { user := u.id, googleSub := googleSub, email := email }) = none :=
    insertIdentity_accepted.mpr ⟨he.2, hunlinked, hsub, u, hget⟩
  refine ⟨fun h => absurd hrow h, fun _ e' _ => ⟨fun h => absurd rfl h, fun _ e'' _ =>
    ⟨fun h => absurd rfl h, fun _ => Or.inr ⟨by simp, ?_⟩⟩⟩⟩
  refine hC _ _ (linksExisting_applyAll he.2 hget) ?_
  have hdisabled := (hdb.apply hrow).apply (e := e') (x := .updateUser u.id { password := some none }) rfl
  exact hdisabled.apply (e := e'') (x := .deleteSessions (db.sessionKeysOf u.id)) rfl

theorem solo_createWithNickname (hdb : Constrained db)
    (hsub : ∀ i ∈ db.identities, i.googleSub ≠ googleSub) (hempty : email ≠ "")
    (hcanonical : S.text.canonicalEmail email = email) (hnobody : ∀ u ∈ db.users, u.email ≠ email)
    {nickname : String} (hnickname : nickname ≠ "") (hbase : ∀ u ∈ db.users, u.nickname ≠ nickname)
    {C : AuthService User → Pending Write → Prop} {Q : Except Failure User → Pending Write → Prop}
    (hC : ∀ u w, CreatesLinked googleSub email u db (applyAll w db) → Constrained (applyAll w db) →
      C (.ret (.ok u)) w) (candidates : List String) (lastError : Failure) :
    (createWithNickname S email googleSub (nickname :: candidates) lastError).Solo db (Unused db)
      C Q [] := by
  rw [createWithNickname, solo_handle]
  simp only [createLinked, createUser, createUserWith, solo_atomic, solo_bind, solo_raiseIf, solo_write,
    solo_pure, applyAll_nil, hempty, hnickname, false_imp_iff, not_false_eq_true, true_imp_iff, true_and,
    hcanonical]
  intro e he
  have hnew : violated db e
      (.insertUser { email := email, nickname := nickname, password := none }) = none :=
    insertUser_accepted.mpr ⟨he.1, hnobody, hbase⟩
  refine ⟨fun h => absurd hnew h, fun _ e' he' => ?_⟩
  have howner : ∀ i ∈ db.identities, i.user ≠ e.uuid := by
    intro i hi huser
    obtain ⟨u, hu⟩ := hdb.owner i hi
    rw [huser, he.1] at hu
    cases hu
  have hrow : violated (apply e (.insertUser { email := email, nickname := nickname, password := none }) db)
      e' (.insertIdentity { user := e.uuid, googleSub := googleSub, email := email }) = none :=
    insertIdentity_accepted.mpr
      ⟨he'.2, howner, hsub, _, (Table.get?_insert _ _ _ he.1).trans (if_pos rfl)⟩
  refine ⟨fun h => absurd hrow h, fun _ => Or.inr ⟨by simp, ?_⟩⟩
  refine hC _ _ (createsLinked_applyAll { email := email, nickname := nickname, password := none } rfl
    he.1 he'.2) ?_
  exact (hdb.apply hnew).apply hrow

/-- Before anything is linked, a call does one thing: it links and returns the user. -/
theorem solo_linkOrCreateGoogleUser (hready : SignInReady S email db)
    (hsub : ∀ i ∈ db.identities, i.googleSub ≠ googleSub) (hbase : BaseFree S email name db)
    (draws : NicknameDraws) :
    (linkOrCreateGoogleUser S googleSub email name draws).Solo db (Unused db)
      (LinksAndReturns googleSub db) (fun _ _ => False) [] := by
  have hdb := hready.constrained
  have hnone : db.linkedUser googleSub = none := linkedUser_eq_none hsub
  have hlinked : ∀ {w : Pending Write} {user : User}, Constrained (applyAll w db) →
      (∃ i, i ∉ db.identities ∧ i.user = user.id ∧ i.googleSub = googleSub ∧
        ∀ j, j ∈ (applyAll w db).identities ↔ j ∈ db.identities ∨ j = i) →
      ∃ v, (applyAll w db).linkedUser googleSub = some v ∧ v.id = user.id := by
    rintro w user hw ⟨i, -, huser, rfl, hi⟩
    obtain ⟨v, hv, hlinked⟩ := linkedUser_eq_some hw ((hi i).mpr (Or.inr rfl))
    exact ⟨v, hlinked, (Table.get?_eq_some.mp hv).2.trans huser⟩
  unfold linkOrCreateGoogleUser
  simp only [solo_bind, solo_query, applyAll_nil, hnone]
  obtain ⟨hempty, hnobody⟩ | ⟨u, hu, hemail, hactive, hunlinked⟩ := hready.address
  · have hfind : db.userByEmail (S.text.canonicalEmail email) = none :=
      List.find?_eq_none.mpr fun u hu => by simpa using hnobody u hu
    simp only [linkExisting, solo_atomic, solo_bind, solo_queryForUpdate, applyAll_nil, hfind, solo_pure]
    refine Or.inl ⟨trivial, ?_⟩
    refine solo_createWithNickname hdb hsub hempty (canonicalEmail_canonicalEmail _ _) hnobody
      (deriveNicknameBase_ne _ _) hbase (fun u w hcreates hw => ?_) _ _
    obtain ⟨v, hv, hid⟩ := hlinked hw hcreates.identity
    exact ⟨u, v, rfl, hv, hid⟩
  · refine solo_linkExisting hdb hsub hu hemail hactive hunlinked fun u' w hlinks hw => ?_
    obtain ⟨v, hv, hid⟩ := hlinked hw hlinks.identity
    refine ⟨u', v, rfl, hv, hid.trans ?_⟩
    rw [hlinks.columns]

end

/-! The run. -/

def Call.SignsIn (S : Settings) (googleSub email : String) (db : Db) : Call → Prop
  | .linkOrCreateGoogleUser googleSub' email' name _ =>
    googleSub' = googleSub ∧ email' = email ∧ BaseFree S email name db
  | _ => False

def SigningIn (S : Settings) (googleSub email : String) (db : Db) (c : Config (system S)) :
    Event (system S) → Prop
  | .start _ call => call.SignsIn S googleSub email db
  | .run _ uuid => Unused c.world.db uuid
  | .abort _ => True

/-- When the step commits changes, every other call has run no statement yet or has ended. -/
def Unraced {S : Settings} (c : Config (system S)) (e : Event (system S)) : Prop :=
  ∀ t uuid s n, e = .run t uuid → c.slot t = some s → s.prog = .commit n → s.writes ≠ [] →
    ∀ t' s', t' ≠ t → c.slot t' = some s' → s'.Fresh ∨ ∃ r, s'.prog = .ret r

section

variable (S : Settings) (googleSub email : String)

/-- The session serves such a sign-in, and `P` holds of what is left of it. -/
def Serves (P : String → NicknameDraws → AuthService User → Pending Write → Prop)
    (s : ReadCommitted.Session (system S)) : Prop :=
  ∃ name draws p w, s = ⟨.linkOrCreateGoogleUser googleSub email name draws, p, w⟩ ∧ P name draws p w

/-- Until the first link is committed nothing is, and nobody has an answer. From then on every call
that has not run a statement yet is going to find it. -/
inductive Phase (db : Db) (c : Config (system S)) (as : List (Answer (system S))) : Prop
  | before (hdb : c.world.db = db) (hsub : ∀ i ∈ db.identities, i.googleSub ≠ googleSub) (has : as = [])
      (hslots : ∀ t s, c.slot t = some s → Serves S googleSub email (fun _ _ p w =>
        p.Solo db (Unused db) (LinksAndReturns googleSub db) (fun _ _ => False) w) s)
  | after (v : User) (hlinked : c.world.db.linkedUser googleSub = some v)
      (hslots : ∀ t s, c.slot t = some s → Serves S googleSub email (fun name draws p w =>
        p = linkOrCreateGoogleUser S googleSub email name draws ∧ w = [] ∨ ∃ r, p = .ret r) s)
      (has : ∀ a ∈ as, ∃ name draws u,
        a = ⟨.linkOrCreateGoogleUser googleSub email name draws, .ok u⟩ ∧ u.id = v.id)

variable {S googleSub email} {db : Db} {c c' : Config (system S)} {e : Event (system S)}
  {as : List (Answer (system S))}

theorem Phase.start (h : Phase S googleSub email db c as) (hready : SignInReady S email db) {t : ℕ}
    {call : Call} (hcall : call.SignsIn S googleSub email db)
    (hs : c.step (.start t call) = some c') :
    Phase S googleSub email db c' (as ++ (c'.answer? t).toList) := by
  cases call with
  | linkOrCreateGoogleUser googleSub' email' name draws =>
    obtain ⟨rfl, rfl, hbase⟩ := hcall
    obtain ⟨hdb, hslot⟩ := Config.step_start hs
    have hnone : c'.answer? t = none := by
      rw [Config.answer?_of_slot hslot]
      rfl
    rw [hnone, Option.toList_none, List.append_nil]
    cases h with
    | before hdb₀ hsub has hslots =>
      refine .before (hdb.trans hdb₀) hsub has (Config.step_slots hs hslots fun s hs' => ?_)
      obtain rfl := Option.some.inj (hslot.symm.trans hs')
      exact ⟨name, draws, _, _, rfl, solo_linkOrCreateGoogleUser hready hsub hbase draws⟩
    | after v hlinked hslots has =>
      refine .after v (hdb ▸ hlinked) (Config.step_slots hs hslots fun s hs' => ?_) has
      obtain rfl := Option.some.inj (hslot.symm.trans hs')
      exact ⟨name, draws, _, _, rfl, Or.inl ⟨rfl, rfl⟩⟩
  | _ => exact hcall.elim

theorem Phase.abort (h : Phase S googleSub email db c as) {t : ℕ} (hs : c.step (.abort t) = some c') :
    Phase S googleSub email db c' (as ++ (c'.answer? t).toList) := by
  obtain ⟨hdb, hslot⟩ := Config.step_abort hs
  have hnone : c'.answer? t = none := by
    rw [Config.answer?, hslot]
    rfl
  rw [hnone, Option.toList_none, List.append_nil]
  have hnew : ∀ {P : ReadCommitted.Session (system S) → Prop} s, c'.slot t = some s → P s := by
    intro P s hs'
    rw [hslot] at hs'
    cases hs'
  cases h with
  | before hdb₀ hsub has hslots =>
    exact .before (hdb.trans hdb₀) hsub has (Config.step_slots hs hslots hnew)
  | after v hlinked hslots has =>
    exact .after v (hdb ▸ hlinked) (Config.step_slots hs hslots hnew) has

/-- The first link to be committed. Every other call has run no statement yet or has ended. -/
theorem Phase.of_link {t uuid : ℕ} {name : String} {draws : NicknameDraws} {u v : User}
    {w : Pending Write} (hslots : ∀ t s, c.slot t = some s → Serves S googleSub email (fun _ _ _ _ => True) s)
    (hslot₀ : c.slot t = some
      ⟨.linkOrCreateGoogleUser googleSub email name draws, .commit (.ret (.ok u)), w⟩)
    (hw : w ≠ []) (hlinked : (applyAll w c.world.db).linkedUser googleSub = some v) (hid : v.id = u.id)
    (halone : Unraced c (.run t uuid)) (hs : c.step (.run t uuid) = some c') :
    Phase S googleSub email db c' (c'.answer? t).toList := by
  obtain ⟨hworld, hslot⟩ := (Config.turn_of_run hslot₀ hs).of_commit rfl
  refine .after v (by rw [hworld]; exact hlinked) (fun t' s' hs' => ?_) fun a ha => ?_
  · by_cases hself : t' = t
    · rw [hself] at hs'
      obtain rfl := Option.some.inj (hslot.symm.trans hs')
      exact ⟨name, draws, _, _, rfl, Or.inr ⟨_, rfl⟩⟩
    obtain hold | ⟨he, -⟩ | ⟨_, _, he, -⟩ := Config.step_slot hs hs'
    · obtain ⟨name', draws', p', w', rfl, -⟩ := hslots t' s' hold
      obtain hfresh | ⟨r, hp⟩ := halone t uuid _ _ rfl hslot₀ rfl hw t' _ hself hold
      · exact ⟨name', draws', p', w', rfl, Or.inl ⟨hfresh.prog, hfresh.writes⟩⟩
      · exact ⟨name', draws', p', w', rfl, Or.inr ⟨r, hp⟩⟩
    · cases he
    · cases he
      exact absurd rfl hself
  · rw [Option.mem_toList, Config.answer?_of_slot hslot] at ha
    obtain rfl := Option.some.inj ha
    exact ⟨name, draws, u, rfl, hid.symm⟩

theorem Phase.run (h : Phase S googleSub email db c as) {t uuid : ℕ} (huuid : Unused c.world.db uuid)
    (halone : Unraced c (.run t uuid)) (hs : c.step (.run t uuid) = some c') :
    Phase S googleSub email db c' (as ++ (c'.answer? t).toList) := by
  obtain ⟨s₀, hslot₀, ht⟩ := Config.step_run hs
  cases h with
  | before hdb hsub has hslots =>
    subst hdb
    obtain ⟨name, draws, p, w, rfl, hsolo⟩ := hslots t s₀ hslot₀
    obtain ⟨hsame, q, w', hslot, hsolo'⟩ | ⟨n, rfl, hw, u, v, rfl, hlinked, hid⟩ :=
      ht.solo hsolo huuid
    · have hnone : c'.answer? t = none := by
        rw [Config.answer?_of_slot hslot]
        cases q with
        | ret r => exact hsolo'.elim
        | _ => rfl
      rw [hnone, Option.toList_none, List.append_nil]
      refine .before hsame hsub has (Config.step_slots hs hslots fun s hs' => ?_)
      obtain rfl := Option.some.inj (hslot.symm.trans hs')
      exact ⟨name, draws, q, w', rfl, hsolo'⟩
    · rw [has, List.nil_append]
      refine Phase.of_link (fun t' s' hs' => ?_) hslot₀ hw hlinked hid halone hs
      obtain ⟨name', draws', p', w', rfl, -⟩ := hslots t' s' hs'
      exact ⟨name', draws', p', w', rfl, trivial⟩
  | after v hlinked hslots has =>
    obtain ⟨name, draws, p, w, rfl, ⟨rfl, rfl⟩ | ⟨r, rfl⟩⟩ := hslots t s₀ hslot₀
    · obtain ⟨hworld, hslot⟩ := ht.of_select rfl
      have hret : c'.slot t = some
          ⟨.linkOrCreateGoogleUser googleSub email name draws, .ret (.ok v), []⟩ := by
        rw [hslot]
        simp only [World.view_nil, hlinked]
        rfl
      refine .after v (by rw [hworld]; exact hlinked) (Config.step_slots hs hslots fun s hs' => ?_)
        fun a ha => ?_
      · obtain rfl := Option.some.inj (hret.symm.trans hs')
        exact ⟨name, draws, _, _, rfl, Or.inr ⟨_, rfl⟩⟩
      · rcases List.mem_append.mp ha with ha | ha
        · exact has a ha
        · rw [Option.mem_toList, Config.answer?_of_slot hret] at ha
          obtain rfl := Option.some.inj ha
          exact ⟨name, draws, v, rfl, rfl⟩
    · exact (ht.not_ret rfl).elim

theorem Phase.step (h : Phase S googleSub email db c as) (hready : SignInReady S email db)
    (hsigning : SigningIn S googleSub email db c e) (halone : Unraced c e) (hs : c.step e = some c') :
    Phase S googleSub email db c' (as ++ (c'.answer? e.session).toList) := by
  cases e with
  | start t call => exact h.start hready hsigning hs
  | run t uuid => exact h.run hsigning halone hs
  | abort t => exact h.abort hs

end

/-- Where no link is committed while another call is between its first statement and its end, every
sign-in with one Google account and one address returns, and returns the same user. -/
theorem concurrent_sign_ins_succeed (S : Settings) (googleSub : String) {email : String} {σ₀ : World Db}
    (h₀ : SignInReady S email σ₀.db) {c : Config (system S)} {as : List (Answer (system S))}
    (has : Config.Answers (fun c e => SigningIn S googleSub email σ₀.db c e ∧ Unraced c e)
      (Config.idle σ₀) c as) :
    ∃ id, ∀ a ∈ as, ∃ name draws u,
      a = ⟨.linkOrCreateGoogleUser googleSub email name draws, .ok u⟩ ∧ u.id = id := by
  have hphase : Phase S googleSub email σ₀.db c as := by
    induction has with
    | refl =>
      by_cases hsub : ∃ i ∈ σ₀.db.identities, i.googleSub = googleSub
      · obtain ⟨i, hi, rfl⟩ := hsub
        obtain ⟨v, -, hlinked⟩ := linkedUser_eq_some h₀.constrained hi
        exact .after v hlinked (fun t s h => by cases h) (fun a ha => by cases ha)
      · exact .before rfl (fun i hi h => hsub ⟨i, hi, h⟩) rfl (fun t s h => by cases h)
    | step _ hok hs ih => exact ih.step h₀ hok.1 hok.2 hs
  cases hphase with
  | before _ _ hnil _ => exact ⟨0, fun a ha => by rw [hnil] at ha; cases ha⟩
  | after v _ _ hall => exact ⟨v.id, hall⟩

instance (S : Settings) (email name : String) (db : Db) : Decidable (BaseFree S email name db) :=
  inferInstanceAs (Decidable (∀ u ∈ db.users.rows, u.nickname ≠ _))

instance (db : Db) (uuid : ℕ) : Decidable (Unused db uuid) := inferInstanceAs (Decidable (_ ∧ _))

instance (S : Settings) (googleSub email : String) (db : Db) :
    DecidablePred (Call.SignsIn S googleSub email db)
  | .linkOrCreateGoogleUser .. => inferInstanceAs (Decidable (_ ∧ _ ∧ BaseFree _ _ _ _))
  | .signup .. | .login .. | .updateProfile .. | .requestPasswordReset .. => isFalse id
  | .confirmPasswordReset .. | .createUser .. | .createSuperuser .. => isFalse id
  | .adminAddUser .. | .adminChangeUser .. => isFalse id

instance (S : Settings) (googleSub email : String) (db : Db) (c : Config (system S)) :
    DecidablePred (SigningIn S googleSub email db c)
  | .start _ call => inferInstanceAs (Decidable (call.SignsIn S googleSub email db))
  | .run _ uuid => inferInstanceAs (Decidable (Unused c.world.db uuid))
  | .abort _ => isTrue trivial

def hasEnded {S : Settings} : Option (ReadCommitted.Session (system S)) → Bool
  | none | some ⟨_, .ret _, _⟩ => true
  | _ => false

/-- No session of `T` but the one that goes on is under way. -/
def unracedAmong {S : Settings} (T : List ℕ) (c : Config (system S)) : Event (system S) → Bool
  | .run t _ => T.all fun t' => decide (t' = t) || hasEnded (c.slot t')
  | _ => true

def signInCheck (T : List ℕ) (c : Config (system asciiSettings)) (e : Event (system asciiSettings)) :
    Bool :=
  decide (SigningIn asciiSettings "sub" "a@x" oneUser.db c e) && unracedAmong T c e

theorem unraced_of_among {S : Settings} {T : List ℕ} {c : Config (system S)} {e : Event (system S)}
    (hT : c.Within T) (h : unracedAmong T c e = true) : Unraced c e := by
  rintro t uuid s n rfl - - - t' s' hne hslot
  have hover := List.all_eq_true.mp h t' (hT.mem hslot)
  rw [hslot] at hover
  obtain ⟨call, p, w⟩ := s'
  cases p with
  | ret r => exact Or.inr ⟨r, rfl⟩
  | _ => simp [hne, hasEnded] at hover

theorem signInCheck_sound {T : List ℕ} {c : Config (system asciiSettings)}
    {e : Event (system asciiSettings)} (hT : c.Within T) (h : signInCheck T c e = true) :
    SigningIn asciiSettings "sub" "a@x" oneUser.db c e ∧ Unraced c e := by
  rw [signInCheck, Bool.and_eq_true, decide_eq_true_eq] at h
  exact ⟨h.1, unraced_of_among hT h.2⟩

/-- User 1 signs in twice, the second time after the link. -/
def linkTwice : List (Event (system asciiSettings)) :=
  .start 0 (.linkOrCreateGoogleUser "sub" "a@x" "Kim" zeroDraws) ::
    List.replicate 8 (.run 0 7) ++
    [.start 1 (.linkOrCreateGoogleUser "sub" "a@x" "Kim" zeroDraws), .run 1 8]

theorem signInReady_oneUser : SignInReady asciiSettings "a@x" oneUser.db where
  constrained := by
    refine ⟨Table.unique_insert ?_ ?_, ?_, ?_, ?_⟩
    all_goals exact fun _ h => absurd h (Table.not_mem_empty _)
  address := by
    refine Or.inr ⟨_, List.mem_cons_self, ?_, rfl, fun i hi => by cases hi⟩
    decide

theorem concurrent_sign_ins_succeed_linkTwice :
    ((Config.idle oneUser).answersAfter linkTwice).length = 2 ∧
    ∃ id, ∀ a ∈ (Config.idle oneUser).answersAfter linkTwice, ∃ name draws u,
      a = ⟨.linkOrCreateGoogleUser "sub" "a@x" name draws, .ok u⟩ ∧ u.id = id := by
  have has : Config.Answers (fun c e => SigningIn asciiSettings "sub" "a@x" oneUser.db c e ∧ Unraced c e)
      (Config.idle oneUser) ((Config.idle oneUser).after linkTwice)
      ((Config.idle oneUser).answersAfter linkTwice) :=
    (Config.within_idle [0, 1] oneUser).answers_after (fun c e hT h => signInCheck_sound hT h) rfl
      (by decide +kernel) rfl
  exact ⟨by decide +kernel, concurrent_sign_ins_succeed asciiSettings "sub" signInReady_oneUser has⟩

/-- Two sign-ins with one Google account, for the address of user 1. -/
def linkRace : List (Event (system asciiSettings)) :=
  [.start 0 (.linkOrCreateGoogleUser "sub" "a@x" "Kim" zeroDraws),
    .start 1 (.linkOrCreateGoogleUser "sub" "a@x" "Kim" zeroDraws), .run 0 7, .run 1 7] ++
    List.replicate 7 (.run 0 7) ++ List.replicate 3 (.run 1 8)

/-- The same for an address that is nobody's, which both find before either creates the account. -/
def createRace : List (Event (system asciiSettings)) :=
  [.start 0 (.linkOrCreateGoogleUser "sub" "a@x" "Kim" zeroDraws),
    .start 1 (.linkOrCreateGoogleUser "sub" "a@x" "Kim" zeroDraws)] ++
    List.replicate 3 (.run 0 7) ++ List.replicate 3 (.run 1 7) ++
    List.replicate 3 (.run 0 7) ++ List.replicate 14 (.run 1 8)

def raised {S : Settings} (a : Answer (system S)) : Option Failure :=
  match a.result with
  | .ok _ => none
  | .error failure => some failure

/-- The one that comes second is told that the account has another Google account. Where it is to
be created, all seven attempts fail on the address and the last `IntegrityError` goes out. -/
theorem concurrent_sign_in_fails :
    (SignInReady asciiSettings "a@x" oneUser.db ∧
      Config.Answers (SigningIn asciiSettings "sub" "a@x" oneUser.db) (Config.idle oneUser)
        ((Config.idle oneUser).after linkRace) ((Config.idle oneUser).answersAfter linkRace) ∧
      ((Config.idle oneUser).answersAfter linkRace).map raised = [none, some alreadyLinked]) ∧
    SignInReady asciiSettings "a@x" {} ∧
    Config.Answers (SigningIn asciiSettings "sub" "a@x" {}) (Config.idle ⟨{}, 0⟩)
      ((Config.idle ⟨{}, 0⟩).after createRace) ((Config.idle ⟨{}, 0⟩).answersAfter createRace) ∧
    ((Config.idle ⟨{}, 0⟩).answersAfter createRace).map raised =
      [none, some (.integrityError (some .userEmail))] := by
  have hempty : asciiSettings.text.canonicalEmail "a@x" ≠ "" := by decide
  refine ⟨⟨signInReady_oneUser, ?_, by decide +kernel⟩,
    ⟨constrained_empty, Or.inl ⟨hempty, fun u hu => absurd hu (Table.not_mem_empty u)⟩⟩, ?_,
    by decide +kernel⟩
  · refine (Config.within_idle [0, 1] oneUser).answers_after
      (fun c e _ (h : decide (SigningIn _ _ _ _ c e) = true) => of_decide_eq_true h) rfl ?_ rfl
    decide +kernel
  · have hwithin : (Config.idle ⟨{}, 0⟩ : Config (system asciiSettings)).Within [0, 1] :=
      Config.within_idle _ _
    refine hwithin.answers_after
      (fun c e _ (h : decide (SigningIn _ _ _ _ c e) = true) => of_decide_eq_true h) rfl ?_ rfl
    decide +kernel

end Chamneul.Auth
