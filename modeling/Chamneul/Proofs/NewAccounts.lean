import Chamneul.Proofs.Nicknames
import Chamneul.Proofs.ConcurrentSignIn
import Chamneul.Proofs.AuthLocks
import Chamneul.Store.Waiting

/-! New Google accounts at the same time. A call passes from one nickname to the next, and holds no
lock while it waits. If the last nickname is nobody else's, one of the attempts succeeds. -/

namespace Chamneul.Auth

open ReadCommitted ReadCommitted.Prog

/-- No account has the address of the call, or its Google account. -/
structure Untaken (S : Settings) (k : NewAccount) (db : Db) : Prop where
  email : ∀ u ∈ db.users, u.email ≠ S.text.canonicalEmail k.email
  googleSub : ∀ i ∈ db.identities, i.googleSub ≠ k.googleSub

def Creates (S : Settings) (calls : List NewAccount) (c : Config (creations S)) :
    Event (creations S) → Prop
  | .start t k => calls[t]? = some k ∧ Untaken S k c.world.db
  | .run _ uuid => Unused c.world.db uuid
  | .abort _ => True

/-- An empty address or nickname is refused before anything is tried. -/
inductive Refuses (k : NewAccount) : Failure → Prop
  | email (h : k.email = "") : Refuses k (.valueError "email is required")
  | nickname (h : k.base = "") : Refuses k (.valueError "nickname is required")

structure Settled (S : Settings) (k : NewAccount) (u : User) (db db' : Db) : Prop where
  new : u ∉ db.users
  stored : u ∈ db'.users
  email : u.email = S.text.canonicalEmail k.email
  nickname : u.nickname ∈ k.candidates
  linked : ∃ i ∈ db'.identities, i.user = u.id ∧ i.googleSub = k.googleSub

def Settles (S : Settings) (db db' : Db) (a : Answer (creations S)) : Prop :=
  match a.result with
  | .ok u => Settled S a.call u db db'
  | .error f => Refuses a.call f

section

variable {S : Settings} {k : NewAccount}

/-- What is left of a turn of the loop once the user is inserted. -/
def linkNew (S : Settings) (k : NewAccount) (user : User) (rest : List String) : AuthService User :=
  let row : GoogleIdentity := { user := user.id, googleSub := k.googleSub, email := k.email }
  .write (fun _ => [.insertIdentity row]) fun e db ok =>
    if ok then .commit (.ret (.ok user))
    else .rollback (createWithNickname S k.email k.googleSub rest
      (.integrityError (violated db e (.insertIdentity row))))

theorem createWithNickname_cons (hemail : k.email ≠ "") {nickname : String} (hnickname : nickname ≠ "")
    (rest : List String) (f : Failure) :
    createWithNickname S k.email k.googleSub (nickname :: rest) f =
      .write (fun _ => [.insertUser (newUser S k.email nickname)]) fun e db ok =>
        if ok then linkNew S k ((newUser S k.email nickname).saved e) rest
        else .rollback (createWithNickname S k.email k.googleSub rest
          (.integrityError (violated db e (.insertUser (newUser S k.email nickname))))) := by
  rw [createWithNickname, createLinked, createUser, createUserWith, raiseIf, if_neg hemail, raiseIf,
    if_neg hnickname]
  refine congrArg (Prog.write _) (funext fun e => funext fun db => funext fun ok => ?_)
  cases ok with
  | false => rfl
  | true =>
    refine congrArg (Prog.write _) (funext fun e => funext fun db => funext fun ok => ?_)
    cases ok <;> rfl

/-- Where a call is on the rows `db`, and what it has not committed. -/
inductive Stage (S : Settings) (k : NewAccount) (db : Db) : AuthService User → Pending Write → Prop
  | refusing {f} (h : Refuses k f) : Stage S k db (.rollback (.ret (.error f))) []
  | trying {nickname rest f} (hrest : nickname :: rest <:+ k.candidates)
      (hgiven : k.email ≠ "" ∧ k.base ≠ "") (h : Untaken S k db) :
      Stage S k db (createWithNickname S k.email k.googleSub (nickname :: rest) f) []
  | linking {nickname rest e} (hrest : nickname :: rest <:+ k.candidates) (h : Untaken S k db)
      (hnew : violated db e (.insertUser (newUser S k.email nickname)) = none) :
      Stage S k db (linkNew S k ((newUser S k.email nickname).saved e) rest)
        [(e, .insertUser (newUser S k.email nickname))]
  | retrying {nickname rest f} (hrest : nickname :: rest <:+ k.candidates)
      (hgiven : k.email ≠ "" ∧ k.base ≠ "") (h : Untaken S k db) :
      Stage S k db (.rollback (createWithNickname S k.email k.googleSub (nickname :: rest) f)) []
  | committing {nickname e e'} (hmem : nickname ∈ k.candidates) (h : Untaken S k db)
      (hnew : violated db e (.insertUser (newUser S k.email nickname)) = none)
      (hfree : db.identities.get? e'.uuid = none) :
      Stage S k db (.commit (.ret (.ok ((newUser S k.email nickname).saved e))))
        [(e, .insertUser (newUser S k.email nickname)),
          (e', .insertIdentity { user := e.uuid, googleSub := k.googleSub, email := k.email })]
  | ended (r) : Stage S k db (.ret r) []

theorem stage_start {db : Db} (h : Untaken S k db) :
    Stage S k db ((creations S).program k) [] ∧ ∀ r, (creations S).program k ≠ .ret r := by
  have hcandidates : ∃ rest, k.candidates = k.base :: rest := ⟨_, rfl⟩
  obtain ⟨rest, hrest⟩ := hcandidates
  simp only [hrest]
  by_cases hemail : k.email = ""
  · have hp : createWithNickname S k.email k.googleSub (k.base :: rest) (.integrityError none) =
        .rollback (.ret (.error (.valueError "email is required"))) := by
      rw [createWithNickname, createLinked, createUser, createUserWith, raiseIf, if_pos hemail]
      rfl
    rw [hp]
    exact ⟨.refusing (.email hemail), fun r hr => by cases hr⟩
  by_cases hbase : k.base = ""
  · have hp : createWithNickname S k.email k.googleSub (k.base :: rest) (.integrityError none) =
        .rollback (.ret (.error (.valueError "nickname is required"))) := by
      rw [createWithNickname, createLinked, createUser, createUserWith, raiseIf, if_neg hemail, raiseIf,
        if_pos hbase]
      rfl
    rw [hp]
    exact ⟨.refusing (.nickname hbase), fun r hr => by cases hr⟩
  · refine ⟨.trying (hrest ▸ List.suffix_rfl) ⟨hemail, hbase⟩ h, fun r hr => ?_⟩
    rw [createWithNickname_cons hemail hbase] at hr
    cases hr

/-- An insertion that is accepted is accepted as long as its locks are held. -/
theorem insertUser_kept {db db' : Db} {e : Env} {r : NewUser} (h : violated db e (.insertUser r) = none)
    (hkeeps : ∀ key ∈ locks e (.insertUser r), keeps key db db') :
    violated db' e (.insertUser r) = none := by
  obtain ⟨hid, hemail, hnickname⟩ := insertUser_accepted.mp h
  have huser : keeps (.user e.uuid) db db' := hkeeps _ (by simp [locks])
  have haddress : keeps (.email r.email) db db' := hkeeps _ (by simp [locks])
  have hname : keeps (.nickname r.nickname) db db' := hkeeps _ (by simp [locks])
  exact insertUser_accepted.mpr ⟨huser.trans hid, haddress hemail, hname hnickname⟩

/-- Others commit: what the call has locked stays as it is. -/
theorem Stage.keep {db db' : Db} {p : AuthService User} {w : Pending Write} (h : Stage S k db p w)
    (huntaken : Untaken S k db → Untaken S k db')
    (hkeeps : ∀ x ∈ w, ∀ key ∈ locks x.1 x.2, keeps key db db') : Stage S k db' p w := by
  cases h with
  | refusing h => exact .refusing h
  | trying hrest hgiven h => exact .trying hrest hgiven (huntaken h)
  | retrying hrest hgiven h => exact .retrying hrest hgiven (huntaken h)
  | linking hrest h hnew =>
    exact .linking hrest (huntaken h) (insertUser_kept hnew (hkeeps _ List.mem_cons_self))
  | committing hmem h hnew hfree =>
    have hidentity : keeps (.identity _) db db' :=
      hkeeps _ (List.mem_cons_of_mem _ List.mem_cons_self) _ List.mem_cons_self
    exact .committing hmem (huntaken h) (insertUser_kept hnew (hkeeps _ List.mem_cons_self))
      (hidentity.trans hfree)
  | ended r => exact .ended r

theorem candidate_ne_empty (hbase : k.base ≠ "") {nickname : String} (h : nickname ∈ k.candidates) :
    nickname ≠ "" := by
  rintro rfl
  obtain hempty | ⟨i, hempty⟩ | hempty := mem_candidates.mp h
  · exact hbase hempty.symm
  · have hlength : 0 = (k.base ++ "_" ++ _).length := congrArg String.length hempty
    have hunderscore : "_".length = 1 := rfl
    rw [String.length_append, String.length_append, hunderscore] at hlength
    omega
  · have hlength : 0 = ("user_" ++ _).length := congrArg String.length hempty
    have hprefix : "user_".length = 5 := rfl
    rw [String.length_append, hprefix] at hlength
    omega

/-- On the rows `db` nobody has the last nickname of the call. -/
def LastFree (k : NewAccount) (db : Db) : Prop :=
  ∀ nickname, k.candidates.getLast? = some nickname → ∀ u ∈ db.users, u.nickname ≠ nickname

/-- The insertion of a user fails on the nickname, and not for the last one. -/
theorem rest_ne_nil {db : Db} {e : Env} {nickname : String} {rest : List String}
    (hrest : nickname :: rest <:+ k.candidates) (h : Untaken S k db) (hid : db.users.get? e.uuid = none)
    (hlast : LastFree k db) (hrefused : violated db e (.insertUser (newUser S k.email nickname)) ≠ none) :
    ∃ next more, rest = next :: more := by
  refine List.exists_cons_of_ne_nil fun hnil => hrefused ?_
  obtain ⟨before, hcandidates⟩ := hrest
  refine insertUser_accepted.mpr ⟨hid, h.email, hlast nickname ?_⟩
  rw [← hcandidates, hnil, List.getLast?_append]
  rfl

/-- The link of a user that is about to be inserted is accepted. -/
theorem link_accepted {db : Db} (hdb : Constrained db) (h : Untaken S k db) {e e' : Env} {new : NewUser}
    (hid : db.users.get? e.uuid = none) (hfree : db.identities.get? e'.uuid = none) :
    violated (apply e (.insertUser new) db) e'
      (.insertIdentity { user := e.uuid, googleSub := k.googleSub, email := k.email }) = none := by
  refine insertIdentity_accepted.mpr ⟨hfree, fun i hi huser => ?_, h.googleSub, new.saved e, ?_⟩
  · obtain ⟨u, hu⟩ := hdb.owner i hi
    rw [huser, hid] at hu
    cases hu
  · exact (Table.get?_insert _ _ _ hid).trans (if_pos rfl)

theorem Stage.not_forUpdate {db : Db} {p : AuthService User} {w : Pending Write} (h : Stage S k db p w)
    (rows : Db → List Key) (n : Db → AuthService User) : p ≠ .forUpdate rows n := by
  intro hp
  cases h with
  | @trying nickname rest f hrest hgiven _ =>
    rw [createWithNickname_cons hgiven.1
      (candidate_ne_empty hgiven.2 (hrest.subset List.mem_cons_self))] at hp
    cases hp
  | _ => cases hp

/-- A turn of a call leaves the rows alone and never raises an `IntegrityError`, or creates the
account and returns it. -/
theorem Stage.turn {c c' : Config (creations S)} {t uuid : ℕ} {p : AuthService User} {w : Pending Write}
    (h : Stage S k c.world.db p w) (ht : Config.Turn c t uuid ⟨k, p, w⟩ c')
    (hdb : Constrained c.world.db) (huuid : Unused c.world.db uuid)
    (hlast : Untaken S k c.world.db → LastFree k c.world.db) :
    (c'.world.db = c.world.db ∧ ∃ q w', c'.slot t = some ⟨k, q, w'⟩ ∧ Stage S k c.world.db q w' ∧
      ∀ r, q = .ret r → ∃ f, r = .error f ∧ Refuses k f) ∨
    (Untaken S k c.world.db ∧ c'.world = c.world.commit w ∧ Constrained c'.world.db ∧
      ∃ u, c'.slot t = some ⟨k, .ret (.ok u), []⟩ ∧ u.nickname ∈ k.candidates ∧
        CreatesLinked k.googleSub (S.text.canonicalEmail k.email) u c.world.db c'.world.db) := by
  cases h with
  | @refusing f h =>
    obtain ⟨hworld, hslot⟩ := ht.of_rollback rfl
    refine Or.inl ⟨by rw [hworld]; rfl, _, [], hslot, .ended _, ?_⟩
    rintro r hr
    cases hr
    exact ⟨f, rfl, h⟩
  | @trying nickname rest f hrest hgiven h =>
    have hp := createWithNickname_cons (S := S) hgiven.1
      (candidate_ne_empty hgiven.2 (hrest.subset List.mem_cons_self)) rest f
    by_cases hnew : violated c.world.db ⟨c.world.now, uuid⟩ (.insertUser (newUser S k.email nickname)) = none
    · obtain ⟨hworld, hslot⟩ := ht.of_write_ok hp (by simpa [Engine.violates] using hnew)
      exact Or.inl ⟨by rw [hworld]; rfl, _, _, hslot, .linking hrest h hnew, fun r hr => by cases hr⟩
    · obtain ⟨next, more, rfl⟩ := rest_ne_nil hrest h huuid.1 (hlast h) hnew
      obtain ⟨hworld, hslot | ⟨hv, -⟩⟩ := ht.of_write hp
      · have hmore : next :: more <:+ k.candidates := (List.suffix_cons _ _).trans hrest
        exact Or.inl ⟨by rw [hworld]; rfl, _, _, hslot, .retrying hmore hgiven h, fun r hr => by cases hr⟩
      · exact absurd (by simpa [Engine.violates] using hv) hnew
  | @linking nickname rest e hrest h hnew =>
    have hrow : violated (c.world.view [(e, .insertUser (newUser S k.email nickname))])
        ⟨c.world.now, uuid⟩ (.insertIdentity
          { user := ((newUser S k.email nickname).saved e).id, googleSub := k.googleSub, email := k.email }) =
        none := link_accepted hdb h (insertUser_accepted.mp hnew).1 huuid.2
    obtain ⟨hworld, hslot⟩ := ht.of_write_ok rfl (by simpa [Engine.violates] using hrow)
    exact Or.inl ⟨by rw [hworld]; rfl, _, _, hslot,
      .committing (hrest.subset List.mem_cons_self) h hnew huuid.2, fun r hr => by cases hr⟩
  | @retrying nickname rest f hrest hgiven h =>
    obtain ⟨hworld, hslot⟩ := ht.of_rollback rfl
    refine Or.inl ⟨by rw [hworld]; rfl, _, _, hslot, .trying hrest hgiven h, fun r hr => ?_⟩
    rw [createWithNickname_cons hgiven.1
      (candidate_ne_empty hgiven.2 (hrest.subset List.mem_cons_self))] at hr
    cases hr
  | @committing nickname e e' hmem h hnew hfree =>
    obtain ⟨hworld, hslot⟩ := ht.of_commit rfl
    have hid := (insertUser_accepted.mp hnew).1
    refine Or.inr ⟨h, hworld, ?_, _, hslot, hmem, ?_⟩
    · rw [hworld]
      exact (hdb.apply hnew).apply (link_accepted hdb h hid hfree)
    · rw [hworld]
      exact createsLinked_applyAll (newUser S k.email nickname) rfl hid hfree
  | ended r => exact (ht.not_ret rfl).elim

end

/-! Runs. -/

/-- Calls for different Google accounts with different addresses, made at different times, and no
base like a last nickname. -/
structure Apart (S : Settings) (calls : List NewAccount) : Prop where
  googleSub : calls.Pairwise fun k l => k.googleSub ≠ l.googleSub
  email : calls.Pairwise fun k l => S.text.canonicalEmail k.email ≠ S.text.canonicalEmail l.email
  base : ∀ k ∈ calls, ¬ FallbackForm k.base
  window : calls.Pairwise fun k l => k.uuid.window ≠ l.uuid.window

/-- Calls that differ in a value have different places. -/
theorem index_unique {β : Type} {f : NewAccount → β} {calls : List NewAccount}
    (h : calls.Pairwise fun k l => f k ≠ f l) {t t' : ℕ} {k l : NewAccount} (hk : calls[t]? = some k)
    (hl : calls[t']? = some l) (hf : f k = f l) : t = t' := by
  have hnodup : (calls.map f).Nodup := List.pairwise_map.mpr h
  have hlength : t < (calls.map f).length := by
    rw [List.length_map]
    exact (List.getElem?_eq_some_iff.mp hk).1
  refine (List.getElem?_inj hlength hnodup).mp ?_
  rw [List.getElem?_map, List.getElem?_map, hk, hl, Option.map_some, Option.map_some, hf]

/-- A run that began with the rows `db₀` and has answered `as`. A last nickname that is taken is
that of the account it was made for. -/
structure Going (S : Settings) (calls : List NewAccount) (db₀ : Db) (c : Config (creations S))
    (as : List (Answer (creations S))) : Prop where
  constrained : Constrained c.world.db
  grown : ∀ u ∈ db₀.users, u ∈ c.world.db.users
  fallback : ∀ u ∈ c.world.db.users, FallbackForm u.nickname → ∃ k ∈ calls,
    k.candidates.getLast? = some u.nickname ∧ u.email = S.text.canonicalEmail k.email
  slots : ∀ t s, c.slot t = some s → calls[t]? = some s.call ∧ Stage S s.call c.world.db s.prog s.writes
  answers : ∀ a ∈ as, Settles S db₀ c.world.db a

section

variable {S : Settings} {calls : List NewAccount} {db₀ : Db} {c c' : Config (creations S)}
  {as : List (Answer (creations S))}

theorem going_idle {σ : World Db} (hdb : Constrained σ.db)
    (h : ∀ u ∈ σ.db.users, ¬ FallbackForm u.nickname) : Going S calls σ.db (Config.idle σ) [] where
  constrained := hdb
  grown _ hu := hu
  fallback u hu hform := absurd hform (h u hu)
  slots _ _ hs := by cases hs
  answers _ ha := by cases ha

theorem Going.lastFree (h : Going S calls db₀ c as) (hapart : Apart S calls) {k : NewAccount}
    (hk : k ∈ calls) (huntaken : Untaken S k c.world.db) : LastFree k c.world.db := by
  rintro nickname hlast u hu rfl
  obtain ⟨l, hl, hlast', hemail⟩ := h.fallback u hu (fallbackForm_getLast? hlast)
  have hwindow : k.uuid.window = l.uuid.window := getLast?_candidates_eq.mp (hlast.trans hlast'.symm)
  obtain ⟨i, hi⟩ := List.mem_iff_getElem?.mp hk
  obtain ⟨j, hj⟩ := List.mem_iff_getElem?.mp hl
  obtain rfl := index_unique hapart.window hi hj hwindow
  obtain rfl := Option.some.inj (hi.symm.trans hj)
  exact huntaken.email u hu hemail

/-- A step that leaves the rows alone and gives no answer. -/
theorem Going.of_same (h : Going S calls db₀ c as) {e : Event (creations S)} (hs : c.step e = some c')
    (hdb : c'.world.db = c.world.db) (hnew : ∀ s, c'.slot e.session = some s →
      calls[e.session]? = some s.call ∧ Stage S s.call c.world.db s.prog s.writes)
    (hanswer : ∀ a, c'.answer? e.session = some a → Settles S db₀ c.world.db a) :
    Going S calls db₀ c' (as ++ (c'.answer? e.session).toList) where
  constrained := hdb ▸ h.constrained
  grown := hdb ▸ h.grown
  fallback := hdb ▸ h.fallback
  slots t s hslot := by
    rw [hdb]
    obtain hold | ⟨he, -⟩ | ⟨uuid, s₀, he, -⟩ := Config.step_slot hs hslot
    · exact h.slots t s hold
    · subst he
      exact hnew s hslot
    · subst he
      exact hnew s hslot
  answers a ha := by
    rw [hdb]
    rcases List.mem_append.mp ha with ha | ha
    · exact h.answers a ha
    · exact hanswer a (Option.mem_toList.mp ha)

theorem Settles.mono {db db' : Db} (husers : ∀ u ∈ db.users, u ∈ db'.users)
    (hidentities : ∀ i ∈ db.identities, i ∈ db'.identities) {a : Answer (creations S)}
    (h : Settles S db₀ db a) : Settles S db₀ db' a := by
  obtain ⟨k, r⟩ := a
  cases r with
  | error f => exact h
  | ok u =>
    obtain ⟨hnew, hstored, hemail, hnickname, i, hi, hlinked⟩ : Settled S k u db₀ db := h
    exact ⟨hnew, husers u hstored, hemail, hnickname, i, hidentities i hi, hlinked⟩

/-- A call commits and returns. What it adds is of no concern to the others. -/
theorem Going.commit (h : Going S calls db₀ c as) (hapart : Apart S calls) (htidy : c.Tidy) {t uuid : ℕ}
    {k : NewAccount} {p : AuthService User} {w : Pending Write} {u : User} (hslot : c.slot t = some ⟨k, p, w⟩)
    (huntaken : Untaken S k c.world.db) (hs : c.step (.run t uuid) = some c')
    (hworld : c'.world = c.world.commit w) (hdb : Constrained c'.world.db)
    (hslot' : c'.slot t = some ⟨k, .ret (.ok u), []⟩) (hnickname : u.nickname ∈ k.candidates)
    (hcreates : CreatesLinked k.googleSub (S.text.canonicalEmail k.email) u c.world.db c'.world.db) :
    Going S calls db₀ c' (as ++ (c'.answer? t).toList) := by
  have hk := (h.slots t _ hslot).1
  have hmem : k ∈ calls := List.mem_of_getElem? hk
  obtain ⟨i, hnew, huser, hsub, hidentities⟩ := hcreates.identity
  refine ⟨hdb, fun v hv => (hcreates.users v).mpr (Or.inl (h.grown v hv)), ?_, ?_, ?_⟩
  · intro v hv hform
    rcases (hcreates.users v).mp hv with hold | rfl
    · exact h.fallback v hold hform
    · exact ⟨k, hmem, getLast?_of_fallbackForm (hapart.base k hmem) hnickname hform, hcreates.email⟩
  · intro t' s' hs'
    by_cases hself : t' = t
    · subst hself
      obtain rfl := Option.some.inj (hslot'.symm.trans hs')
      exact ⟨hk, .ended _⟩
    obtain hold | ⟨he, -⟩ | ⟨_, _, he, -⟩ := Config.step_slot hs hs'
    · obtain ⟨hl, hstage⟩ := h.slots t' s' hold
      refine ⟨hl, hstage.keep (fun huntaken' => ⟨fun v hv => ?_, fun j hj => ?_⟩) fun x hx key hkey => ?_⟩
      · rcases (hcreates.users v).mp hv with hv | rfl
        · exact huntaken'.email v hv
        · exact fun hemail => hself (index_unique hapart.email hl hk (hemail.symm.trans hcreates.email))
      · rcases (hidentities j).mp hj with hj | rfl
        · exact huntaken'.googleSub j hj
        · exact fun hsame => hself (index_unique hapart.googleSub hl hk (hsame.symm.trans hsub))
      · rw [hworld]
        exact htidy.keeps (Ne.symm hself) hslot (htidy.locked t' s' hold x hx key hkey)
    · cases he
    · cases he
      exact absurd rfl hself
  · intro a ha
    rcases List.mem_append.mp ha with ha | ha
    · exact (h.answers a ha).mono (fun v hv => (hcreates.users v).mpr (Or.inl hv))
        fun j hj => (hidentities j).mpr (Or.inl hj)
    · rw [Option.mem_toList, Config.answer?_of_slot hslot'] at ha
      obtain rfl := Option.some.inj ha
      refine ⟨fun hold => ?_, (hcreates.users u).mpr (Or.inr rfl), hcreates.email, hnickname, i,
        (hidentities i).mpr (Or.inr rfl), huser, hsub⟩
      exact huntaken.email u (h.grown u hold) hcreates.email

theorem Going.step (h : Going S calls db₀ c as) (hapart : Apart S calls) (htidy : c.Tidy)
    {e : Event (creations S)} (hok : Creates S calls c e) (hs : c.step e = some c') :
    Going S calls db₀ c' (as ++ (c'.answer? e.session).toList) := by
  cases e with
  | start t k =>
    obtain ⟨hk, huntaken⟩ := hok
    obtain ⟨hdb, hslot⟩ := Config.step_start hs
    obtain ⟨hstage, hgoes⟩ := stage_start huntaken
    refine h.of_same hs hdb (fun s hs' => ?_) fun a ha => ?_
    · obtain rfl := Option.some.inj (hslot.symm.trans hs')
      exact ⟨hk, hstage⟩
    · rw [Event.session, Config.answer?_of_slot hslot] at ha
      obtain ⟨r, hr, -⟩ := Config.ret_of_answer? ha
      exact absurd hr (hgoes r)
  | abort t =>
    obtain ⟨hdb, hslot⟩ := Config.step_abort hs
    refine h.of_same hs hdb (fun s hs' => ?_) fun a ha => ?_
    · rw [Event.session, hslot] at hs'
      cases hs'
    · rw [Event.session, Config.answer?, hslot] at ha
      cases ha
  | run t uuid =>
    obtain ⟨⟨k, p, w⟩, hslot, ht⟩ := Config.step_run hs
    obtain ⟨hk, hstage⟩ := h.slots t _ hslot
    have hmem : k ∈ calls := List.mem_of_getElem? hk
    obtain ⟨hdb, q, w', hslot', hstage', hreturned⟩ |
      ⟨huntaken, hworld, hdb, u, hslot', hnickname, hcreates⟩ :=
      hstage.turn ht h.constrained hok (h.lastFree hapart hmem)
    · refine h.of_same hs hdb (fun s hs' => ?_) fun a ha => ?_
      · obtain rfl := Option.some.inj (hslot'.symm.trans hs')
        exact ⟨hk, hstage'⟩
      · rw [Event.session, Config.answer?_of_slot hslot'] at ha
        obtain ⟨r, hq, rfl⟩ := Config.ret_of_answer? ha
        obtain ⟨f, rfl, hrefuses⟩ := hreturned r hq
        exact hrefuses
    · exact h.commit hapart htidy hslot huntaken hs hworld hdb hslot' hnickname hcreates

theorem going_of_answers (hapart : Apart S calls) {σ₀ : World Db} (hdb : Constrained σ₀.db)
    (h₀ : ∀ u ∈ σ₀.db.users, ¬ FallbackForm u.nickname)
    (h : Config.Answers (Creates S calls) (Config.idle σ₀) c as) : Going S calls σ₀.db c as := by
  induction h with
  | refl => exact going_idle hdb h₀
  | step has hok hs ih => exact ih.step hapart ((Config.Tidy.idle σ₀).reaches has.reaches) hok hs

/-- The entry of a link is owned by the session that inserts the link or its user. -/
theorem owner_of_link (hapart : Apart S calls) (htidy : c.Tidy)
    (hslots : ∀ t s, c.slot t = some s → calls[t]? = some s.call ∧ Stage S s.call c.world.db s.prog s.writes)
    (howned : ∀ {key t}, c.owner key = some t →
      ∃ s, c.slot t = some s ∧ ∃ x ∈ s.writes, key ∈ locks x.1 x.2) {t t' : ℕ} {k : NewAccount}
    (hk : calls[t]? = some k) {e : Env} (hholds : c.owner (.user e.uuid) = some t) {key : Key}
    (hkey : key = .identityUser e.uuid ∨ key = .googleSub k.googleSub) (howner : c.owner key = some t') :
    t = t' := by
  obtain ⟨⟨l, p, w⟩, hslot, x, hx, hlocks⟩ := howned howner
  have hlocked := htidy.locked t' _ hslot
  obtain ⟨hl, hstage⟩ : _ ∧ Stage S l c.world.db p w := hslots t' _ hslot
  cases hstage with
  | refusing _ | trying _ _ _ | retrying _ _ _ | ended _ => cases hx
  | linking hrest _ _ =>
    obtain rfl := List.mem_singleton.mp hx
    rcases hkey with rfl | rfl <;> simp [locks] at hlocks
  | @committing nickname e' e'' _ _ _ _ =>
    rw [List.mem_cons, List.mem_singleton] at hx
    rcases hx with rfl | rfl
    · rcases hkey with rfl | rfl <;> simp [locks] at hlocks
    rcases hkey with rfl | rfl
    · have huuid : e.uuid = e'.uuid := by simpa [locks] using hlocks
      have hholds' : c.owner (.user e'.uuid) = some t' :=
        hlocked _ List.mem_cons_self _ List.mem_cons_self
      exact Config.owner_unique hholds (huuid ▸ hholds')
    · have hsub : k.googleSub = l.googleSub := by simpa [locks] using hlocks
      exact index_unique hapart.googleSub hk hl hsub

/-- A session that waits owns nothing, so nobody waits for it. -/
theorem creations_not_deadlocked (hapart : Apart S calls) {σ₀ : World Db} (hdb : Constrained σ₀.db)
    (h₀ : ∀ u ∈ σ₀.db.users, ¬ FallbackForm u.nickname)
    (h : Config.Reaches (Creates S calls) (Config.idle σ₀) c) : ¬ c.Deadlocked := by
  have hslots : ∀ {c}, Config.Reaches (Creates S calls) (Config.idle σ₀) c → ∀ t s, c.slot t = some s →
      calls[t]? = some s.call ∧ Stage S s.call c.world.db s.prog s.writes := by
    intro c hr
    obtain ⟨as, has⟩ := hr.answers
    exact (going_of_answers hapart hdb h₀ has).slots
  have howned : ∀ {key t}, c.owner key = some t →
      ∃ s, c.slot t = some s ∧ ∃ x ∈ s.writes, key ∈ locks x.1 x.2 := by
    exact h.owned_for_write fun hr hslot rows n => (hslots hr _ _ hslot).2.not_forUpdate rows n
  have htidy := (Config.Tidy.idle σ₀).reaches h
  refine Config.not_deadlocked_of_order (α := ℕ) (fun _ _ => False) ?_ (fun _ _ h => h.elim)
  rintro t t' t'' hwaits ⟨hne, ⟨k, p, w⟩, hslot, hneeds⟩
  obtain ⟨key, hkey⟩ := hwaits.owned
  obtain ⟨s', hslot', x, hx, -⟩ := howned hkey
  obtain rfl := Option.some.inj (hslot.symm.trans hslot')
  have hlocked := htidy.locked t' _ hslot
  obtain ⟨hk, hstage⟩ : _ ∧ Stage S k c.world.db p w := hslots h t' _ hslot
  cases hstage with
  | refusing _ | trying _ _ _ | retrying _ _ _ | ended _ => cases hx
  | @committing nickname e e' _ _ _ _ =>
    -- the commit looks up the user it has inserted itself
    obtain hneeds | ⟨key', hrefers, howner⟩ := hneeds
    · obtain ⟨_, hneed, -⟩ := hneeds 0
      cases hneed
    · have hrefers : key' ∈ [Key.user e.uuid] := hrefers
      rw [List.mem_singleton] at hrefers
      subst hrefers
      exact absurd (Config.owner_unique (hlocked _ List.mem_cons_self _ List.mem_cons_self) howner) hne
  | @linking nickname rest e hrest _ _ =>
    obtain hneeds | ⟨_, hrefers, -⟩ := hneeds
    · obtain ⟨uuid, hfree⟩ := htidy.exists_free (f := Key.identity) fun a b hab => by cases hab; rfl
      obtain ⟨key', hneed, howner⟩ := hneeds uuid
      have hneed : key' ∈ [Key.identity uuid, .identityUser e.uuid, .googleSub k.googleSub] := hneed
      rw [List.mem_cons, List.mem_cons, List.mem_singleton] at hneed
      rcases hneed with rfl | hentry
      · rw [hfree] at howner
        cases howner
      · refine absurd (owner_of_link hapart htidy (hslots h) howned hk ?_ hentry howner) hne
        exact hlocked _ List.mem_cons_self _ List.mem_cons_self
    · cases hrefers

end

/-- The last nicknames of the calls of a run differ, and every call returns a new user, if and only
if no two of them have identifiers from the same 65.536 seconds. -/
theorem new_accounts_settle_iff (S : Settings) {calls : List NewAccount}
    (hsubs : calls.Pairwise fun k l => k.googleSub ≠ l.googleSub)
    (hemails : calls.Pairwise fun k l => S.text.canonicalEmail k.email ≠ S.text.canonicalEmail l.email)
    (hbases : ∀ k ∈ calls, ¬ FallbackForm k.base) :
    ((calls.Pairwise fun k l => k.candidates.getLast? ≠ l.candidates.getLast?) ∧
      ∀ σ₀ : World Db, Constrained σ₀.db → (∀ u ∈ σ₀.db.users, ¬ FallbackForm u.nickname) →
        ∀ c as, Config.Answers (Creates S calls) (Config.idle σ₀) c as →
          ¬ c.Deadlocked ∧ ∀ a ∈ as, Settles S σ₀.db c.world.db a) ↔
      calls.Pairwise fun k l => k.uuid.window ≠ l.uuid.window := by
  have hlast : (calls.Pairwise fun k l => k.candidates.getLast? ≠ l.candidates.getLast?) ↔
      calls.Pairwise fun k l => k.uuid.window ≠ l.uuid.window :=
    List.Pairwise.iff fun k l => not_congr getLast?_candidates_eq
  refine ⟨fun h => hlast.mp h.1, fun h => ⟨hlast.mpr h, fun σ₀ hdb h₀ c as has => ?_⟩⟩
  have hapart : Apart S calls := ⟨hsubs, hemails, hbases, h⟩
  exact ⟨creations_not_deadlocked hapart hdb h₀ has.reaches, (going_of_answers hapart hdb h₀ has).answers⟩

instance (S : Settings) (k : NewAccount) (db : Db) : Decidable (Untaken S k db) :=
  decidable_of_iff ((∀ u ∈ db.users.rows, u.email ≠ S.text.canonicalEmail k.email) ∧
    ∀ i ∈ db.identities.rows, i.googleSub ≠ k.googleSub) ⟨fun h => ⟨h.1, h.2⟩, fun h => ⟨h.1, h.2⟩⟩

instance (S : Settings) (calls : List NewAccount) (c : Config (creations S)) :
    DecidablePred (Creates S calls c)
  | .start t k => inferInstanceAs (Decidable (calls[t]? = some k ∧ Untaken S k c.world.db))
  | .run _ uuid => inferInstanceAs (Decidable (Unused c.world.db uuid))
  | .abort _ => isTrue trivial

def twoKims : World Db :=
  ⟨{ users := (Table.empty.insert (NewUser.saved ⟨0, 0⟩ ⟨"a@x", "kim", none, false, false⟩)).insert
       (NewUser.saved ⟨1, 1⟩ ⟨"b@x", "kim_0000", none, false, false⟩) }, 2⟩

def uuidOf (ms drawn : ℕ) : Uuid7 where
  unixTsMs := ⟨ms % 2 ^ 48, Nat.mod_lt _ (by decide)⟩
  randA := ⟨0, by decide⟩
  randB := ⟨drawn % 2 ^ 62, Nat.mod_lt _ (by decide)⟩

/-- Two more Kims, the second some milliseconds after the first. All numbers that are drawn are
taken. -/
def moreKims (ms : ℕ) : List NewAccount :=
  [⟨"c@x", "s", "kim", zeroDraws.suffixes, uuidOf 0 0⟩, ⟨"d@x", "t", "kim", zeroDraws.suffixes, uuidOf ms 1⟩]

def createKims (ms turns : ℕ) : List (Event (creations asciiSettings)) :=
  .start 0 ⟨"c@x", "s", "kim", zeroDraws.suffixes, uuidOf 0 0⟩ :: List.replicate 15 (.run 0 7) ++
    .start 1 ⟨"d@x", "t", "kim", zeroDraws.suffixes, uuidOf ms 1⟩ :: List.replicate turns (.run 1 8)

theorem constrained_twoKims : Constrained twoKims.db where
  email := by
    have hdecided : ∀ u ∈ twoKims.db.users.rows, ∀ v ∈ twoKims.db.users.rows, u.email = v.email → u = v := by
      decide +kernel
    exact hdecided
  identityUser := fun i hi => absurd hi (Table.not_mem_empty i)
  googleSub := fun i hi => absurd hi (Table.not_mem_empty i)
  owner := fun i hi => absurd hi (Table.not_mem_empty i)

theorem unfallen_twoKims : ∀ u ∈ twoKims.db.users, ¬ FallbackForm u.nickname := by
  have hdecided : ∀ u ∈ twoKims.db.users.rows, ¬ FallbackForm u.nickname := by decide +kernel
  exact hdecided

theorem answers_createKims (ms turns : ℕ)
    (h : (Config.idle twoKims).passes (fun c e => decide (Creates asciiSettings (moreKims ms) c e))
      (createKims ms turns) = true)
    (hrun : ((Config.idle twoKims).runAll (createKims ms turns)).isSome = true) :
    Config.Answers (Creates asciiSettings (moreKims ms)) (Config.idle twoKims)
      ((Config.idle twoKims).after (createKims ms turns))
      ((Config.idle twoKims).answersAfter (createKims ms turns)) := by
  refine (Config.within_idle [0, 1] twoKims).answers_after
    (fun c e _ (he : decide (Creates _ _ c e) = true) => of_decide_eq_true he) ?_ h hrun
  simp [createKims, Event.session]

/-- A minute and six seconds apart, both are. -/
theorem new_accounts_settle_iff_moreKims :
    ((Config.idle twoKims).answersAfter (createKims 65536 15)).length = 2 ∧
    ∀ a ∈ (Config.idle twoKims).answersAfter (createKims 65536 15),
      Settles asciiSettings twoKims.db ((Config.idle twoKims).after (createKims 65536 15)).world.db a := by
  have hsubs : (moreKims 65536).Pairwise fun k l => k.googleSub ≠ l.googleSub := by decide +kernel
  have hwindows : (moreKims 65536).Pairwise fun k l => k.uuid.window ≠ l.uuid.window := by decide +kernel
  have hsettle := (new_accounts_settle_iff asciiSettings hsubs (by decide +kernel)
    (by decide +kernel)).mpr hwindows
  have hrun := hsettle.2 twoKims constrained_twoKims unfallen_twoKims _ _
    (answers_createKims 65536 15 (by decide +kernel) (by decide +kernel))
  exact ⟨by decide +kernel, hrun.2⟩

/-- A millisecond apart, the last nickname is the same, and the second call raises. -/
theorem same_window_collides :
    ((moreKims 1).Pairwise fun k l => k.googleSub ≠ l.googleSub ∧ k.uuid ≠ l.uuid ∧
      asciiSettings.text.canonicalEmail k.email ≠ asciiSettings.text.canonicalEmail l.email) ∧
    (∀ k ∈ moreKims 1, ¬ FallbackForm k.base) ∧ Constrained twoKims.db ∧
    (∀ u ∈ twoKims.db.users, ¬ FallbackForm u.nickname) ∧
    (moreKims 1).map (fun k => k.candidates.getLast?) = [some "user_00000000", some "user_00000000"] ∧
    Config.Answers (Creates asciiSettings (moreKims 1)) (Config.idle twoKims)
      ((Config.idle twoKims).after (createKims 1 14)) ((Config.idle twoKims).answersAfter (createKims 1 14)) ∧
    ((Config.idle twoKims).answersAfter (createKims 1 14)).map Answer.error? =
      [none, some (.integrityError (some .userNickname))] :=
  ⟨by decide +kernel, by decide +kernel, constrained_twoKims, unfallen_twoKims, by decide +kernel,
    answers_createKims 1 14 (by decide +kernel) (by decide +kernel), by decide +kernel⟩

end Chamneul.Auth
