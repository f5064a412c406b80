import Chamneul.Proofs.AuthConstraints

/-! Stored addresses. Every lookup folds the address it is given with `canonical_email` and
compares exactly, so an account is found if and only if what is stored is folded too. The API,
Google sign-in and the manager fold. The admin forms store what was typed, stripped and
normalized. -/

namespace Chamneul.Auth

open ReadCommitted ReadCommitted.Prog

variable {S : Settings}

def Write.Folds (U : Unicode) : Write → Prop
  | .insertUser r => U.canonicalEmail r.email = r.email
  | .updateUser _ s => ∀ a, s.email = some a → U.canonicalEmail a = a
  | _ => True

structure Folded (U : Unicode) (db : Db) : Prop extends Constrained db where
  canonical : ∀ u ∈ db.users, U.canonicalEmail u.email = u.email

theorem folded_empty (U : Unicode) : Folded U {} :=
  ⟨constrained_empty, fun u hu => absurd hu (Table.not_mem_empty u)⟩

theorem Folded.apply {U : Unicode} {e : Env} {x : Write} {db : Db} (hdb : Folded U db)
    (hx : x.Folds U) (h : violated db e x = none) : Folded U (apply e x db) where
  toConstrained := hdb.toConstrained.apply h
  canonical := by
    refine users_apply hdb.canonical ?_ ?_
    · rintro r rfl
      exact hx
    · rintro id s rfl u hu
      cases ha : s.email with
      | none => simpa [UserSet.apply, ha] using hu
      | some a => simpa [UserSet.apply, ha] using hx a ha

/-- The addresses typed in the admin forms are, cleaned, what `canonical_email` makes of them. -/
def TypedFolded (S : Settings) : Call → Prop
  | .adminAddUser typed _ _ => cleanedEmail S typed = S.text.canonicalEmail typed
  | .adminChangeUser _ form => cleanedEmail S form.email = S.text.canonicalEmail form.email
  | _ => True

theorem folds_of_issues {call : Call} (hcall : TypedFolded S call) {x : Write}
    (h : Issues S call x) : x.Folds S.text := by
  have hnone : ∀ {s : UserSet}, s.email = none → ∀ a, s.email = some a → S.text.canonicalEmail a = a := by
    intro s hs a ha
    rw [hs] at ha
    cases ha
  cases h with
  | signup | linkCreates | createUser | createSuperuser => exact canonicalEmail_canonicalEmail _ _
  | signupOpens h | login h => cases h <;> first | exact hnone rfl | trivial
  | updateProfile | confirm | linkDisables => exact hnone rfl
  | adminAddUser =>
    have hcall : cleanedEmail S _ = _ := hcall
    rw [Write.Folds, hcall]
    exact canonicalEmail_canonicalEmail _ _
  | adminChangeUser =>
    intro a ha
    have hcall : cleanedEmail S _ = _ := hcall
    simp only [UserForm.toSet, guarded] at ha
    split_ifs at ha
    obtain rfl := Option.some.inj ha
    rw [hcall]
    exact canonicalEmail_canonicalEmail _ _
  | _ => trivial

theorem folded_serial {σ₀ σ : World Db} (h₀ : Folded S.text σ₀.db)
    (h : Serial (system S) (fun _ call => TypedFolded S call) σ₀ σ) : Folded S.text σ.db := by
  refine h.keeps (P := fun call ws => TypedFolded S call ∧ Statement S call ws) ?_ ?_ h₀
  · intro db call hcall
    exact (program_writes S call).mono fun ws hws => ⟨hcall, hws⟩
  · rintro call e v ws hv ⟨hcall, x, rfl, hx⟩ hok
    exact hv.apply (folds_of_issues hcall hx) (by simpa [Engine.violates] using hok)

def Call.typedEmail : Call → Option String
  | .signup email _ _ | .createUser email _ _ | .createSuperuser email _ _ _ _ => some email
  | .linkOrCreateGoogleUser _ email _ _ => some email
  | .adminAddUser typed _ _ => some typed
  | _ => none

def Write.Addresses (a : String) : Write → Prop
  | .insertUser r => r.email = a
  | .updateUser _ s => s.email = none
  | _ => True

theorem addresses_of_issues {call : Call} {typed : String} (ht : call.typedEmail = some typed)
    (hcall : TypedFolded S call) {x : Write} (h : Issues S call x) :
    x.Addresses (S.text.canonicalEmail typed) := by
  cases h with
  | signup | linkCreates | createUser | createSuperuser =>
    obtain rfl := Option.some.inj ht
    rfl
  | adminAddUser =>
    obtain rfl := Option.some.inj ht
    exact hcall
  | signupOpens h => cases h <;> first | rfl | trivial
  | linkDisables => rfl
  | links | linkPurges | createSuperuserRole => trivial
  | _ => cases ht

/-- Whoever a call creates has the address that was typed, folded. -/
theorem created_email {call : Call} {typed : String} (ht : call.typedEmail = some typed)
    (hcall : TypedFolded S call) {draw : ℕ → ℕ} {σ : World Db} {u : User}
    (hu : u ∈ ((program S call).exec draw [] σ).2.db.users) (hnew : ∀ v ∈ σ.db.users, v.id ≠ u.id) :
    u.email = S.text.canonicalEmail typed := by
  have hold : ∀ u ∈ ((program S call).exec draw [] σ).2.db.users,
      (∃ v ∈ σ.db.users, v.id = u.id) ∨ u.email = S.text.canonicalEmail typed := by
    refine (program_writes S call).exec (I := fun db => ∀ u ∈ db.users,
      (∃ v ∈ σ.db.users, v.id = u.id) ∨ u.email = S.text.canonicalEmail typed) ?_ draw ?_ ?_
    · rintro e db _ hdb ⟨x, rfl, hx⟩ -
      have hx := addresses_of_issues ht hcall hx
      refine users_apply hdb ?_ ?_
      · rintro r rfl
        exact Or.inr hx
      · rintro id s rfl u hu
        have hemail : (s.apply e u).email = u.email := by simp [UserSet.apply, show s.email = none from hx]
        exact hu.imp (fun h => h) fun h => hemail.trans h
    · exact fun u hu => Or.inl ⟨u, hu, rfl⟩
    · exact fun u hu => Or.inl ⟨u, hu, rfl⟩
  rcases hold u hu with ⟨v, hv, hid⟩ | hemail
  · exact absurd hid (hnew v hv)
  · exact hemail

/-- If what is typed in the admin forms is what is stored, then after every sequence of calls
each stored address is canonical, no two accounts share one, and an account that has the address
it was created with is what log-in, the password reset and Google sign-in find by it. -/
theorem stored_emails_canonical (S : Settings) {now : Time} {σ : World Db}
    (h : Serial (system S) (fun _ call => TypedFolded S call) ⟨{}, now⟩ σ) :
    (∀ u ∈ σ.db.users, S.text.canonicalEmail u.email = u.email) ∧
    (∀ u ∈ σ.db.users, ∀ v ∈ σ.db.users,
      S.text.canonicalEmail u.email = S.text.canonicalEmail v.email → u = v) ∧
    ∀ call typed draw σ' u, call.typedEmail = some typed → TypedFolded S call →
      u ∈ ((program S call).exec draw [] σ).2.db.users → (∀ v ∈ σ.db.users, v.id ≠ u.id) →
      Serial (system S) (fun _ call => TypedFolded S call) ((program S call).exec draw [] σ).2 σ' →
      ∀ v ∈ σ'.db.users, v.id = u.id → v.email = u.email →
        σ'.db.userByEmail (S.text.canonicalEmail typed) = some v ∧
        σ'.db.activeUserByEmail (S.text.canonicalEmail typed) =
          if v.isActive then some v else none := by
  have hσ := folded_serial (folded_empty S.text) h
  refine ⟨hσ.canonical, fun u hu v hv huv => ?_, ?_⟩
  · rw [hσ.canonical u hu, hσ.canonical v hv] at huv
    exact hσ.email u hu v hv huv
  · intro call typed draw σ' u ht hcall hu hnew hlater v hv _ hemail
    have hσ' := folded_serial (folded_serial hσ (.call call draw .refl hcall)) hlater
    have hfound : σ'.db.userByEmail (S.text.canonicalEmail typed) = some v := by
      rw [userByEmail_eq_some hσ'.toConstrained, hemail]
      exact ⟨hv, created_email ht hcall hu hnew⟩
    refine ⟨hfound, ?_⟩
    rw [activeUserByEmail_eq hσ'.toConstrained, hfound, Option.filter_some]

theorem stored_emails_canonical_signup :
    let σ := (system asciiSettings).serve id [.signup "Kim@Example.COM" "kim" "secret"] ⟨{}, 0⟩
    ∀ u ∈ σ.db.users, asciiSettings.text.canonicalEmail u.email = u.email :=
  (stored_emails_canonical asciiSettings
    (Serial.refl.serve id fun _ call hcall => by
      rw [List.mem_singleton] at hcall
      rw [hcall]
      trivial)).1

def Call.storesEmail : Call → Bool
  | .signup .. | .createUser .. | .createSuperuser .. | .linkOrCreateGoogleUser .. => true
  | .adminAddUser .. | .adminChangeUser .. => true
  | _ => false

def aliceTwice : List Call :=
  [.adminAddUser "Alice@Example.com" "alice" "secret", .signup "alice@example.com" "alice2" "secret"]

def aliceAdded : User :=
  { id := 2, email := "Alice@Example.com", nickname := "alice", password := ⟨some "secret", 2⟩
    createdAt := 2, updatedAt := 2 }

def aliceSignedUp : User :=
  { id := 6, email := "alice@example.com", nickname := "alice2", password := ⟨some "secret", 6⟩
    lastLogin := some 8, createdAt := 6, updatedAt := 6 }

/-- The address is stored as it was typed, a second account gets the same canonical one, and the
first is found by neither. -/
theorem admin_form_stores_typed_email :
    ∃ σ : World Db, Serial (system asciiSettings) (fun _ call => call.storesEmail) ⟨{}, 0⟩ σ ∧
      (∃ u ∈ σ.db.users, asciiSettings.text.canonicalEmail u.email ≠ u.email) ∧
      ∃ u ∈ σ.db.users, ∃ v ∈ σ.db.users, u ≠ v ∧
        asciiSettings.text.canonicalEmail u.email = asciiSettings.text.canonicalEmail v.email ∧
        σ.db.userByEmail (asciiSettings.text.canonicalEmail u.email) = some v := by
  have hrows : ((system asciiSettings).serve id aliceTwice ⟨{}, 0⟩).db.users.rows =
      [aliceAdded, aliceSignedUp] := by decide
  refine ⟨(system asciiSettings).serve id aliceTwice ⟨{}, 0⟩, ?_, ?_⟩
  · exact Serial.refl.serve id fun _ call hcall => by
      simp only [aliceTwice, List.mem_cons, List.not_mem_nil, or_false] at hcall
      obtain rfl | rfl := hcall <;> rfl
  · simp only [Table.mem_def, Db.userByEmail, hrows]
    have hadded : asciiSettings.text.canonicalEmail aliceAdded.email = "alice@example.com" := by
      decide
    have hsigned : asciiSettings.text.canonicalEmail aliceSignedUp.email = "alice@example.com" := by
      decide
    refine ⟨⟨aliceAdded, List.mem_cons_self, by rw [hadded]; decide⟩, ?_⟩
    refine ⟨aliceAdded, List.mem_cons_self, aliceSignedUp, by simp, by decide, ?_, ?_⟩
    · rw [hadded, hsigned]
    · rw [hadded]
      decide

end Chamneul.Auth
