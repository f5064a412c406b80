import Chamneul.Spec.Http
import Chamneul.Store.TwoRuns

/-! Endpoints side by side: the rules of `Alike` for what views are made of. -/

namespace Chamneul

open ReadCommitted ReadCommitted.Prog Service

variable {α β γ δ : Type} {R : Db → Db → Prop} {s s' : Stand Db} {d d' : Db}

/-- Both ended between two transactions with one answer, on databases that `R` relates. -/
abbrev EndsAlike (R : Db → Db → Prop) : Post₂ Db APIException α α := Ends R fun a b _ _ => a = b

theorem alike_getOr_bind {Q : Post₂ Db APIException γ δ} {S : α → β → Prop} {absent : APIException}
    {found : Option α} {found' : Option β} {f : α → Service γ} {f' : β → Service δ}
    (h : Option.Rel S found found') (herror : Q (.error absent) (.error absent) s s')
    (hf : ∀ a b, found = some a → S a b → Alike Q (f a) (f' b) s s') :
    Alike Q (getOr absent found >>= f) (getOr absent found' >>= f') s s' := by
  cases h with
  | none => exact herror
  | some hab => exact hf _ _ rfl hab

theorem alike_getForUpdate_bind {Q : Post₂ Db APIException γ δ} {S : α → β → Prop} {k : Key}
    {row : Db → Option α} {row' : Db → Option β} {f : α → Service γ} {f' : β → Service δ}
    (h : Option.Rel S (row s.view) (row' s'.view))
    (herror : Q (.error .notFound) (.error .notFound) s s')
    (hf : ∀ a b, row s.view = some a → S a b → Alike Q (f a) (f' b) s s') :
    Alike Q (getForUpdate k row >>= f) (getForUpdate k row' >>= f') s s' := by
  change Alike Q (getOr404 (row s.view) >>= f) (getOr404 (row' s'.view) >>= f') s s'
  exact alike_getOr_bind h herror hf

theorem alike_write {Q : Post₂ Db APIException α β} {x x' : Write} {out : Env → Db → α}
    {out' : Env → Db → β} (hv : ∀ e, violates s.view e x = violates s'.view e x')
    (herror : Q (.error .integrityError) (.error .integrityError) s s')
    (h : ∀ e, violates s.view e x = false → Q (.ok (out e s.view)) (.ok (out' e s'.view))
      ⟨s.committed, apply e x s.view⟩ ⟨s'.committed, apply e x' s'.view⟩) :
    Alike Q (Service.write x out) (Service.write x' out') s s' := by
  refine alike_execute (fun e => ?_) herror (fun e hfree => ?_)
  · simp only [List.any_cons, List.any_nil, Bool.or_false]
    exact hv e
  · simp only [List.any_cons, List.any_nil, Bool.or_false] at hfree
    exact h e hfree

theorem alike_write_bind {Q : Post₂ Db APIException γ δ} {x x' : Write} {out : Env → Db → α}
    {out' : Env → Db → β} {f : α → Service γ} {f' : β → Service δ}
    (hv : ∀ e, violates s.view e x = violates s'.view e x')
    (herror : Q (.error .integrityError) (.error .integrityError) s s')
    (h : ∀ e, violates s.view e x = false → Alike Q (f (out e s.view)) (f' (out' e s'.view))
      ⟨s.committed, apply e x s.view⟩ ⟨s'.committed, apply e x' s'.view⟩) :
    Alike Q (Service.write x out >>= f) (Service.write x' out' >>= f') s s' :=
  alike_andThen (alike_write hv herror h)

/-- A read between two transactions. -/
theorem alike_read {E : α → β → Db → Db → Prop} {q : Db → Except APIException α}
    {q' : Db → Except APIException β} (hR : R d d')
    (h : Answers (fun a b => E a b d d') (q d) (q' d')) :
    Alike (Ends R E) (Service.read q) (Service.read q') (.idle d) (.idle d') :=
  ⟨d, d', rfl, rfl, hR, h⟩

theorem alike_query {E : α → β → Db → Db → Prop} {q : Db → α} {q' : Db → β} (hR : R d d')
    (h : E (q d) (q' d') d d') :
    Alike (Ends R E) (query q : Service α) (query q') (.idle d) (.idle d') :=
  ⟨d, d', rfl, rfl, hR, h⟩

theorem alike_ret {E : α → β → Db → Db → Prop} {r : Except APIException α}
    {r' : Except APIException β} (hR : R d d') (h : Answers (fun a b => E a b d d') r r') :
    Alike (Ends R E) (.ret r : Service α) (.ret r') (.idle d) (.idle d') :=
  ⟨d, d', rfl, rfl, hR, h⟩

theorem alike_respond {model : String} {status : ℕ} {view view' : Service β}
    (h : Alike (EndsAlike R) view view' s s') :
    Alike (EndsAlike R) (respond model status view) (respond model status view') s s' := by
  refine h.andThen ?_
  rintro r r' _ _ ⟨d, d', rfl, rfl, hR, hr⟩
  obtain rfl := answers_eq.mp hr
  cases r <;> exact ⟨d, d', rfl, rfl, hR, rfl⟩

theorem alike_isAuthenticated {user : Id} {view view' : User → Service (Response β)} (hR : R d d')
    (huser : d.users.get? user = d'.users.get? user)
    (h : ∀ account, Alike (EndsAlike R) (view account) (view' account) (.idle d) (.idle d')) :
    Alike (EndsAlike R) (isAuthenticated user view) (isAuthenticated user view') (.idle d)
      (.idle d') := by
  refine alike_query_bind ?_
  simp only [Stand.idle_view, huser]
  cases (d'.users.get? user).filter (·.isActive) with
  | none => exact alike_ret hR rfl
  | some account => exact h account

theorem alike_isActiveAdvisor {account : User} {view view' : Service (Response β)} (hR : R d d')
    (h : Alike (EndsAlike R) view view' (.idle d) (.idle d')) :
    Alike (EndsAlike R) (isActiveAdvisor account view) (isActiveAdvisor account view') (.idle d)
      (.idle d') := by
  unfold isActiveAdvisor
  split_ifs
  · exact h
  · exact alike_ret hR rfl

theorem alike_isValid {request : Validated α} {view view' : α → Service (Response β)} (hR : R d d')
    (h : ∀ data, Alike (EndsAlike R) (view data) (view' data) (.idle d) (.idle d')) :
    Alike (EndsAlike R) (isValid request view) (isValid request view') (.idle d) (.idle d') := by
  cases request with
  | ok data => exact h data
  | error errors => exact alike_ret hR rfl

end Chamneul
