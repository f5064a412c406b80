import Chamneul.Proofs.Handled

/-! Every request is answered: nothing a view does comes to an exception the handler leaves to
Django, but for two that give a role which another session has just given. -/

namespace Chamneul

open ReadCommitted ReadCommitted.Prog Service

def Answered {β : Type} : Except APIException (Response β) → Prop
  | .ok .unhandled | .error _ => False
  | .ok _ => True

section

variable {α β : Type} {J : Db → Db → Prop}

/-- The view answers, from wherever it is called. -/
def Service.Answers (J : Db → Db → Prop) (view : Service (Response β)) : Prop :=
  ∀ σ, ends (Rely.sane J) Db.Unused view ∅ [] σ fun r _ _ _ => Answered r

theorem Service.Answers.query {q : Db → α} {f : α → Service (Response β)}
    (h : ∀ db, (f (q db)).Answers J) : Service.Answers J (Prog.query q >>= f) :=
  fun _ _ _ => h _ _

def Service.AnswersTo (J : Db → Db → Prop) (user : Id) (view : Service (Response β)) : Prop :=
  ∀ σ : World Db, σ.db.Has (.user user) →
    ends (Rely.sane J) Db.Unused view ∅ [] σ fun r _ _ _ => Answered r

theorem Service.Answers.to {view : Service (Response β)} (h : view.Answers J) (user : Id) :
    view.AnswersTo J user := fun σ _ => h σ

theorem Service.AnswersTo.query {matters : Prop} {user : Id} {q : Db → α} {f : α → Service (Response β)}
    (h : ∀ db, (f (q db)).AnswersTo (KeepsAccounts matters) user) :
    Service.AnswersTo (KeepsAccounts matters) user (Prog.query q >>= f) :=
  fun _ hknown _ hr => h _ _ (hr.2.1.users user hknown)

end

def Arrival.Answered : (a : Arrival) → Except APIException a.Res → Prop
  | .request _ _ => Chamneul.Answered
  | .closeSelected _ | .softDeleteSelected _ | .restoreSelected _ => Returned

end Chamneul
