import Chamneul.Store.Sessions

/-! What the calls of a run return, in the order they end. -/

namespace ReadCommitted

variable {D K W ε : Type}

/-- A call that has ended, and what it returned or raised. -/
structure Answer (S : System D K W ε) where
  call : S.Call
  result : Except ε (S.Res call)

/-- What the call raised. -/
def Answer.error? {S : System D K W ε} (a : Answer S) : Option ε :=
  match a.result with
  | .ok _ => none
  | .error e => some e

def Session.answer? {S : System D K W ε} : Session S → Option (Answer S)
  | ⟨call, .ret r, _⟩ => some ⟨call, r⟩
  | _ => none

namespace Config

variable {S : System D K W ε}

/-- What session `t` has returned. -/
def answer? (c : Config S) (t : ℕ) : Option (Answer S) := (c.slot t).bind Session.answer?

theorem answer?_of_slot {c : Config S} {t : ℕ} {s : Session S} (h : c.slot t = some s) :
    c.answer? t = s.answer? := by
  rw [answer?, h, Option.bind_some]

theorem call_of_answer? {s : Session S} {a : Answer S} (h : s.answer? = some a) : a.call = s.call := by
  obtain ⟨call, p, w⟩ := s
  cases p with
  | ret r =>
    obtain rfl := Option.some.inj h
    rfl
  | _ => cases h

theorem ret_of_answer? {call : S.Call} {p : Prog D K W ε (S.Res call)} {w : Pending W} {a : Answer S}
    (h : Session.answer? ⟨call, p, w⟩ = some a) : ∃ r, p = .ret r ∧ a = ⟨call, r⟩ := by
  cases p with
  | ret r => exact ⟨r, rfl, (Option.some.inj h).symm⟩
  | _ => cases h

variable [Engine D K W] [DecidableEq K]

/-- Reached from `c₀` with the answers `as` given on the way: a step adds what the
session it is about has returned. -/
inductive Answers (ok : Config S → Event S → Prop) (c₀ : Config S) : Config S → List (Answer S) → Prop
  | refl : Answers ok c₀ c₀ []
  | step {c c' : Config S} {e : Event S} {as : List (Answer S)} :
      Answers ok c₀ c as → ok c e → c.step e = some c' →
        Answers ok c₀ c' (as ++ (c'.answer? e.session).toList)

variable {ok : Config S → Event S → Prop} {c₀ c : Config S} {as : List (Answer S)}

theorem Answers.reaches (h : Answers ok c₀ c as) : Reaches ok c₀ c := by
  induction h with
  | refl => exact .refl
  | step _ ho hs ih => exact ih.step ho hs

theorem Reaches.answers (h : Reaches ok c₀ c) : ∃ as, Answers ok c₀ c as := by
  induction h with
  | refl => exact ⟨[], .refl⟩
  | step _ ho hs ih =>
    obtain ⟨as, has⟩ := ih
    exact ⟨_, has.step ho hs⟩

/-- What a step adds is the answer of a session that has just started or taken its turn. -/
theorem step_answer {c' : Config S} {e : Event S} (hs : c.step e = some c') {a : Answer S}
    (ha : c'.answer? e.session = some a) :
    (e = .start e.session a.call ∧ S.program a.call = .ret a.result) ∨
    ∃ t uuid s s', e = .run t uuid ∧ c.slot t = some s ∧ Turn c t uuid s c' ∧
      c'.slot t = some s' ∧ s'.answer? = some a ∧ a.call = s.call := by
  obtain ⟨t, call, rfl, -, rfl⟩ | ⟨t, uuid, s, rfl, hslot, ht⟩ | ⟨t, s, rfl, -, rfl⟩ := step_cases hs
  · refine Or.inl ?_
    have hslot : (⟨c.world.tick, c.owner, c.put t (some ⟨call, S.program call, []⟩)⟩ : Config S).slot t =
        some ⟨call, S.program call, []⟩ := by simp [put]
    rw [Event.session, answer?_of_slot hslot] at ha
    obtain rfl : a.call = call := call_of_answer? ha
    refine ⟨rfl, ?_⟩
    cases hp : S.program a.call with
    | ret r =>
      rw [hp] at ha
      obtain ⟨call, result⟩ := a
      cases ha
      rfl
    | _ => simp [hp, Session.answer?] at ha
  · obtain ⟨q, w, hslot', -⟩ := ht.next
    refine Or.inr ⟨t, uuid, s, _, rfl, hslot, ht, hslot', ?_, ?_⟩
    · rw [← answer?_of_slot hslot']
      exact ha
    · rw [Event.session, answer?_of_slot hslot'] at ha
      exact call_of_answer? (s := ⟨s.call, q, w⟩) ha
  · simp [answer?, Event.session, put] at ha

/-! Calls that are one transaction. -/

omit [Engine D K W] [DecidableEq K] in
theorem answer?_ok {s : Session S} {call : S.Call} {a : S.Res call}
    (h : s.answer? = some ⟨call, .ok a⟩) : ¬ s.prog.Transacts := by
  obtain ⟨call', p, w⟩ := s
  cases p with
  | ret r =>
    simp only [Session.answer?, Option.some.injEq, Answer.mk.injEq] at h
    obtain ⟨rfl, h⟩ := h
    obtain rfl := eq_of_heq h
    rintro ⟨e, he⟩
    cases he
  | _ => cases h

/-- A value is returned at the commit. -/
theorem Reaches.committed_of_answer {σ : World D} (h : Reaches ok (idle σ) c) {c' : Config S}
    {e : Event S} (hs : c.step e = some c') {call : S.Call} {a : S.Res call}
    (ha : c'.answer? e.session = some ⟨call, .ok a⟩) (hcall : (S.program call).Transacts) :
    ∃ t uuid s n, e = .run t uuid ∧ c.slot t = some s ∧ s.call = call ∧ s.prog = .commit n ∧
      c'.world = c.world.commit s.writes := by
  obtain ⟨-, hret⟩ | ⟨t, uuid, s, s', rfl, hslot, ht, hslot', ha', hsame⟩ := step_answer hs ha
  · rw [hret] at hcall
    obtain ⟨e, he⟩ := hcall
    cases he
  · obtain rfl : call = s.call := hsame
    rcases h.transacts hslot hcall with hp | ⟨b, hp⟩
    · rcases ht.transacts hp with ⟨b, hc, hw, -⟩ | ⟨-, q, w, hq, hqt⟩
      · exact ⟨t, uuid, s, _, rfl, hslot, rfl, hc, hw⟩
      · obtain rfl := Option.some.inj (hq.symm.trans hslot')
        exact absurd hqt (answer?_ok ha')
    · exact (ht.not_ret hp).elim

/-- A step of such a call leaves the committed rows alone, or the call returns. -/
theorem Reaches.unchanged_or_answer {σ : World D} (h : Reaches ok (idle σ) c) {c' : Config S}
    {e : Event S} (hs : c.step e = some c') {s : Session S} (hslot : c.slot e.session = some s)
    (hcall : (S.program s.call).Transacts) :
    c'.world.db = c.world.db ∨ ∃ a, c'.answer? e.session = some ⟨s.call, .ok a⟩ := by
  obtain ⟨t, call, rfl, -, rfl⟩ | ⟨t, uuid, s₀, rfl, hslot₀, ht⟩ | ⟨t, s₀, rfl, -, rfl⟩ :=
    step_cases hs
  · exact Or.inl rfl
  · obtain rfl := Option.some.inj (hslot₀.symm.trans hslot)
    rcases h.transacts hslot hcall with hp | ⟨b, hp⟩
    · rcases ht.transacts hp with ⟨b, -, -, hslot'⟩ | ⟨hw, -⟩
      · exact Or.inr ⟨b, answer?_of_slot hslot'⟩
      · exact Or.inl (by rw [hw]; rfl)
    · exact (ht.not_ret hp).elim
  · exact Or.inl rfl

/-! Schedules. -/

/-- The answers given along a schedule, as far as it can run. -/
def answersAfter (c : Config S) : List (Event S) → List (Answer S)
  | [] => []
  | e :: es =>
    match c.step e with
    | none => []
    | some c' => (c'.answer? e.session).toList ++ c'.answersAfter es

theorem Answers.trans {as' : List (Answer S)} {c' : Config S} (h : Answers ok c₀ c as)
    (h' : Answers ok c c' as') : Answers ok c₀ c' (as ++ as') := by
  induction h' with
  | refl => simpa using h
  | step _ ho hs ih => simpa using ih.step ho hs

theorem answers_runAll {check : Config S → Event S → Bool} {c' : Config S} {es : List (Event S)}
    (hp : c.passes check es = true) (h : c.runAll es = some c') :
    Answers (fun c e => check c e = true) c c' (c.answersAfter es) := by
  induction es generalizing c with
  | nil =>
    cases h
    exact .refl
  | cons e es ih =>
    simp only [runAll] at h
    split at h
    · cases h
    · rename_i c₁ hs
      rw [passes, hs, Option.all_some, Bool.and_eq_true] at hp
      rw [answersAfter, hs]
      exact (Answers.step .refl hp.1 hs).trans (ih hp.2 h)

/-- What is checked of the sessions of `T` along a schedule of theirs is all there is. -/
theorem Within.answers_after {check : Config S → Event S → Bool} {T : List ℕ}
    (hok : ∀ c e, c.Within T → check c e = true → ok c e) (h : c.Within T) {es : List (Event S)}
    (hes : es.all (fun e => decide (e.session ∈ T)) = true) (hp : c.passes check es = true)
    (hrun : (c.runAll es).isSome = true) : Answers ok c (c.after es) (c.answersAfter es) := by
  obtain ⟨c', hc'⟩ := Option.isSome_iff_exists.mp hrun
  have hafter : c.after es = c' := by rw [Config.after, hc', Option.getD_some]
  have has := answers_runAll (passes_and hp hes) hc'
  rw [hafter]
  generalize c.answersAfter es = as at has ⊢
  clear hc' hrun hafter hp hes
  induction has with
  | refl => exact .refl
  | step has he hs ih =>
    rw [Bool.and_eq_true, decide_eq_true_eq] at he
    refine ih.step (hok _ _ ?_ he.1) hs
    exact h.of_reaches (has.reaches.mono fun c e he => by simp_all)

end Config

end ReadCommitted
