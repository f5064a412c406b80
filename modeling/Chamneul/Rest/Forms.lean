import Chamneul.Python.Json

/-! The validation of a request's body against declared fields. What a field makes of one value is
a parameter, with what is documented of it; here is what becomes of the whole body: which fields may
be left out, and that the errors of all of them are collected. -/

namespace Rest

open Python

/-- What is wrong with a value: messages about it, or what is wrong with some items of a list. -/
inductive Detail
  | messages (messages : List String)
  | items (wrong : List (ℕ × Detail))

/-- What is wrong with each field. -/
abbrev Errors := List (String × Detail)

/-- What one field makes of a value, or what is wrong with it. -/
abbrev Checked (α : Type) := Except Detail α

/-- `type(data).__name__`. -/
def typeName : Value → String
  | .null => "NoneType"
  | .bool _ => "bool"
  | .int _ => "int"
  | .float _ => "float"
  | .string _ => "str"
  | .array _ => "list"
  | .object _ => "dict"

/-- The options of a field for texts. -/
structure CharOptions where
  minLength : ℕ := 0
  maxLength : Option ℕ := none
  allowBlank : Bool := false
  deriving DecidableEq

/-- What the options ask of a text. A blank one, where it is allowed, need not have the length. -/
def CharOptions.Fits (o : CharOptions) (s : String) : Prop :=
  if s = "" then o.allowBlank = true
  else o.minLength ≤ s.length ∧ ∀ n ∈ o.maxLength, s.length ≤ n

instance (o : CharOptions) (s : String) : Decidable (o.Fits s) := by
  unfold CharOptions.Fits
  exact inferInstance

/-- A text as a JSON value. -/
def text (s : String) : Value := .string (Text.ofString s)

/-- The fields of the framework. A text that a field has let through is trimmed and coerced already,
so that the field lets it through as it is. -/
structure Fields where
  char : CharOptions → Value → Checked String
  url : CharOptions → Value → Checked String
  choice : List String → Value → Checked String
  integer : Option ℤ → Option ℤ → Value → Checked ℤ
  boolean : Value → Checked Bool
  /-- The UUID as the number it is. -/
  uuid : Value → Checked ℕ
  json : Value → Checked Value
  char_blank : ∀ {o}, o.allowBlank = true → char o (text "") = .ok ""
  char_again : ∀ {o v s}, char o v = .ok s → char o (text s) = .ok s
  url_again : ∀ {o v s}, url o v = .ok s → url o (text s) = .ok s
  char_fits : ∀ {o v s}, char o v = .ok s → o.Fits s
  url_fits : ∀ {o v s}, url o v = .ok s → o.Fits s
  choice_self : ∀ {choices c}, c ∈ choices → choice choices (text c) = .ok c
  integer_least : ∀ {least most v n}, integer (some least) most v = .ok n → least ≤ n
  integer_most : ∀ {least most v n}, integer least (some most) v = .ok n → n ≤ most
  boolean_self : ∀ b, boolean (.bool b) = .ok b

namespace Fields

variable (F : Fields) {α : Type}

/-- The field lets the text through as it is. -/
def Passes (o : CharOptions) (s : String) : Prop := F.char o (text s) = .ok s

/-- A choice among the members of an enumeration, by their stored values. -/
def member (all : List α) (value : α → String) (v : Value) : Checked α := do
  let chosen ← F.choice (all.map value) v
  match all.find? fun a => decide (value a = chosen) with
  | some a => pure a
  | none => throw (.messages [])

variable {F}

theorem passes_of_ok {o : CharOptions} {v : Value} {s : String} (h : F.char o v = .ok s) :
    F.Passes o s := F.char_again h

theorem Passes.fits {o : CharOptions} {s : String} (h : F.Passes o s) : o.Fits s := F.char_fits h

/-- A member's stored value chooses it. -/
theorem member_self {all : List α} {value : α → String} (hvalue : Function.Injective value) {a : α}
    (ha : a ∈ all) : F.member all value (text (value a)) = .ok a := by
  have hchoice : F.choice (all.map value) (text (value a)) = .ok (value a) :=
    F.choice_self (List.mem_map_of_mem ha)
  have hfind : (all.find? fun b => decide (value b = value a)) = some a := by
    cases hb : all.find? fun b => decide (value b = value a) with
    | none => simpa using List.find?_eq_none.mp hb a ha
    | some b =>
      have hab : value b = value a := by simpa using List.find?_some hb
      rw [hvalue hab]
  rw [member, hchoice]
  simp only [bind, Except.bind, hfind]
  rfl

end Fields

/-! Lists. -/

section

variable {α : Type}

/-- Every item, or what is wrong with the wrong ones, by their places from `n` on. -/
def checkAll (check : Value → Checked α) : ℕ → List Value → Except (List (ℕ × Detail)) (List α)
  | _, [] => .ok []
  | n, v :: vs =>
    match check v, checkAll check (n + 1) vs with
    | .ok a, .ok as => .ok (a :: as)
    | .error detail, .ok _ => .error [(n, detail)]
    | .ok _, .error wrong => .error wrong
    | .error detail, .error wrong => .error ((n, detail) :: wrong)

/-- `ListField`. -/
def listOf (allowEmpty : Bool) (check : Value → Checked α) : Value → Checked (List α)
  | .array items =>
    if items = [] ∧ allowEmpty = false then .error (.messages ["This list may not be empty."])
    else (checkAll check 0 items).mapError .items
  | .null => .error (.messages ["This field may not be null."])
  | v => .error (.messages ["Expected a list of items but got type \"" ++ typeName v ++ "\"."])

theorem checkAll_self {check : Value → Checked α} {json : α → Value} {as : List α}
    (h : ∀ a ∈ as, check (json a) = .ok a) (n : ℕ) : checkAll check n (as.map json) = .ok as := by
  induction as generalizing n with
  | nil => rfl
  | cons a as ih =>
    have ha : check (json a) = .ok a := h a List.mem_cons_self
    have has := ih (fun b hb => h b (List.mem_cons_of_mem a hb)) (n + 1)
    simp only [List.map_cons, checkAll, ha, has]

theorem listOf_self {check : Value → Checked α} {json : α → Value} {as : List α}
    (h : ∀ a ∈ as, check (json a) = .ok a) :
    listOf true check (.array (as.map json)) = .ok as := by
  simp only [listOf, Bool.true_eq_false, and_false, if_false, checkAll_self h]
  rfl

end

/-! Forms. -/

/-- What a serializer makes of the items of a body. -/
def Form (α : Type) : Type := List (Text × Value) → Except Errors α

namespace Form

variable {α β : Type}

/-- The errors of both are collected. -/
def both : Except Errors (α → β) → Except Errors α → Except Errors β
  | .ok f, .ok a => .ok (f a)
  | .error e, .ok _ => .error e
  | .ok _, .error e => .error e
  | .error e, .error e' => .error (e ++ e')

instance : Applicative Form where
  pure a _ := .ok a
  seq f x body := both (f body) (x () body)

/-- What is sent under a name. -/
def sent (body : List (Text × Value)) (name : String) : Option Value :=
  body.lookup (Text.ofString name)

/-- A field that has to be sent. -/
def required (name : String) (check : Value → Checked α) : Form α := fun body =>
  match sent body name with
  | none => .error [(name, .messages ["This field is required."])]
  | some v => (check v).mapError fun detail => [(name, detail)]

/-- A field that may be left out, as each may be of a partial update. -/
def optional (name : String) (check : Value → Checked α) : Form (Option α) := fun body =>
  match sent body name with
  | none => .ok none
  | some v => ((check v).map some).mapError fun detail => [(name, detail)]

/-- `is_valid` on a body, which has to be an object. -/
def run (form : Form α) : Value → Except Errors α
  | .object items => form items
  | .null => .error [("non_field_errors", .messages ["No data provided"])]
  | v => .error [("non_field_errors", .messages
      ["Invalid data. Expected a dictionary, but got " ++ typeName v ++ "."])]

theorem pure_ok {a b : α} {body : List (Text × Value)} :
    (pure a : Form α) body = .ok b ↔ a = b :=
  ⟨fun h => Except.ok.inj h, fun h => congrArg Except.ok h⟩

theorem seq_ok {f : Form (α → β)} {x : Form α} {body : List (Text × Value)} {b : β} :
    (f <*> x) body = .ok b ↔ ∃ g a, f body = .ok g ∧ x body = .ok a ∧ g a = b := by
  change both (f body) (x body) = .ok b ↔ _
  cases f body <;> cases x body <;> simp [both]

theorem map_ok {g : α → β} {x : Form α} {body : List (Text × Value)} {b : β} :
    (g <$> x) body = .ok b ↔ ∃ a, x body = .ok a ∧ g a = b := by
  refine (seq_ok (f := pure g)).trans ⟨?_, ?_⟩
  · rintro ⟨g', a, hg, ha, rfl⟩
    exact ⟨a, ha, by rw [pure_ok.mp hg]⟩
  · rintro ⟨a, ha, rfl⟩
    exact ⟨g, a, rfl, ha, rfl⟩

theorem required_ok {name : String} {check : Value → Checked α} {body : List (Text × Value)}
    {a : α} : required name check body = .ok a ↔ ∃ v, sent body name = some v ∧ check v = .ok a := by
  unfold required
  cases sent body name with
  | none => simp
  | some v => cases h : check v <;> simp [h, Except.mapError]

theorem optional_ok {name : String} {check : Value → Checked α} {body : List (Text × Value)}
    {a : Option α} : optional name check body = .ok a ↔
      (sent body name = none ∧ a = none) ∨
        ∃ v b, sent body name = some v ∧ check v = .ok b ∧ a = some b := by
  unfold optional
  cases sent body name with
  | none => simp [eq_comm]
  | some v => cases h : check v <;> simp [h, Except.mapError, Except.map, eq_comm]

theorem run_ok {form : Form α} {v : Value} {a : α} :
    form.run v = .ok a ↔ ∃ items, v = .object items ∧ form items = .ok a := by
  cases v <;> simp [run]

end Form

/-! What is written. -/

/-- An object with these items. -/
def record (items : List (String × Value)) : Value :=
  .object (items.map fun item => (Text.ofString item.1, item.2))

theorem ofString_injective : Function.Injective Text.ofString := by
  intro s s' h
  have hencode := congrArg Text.encode h
  rw [encode_ofString, encode_ofString] at hencode
  exact Option.some.inj hencode

theorem sent_record (items : List (String × Value)) (name : String) :
    Form.sent (items.map fun item => (Text.ofString item.1, item.2)) name = items.lookup name := by
  unfold Form.sent
  induction items with
  | nil => rfl
  | cons item items ih =>
    obtain ⟨key, v⟩ := item
    have hkey : (Text.ofString name == Text.ofString key) = (name == key) := by
      rw [Bool.eq_iff_iff, beq_iff_eq, beq_iff_eq]
      exact ofString_injective.eq_iff
    simp only [List.map_cons, List.lookup_cons, hkey, ih]

end Rest
