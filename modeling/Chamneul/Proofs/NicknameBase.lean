import Chamneul.Proofs.AuthRules
import Chamneul.Proofs.Nicknames
import Mathlib.Data.List.Chain
import Mathlib.Data.List.DropRight
import Mathlib.Tactic.Linarith

/-! The base of a nickname. A name is trimmed and its whitespace collapsed before it is cut to 15
characters, so it ends in a space if the cut falls behind one. -/

namespace Chamneul.Auth

/-- `str.split`. -/
def words (l : List Char) : List (List Char) := (l.splitOnP isSpace).filter fun w => !w.isEmpty

/-- Some first words of the text, with a space after each, are 15 characters, and more follow. -/
def CutAfterSpace (text : String) : Prop :=
  ∃ before after, words text.toList = before ++ after ∧ after ≠ [] ∧
    (before.map fun w => w.length + 1).sum = 15

/-- The first of the candidates whose words have two characters. -/
def usedCandidate (name email : String) : String :=
  let localPart := String.ofList (email.toList.takeWhile (· ≠ '@'))
  ([name, localPart].find? fun text =>
    decide (2 ≤ ((words text.toList).map List.length).sum)).getD "user"

/-- No whitespace around it, and none but single spaces in it. -/
structure Spaced (l : List Char) : Prop where
  spaces : ∀ c ∈ l, isSpace c = true → c = ' '
  apart : l.IsChain fun a b => isSpace a = true → isSpace b = false
  first : ∀ c ∈ l.head?, isSpace c = false
  last : ∀ c ∈ l.getLast?, isSpace c = false

section

variable {c : Char} {l : List Char}

theorem words_nil : words [] = [] := rfl

theorem words_space (hc : isSpace c = true) (l : List Char) : words (c :: l) = words l := by
  simp [words, List.splitOnP_cons_eq_if_modifyHead, hc]

/-- A character before whitespace or at the end is a word. -/
theorem words_single (hc : isSpace c = false) (hl : ∀ d ∈ l.head?, isSpace d = true) :
    words (c :: l) = [c] :: words l := by
  cases l with
  | nil => simp [words, List.splitOnP_cons_eq_if_modifyHead, hc]
  | cons d l =>
    have hd : isSpace d = true := hl d rfl
    simp [words, List.splitOnP_cons_eq_if_modifyHead, hc, hd]

/-- Before a character that is no whitespace it is the first of a word. -/
theorem words_cons (hc : isSpace c = false) {d : Char} (hd : isSpace d = false) (l : List Char) :
    ∃ w rest, words (d :: l) = w :: rest ∧ words (c :: d :: l) = (c :: w) :: rest := by
  obtain ⟨w, rest, hsplit⟩ := List.exists_cons_of_ne_nil (List.splitOnP_ne_nil isSpace l)
  refine ⟨d :: w, rest.filter fun w => !w.isEmpty, ?_, ?_⟩
  · simp [words, List.splitOnP_cons_eq_if_modifyHead, hd, hsplit]
  · simp [words, List.splitOnP_cons_eq_if_modifyHead, hc, hd, hsplit]

/-- Whitespace around a text makes no words. -/
theorem words_dropWhile (l : List Char) : words (l.dropWhile isSpace) = words l := by
  induction l with
  | nil => rfl
  | cons c l ih =>
    rw [List.dropWhile_cons]
    split_ifs with hc
    · rw [ih, words_space hc]
    · rfl

theorem words_rdropWhile (l : List Char) : words (l.rdropWhile isSpace) = words l := by
  induction l using List.reverseRecOn with
  | nil => rfl
  | append_singleton l c ih =>
    rw [List.rdropWhile_concat]
    split_ifs with hc
    · rw [ih]
      simp [words, List.splitOnP_append_cons l [] hc]
    · rfl

theorem words_strip (s : String) : words (strip s).toList = words s.toList := by
  rw [strip, String.toList_ofList]
  exact (words_rdropWhile _).trans (words_dropWhile _)

/-- Every word has characters, and they are not whitespace. -/
theorem mem_words (l : List Char) : ∀ w ∈ words l, w ≠ [] ∧ ∀ c ∈ w, isSpace c = false := by
  induction l with
  | nil => simp [words_nil]
  | cons c l ih =>
    by_cases hc : isSpace c = true
    · rwa [words_space hc]
    rw [Bool.not_eq_true] at hc
    by_cases hl : ∀ d ∈ l.head?, isSpace d = true
    · rw [words_single hc hl]
      exact List.forall_mem_cons.mpr ⟨by simp [hc], ih⟩
    · cases l with
      | nil => simp at hl
      | cons d l =>
        obtain ⟨w, rest, hold, hnew⟩ := words_cons hc (by simpa using hl) l
        rw [hold, List.forall_mem_cons] at ih
        rw [hnew]
        refine List.forall_mem_cons.mpr ⟨⟨by simp, ?_⟩, ih.2⟩
        exact List.forall_mem_cons.mpr ⟨hc, ih.1.2⟩

/-- A text that does not end in whitespace has a word. -/
theorem words_ne_nil (hne : l ≠ []) (hlast : ∀ c ∈ l.getLast?, isSpace c = false) : words l ≠ [] := by
  induction l with
  | nil => exact absurd rfl hne
  | cons c l ih =>
    by_cases hc : isSpace c = true
    · rw [words_space hc]
      cases l with
      | nil => simp [hc] at hlast
      | cons d l => exact ih (by simp) (by simpa using hlast)
    rw [Bool.not_eq_true] at hc
    by_cases hl : ∀ d ∈ l.head?, isSpace d = true
    · rw [words_single hc hl]
      simp
    · cases l with
      | nil => simp at hl
      | cons d l =>
        obtain ⟨w, rest, -, hnew⟩ := words_cons hc (by simpa using hl) l
        simp [hnew]

/-! What is made of the words. -/

/-- Collapsing a text that does not end in whitespace puts single spaces between its words. -/
theorem collapse_eq (hlast : ∀ c ∈ l.getLast?, isSpace c = false) :
    collapse true l = [' '].intercalate (words l) := by
  induction l with
  | nil => rfl
  | cons c l ih =>
    have hlast' : ∀ c ∈ l.getLast?, isSpace c = false := by
      cases l with
      | nil => simp
      | cons d l => simpa using hlast
    by_cases hc : isSpace c = true
    · rw [words_space hc, ← ih hlast']
      simp [collapse, hc]
    rw [Bool.not_eq_true] at hc
    have hcollapse : collapse true (c :: l) = c :: collapse false l := by simp [collapse, hc]
    rw [hcollapse]
    cases l with
    | nil =>
      rw [words_single hc (by simp)]
      rfl
    | cons d l =>
      by_cases hd : isSpace d = true
      · have hskip : collapse false (d :: l) = ' ' :: collapse true (d :: l) := by simp [collapse, hd]
        rw [words_single hc (by simpa using hd), List.intercalate_cons_of_ne_nil
          (words_ne_nil (by simp) hlast'), hskip, ih hlast']
        rfl
      · rw [Bool.not_eq_true] at hd
        have hsame : collapse false (d :: l) = collapse true (d :: l) := by simp [collapse, hd]
        obtain ⟨w, rest, hold, hnew⟩ := words_cons hc hd l
        rw [hnew, List.intercalate_cons_cons_left, ← hold, ← ih hlast', hsame]

theorem spaced_word {w : List Char} (h : ∀ c ∈ w, isSpace c = false) : Spaced w where
  spaces c hc hspace := by
    rw [h c hc] at hspace
    cases hspace
  apart := by
    have hpairs : w.Pairwise fun a b => isSpace a = true → isSpace b = false :=
      List.pairwise_of_forall_mem_list fun _ _ b hb _ => h b hb
    exact hpairs.isChain
  first c hc := h c (List.mem_of_mem_head? hc)
  last c hc := h c (List.mem_of_mem_getLast? hc)

/-- A word, a space and the rest. -/
theorem spaced_append {w rest : List Char} (hne : w ≠ []) (hw : ∀ c ∈ w, isSpace c = false)
    (hrest : Spaced rest) (hne' : rest ≠ []) : Spaced (w ++ ' ' :: rest) := by
  have hword := spaced_word hw
  constructor
  · intro c hc hspace
    rw [List.mem_append, List.mem_cons] at hc
    rcases hc with hc | rfl | hc
    · exact hword.spaces c hc hspace
    · rfl
    · exact hrest.spaces c hc hspace
  · refine List.isChain_append.mpr ⟨hword.apart, List.isChain_cons.mpr ⟨fun b hb _ => ?_, hrest.apart⟩, ?_⟩
    · exact hrest.first b hb
    · intro a ha b _ hspace
      rw [hword.last a ha] at hspace
      cases hspace
  · rw [List.head?_append_of_ne_nil _ hne]
    exact hword.first
  · rw [List.getLast?_append_of_ne_nil _ (by simp), List.getLast?_cons_of_ne_nil hne']
    exact hrest.last

theorem intercalate_ne_nil {ws : List (List Char)} (hne : ws ≠ []) (h : ∀ w ∈ ws, w ≠ []) :
    [' '].intercalate ws ≠ [] := by
  obtain ⟨w, rest, rfl⟩ := List.exists_cons_of_ne_nil hne
  cases rest with
  | nil => simpa using h
  | cons v rest => simp [List.intercalate_cons_cons]

theorem spaced_intercalate {ws : List (List Char)} (h : ∀ w ∈ ws, w ≠ [] ∧ ∀ c ∈ w, isSpace c = false) :
    Spaced ([' '].intercalate ws) := by
  induction ws with
  | nil => exact spaced_word (by simp)
  | cons w ws ih =>
    obtain ⟨⟨hne, hw⟩, hws⟩ := List.forall_mem_cons.mp h
    cases ws with
    | nil => simpa using spaced_word hw
    | cons v ws =>
      rw [List.intercalate_cons_cons, List.append_assoc]
      refine spaced_append hne hw (ih hws) (intercalate_ne_nil (by simp) fun w hmem => (hws w hmem).1)

/-- Where the spaces between the words are. -/
theorem getElem?_intercalate {ws : List (List Char)} (h : ∀ w ∈ ws, ∀ c ∈ w, isSpace c = false) (n : ℕ) :
    ([' '].intercalate ws)[n]? = some ' ' ↔
      ∃ before after, ws = before ++ after ∧ after ≠ [] ∧ (before.map fun w => w.length + 1).sum = n + 1 := by
  have hnot : ∀ w : List Char, (∀ c ∈ w, isSpace c = false) → ∀ i : ℕ, w[i]? ≠ some ' ' := by
    intro w hw i hi
    exact absurd (hw ' ' (List.mem_of_getElem? hi)) (by decide)
  induction ws generalizing n with
  | nil => simp
  | cons w ws ih =>
    obtain ⟨hw, hws⟩ := List.forall_mem_cons.mp h
    cases ws with
    | nil =>
      refine iff_of_false (by simpa using hnot w hw n) ?_
      rintro ⟨before, after, heq, hne, hsum⟩
      cases before with
      | nil => simp at hsum
      | cons b before =>
        have hnil : before ++ after = [] := (List.cons.inj heq).2.symm
        exact hne (List.append_eq_nil_iff.mp hnil).2
    | cons v ws =>
      rw [List.intercalate_cons_cons, List.append_assoc, List.singleton_append]
      obtain hlt | rfl | hgt := lt_trichotomy n w.length
      · rw [List.getElem?_append_left hlt]
        refine iff_of_false (hnot w hw n) ?_
        rintro ⟨before, after, heq, -, hsum⟩
        cases before with
        | nil => simp at hsum
        | cons b before =>
          obtain rfl := (List.cons.inj heq).1
          rw [List.map_cons, List.sum_cons] at hsum
          omega
      · exact iff_of_true (by simp) ⟨[w], v :: ws, rfl, by simp, by simp⟩
      · obtain ⟨m, rfl⟩ : ∃ m, n = w.length + (m + 1) := ⟨n - w.length - 1, by omega⟩
        rw [List.getElem?_append_right (by omega), Nat.add_sub_cancel_left, List.getElem?_cons_succ]
        refine (ih hws m).trans ⟨?_, ?_⟩
        · rintro ⟨before, after, heq, hne, hsum⟩
          refine ⟨w :: before, after, by rw [heq, List.cons_append], hne, ?_⟩
          rw [List.map_cons, List.sum_cons, hsum]
          omega
        · rintro ⟨before, after, heq, hne, hsum⟩
          cases before with
          | nil => simp at hsum
          | cons b before =>
            obtain ⟨rfl, hrest⟩ := List.cons.inj heq
            refine ⟨before, after, hrest, hne, ?_⟩
            rw [List.map_cons, List.sum_cons] at hsum
            omega

theorem Spaced.take {n : ℕ} (h : Spaced l) (hlast : ∀ c ∈ (l.take n).getLast?, isSpace c = false) :
    Spaced (l.take n) where
  spaces c hc := h.spaces c (List.mem_of_mem_take hc)
  apart := h.apart.prefix (List.take_prefix n l)
  first c hc := by
    rw [List.head?_take] at hc
    split_ifs at hc
    · cases hc
    · exact h.first c hc
  last := hlast

/-- Cleaning changes nothing. -/
theorem Spaced.strip_eq (h : Spaced l) : strip (String.ofList l) = String.ofList l := by
  have hfirst : l.dropWhile isSpace = l := by
    refine List.dropWhile_eq_self_iff.mpr fun hpos => ?_
    simp [h.first l[0] (by simp [List.head?_eq_getElem?, hpos])]
  have hlast : l.rdropWhile isSpace = l := by
    refine List.rdropWhile_eq_self_iff.mpr fun hne => ?_
    simp [h.last (l.getLast hne) (by simp [List.getLast?_eq_some_getLast hne])]
  rw [strip, String.toList_ofList, hfirst]
  exact congrArg String.ofList hlast

theorem collapse_eq_self (hspaces : ∀ c ∈ l, isSpace c = true → c = ' ')
    (hapart : l.IsChain fun a b => isSpace a = true → isSpace b = false) : collapse false l = l := by
  induction l with
  | nil => rfl
  | cons c l ih =>
    obtain ⟨hhead, hchain⟩ := List.isChain_cons.mp hapart
    obtain ⟨hc, hl⟩ := List.forall_mem_cons.mp hspaces
    have hrest := ih hl hchain
    by_cases hspace : isSpace c = true
    · have hsame : collapse true l = collapse false l := by
        cases l with
        | nil => rfl
        | cons d l => simp [collapse, hhead d rfl hspace]
      have hstep : collapse false (c :: l) = ' ' :: collapse true l := by simp [collapse, hspace]
      rw [hstep, hsame, hrest, hc hspace]
    · simp [collapse, hspace, hrest]

end

/-! The base. -/

theorem two_le_length_intercalate {ws : List (List Char)} (h : ∀ w ∈ ws, w ≠ []) :
    2 ≤ ([' '].intercalate ws).length ↔ 2 ≤ (ws.map List.length).sum := by
  cases ws with
  | nil => rfl
  | cons w ws =>
    cases ws with
    | nil => simp
    | cons v ws =>
      have hw : 0 < w.length := List.length_pos_iff.mpr (h w List.mem_cons_self)
      have hv : 0 < v.length := List.length_pos_iff.mpr (h v (by simp))
      have hrest : 0 < ([' '].intercalate (v :: ws)).length :=
        List.length_pos_iff.mpr (intercalate_ne_nil (by simp) fun x hx => h x (List.mem_cons_of_mem _ hx))
      rw [List.intercalate_cons_cons, List.append_assoc, List.length_append, List.length_append]
      simp only [List.map_cons, List.sum_cons, List.length_singleton]
      omega

/-- A stripped text neither begins nor ends with whitespace. -/
theorem strip_ends (s : String) : (∀ c ∈ (strip s).toList.head?, isSpace c = false) ∧
    ∀ c ∈ (strip s).toList.getLast?, isSpace c = false := by
  have hstrip : (strip s).toList = (s.toList.dropWhile isSpace).rdropWhile isSpace := by
    rw [strip, String.toList_ofList]
    rfl
  rw [hstrip]
  constructor
  · intro c hc
    have hself := dropWhile_of_prefix (List.rdropWhile_prefix isSpace (s.toList.dropWhile isSpace))
      (List.dropWhile_idempotent isSpace s.toList)
    have hpos := List.length_pos_of_mem (List.mem_of_mem_head? hc)
    have hnot := List.dropWhile_eq_self_iff.mp hself hpos
    rw [List.head?_eq_getElem?, List.getElem?_eq_getElem hpos, Option.mem_some_iff] at hc
    simpa [hc] using hnot
  · intro c hc
    have hne := List.ne_nil_of_mem (List.mem_of_mem_getLast? hc)
    have hnot := List.rdropWhile_last_not (p := isSpace) _ hne
    rw [List.getLast?_eq_some_getLast hne, Option.mem_some_iff] at hc
    simpa [hc] using hnot

/-- What `_derive_nickname_base` makes of one candidate. -/
theorem cleaned_eq (text : String) :
    String.ofList ((collapse false (strip text).toList).take 15) =
      String.ofList (([' '].intercalate (words text.toList)).take 15) := by
  obtain ⟨hfirst, hlast⟩ := strip_ends text
  have hsame : collapse false (strip text).toList = collapse true (strip text).toList := by
    cases hl : (strip text).toList with
    | nil => rfl
    | cons c l =>
      have hc : isSpace c = false := hfirst c (by rw [hl]; rfl)
      simp [collapse, hc]
  rw [hsame, collapse_eq hlast, words_strip]

/-- What one candidate gives is kept if it has two characters. -/
theorem two_le_length_cleaned (text : String) :
    2 ≤ (String.ofList (([' '].intercalate (words text.toList)).take 15)).length ↔
      2 ≤ ((words text.toList).map List.length).sum := by
  rw [String.length_ofList, List.length_take,
    ← two_le_length_intercalate fun w hw => (mem_words _ w hw).1]
  omega

/-- The base is the words of the candidate that is used, cut. -/
theorem deriveNicknameBase_eq (name email : String) : deriveNicknameBase name email =
    String.ofList (([' '].intercalate (words (usedCandidate name email).toList)).take 15) := by
  have hcut : ∃ cut : String → String, ∀ text,
      String.ofList (([' '].intercalate (words text.toList)).take 15) = cut text := ⟨_, fun _ => rfl⟩
  obtain ⟨cut, hcut⟩ := hcut
  have huser : cut "user" = "user" := by
    rw [← hcut]
    decide
  have hkept : (fun text => decide (2 ≤ (cut text).length)) =
      fun text => decide (2 ≤ ((words text.toList).map List.length).sum) := by
    funext text
    rw [← hcut, decide_eq_decide]
    exact two_le_length_cleaned text
  simp only [deriveNicknameBase, cleaned_eq, usedCandidate, hcut]
  rw [List.find?_map, Function.comp_def, hkept]
  generalize (fun text : String => decide (2 ≤ ((words text.toList).map List.length).sum)) = kept
  generalize String.ofList (email.toList.takeWhile (· ≠ '@')) = localPart
  -- The name is used, the local part is, or neither is.
  cases hname : kept name with
  | true => simp [hname]
  | false =>
    cases hlocal : kept localPart with
    | true => simp [hname, hlocal]
    | false => cases hdefault : kept "user" <;> simp [hname, hlocal, hdefault, huser]

/-- A nickname base as the comments describe it. -/
structure InNormalForm (base : String) : Prop where
  length : 2 ≤ base.length ∧ base.length ≤ 15
  trimmed : strip base = base
  apart : base.toList.IsChain fun a b => isSpace a = true → isSpace b = false
  fixed : ∀ email, deriveNicknameBase base email = base

/-- It fits the column, and digits are put behind an underscore and no whitespace. -/
structure FitsNickname (base nickname : String) : Prop where
  length : 2 ≤ nickname.length ∧ nickname.length ≤ 20
  suffixed : nickname = base ∨ ∃ stem digits, nickname = stem ++ "_" ++ digits ∧ strip stem = stem ∧
    digits.toList.all isHexDigit = true

theorem two_le_usedCandidate (name email : String) :
    2 ≤ ((words (usedCandidate name email).toList).map List.length).sum := by
  unfold usedCandidate
  dsimp only
  cases hfound : List.find? _ _ with
  | none => decide
  | some text =>
    have htest := List.find?_some hfound
    exact of_decide_eq_true htest

theorem length_deriveNicknameBase (name email : String) :
    2 ≤ (deriveNicknameBase name email).length ∧ (deriveNicknameBase name email).length ≤ 15 := by
  rw [deriveNicknameBase_eq]
  refine ⟨(two_le_length_cleaned _).mpr (two_le_usedCandidate name email), ?_⟩
  rw [String.length_ofList]
  exact List.length_take_le 15 _

/-- The base ends in a space if and only if the cut is behind one. -/
theorem getLast?_deriveNicknameBase (name email : String) :
    (∀ c ∈ (deriveNicknameBase name email).toList.getLast?, isSpace c = false) ↔
      ¬ CutAfterSpace (usedCandidate name email) := by
  have hwords := mem_words (usedCandidate name email).toList
  have hspaced := spaced_intercalate hwords
  rw [CutAfterSpace, ← getElem?_intercalate (fun w hw => (hwords w hw).2) 14, deriveNicknameBase_eq,
    String.toList_ofList, List.getLast?_take, if_neg (by omega)]
  generalize [' '].intercalate (words (usedCandidate name email).toList) = l at hspaced
  cases hcut : l[15 - 1]? with
  | none => exact iff_of_true hspaced.last (by simp)
  | some d =>
    rw [Option.some_or, Option.some.injEq]
    refine ⟨fun h hd => ?_, fun hd c hc => ?_⟩
    · exact absurd (h d rfl) (by rw [hd]; decide)
    · obtain rfl := Option.some.inj hc
      exact Bool.eq_false_iff.mpr fun hspace => hd (hspaced.spaces d (List.mem_of_getElem? hcut) hspace)

/-- A text that is spaced and short is its own base. -/
theorem deriveNicknameBase_of_spaced {l : List Char} (h : Spaced l) (htwo : 2 ≤ l.length)
    (hshort : l.length ≤ 15) (email : String) :
    deriveNicknameBase (String.ofList l) email = String.ofList l := by
  have hcleaned : String.ofList ((collapse false (strip (String.ofList l)).toList).take 15) =
      String.ofList l := by
    rw [h.strip_eq, String.toList_ofList, collapse_eq_self h.spaces h.apart, List.take_of_length_le hshort]
  have hlength : 2 ≤ (String.ofList l).length := by rwa [String.length_ofList]
  simp only [deriveNicknameBase, List.map_cons, hcleaned, List.find?_cons, decide_eq_true hlength,
    Option.getD_some]

theorem inNormalForm_deriveNicknameBase {name email : String}
    (h : ¬ CutAfterSpace (usedCandidate name email)) : InNormalForm (deriveNicknameBase name email) := by
  have hlength := length_deriveNicknameBase name email
  have hlast := (getLast?_deriveNicknameBase name email).mpr h
  have hspaced : Spaced (deriveNicknameBase name email).toList := by
    rw [deriveNicknameBase_eq, String.toList_ofList] at hlast ⊢
    exact (spaced_intercalate (mem_words _)).take hlast
  refine ⟨hlength, ?_, hspaced.apart, fun email' => ?_⟩
  · simpa using hspaced.strip_eq
  · rw [← String.length_toList] at hlength
    simpa using deriveNicknameBase_of_spaced hspaced hlength.1 hlength.2 email'

theorem isHexDigit_suffix (n : Fin 10000) :
    ((toString n.val).toList.leftpad 4 '0').all isHexDigit = true := by
  refine List.all_eq_true.mpr fun c hc => ?_
  rw [List.leftpad, List.mem_append] at hc
  rcases hc with hc | hc
  · rw [List.eq_of_mem_replicate hc]
    decide
  · have hdigit : c.isDigit = true := Nat.isDigit_of_mem_toDigits (b := 10) (by omega) le_rfl (by simpa using hc)
    rw [isHexDigit, hdigit, Bool.true_or]

theorem fitsNickname_of_mem {k : NewAccount} (h : InNormalForm k.base) {nickname : String}
    (hmem : nickname ∈ k.candidates) : FitsNickname k.base nickname := by
  obtain rfl | ⟨i, rfl⟩ | rfl := mem_candidates.mp hmem
  · exact ⟨⟨h.length.1, h.length.2.trans (by omega)⟩, Or.inl rfl⟩
  · refine ⟨?_, Or.inr ⟨k.base, _, rfl, h.trimmed, ?_⟩⟩
    · have hbase := h.length
      have hunderscore : "_".length = 1 := rfl
      simp only [String.length_append, String.length_ofList, length_suffix, hunderscore]
      omega
    · rw [String.toList_ofList]
      exact isHexDigit_suffix _
  · have hhex : k.draws.hex.toList = hexDigits 8 k.uuid.window := by
      rw [NewAccount.draws, String.toList_ofList, Uuid7.take_hex]
    have hlength : k.draws.hex.length = 8 := by rw [← String.length_toList, hhex, length_hexDigits]
    have hprefix : "user_".length = 5 := rfl
    refine ⟨by rw [String.length_append, hlength, hprefix]; omega, Or.inr ⟨"user", k.draws.hex, rfl, ?_, ?_⟩⟩
    · decide
    · rw [hhex]
      exact List.all_eq_true.mpr fun c => mem_hexDigits

/-- The base is in normal form, and every candidate made of it fits, if and only if the cut is not
behind a space. -/
theorem nickname_base_normal_iff (name email : String) :
    (InNormalForm (deriveNicknameBase name email) ∧
      ∀ k : NewAccount, k.base = deriveNicknameBase name email →
        ∀ nickname ∈ k.candidates, FitsNickname k.base nickname) ↔
      ¬ CutAfterSpace (usedCandidate name email) := by
  constructor
  · rintro ⟨hnormal, -⟩
    refine (getLast?_deriveNicknameBase name email).mp ?_
    rw [← hnormal.trimmed]
    exact (strip_ends _).2
  · intro h
    have hnormal := inNormalForm_deriveNicknameBase h
    exact ⟨hnormal, fun k hk nickname hmem => fitsNickname_of_mem (hk ▸ hnormal) hmem⟩

/-- The cut is behind the space. -/
theorem base_ends_in_space :
    deriveNicknameBase "abcdefghijklmn op" "a@x" = "abcdefghijklmn " ∧
    deriveNicknameBase "abcdefghijklmn " "a@x" = "abcdefghijklmn" ∧
    ¬ InNormalForm (deriveNicknameBase "abcdefghijklmn op" "a@x") ∧
    "abcdefghijklmn _0000" ∈ zeroDraws.candidates (deriveNicknameBase "abcdefghijklmn op" "a@x") := by
  have hbase : deriveNicknameBase "abcdefghijklmn op" "a@x" = "abcdefghijklmn " := by decide +kernel
  have hagain : deriveNicknameBase "abcdefghijklmn " "a@x" = "abcdefghijklmn" := by decide +kernel
  rw [hbase]
  refine ⟨rfl, hagain, fun h => ?_, by decide +kernel⟩
  exact absurd (hagain.symm.trans (h.fixed "a@x")) (by decide)

end Chamneul.Auth
