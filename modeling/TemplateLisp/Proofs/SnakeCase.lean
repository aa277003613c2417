import Mathlib.Data.List.Chain
import TemplateLisp.Text.CamelCase

/-!
# The words of a name

A name in camel case is a row of words with a capital in front of each (`camelCase`). Where a word
starts has to be seen from the text. Behind a small letter or a digit the capital shows it. Behind a
word of one letter it does not, for then the character in front is a capital too, as in an acronym;
such a start shows only by a small letter that follows it (`Word.ShowsAfter`). This is all that can
go wrong: `snakeCase_camelCase_iff` says that a name becomes its words joined by underscores if and
only if each of them shows. The step is `splitWords_camelCase_cons`, which says what becomes of the
first word and leaves the name of the others.

`snakeCase_undoes_camelCase` states this together with two laws for all names of ASCII characters: a
name in snake case stays as it is, and nothing but underscores and capitals is changed.
-/

namespace TemplateLisp

namespace Text

/-! ## ASCII characters -/

/-- A text of ASCII characters. -/
def IsAscii (s : List Char) : Prop := ∀ c ∈ s, c.toNat < 128

instance (s : List Char) : Decidable (IsAscii s) :=
  List.decidableBAll (fun c : Char => c.toNat < 128) s

/-- What holds of the first 128 code points holds of all ASCII characters. -/
theorem forall_ascii {p : Char → Prop} (h : ∀ n < 128, p (Char.ofNat n)) :
    ∀ c : Char, c.toNat < 128 → p c := by
  intro c hc
  have hcode := h c.toNat hc
  rwa [Char.ofNat_toNat] at hcode

theorem toNat_toLower_lt : ∀ c : Char, c.toNat < 128 → c.toLower.toNat < 128 := by
  refine forall_ascii ?_
  decide +kernel

theorem isCapital_toLower : ∀ c : Char, c.toNat < 128 → isCapital c.toLower = false := by
  refine forall_ascii ?_
  decide +kernel

theorem toLower_of_not_capital :
    ∀ c : Char, c.toNat < 128 → isCapital c = false → c.toLower = c := by
  refine forall_ascii ?_
  decide +kernel

theorem toLower_eq_underscore : ∀ c : Char, c.toNat < 128 → (c.toLower = '_' ↔ c = '_') := by
  refine forall_ascii ?_
  decide +kernel

/-- Lower case of ASCII characters goes by each of them; there is no capital sigma among them. -/
theorem lower_of_ascii {s : List Char} (h : IsAscii s) : lower s = s.map Char.toLower := by
  have hafter : ∀ before, lowerAfter before s = s.map Char.toLower := by
    induction s with
    | nil => exact fun _ => rfl
    | cons c rest ih =>
      intro before
      have hc : c.toNat < 128 := h c List.mem_cons_self
      have hsigma : c ≠ 'Σ' := fun hsigma => absurd (hsigma ▸ hc) (by decide)
      have hrest := ih fun d hd => h d (List.mem_cons_of_mem c hd)
      rw [lowerAfter, if_neg hsigma, lowerChar, if_pos hc, hrest, List.map_cons,
        List.singleton_append]
  exact hafter []

/-- A character that may go on with a word: a small letter or a digit. -/
def isPlain (c : Char) : Bool := isSmall c || isPlainDigit c

theorem toNat_lt_of_isPlain {c : Char} (hc : isPlain c = true) : c.toNat < 128 := by
  simp only [isPlain, isSmall, isPlainDigit, Bool.or_eq_true, Bool.and_eq_true,
    decide_eq_true_eq] at hc
  rcases hc with ⟨-, hz⟩ | ⟨-, h9⟩
  · exact Nat.lt_of_le_of_lt hz (by decide)
  · exact Nat.lt_of_le_of_lt h9 (by decide)

theorem isPlain_of_isSmall {c : Char} (hc : isSmall c = true) : isPlain c = true := by
  rw [isPlain, hc, Bool.true_or]

theorem isCapital_of_isPlain {c : Char} (hc : isPlain c = true) : isCapital c = false := by
  have hall : ∀ c : Char, c.toNat < 128 → isPlain c = true → isCapital c = false := by
    refine forall_ascii ?_
    decide +kernel
  exact hall c (toNat_lt_of_isPlain hc) hc

/-- A small letter has a capital, and is the lower case of it. -/
theorem toUpper_of_isSmall {c : Char} (hc : isSmall c = true) :
    c.toUpper.toNat < 128 ∧ isCapital c.toUpper = true ∧ c.toUpper.toLower = c := by
  have hall : ∀ c : Char, c.toNat < 128 → isSmall c = true →
      c.toUpper.toNat < 128 ∧ isCapital c.toUpper = true ∧ c.toUpper.toLower = c := by
    refine forall_ascii ?_
    decide +kernel
  exact hall c (toNat_lt_of_isPlain (isPlain_of_isSmall hc)) hc

theorem isPlain_of_isCapital {c : Char} (hc : isCapital c = true) : isPlain c = false := by
  rw [Bool.eq_false_iff]
  intro hplain
  rw [isCapital_of_isPlain hplain] at hc
  cases hc

/-! ## Where words start -/

theorem startsWord_eq (before c : Char) (after : Option Char) : startsWord before c after =
    ((isPlain before && isCapital c) || (isCapital before && isCapital c && after.any isSmall)) :=
    rfl

theorem startsWord_of_not_capital {c : Char} (hc : isCapital c = false) (before : Char)
    (after : Option Char) : startsWord before c after = false := by
  rw [startsWord_eq, hc, Bool.and_false, Bool.and_false, Bool.false_and, Bool.or_self]

/-- Where there is no capital, except perhaps in front, there is nothing to split. -/
theorem splitWords_of_no_capital {s : List Char} (h : ∀ c ∈ s.tail, isCapital c = false) :
    splitWords s = s := by
  fun_induction splitWords s with
  | case1 => rfl
  | case2 => rfl
  | case3 c d rest hstart ih =>
    rw [startsWord_of_not_capital (h d List.mem_cons_self)] at hstart
    cases hstart
  | case4 c d rest _ ih => rw [ih fun e he => h e (List.mem_cons_of_mem d he)]

/-- The text with its underscores left out. -/
def withoutUnderscores (s : List Char) : List Char := s.filter (· ≠ '_')

theorem withoutUnderscores_cons (c : Char) (s : List Char) : withoutUnderscores (c :: s) =
    if c = '_' then withoutUnderscores s else c :: withoutUnderscores s := by
  simp [withoutUnderscores, List.filter_cons]

/-- Splitting puts in underscores and keeps all else. -/
theorem withoutUnderscores_splitWords (s : List Char) :
    withoutUnderscores (splitWords s) = withoutUnderscores s := by
  fun_induction splitWords s with
  | case1 => rfl
  | case2 => rfl
  | case3 c d rest _ ih =>
    rw [withoutUnderscores_cons, withoutUnderscores_cons '_', if_pos rfl, ih,
      ← withoutUnderscores_cons]
  | case4 c d rest _ ih => rw [withoutUnderscores_cons, ih, ← withoutUnderscores_cons]

/-- The characters of a word behind its first are passed over, up to a character `d`; this one
starts a word or does not. -/
theorem splitWords_append {t : List Char} (ht : ∀ c ∈ t, isCapital c = false) (c d : Char)
    (rest : List Char) : splitWords (c :: (t ++ d :: rest)) =
      c :: t ++ if startsWord ((c :: t).getLast (List.cons_ne_nil c t)) d rest.head?
        then '_' :: splitWords (d :: rest) else splitWords (d :: rest) := by
  induction t generalizing c with
  | nil =>
    rw [List.nil_append, List.getLast_singleton, splitWords]
    split <;> rfl
  | cons e t ih =>
    have he : isCapital e = false := ht e List.mem_cons_self
    rw [List.cons_append, splitWords, startsWord_of_not_capital he, if_neg Bool.false_ne_true,
      ih fun c hc => ht c (List.mem_cons_of_mem e hc)]
    rfl

/-! ## Words -/

/-- A word: a small letter, and small letters and digits behind it. -/
structure Word where
  first : Char
  rest : List Char
  isSmall_first : isSmall first = true
  all_rest : rest.all isPlain = true

namespace Word

/-- The characters of a word. -/
def text (w : Word) : List Char := w.first :: w.rest

/-- The word with a capital in front. -/
def capitalised (w : Word) : List Char := w.first.toUpper :: w.rest

/-- Whether `w` can be told from the word `v` in front of it: if `v` is one letter, `w` has to go on
with a letter. -/
def ShowsAfter (v w : Word) : Prop := v.rest = [] → w.rest.head?.any isSmall = true

instance (v w : Word) : Decidable (v.ShowsAfter w) :=
  inferInstanceAs (Decidable (v.rest = [] → w.rest.head?.any isSmall = true))

theorem capitalised_ne_nil (w : Word) : w.capitalised ≠ [] := List.cons_ne_nil _ _

theorem isCapital_toUpper_first (w : Word) : isCapital w.first.toUpper = true :=
  (toUpper_of_isSmall w.isSmall_first).2.1

theorem isPlain_rest (w : Word) : ∀ c ∈ w.rest, isPlain c = true := List.all_eq_true.1 w.all_rest

theorem not_isCapital_rest (w : Word) : ∀ c ∈ w.rest, isCapital c = false :=
  fun c hc => isCapital_of_isPlain (w.isPlain_rest c hc)

theorem first_ne_underscore (w : Word) : w.first ≠ '_' := by
  intro h
  have hsmall := w.isSmall_first
  rw [h] at hsmall
  exact absurd hsmall (by decide)

theorem isAscii_capitalised (w : Word) : IsAscii w.capitalised := by
  intro c hc
  rcases List.mem_cons.1 hc with rfl | hc
  · exact (toUpper_of_isSmall w.isSmall_first).1
  · exact toNat_lt_of_isPlain (w.isPlain_rest c hc)

theorem map_toLower_capitalised (w : Word) : w.capitalised.map Char.toLower = w.text := by
  have hrest : w.rest.map Char.toLower = w.rest := by
    rw [List.map_congr_left fun c hc => toLower_of_not_capital c
      (toNat_lt_of_isPlain (w.isPlain_rest c hc)) (w.not_isCapital_rest c hc), List.map_id']
  rw [capitalised, List.map_cons, hrest, (toUpper_of_isSmall w.isSmall_first).2.2, text]

/-- Between two words, the second starts for the splitting if it shows. What is behind it must not
begin with a small letter; it is the next word with its capital, or nothing. -/
theorem startsWord_iff (v w : Word) {behind : List Char}
    (hbehind : behind.head?.any isSmall = false) :
    startsWord (v.capitalised.getLast v.capitalised_ne_nil) w.first.toUpper
      (w.rest ++ behind).head? = true ↔
      v.ShowsAfter w := by
  rw [startsWord_eq, w.isCapital_toUpper_first]
  by_cases hv : v.rest = []
  · have hlast : v.capitalised.getLast v.capitalised_ne_nil = v.first.toUpper := by
      simp only [capitalised, hv, List.getLast_singleton]
    have hafter : (w.rest ++ behind).head?.any isSmall = w.rest.head?.any isSmall := by
      cases w.rest with
      | nil => exact hbehind
      | cons c rest => rfl
    rw [hlast, isPlain_of_isCapital v.isCapital_toUpper_first, v.isCapital_toUpper_first, hafter]
    simp [ShowsAfter, hv]
  · have hlast : v.capitalised.getLast v.capitalised_ne_nil ∈ v.rest := by
      simp only [capitalised, List.getLast_cons hv]
      exact List.getLast_mem hv
    rw [v.isPlain_rest _ hlast]
    simp [ShowsAfter, hv]

end Word

/-- The words one behind the other, each with a capital in front. -/
def camelCase (words : List Word) : List Char := words.flatMap Word.capitalised

theorem camelCase_cons (w : Word) (words : List Word) :
    camelCase (w :: words) = w.first.toUpper :: (w.rest ++ camelCase words) := rfl

theorem isAscii_camelCase (words : List Word) : IsAscii (camelCase words) := by
  intro c hc
  obtain ⟨w, -, hw⟩ := List.mem_flatMap.1 hc
  exact w.isAscii_capitalised c hw

/-- A name in camel case does not begin with a small letter. -/
theorem head?_camelCase (words : List Word) : (camelCase words).head?.any isSmall = false := by
  cases words with
  | nil => rfl
  | cons w words =>
    rw [Bool.eq_false_iff]
    intro hsmall
    have hcapital := w.isCapital_toUpper_first
    rw [isCapital_of_isPlain (isPlain_of_isSmall hsmall)] at hcapital
    cases hcapital

/-- A word is split from the next if the next one shows. -/
theorem splitWords_camelCase_cons (v w : Word) (words : List Word) :
    splitWords (camelCase (v :: w :: words)) =
      v.capitalised ++ if v.ShowsAfter w then '_' :: splitWords (camelCase (w :: words))
        else splitWords (camelCase (w :: words)) := by
  rw [camelCase_cons v, camelCase_cons w, splitWords_append v.not_isCapital_rest]
  exact congrArg (v.capitalised ++ ·)
    (if_congr (v.startsWord_iff w (head?_camelCase words)) rfl rfl)

/-! ## Snake case -/

theorem isAscii_splitWords {s : List Char} (h : IsAscii s) : IsAscii (splitWords s) := by
  intro c hc
  by_cases hunderscore : c = '_'
  · rw [hunderscore]
    decide
  · have hkept : c ∈ withoutUnderscores (splitWords s) :=
      List.mem_filter.2 ⟨hc, decide_eq_true hunderscore⟩
    rw [withoutUnderscores_splitWords] at hkept
    exact h c (List.mem_of_mem_filter hkept)

theorem snakeCase_of_ascii {name : List Char} (h : IsAscii name) :
    snakeCase name = (splitWords name).map Char.toLower :=
  lower_of_ascii (isAscii_splitWords h)

theorem snakeCase_camelCase_nil : snakeCase (camelCase []) = [] := rfl

theorem snakeCase_camelCase_single (w : Word) : snakeCase (camelCase [w]) = w.text := by
  have hname : camelCase [w] = w.capitalised := List.flatMap_singleton ..
  have hsplit : splitWords w.capitalised = w.capitalised :=
    splitWords_of_no_capital w.not_isCapital_rest
  rw [snakeCase_of_ascii (isAscii_camelCase _), hname, hsplit, w.map_toLower_capitalised]

/-- The first word is spelt by itself, with an underscore behind it if the next one shows. -/
theorem snakeCase_camelCase_cons (v w : Word) (words : List Word) :
    snakeCase (camelCase (v :: w :: words)) =
      v.text ++ if v.ShowsAfter w then '_' :: snakeCase (camelCase (w :: words))
        else snakeCase (camelCase (w :: words)) := by
  rw [snakeCase_of_ascii (isAscii_camelCase _), splitWords_camelCase_cons, List.map_append,
    v.map_toLower_capitalised, snakeCase_of_ascii (isAscii_camelCase _)]
  split <;> rfl

/-- The snake-case spelling begins with the first letter of the first word. -/
theorem head?_snakeCase_camelCase (w : Word) (words : List Word) :
    (snakeCase (camelCase (w :: words))).head? = some w.first := by
  cases words with
  | nil => rw [snakeCase_camelCase_single, Word.text, List.head?_cons]
  | cons v words => rw [snakeCase_camelCase_cons, Word.text, List.cons_append, List.head?_cons]

/-- A name in camel case becomes its words joined by underscores if and only if each of them shows
behind the one in front of it. -/
theorem snakeCase_camelCase_iff (words : List Word) :
    snakeCase (camelCase words) = ['_'].intercalate (words.map Word.text) ↔
      words.IsChain Word.ShowsAfter := by
  induction words with
  | nil => simp [snakeCase_camelCase_nil]
  | cons v words ih =>
    cases words with
    | nil => simp [snakeCase_camelCase_single]
    | cons w words =>
      have hjoined : ['_'].intercalate ((v :: w :: words).map Word.text) =
          v.text ++ '_' :: ['_'].intercalate ((w :: words).map Word.text) := by
        rw [List.map_cons, List.map_cons, List.intercalate_cons_cons, List.append_assoc,
          ← List.map_cons,
          List.singleton_append]
      rw [snakeCase_camelCase_cons, hjoined, List.append_cancel_left_eq, List.isChain_cons_cons]
      by_cases hshows : v.ShowsAfter w
      · rw [if_pos hshows, List.cons_inj_right, ih]
        exact (and_iff_right hshows).symm
      · -- without the underscore, a letter stands in its place
        rw [if_neg hshows]
        refine iff_of_false (fun heq => ?_) fun h => hshows h.1
        have hhead := head?_snakeCase_camelCase w words
        rw [heq, List.head?_cons, Option.some_inj] at hhead
        exact w.first_ne_underscore hhead.symm

/-- Two letters by themselves are taken for one word. -/
example : snakeCase "AB".toList = "ab".toList := by decide +kernel

/-- In a name that is spelt in snake case there are no capitals. -/
theorem isCapital_snakeCase {name : List Char} (h : IsAscii name) :
    ∀ c ∈ snakeCase name, isCapital c = false := by
  intro c hc
  rw [snakeCase_of_ascii h] at hc
  obtain ⟨d, hd, rfl⟩ := List.mem_map.1 hc
  exact isCapital_toLower d (isAscii_splitWords h d hd)

theorem isAscii_snakeCase {name : List Char} (h : IsAscii name) : IsAscii (snakeCase name) := by
  intro c hc
  rw [snakeCase_of_ascii h] at hc
  obtain ⟨d, hd, rfl⟩ := List.mem_map.1 hc
  exact toNat_toLower_lt d (isAscii_splitWords h d hd)

theorem snakeCase_snakeCase {name : List Char} (h : IsAscii name) :
    snakeCase (snakeCase name) = snakeCase name := by
  have hcapital := isCapital_snakeCase h
  have hsplit : splitWords (snakeCase name) = snakeCase name :=
    splitWords_of_no_capital fun c hc => hcapital c (List.mem_of_mem_tail hc)
  have hlower : ∀ c ∈ snakeCase name, c.toLower = c :=
    fun c hc => toLower_of_not_capital c (isAscii_snakeCase h c hc) (hcapital c hc)
  rw [snakeCase_of_ascii (isAscii_snakeCase h), hsplit, List.map_congr_left hlower, List.map_id']

/-- Lower case keeps underscores and makes none. -/
theorem withoutUnderscores_lower {s : List Char} (h : IsAscii s) :
    withoutUnderscores (lower s) = (withoutUnderscores s).map Char.toLower := by
  rw [lower_of_ascii h, withoutUnderscores, withoutUnderscores, List.filter_map]
  refine congrArg (List.map Char.toLower) (List.filter_congr fun c hc => ?_)
  simp [toLower_eq_underscore c (h c hc)]

theorem withoutUnderscores_snakeCase {name : List Char} (h : IsAscii name) :
    withoutUnderscores (snakeCase name) = withoutUnderscores (lower name) := by
  rw [snakeCase, withoutUnderscores_lower (isAscii_splitWords h), withoutUnderscores_splitWords,
    withoutUnderscores_lower h]

/-- Snake case finds the words of a name in camel case and joins them by underscores, if behind a
word of one letter there is always a word that goes on with a letter. A name of ASCII characters
that is spelt in snake case keeps that spelling, which has the characters of the name in lower case,
but for underscores. -/
theorem snakeCase_undoes_camelCase :
    (∀ words : List Word, words.IsChain Word.ShowsAfter →
      snakeCase (camelCase words) = ['_'].intercalate (words.map Word.text)) ∧
    (∀ name : List Char, IsAscii name →
      snakeCase (snakeCase name) = snakeCase name ∧
      withoutUnderscores (snakeCase name) = withoutUnderscores (lower name)) := by
  constructor
  · intro words hshows
    exact (snakeCase_camelCase_iff words).2 hshows
  · intro name hascii
    exact ⟨snakeCase_snakeCase hascii, withoutUnderscores_snakeCase hascii⟩

/-- Words of one letter, one with a digit, and one of a letter that no other follows. -/
def axisWords : List Word :=
  [⟨'x', [], rfl, rfl⟩, ⟨'a', ['x', 'i', 's'], rfl, rfl⟩, ⟨'v', ['2'], rfl, rfl⟩,
    ⟨'b', [], rfl, rfl⟩]

/-- A name of these words, and one with an acronym and an underscore of its own. -/
theorem snakeCase_undoes_camelCase_axis :
    camelCase axisWords = "XAxisV2B".toList ∧
    snakeCase (camelCase axisWords) = "x_axis_v2_b".toList ∧
    snakeCase "HTTPServer_ID".toList = "http_server_id".toList ∧
    snakeCase (snakeCase "HTTPServer_ID".toList) = "http_server_id".toList ∧
    withoutUnderscores (snakeCase "HTTPServer_ID".toList) = "httpserverid".toList := by
  have hwords := snakeCase_undoes_camelCase.1 axisWords (by decide +kernel)
  have hname := snakeCase_undoes_camelCase.2 "HTTPServer_ID".toList (by decide +kernel)
  have hsnake : snakeCase "HTTPServer_ID".toList = "http_server_id".toList := by decide +kernel
  have hbare : withoutUnderscores (lower "HTTPServer_ID".toList) = "httpserverid".toList := by
    decide +kernel
  exact ⟨by decide +kernel, hwords.trans (by decide +kernel), hsnake, hname.1.trans hsnake,
    hname.2.trans hbare⟩

end Text

end TemplateLisp
