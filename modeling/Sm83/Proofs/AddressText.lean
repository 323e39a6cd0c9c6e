/-
Which texts are addresses, and what is wrong with the others.

A text is read in four steps: the blanks around it go, then the sign in front of it, then a plus,
and what is left is read digit by digit.  Each step is described here without the function that
takes it.  The last one reads the number that the digits so far are, as long as it fits, so that it
can stop at two kinds of characters only: one that is no digit, and a digit that makes the number
too large.  A text is an address if its reading stops nowhere, and the first place where it stops
is the reason why it is none.
-/
import Mathlib.Data.List.Induction
import Sm83.Address
import Sm83.Proofs.Hex

namespace Sm83

/-! ### Blanks -/

namespace Text

/-- A text without the blanks at both ends of another one. -/
structure IsTrimmed (s text : List Char) : Prop where
  around : ∃ before after, s = before ++ (text ++ after) ∧
    (∀ c ∈ before, isBlank c = true) ∧ ∀ c ∈ after, isBlank c = true
  first : ∀ c ∈ text.head?, isBlank c = false
  last : ∀ c ∈ text.getLast?, isBlank c = false

theorem dropBlanks_of_head {s : List Char} (h : ∀ c ∈ s.head?, isBlank c = false) :
    dropBlanks s = s := by
  cases s with
  | nil => rfl
  | cons c rest => exact List.dropWhile_cons_of_neg (by simp [h c rfl])

theorem dropBlanks_append {s : List Char} (h : ∀ c ∈ s, isBlank c = true) (rest : List Char) :
    dropBlanks (s ++ rest) = dropBlanks rest :=
  List.dropWhile_append_of_pos h

theorem head_dropBlanks (s : List Char) : ∀ c ∈ (dropBlanks s).head?, isBlank c = false := by
  intro c hc
  have h := List.head?_dropWhile_not isBlank s
  rw [dropBlanks] at hc
  rw [Option.mem_def.mp hc] at h
  exact h

/-- What is left out at the front of a text is blank. -/
theorem exists_blanks (s : List Char) :
    ∃ before, s = before ++ dropBlanks s ∧ ∀ c ∈ before, isBlank c = true := by
  refine ⟨s.takeWhile isBlank, List.takeWhile_append_dropWhile.symm, fun c hc => ?_⟩
  exact List.all_eq_true.mp List.all_takeWhile c hc

theorem isTrimmed_trim (s : List Char) : IsTrimmed s (trim s) := by
  obtain ⟨before, hbefore, hblank⟩ := exists_blanks s
  obtain ⟨after, hafter, hblank'⟩ := exists_blanks (dropBlanks s).reverse
  have hsplit : dropBlanks s = trim s ++ after.reverse := by
    have h := congrArg List.reverse hafter
    rwa [List.reverse_reverse, List.reverse_append] at h
  refine ⟨⟨before, after.reverse, ?_, hblank, fun c hc => hblank' c (List.mem_reverse.mp hc)⟩,
    fun c hc => ?_, fun c hc => ?_⟩
  · rw [← hsplit]
    exact hbefore
  · refine head_dropBlanks s c ?_
    rw [hsplit, List.head?_append, Option.mem_def.mp hc]
    rfl
  · rw [trim, List.getLast?_reverse] at hc
    exact head_dropBlanks _ c hc

/-- There is one way only to leave out the blanks. -/
theorem IsTrimmed.eq_trim {s text : List Char} (h : IsTrimmed s text) : trim s = text := by
  obtain ⟨before, after, rfl, hbefore, hafter⟩ := h.around
  have hafter' : ∀ c ∈ after.reverse, isBlank c = true :=
    fun c hc => hafter c (List.mem_reverse.mp hc)
  unfold trim
  rw [dropBlanks_append hbefore]
  cases text with
  | nil =>
      have hnone := dropBlanks_append hafter []
      rw [List.append_nil] at hnone
      rw [List.nil_append, hnone]
      rfl
  | cons c rest =>
      have hhead : ∀ d ∈ (c :: rest ++ after).head?, isBlank d = false := h.first
      have hlast : ∀ d ∈ (c :: rest).reverse.head?, isBlank d = false := by
        rw [List.head?_reverse]
        exact h.last
      rw [dropBlanks_of_head hhead, List.reverse_append, dropBlanks_append hafter',
        dropBlanks_of_head hlast, List.reverse_reverse]

end Text

/-! ### Digits of either case -/

namespace Hex

/-- The number that is written in hexadecimal, in letters of either case. -/
def caselessNumber? (text : List Char) : Option Nat := number? (text.map Char.toUpper)

/-- A digit of either case is found among the digits of upper case. -/
theorem value?_eq_idxOf? (c : Char) : value? c = digitChars.idxOf? c.toUpper := by
  by_cases hc : c.toNat < 128
  · have hall : ∀ n : Fin 128,
        value? (Char.ofNat n) = digitChars.idxOf? (Char.ofNat n).toUpper := by
      decide +kernel
    have h := hall ⟨c.toNat, hc⟩
    rwa [Char.ofNat_toNat] at h
  · have hlarge : ∀ d : Char, d.toNat < 128 → ¬ c ≤ d := by
      intro d hd hle
      exact hc (Nat.lt_of_le_of_lt (UInt32.le_iff_toNat_le.mp hle) hd)
    have hupper : c.toUpper = c := dif_neg fun h => hlarge 'z' (by decide) h.2
    have hnone : value? c = none := by
      unfold value?
      simp [hlarge '9' (by decide), hlarge 'F' (by decide), hlarge 'f' (by decide)]
    have hsmall : digitChars.all (·.toNat < 128) = true := by decide
    rw [hupper, hnone, eq_comm, List.idxOf?_eq_none_iff]
    exact fun hmem => hc (of_decide_eq_true (List.all_eq_true.mp hsmall c hmem))

/-- One more digit counts as much as all before it have room for. -/
theorem caselessNumber?_concat (front : List Char) (c : Char) :
    caselessNumber? (front ++ [c]) =
      (caselessNumber? front).bind fun n => (value? c).map (16 * n + ·) := by
  unfold caselessNumber? number?
  rw [List.map_append, List.foldlM_append, value?_eq_idxOf?]
  refine congrArg _ (funext fun n => ?_)
  rw [List.map_singleton, List.foldlM_cons]
  exact bind_pure _

/-- All characters of a number are digits. -/
theorem exists_value {text : List Char} {n : Nat} (h : caselessNumber? text = some n) :
    ∀ c ∈ text, ∃ d, value? c = some d := by
  induction text using List.reverseRecOn generalizing n with
  | nil => exact fun c hc => absurd hc List.not_mem_nil
  | append_singleton front last ih =>
      rw [caselessNumber?_concat, Option.bind_eq_some_iff] at h
      obtain ⟨m, hm, hlast⟩ := h
      obtain ⟨d, hd, -⟩ := Option.map_eq_some_iff.mp hlast
      intro c hc
      rcases List.mem_append.mp hc with hfront | hc
      · exact ih hm c hfront
      · exact ⟨d, by rw [List.mem_singleton.mp hc, hd]⟩

theorem toNat_of_value? {c : Char} {d : Nat} (h : value? c = some d) :
    0x30 ≤ c.toNat ∧ c.toNat ≤ 0x66 := by
  have hbetween : ∀ low high : Char, (low ≤ c && c ≤ high) = true →
      low.toNat ≤ c.toNat ∧ c.toNat ≤ high.toNat := by
    intro low high hc
    rw [Bool.and_eq_true, decide_eq_true_eq, decide_eq_true_eq] at hc
    exact ⟨UInt32.le_iff_toNat_le.mp hc.1, UInt32.le_iff_toNat_le.mp hc.2⟩
  unfold value? at h
  split at h
  · rename_i hc
    have hrange : 0x30 ≤ c.toNat ∧ c.toNat ≤ 0x39 := hbetween '0' '9' hc
    omega
  split at h
  · rename_i hc
    have hrange : 0x41 ≤ c.toNat ∧ c.toNat ≤ 0x46 := hbetween 'A' 'F' hc
    omega
  split at h
  · rename_i hc
    have hrange : 0x61 ≤ c.toNat ∧ c.toNat ≤ 0x66 := hbetween 'a' 'f' hc
    omega
  · cases h

theorem isBlank_of_value? {c : Char} {d : Nat} (h : value? c = some d) :
    Text.isBlank c = false := by
  have hrange := toNat_of_value? h
  unfold Text.isBlank
  simp only [Bool.or_eq_false_iff, Bool.and_eq_false_iff, decide_eq_false_iff_not,
    beq_eq_false_iff_ne]
  omega

theorem caselessNumber?_singleton_eq_none_iff {c : Char} :
    caselessNumber? [c] = none ↔ value? c = none := by
  have h : caselessNumber? [c] = (value? c).map (16 * 0 + ·) := caselessNumber?_concat [] c
  rw [h, Option.map_eq_none_iff]

end Hex

namespace Address

open Hex (value? caselessNumber?)

/-! ### Signs -/

/-- The signs that mark a number as hexadecimal. -/
def marks : List (List Char) := [['$'], ['0', 'x'], ['0', 'X']]

/-- A text without the mark in front of another one, which need not have any. -/
def IsUnmarked (text rest : List Char) : Prop :=
  (∃ mark ∈ marks, text = mark ++ rest) ∨ (∀ mark ∈ marks, ¬ mark <+: text) ∧ rest = text

/-- A text without the plus in front of its digits. -/
def unsigned : List Char → List Char
  | '+' :: c :: digits => c :: digits
  | digits => digits

/-- No mark is made of digits alone. -/
theorem exists_no_digit {mark : List Char} (hmark : mark ∈ marks) :
    ∃ c ∈ mark, value? c = none := by
  simp only [marks, List.mem_cons, List.not_mem_nil, or_false] at hmark
  rcases hmark with rfl | rfl | rfl
  · exact ⟨'$', List.mem_cons_self, rfl⟩
  · exact ⟨'x', List.mem_cons_of_mem _ List.mem_cons_self, rfl⟩
  · exact ⟨'X', List.mem_cons_of_mem _ List.mem_cons_self, rfl⟩

theorem dropSign_append {mark : List Char} (hmark : mark ∈ marks) (rest : List Char) :
    dropSign (mark ++ rest) = rest := by
  simp only [marks, List.mem_cons, List.not_mem_nil, or_false] at hmark
  rcases hmark with rfl | rfl | rfl <;> rfl

theorem dropSign_of_unmarked {text : List Char} (h : ∀ mark ∈ marks, ¬ mark <+: text) :
    dropSign text = text := by
  unfold dropSign
  split
  · rename_i rest
    exact absurd (List.prefix_append ['$'] rest) (h ['$'] (by decide))
  · rename_i rest
    exact absurd (List.prefix_append ['0', 'x'] rest) (h ['0', 'x'] (by decide))
  · rename_i rest
    exact absurd (List.prefix_append ['0', 'X'] rest) (h ['0', 'X'] (by decide))
  · rfl

/-- There is one way only to leave out the mark. -/
theorem dropSign_eq_iff {text rest : List Char} : dropSign text = rest ↔ IsUnmarked text rest := by
  constructor
  · rintro rfl
    by_cases h : ∃ mark ∈ marks, mark <+: text
    · obtain ⟨mark, hmark, rest, rfl⟩ := h
      rw [dropSign_append hmark]
      exact Or.inl ⟨mark, hmark, rfl⟩
    · have hnone : ∀ mark ∈ marks, ¬ mark <+: text := fun mark hmark hc => h ⟨mark, hmark, hc⟩
      rw [dropSign_of_unmarked hnone]
      exact Or.inr ⟨hnone, rfl⟩
  · rintro (⟨mark, hmark, rfl⟩ | ⟨hnone, rfl⟩)
    · exact dropSign_append hmark rest
    · exact dropSign_of_unmarked hnone

theorem unsigned_of_ne_plus {c : Char} (hc : c ≠ '+') (digits : List Char) :
    unsigned (c :: digits) = c :: digits := by
  unfold unsigned
  split
  · rename_i he
    exact absurd (List.cons.inj he).1 hc
  · rfl

theorem unsigned_eq_nil_iff {rest : List Char} : unsigned rest = [] ↔ rest = [] := by
  refine ⟨fun h => ?_, fun h => by rw [h]; rfl⟩
  cases rest with
  | nil => rfl
  | cons c digits =>
      by_cases hc : c = '+'
      · subst hc
        cases digits <;> cases h
      · rw [unsigned_of_ne_plus hc] at h
        exact h

/-- A plus that stands alone is read as a digit would be, and refused as one. -/
theorem readNumber_eq_readDigits {rest : List Char} (h : rest ≠ []) :
    readNumber rest = readDigits 0 (unsigned rest) := by
  obtain ⟨c, digits, rfl⟩ := List.exists_cons_of_ne_nil h
  by_cases hc : c = '+'
  · subst hc
    cases digits <;> rfl
  · rw [unsigned_of_ne_plus hc]
    unfold readNumber
    split
    · rename_i he
      cases he
    · rename_i he
      exact absurd (List.cons.inj he).1 hc
    · rename_i he
      exact absurd (List.cons.inj he).1 hc
    · rfl

/-! ### Digits -/

/-- What has been read is the number that the digits so far are, as long as it fits. -/
theorem readDigits_front {front : List Char} {n : Nat} (h : caselessNumber? front = some n)
    (hfits : n < addressSpace) (rest : List Char) :
    readDigits 0 (front ++ rest) = readDigits n rest := by
  induction front using List.reverseRecOn generalizing n rest with
  | nil =>
      obtain rfl : 0 = n := Option.some.inj h
      rfl
  | append_singleton front c ih =>
      rw [Hex.caselessNumber?_concat, Option.bind_eq_some_iff] at h
      obtain ⟨m, hm, hc⟩ := h
      obtain ⟨d, hd, rfl⟩ := Option.map_eq_some_iff.mp hc
      rw [List.append_assoc, ih hm (by omega), List.singleton_append, readDigits, hd]
      simp only [Nat.mul_comm m 16, if_pos hfits]

/-- The reading of digits stops at one of them, or they are a number that fits. -/
theorem number_or_stop (digits : List Char) :
    (∃ n, caselessNumber? digits = some n ∧ n < addressSpace) ∨
      ∃ front c back n, digits = front ++ c :: back ∧ caselessNumber? front = some n ∧
        n < addressSpace ∧ ∀ d, value? c = some d → addressSpace ≤ 16 * n + d := by
  induction digits using List.reverseRecOn with
  | nil => exact Or.inl ⟨0, rfl, by decide⟩
  | append_singleton digits c ih =>
      obtain ⟨n, hn, hfits⟩ | ⟨front, e, back, n, rfl, hrest⟩ := ih
      · by_cases hc : ∃ d, value? c = some d ∧ 16 * n + d < addressSpace
        · obtain ⟨d, hd, hlt⟩ := hc
          refine Or.inl ⟨16 * n + d, ?_, hlt⟩
          rw [Hex.caselessNumber?_concat, hn, hd]
          rfl
        · refine Or.inr ⟨digits, c, [], n, rfl, hn, hfits, fun d hd => ?_⟩
          exact Nat.le_of_not_lt fun hlt => hc ⟨d, hd, hlt⟩
      · refine Or.inr ⟨front, e, back ++ [c], n, ?_, hrest⟩
        rw [List.append_assoc, List.cons_append]

/-- Why the characters of a text are no number that fits. -/
inductive Fails (rest : List Char) : NumberError → Prop
  | empty (h : rest = []) : Fails rest .empty
  /-- The first character that is no digit comes before the number gets too large. -/
  | invalidDigit {front back : List Char} {c : Char} {n : Nat}
      (h : unsigned rest = front ++ c :: back) (hfront : caselessNumber? front = some n)
      (hfits : n < addressSpace) (hc : caselessNumber? [c] = none) : Fails rest .invalidDigit
  /-- The number gets too large before a character comes that is no digit. -/
  | tooLarge {front back : List Char} {c : Char} {n m : Nat}
      (h : unsigned rest = front ++ c :: back) (hfront : caselessNumber? front = some n)
      (hfits : n < addressSpace) (hc : caselessNumber? (front ++ [c]) = some m)
      (hlarge : addressSpace ≤ m) : Fails rest .tooLarge

variable {rest : List Char}

theorem readNumber_of_number {n : Nat} (hne : rest ≠ [])
    (h : caselessNumber? (unsigned rest) = some n) (hfits : n < addressSpace) :
    readNumber rest = .ok n := by
  have hread := readDigits_front h hfits []
  rw [List.append_nil] at hread
  rw [readNumber_eq_readDigits hne, hread]
  rfl

theorem readNumber_of_fails {reason : NumberError} (h : Fails rest reason) :
    readNumber rest = .error reason := by
  have hne : ∀ {front back c}, unsigned rest = front ++ c :: back → rest ≠ [] := by
    intro front back c h hrest
    rw [unsigned_eq_nil_iff.mpr hrest, eq_comm, List.append_eq_nil_iff] at h
    exact List.cons_ne_nil _ _ h.2
  cases h with
  | empty h =>
      rw [h]
      rfl
  | invalidDigit h hfront hfits hc =>
      rw [Hex.caselessNumber?_singleton_eq_none_iff] at hc
      rw [readNumber_eq_readDigits (hne h), h, readDigits_front hfront hfits, readDigits, hc]
  | tooLarge h hfront hfits hc hlarge =>
      rw [Hex.caselessNumber?_concat, hfront] at hc
      obtain ⟨d, hd, rfl⟩ := Option.map_eq_some_iff.mp hc
      rw [readNumber_eq_readDigits (hne h), h, readDigits_front hfront hfits, readDigits, hd]
      exact if_neg (by omega)

/-- A text is a number that fits, or there is a reason why it is none. -/
theorem number_or_fails (rest : List Char) :
    (rest ≠ [] ∧ ∃ n, caselessNumber? (unsigned rest) = some n ∧ n < addressSpace) ∨
      ∃ reason, Fails rest reason := by
  by_cases hne : rest = []
  · exact Or.inr ⟨_, .empty hne⟩
  obtain hnumber | ⟨front, c, back, n, h, hfront, hfits, hstop⟩ := number_or_stop (unsigned rest)
  · exact Or.inl ⟨hne, hnumber⟩
  cases hc : value? c with
  | none =>
      exact Or.inr ⟨_, .invalidDigit h hfront hfits
        (Hex.caselessNumber?_singleton_eq_none_iff.mpr hc)⟩
  | some d =>
      have hnumber : caselessNumber? (front ++ [c]) = some (16 * n + d) := by
        rw [Hex.caselessNumber?_concat, hfront, hc]
        rfl
      exact Or.inr ⟨_, .tooLarge h hfront hfits hnumber (hstop d hc)⟩

theorem readNumber_eq_ok_iff {n : Nat} : readNumber rest = .ok n ↔
    rest ≠ [] ∧ caselessNumber? (unsigned rest) = some n ∧ n < addressSpace := by
  refine ⟨fun h => ?_, fun h => readNumber_of_number h.1 h.2.1 h.2.2⟩
  obtain ⟨hne, m, hm, hfits⟩ | ⟨reason, hfails⟩ := number_or_fails rest
  · rw [readNumber_of_number hne hm hfits] at h
    obtain rfl := Except.ok.inj h
    exact ⟨hne, hm, hfits⟩
  · rw [readNumber_of_fails hfails] at h
    cases h

theorem readNumber_eq_error_iff {reason : NumberError} :
    readNumber rest = .error reason ↔ Fails rest reason := by
  refine ⟨fun h => ?_, readNumber_of_fails⟩
  obtain ⟨hne, m, hm, hfits⟩ | ⟨other, hfails⟩ := number_or_fails rest
  · rw [readNumber_of_number hne hm hfits] at h
    cases h
  · rw [readNumber_of_fails hfails] at h
    obtain rfl := Except.error.inj h
    exact hfails

/-! ### Texts -/

section Parse

variable {s : String}

theorem parse_of_ok {n : Nat} (h : readNumber (dropSign (Text.trim s.toList)) = .ok n) :
    parse s = .ok (UInt16.ofNat n) := by
  unfold parse
  simp only [h]

theorem parse_of_error {reason : NumberError}
    (h : readNumber (dropSign (Text.trim s.toList)) = .error reason) :
    parse s = .error ⟨String.ofList (Text.trim s.toList), reason⟩ := by
  unfold parse
  simp only [h]

theorem parse_eq_ok_iff {w : Word} : parse s = .ok w ↔
    readNumber (dropSign (Text.trim s.toList)) = .ok w.toNat := by
  cases hread : readNumber (dropSign (Text.trim s.toList)) with
  | ok n =>
      have hfits : n < addressSpace := (readNumber_eq_ok_iff.mp hread).2.2
      rw [parse_of_ok hread, Except.ok.injEq, Except.ok.injEq, ← UInt16.toNat_inj,
        UInt16.toNat_ofNat_of_lt' hfits]
  | error reason =>
      rw [parse_of_error hread]
      exact ⟨fun h => (nomatch h), fun h => (nomatch h)⟩

theorem parse_eq_error_iff {e : AddressError} : parse s = .error e ↔
    e.text = String.ofList (Text.trim s.toList) ∧
      readNumber (dropSign (Text.trim s.toList)) = .error e.reason := by
  cases hread : readNumber (dropSign (Text.trim s.toList)) with
  | ok n =>
      rw [parse_of_ok hread]
      exact ⟨fun h => (nomatch h), fun h => (nomatch h.2)⟩
  | error reason =>
      rw [parse_of_error hread, Except.error.injEq, Except.error.injEq]
      constructor
      · rintro rfl
        exact ⟨rfl, rfl⟩
      · rintro ⟨htext, rfl⟩
        rw [← htext]

end Parse

/-! ### Four digits -/

section Four

variable {w : Word} {digits : List Char} (hdigits : digits.map Char.toUpper = (Hex.word w).toList)

include hdigits

theorem number_of_word : caselessNumber? digits = some w.toNat := by
  rw [caselessNumber?, hdigits, Hex.toList_word, Hex.number?_word]

theorem digits_ne_nil : digits ≠ [] := by
  rintro rfl
  rw [Hex.toList_word] at hdigits
  cases hdigits

theorem isUnmarked_digits {mark : List Char} (hmark : mark ∈ [] :: marks) :
    IsUnmarked (mark ++ digits) digits := by
  rcases List.mem_cons.mp hmark with rfl | hmark
  · refine Or.inr ⟨fun mark hmark hbegins => ?_, rfl⟩
    obtain ⟨c, hc, hnone⟩ := exists_no_digit hmark
    obtain ⟨d, hd⟩ := Hex.exists_value (number_of_word hdigits) c (hbegins.subset hc)
    rw [hnone] at hd
    cases hd
  · exact Or.inl ⟨mark, hmark, rfl⟩

theorem unsigned_digits : unsigned digits = digits := by
  obtain ⟨c, rest, rfl⟩ := List.exists_cons_of_ne_nil (digits_ne_nil hdigits)
  refine unsigned_of_ne_plus ?_ rest
  rintro rfl
  obtain ⟨d, hd⟩ := Hex.exists_value (number_of_word hdigits) '+' List.mem_cons_self
  cases hd

/-- Neither marks nor digits are blank. -/
theorem isTrimmed_digits {before mark after : List Char}
    (hbefore : ∀ c ∈ before, Text.isBlank c = true) (hafter : ∀ c ∈ after, Text.isBlank c = true)
    (hmark : mark ∈ [] :: marks) :
    Text.IsTrimmed (before ++ (mark ++ digits ++ after)) (mark ++ digits) := by
  have hmarks : ∀ mark ∈ [] :: marks, mark.all (!Text.isBlank ·) = true := by decide
  have hsolid : ∀ c ∈ mark ++ digits, Text.isBlank c = false := by
    intro c hc
    rcases List.mem_append.mp hc with hc | hc
    · have hmarked := List.all_eq_true.mp (hmarks mark hmark) c hc
      rwa [Bool.not_eq_true'] at hmarked
    · obtain ⟨d, hd⟩ := Hex.exists_value (number_of_word hdigits) c hc
      exact Hex.isBlank_of_value? hd
  exact ⟨⟨before, after, rfl, hbefore, hafter⟩, fun c hc => hsolid c (List.mem_of_mem_head? hc),
    fun c hc => hsolid c (List.mem_of_getLast? hc)⟩

/-- Four digits are an address, with a mark or without one, whatever blanks are around. -/
theorem parse_surrounded {before mark after : List Char}
    (hbefore : ∀ c ∈ before, Text.isBlank c = true) (hafter : ∀ c ∈ after, Text.isBlank c = true)
    (hmark : mark ∈ [] :: marks) :
    parse (String.ofList (before ++ (mark ++ digits ++ after))) = .ok w := by
  rw [parse_eq_ok_iff, String.toList_ofList,
    (isTrimmed_digits hdigits hbefore hafter hmark).eq_trim,
    dropSign_eq_iff.mpr (isUnmarked_digits hdigits hmark), readNumber_eq_ok_iff,
    unsigned_digits hdigits]
  exact ⟨digits_ne_nil hdigits, number_of_word hdigits, w.toNat_lt⟩

end Four

/--
**What is read as an address, and why the rest is not.**

Of any text, leave out the blanks around it, then a mark at its front, then a plus in front of
digits.  If what is left are digits of either case, at least one and with any number of zeros in
front, and the number they are fits into a word, then that word is the address; and nothing else
is one.  Otherwise the error shows the text without the blanks, and the reason is the first thing
that goes wrong from the left: there is nothing behind the mark, a character is no digit, or a
digit makes the number too large.

In particular a word of four digits of either case is read as that word, whatever mark is in front
of it and whatever blanks are around both.
-/
theorem parse_language :
    (∀ s : String, ∃ text rest, Text.IsTrimmed s.toList text ∧ IsUnmarked text rest ∧
      (∀ w, parse s = .ok w ↔
        unsigned rest ≠ [] ∧ caselessNumber? (unsigned rest) = some w.toNat) ∧
      ∀ e, parse s = .error e ↔ e.text = String.ofList text ∧ Fails rest e.reason) ∧
    ∀ (w : Word) (before mark digits after : List Char),
      (∀ c ∈ before, Text.isBlank c = true) → (∀ c ∈ after, Text.isBlank c = true) →
      mark ∈ [] :: marks → digits.map Char.toUpper = (Hex.word w).toList →
      parse (String.ofList (before ++ (mark ++ digits ++ after))) = .ok w := by
  refine ⟨fun s => ⟨_, _, Text.isTrimmed_trim s.toList, dropSign_eq_iff.mp rfl, fun w => ?_,
    fun e => ?_⟩, fun w before mark digits after hbefore hafter hmark hdigits =>
      parse_surrounded hdigits hbefore hafter hmark⟩
  · have hfits : w.toNat < addressSpace := w.toNat_lt
    rw [parse_eq_ok_iff, readNumber_eq_ok_iff, ne_eq, ne_eq, unsigned_eq_nil_iff]
    simp only [hfits, and_true]
  · rw [parse_eq_error_iff, readNumber_eq_error_iff]

/-- Four digits in letters of both cases, with a mark in front and blanks around. -/
theorem parse_language_mixed :
    (∀ c ∈ [' ', '\t'], Text.isBlank c = true) ∧ (∀ c ∈ ['\u3000'], Text.isBlank c = true) ∧
      ['$'] ∈ [] :: marks ∧ ['f', 'F', '8', '0'].map Char.toUpper = (Hex.word 0xFF80).toList ∧
      parse (String.ofList ([' ', '\t'] ++ (['$'] ++ ['f', 'F', '8', '0'] ++ ['\u3000']))) =
        .ok 0xFF80 := by
  have hbefore : ∀ c ∈ [' ', '\t'], Text.isBlank c = true :=
    List.forall_mem_cons.mpr ⟨rfl, List.forall_mem_singleton.mpr rfl⟩
  have hafter : ∀ c ∈ ['\u3000'], Text.isBlank c = true := List.forall_mem_singleton.mpr rfl
  have hmark : ['$'] ∈ [] :: marks := List.mem_cons_of_mem _ List.mem_cons_self
  have hdigits : ['f', 'F', '8', '0'].map Char.toUpper = (Hex.word 0xFF80).toList := by
    rw [Hex.toList_word]
    decide
  exact ⟨hbefore, hafter, hmark, hdigits,
    parse_language.2 0xFF80 _ _ _ _ hbefore hafter hmark hdigits⟩

end Address

end Sm83
