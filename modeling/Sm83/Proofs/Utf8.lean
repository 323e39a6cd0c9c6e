/-
Which text is shown for bytes.

A text is shown for bytes if they can be cut into the bytes of its characters and into parts that
are no character, each of which shows as a replacement.  Such a part is as long as possible: it goes
on as long as there is a character that starts with it, and it is one byte if there is none.  That
says what is shown without saying how to find it, and there is one such text for all bytes.

Characters of more than one byte are told from other bytes by the ranges of their first two bytes
and by how many bytes follow.  Both halves rest on that: a character has such bytes, and
such bytes are those of a character.
-/
import Mathlib.Data.List.Basic
import Sm83.Text.Utf8

namespace Sm83.Utf8

open String (utf8EncodeChar)

/-! ### What is meant -/

/-- The bytes of a text. -/
def encode (text : String) : List Byte := text.toList.flatMap utf8EncodeChar

/-- Some character starts with these bytes. -/
def IsStart (part : List Byte) : Prop := ∃ c, part <+: utf8EncodeChar c

/-- A part at the front of some bytes that is no character, and is as long as possible. -/
structure IsBroken (part bytes : List Byte) : Prop where
  front : part <+: bytes
  nonempty : part ≠ []
  /-- There is no character at the front. -/
  unfinished : ∀ c, ¬ utf8EncodeChar c <+: bytes
  /-- A byte that no character starts with is a part of its own. -/
  start : part.length = 1 ∨ IsStart part
  longest : ∀ longer, longer <+: bytes → IsStart longer → longer.length ≤ part.length

/-- What is shown for bytes: their characters, and a replacement for each part that is broken. -/
inductive Shows : List Byte → List Char → Prop
  | nil : Shows [] []
  | char (c : Char) {rest : List Byte} {text : List Char} (h : Shows rest text) :
      Shows (utf8EncodeChar c ++ rest) (c :: text)
  | broken {part rest : List Byte} {text : List Char} (hbroken : IsBroken part (part ++ rest))
      (h : Shows rest text) : Shows (part ++ rest) ('\ufffd' :: text)

/-! ### The bytes of a character -/

/-- The first two bytes of a character that has `more` bytes after them. -/
def Begins (b s : Byte) (more : Nat) : Prop :=
  ∃ low high, second? b = some ((low, high), more) ∧ low ≤ s ∧ s ≤ high

/-- The number of a character from its bytes. -/
def number (b s : Byte) (tail : List Byte) : Nat :=
  tail.foldl addBits (addBits (leadBits b tail.length) s)

/-- The bytes that go on with a character, as numbers. -/
theorem isContinuation_iff {b : Byte} :
    isContinuation b = true ↔ 0x80 ≤ b.toNat ∧ b.toNat ≤ 0xBF := by
  simp [isContinuation, UInt8.le_iff_toNat_le]

/-- The ranges of the first two bytes: without shorter forms, surrogates, and what is too large. -/
theorem begins_iff {b s : Byte} {more : Nat} : Begins b s more ↔
    (0x80 ≤ s.toNat ∧ s.toNat ≤ 0xBF) ∧
    ((more = 0 ∧ 0xC2 ≤ b.toNat ∧ b.toNat ≤ 0xDF) ∨
      (more = 1 ∧ 0xE0 ≤ b.toNat ∧ b.toNat ≤ 0xEF ∧ (b.toNat = 0xE0 → 0xA0 ≤ s.toNat) ∧
        (b.toNat = 0xED → s.toNat ≤ 0x9F)) ∨
      (more = 2 ∧ 0xF0 ≤ b.toNat ∧ b.toNat ≤ 0xF4 ∧ (b.toNat = 0xF0 → 0x90 ≤ s.toNat) ∧
        (b.toNat = 0xF4 → s.toNat ≤ 0x8F))) := by
  unfold Begins second?
  simp only [Bool.and_eq_true, decide_eq_true_eq, beq_iff_eq, ← UInt8.toNat_inj,
    UInt8.le_iff_toNat_le, UInt8.reduceToNat]
  constructor
  · rintro ⟨low, high, h, hlow, hhigh⟩
    split_ifs at h <;> cases h <;> simp only [UInt8.reduceToNat] at hlow hhigh <;> omega
  · rintro ⟨hs, h⟩
    split_ifs <;> first
      | omega
      | refine ⟨_, _, congrArg some (Prod.ext rfl (by dsimp only; omega)), ?_, ?_⟩ <;>
          simp only [UInt8.reduceToNat] <;> omega

/-! ### Bytes of a character that takes one, or more -/

/-- The bytes of the character with a number. -/
theorem encode_ofNat {n : Nat} (h : n.isValidChar) : utf8EncodeChar (Char.ofNat n) =
    if n ≤ 0x7F then [UInt8.ofNat n]
    else if n ≤ 0x7FF then [UInt8.ofNat (n / 64 % 32 + 192), UInt8.ofNat (n % 64 + 128)]
    else if n ≤ 0xFFFF then
      [UInt8.ofNat (n / 4096 % 16 + 224), UInt8.ofNat (n / 64 % 64 + 128),
        UInt8.ofNat (n % 64 + 128)]
    else
      [UInt8.ofNat (n / 262144 % 8 + 240), UInt8.ofNat (n / 4096 % 64 + 128),
        UInt8.ofNat (n / 64 % 64 + 128), UInt8.ofNat (n % 64 + 128)] := by
  have hn : (Char.ofNat n).val.toNat = n := by
    unfold Char.ofNat
    rw [dif_pos h]
    rfl
  unfold utf8EncodeChar
  rw [hn]

theorem encode_ascii {b : Byte} (h : b < 0x80) : utf8EncodeChar (Char.ofNat b.toNat) = [b] := by
  have hsmall : b.toNat < 0x80 := UInt8.lt_iff_toNat_lt.mp h
  have hvalid : b.toNat.isValidChar := Or.inl (by omega)
  rw [encode_ofNat hvalid, if_pos (by omega), UInt8.ofNat_toNat]

theorem number_two (b s : Byte) : number b s [] = b.toNat % 32 * 64 + s.toNat % 64 := rfl

theorem number_three (b s t : Byte) :
    number b s [t] = (b.toNat % 16 * 64 + s.toNat % 64) * 64 + t.toNat % 64 := rfl

theorem number_four (b s t u : Byte) : number b s [t, u] =
    ((b.toNat % 8 * 64 + s.toNat % 64) * 64 + t.toNat % 64) * 64 + u.toNat % 64 := rfl

/-- The bytes in the ranges of a character are those of the character with their number. -/
theorem encode_number {b s : Byte} {tail : List Byte} (h : Begins b s tail.length)
    (htail : ∀ t ∈ tail, isContinuation t = true) :
    utf8EncodeChar (Char.ofNat (number b s tail)) = b :: s :: tail := by
  obtain ⟨hs, ⟨hmore, hb⟩ | ⟨hmore, hb⟩ | ⟨hmore, hb⟩⟩ := begins_iff.mp h
  · obtain rfl := List.eq_nil_of_length_eq_zero hmore
    have hn := number_two b s
    have hvalid : (number b s []).isValidChar := Or.inl (by omega)
    rw [encode_ofNat hvalid, if_neg (by omega), if_pos (by omega)]
    simp only [List.cons.injEq, ← UInt8.toNat_inj, UInt8.toNat_ofNat', and_true]
    omega
  · obtain ⟨t, rfl⟩ := List.length_eq_one_iff.mp hmore
    have hn := number_three b s t
    have ht := isContinuation_iff.mp (htail t List.mem_cons_self)
    have hvalid : (number b s [t]).isValidChar := by
      unfold Nat.isValidChar
      omega
    rw [encode_ofNat hvalid, if_neg (by omega), if_neg (by omega), if_pos (by omega)]
    simp only [List.cons.injEq, ← UInt8.toNat_inj, UInt8.toNat_ofNat', and_true]
    omega
  · obtain ⟨t, u, rfl⟩ := List.length_eq_two.mp hmore
    have hn := number_four b s t u
    have ht := isContinuation_iff.mp (htail t List.mem_cons_self)
    have hu := isContinuation_iff.mp (htail u (List.mem_cons_of_mem t List.mem_cons_self))
    have hvalid : (number b s [t, u]).isValidChar := by
      unfold Nat.isValidChar
      omega
    rw [encode_ofNat hvalid, if_neg (by omega), if_neg (by omega), if_neg (by omega)]
    simp only [List.cons.injEq, ← UInt8.toNat_inj, UInt8.toNat_ofNat', and_true]
    omega

/-- A character is one byte below 128, or it is bytes in the ranges of one that takes more. -/
theorem encode_cases (c : Char) :
    (∃ b : Byte, utf8EncodeChar c = [b] ∧ b < 0x80 ∧ Char.ofNat b.toNat = c) ∨
    ∃ b s tail, utf8EncodeChar c = b :: s :: tail ∧ Begins b s tail.length ∧
      (∀ t ∈ tail, isContinuation t = true) ∧ Char.ofNat (number b s tail) = c := by
  obtain ⟨n, hvalid, rfl⟩ : ∃ n : Nat, n.isValidChar ∧ Char.ofNat n = c :=
    ⟨c.toNat, c.valid, Char.ofNat_toNat c⟩
  rw [encode_ofNat hvalid]
  unfold Nat.isValidChar at hvalid
  split_ifs with h1 h2 h3
  · refine Or.inl ⟨_, rfl, ?_, ?_⟩
    · rw [UInt8.lt_iff_toNat_lt, UInt8.toNat_ofNat']
      exact Nat.lt_of_le_of_lt (Nat.mod_le _ _) (Nat.lt_succ_of_le h1)
    · rw [UInt8.toNat_ofNat', Nat.mod_eq_of_lt (by omega)]
  · refine Or.inr ⟨_, _, [], rfl, ?_, fun t ht => absurd ht List.not_mem_nil, ?_⟩
    · refine begins_iff.mpr ⟨?_, Or.inl ⟨rfl, ?_⟩⟩ <;> simp only [UInt8.toNat_ofNat'] <;> omega
    · refine congrArg Char.ofNat ?_
      simp only [number_two, UInt8.toNat_ofNat']
      omega
  · refine Or.inr ⟨_, _, [_], rfl, ?_, List.forall_mem_singleton.mpr ?_, ?_⟩
    · refine begins_iff.mpr ⟨?_, Or.inr (Or.inl ⟨rfl, ?_⟩)⟩ <;> simp only [UInt8.toNat_ofNat'] <;>
        omega
    · rw [isContinuation_iff, UInt8.toNat_ofNat']
      omega
    · refine congrArg Char.ofNat ?_
      simp only [number_three, UInt8.toNat_ofNat']
      omega
  · refine Or.inr ⟨_, _, [_, _], rfl, ?_, ?_, ?_⟩
    · refine begins_iff.mpr ⟨?_, Or.inr (Or.inr ⟨rfl, ?_⟩)⟩ <;> simp only [UInt8.toNat_ofNat'] <;>
        omega
    · refine List.forall_mem_cons.mpr ⟨?_, List.forall_mem_singleton.mpr ?_⟩ <;>
        rw [isContinuation_iff, UInt8.toNat_ofNat'] <;> omega
    · refine congrArg Char.ofNat ?_
      simp only [number_four, UInt8.toNat_ofNat']
      omega

/-! ### Reading one character -/

/-- What goes on with a character is all read if it is long enough. -/
theorem continuations_all {tail : List Byte} (h : ∀ t ∈ tail, isContinuation t = true)
    (bits : Nat) (rest : List Byte) :
    continuations tail.length bits (tail ++ rest) =
      (some (tail.foldl addBits bits), tail.length) := by
  induction tail generalizing bits with
  | nil => rfl
  | cons t tail ih =>
      obtain ⟨ht, htail⟩ := List.forall_mem_cons.mp h
      rw [List.cons_append, List.length_cons, continuations, if_pos ht, ih htail]
      rfl

/-- If it is too short, it is read as far as it goes. -/
theorem continuations_short {tail rest : List Byte} (h : ∀ t ∈ tail, isContinuation t = true)
    (hend : ∀ t ∈ rest.head?, isContinuation t = false) {more : Nat} (hmore : tail.length < more)
    (bits : Nat) : continuations more bits (tail ++ rest) = (none, tail.length) := by
  induction tail generalizing more bits with
  | nil =>
      obtain ⟨more, rfl⟩ := Nat.exists_eq_add_one.mpr hmore
      cases rest with
      | nil => rfl
      | cons t rest =>
          have ht : isContinuation t = false := hend t rfl
          rw [List.nil_append, continuations, ht]
          rfl
  | cons t tail ih =>
      obtain ⟨ht, htail⟩ := List.forall_mem_cons.mp h
      obtain ⟨more, rfl⟩ := Nat.exists_eq_add_one.mpr (Nat.zero_lt_of_lt hmore)
      rw [List.cons_append, continuations, if_pos ht, ih htail (Nat.lt_of_succ_lt_succ hmore)]
      rfl

/-- Bytes are cut after those that go on with a character, or after `more` of them. -/
theorem exists_tail (more : Nat) (bytes : List Byte) : ∃ tail rest, bytes = tail ++ rest ∧
    (∀ t ∈ tail, isContinuation t = true) ∧ (tail.length = more ∨
      tail.length < more ∧ ∀ t ∈ rest.head?, isContinuation t = false) := by
  induction more generalizing bytes with
  | zero => exact ⟨[], bytes, rfl, fun t ht => absurd ht List.not_mem_nil, Or.inl rfl⟩
  | succ more ih =>
      by_cases hnext : ∃ t ∈ bytes.head?, isContinuation t = true
      · obtain ⟨t, hhead, ht⟩ := hnext
        obtain ⟨bytes, rfl⟩ := List.head?_eq_some_iff.mp hhead
        obtain ⟨tail, rest, rfl, htail, hlength⟩ := ih bytes
        refine ⟨t :: tail, rest, rfl, List.forall_mem_cons.mpr ⟨ht, htail⟩, ?_⟩
        rw [List.length_cons]
        exact hlength.imp (congrArg (· + 1)) fun h => ⟨Nat.succ_lt_succ h.1, h.2⟩
      · refine ⟨[], bytes, rfl, fun t ht => absurd ht List.not_mem_nil,
          Or.inr ⟨Nat.succ_pos more, fun t hhead => ?_⟩⟩
        exact Bool.eq_false_iff.mpr fun ht => hnext ⟨t, hhead, ht⟩

theorem front_begins {b s : Byte} {more : Nat} (h : Begins b s more) (rest : List Byte) :
    front b (s :: rest) =
      let (bits, count) := continuations more (addBits (leadBits b more) s) rest
      (bits.map Char.ofNat, count + 1) := by
  have hlarge : ¬ b < 0x80 := by
    have := begins_iff.mp h
    rw [UInt8.lt_iff_toNat_lt]
    simp only [UInt8.reduceToNat]
    omega
  obtain ⟨low, high, hsecond, hlow, hhigh⟩ := h
  unfold front
  simp only [if_neg hlarge, hsecond, hlow, hhigh, decide_true, Bool.and_self, if_true]

/-- The bytes of a character are read as that character. -/
theorem front_encode {c : Char} {b : Byte} {tail rest : List Byte}
    (h : utf8EncodeChar c = b :: tail) : front b (tail ++ rest) = (some c, tail.length) := by
  obtain ⟨a, ha, hsmall, rfl⟩ | ⟨a, s, more, ha, hbegins, hmore, rfl⟩ := encode_cases c
  · obtain ⟨rfl, rfl⟩ := List.cons.inj (h.symm.trans ha)
    unfold front
    rw [if_pos hsmall]
    rfl
  · obtain ⟨rfl, rfl⟩ := List.cons.inj (h.symm.trans ha)
    rw [List.cons_append, front_begins hbegins, continuations_all hmore]
    rfl

theorem front_of_not_begins {b : Byte} {rest : List Byte} (hlarge : ¬ b < 0x80)
    (h : ∀ s ∈ rest.head?, ∀ more, ¬ Begins b s more) : front b rest = (none, 0) := by
  unfold front
  rw [if_neg hlarge]
  cases rest with
  | nil => cases second? b <;> rfl
  | cons s rest =>
      cases hsecond : second? b with
      | none => rfl
      | some range =>
          obtain ⟨⟨low, high⟩, more⟩ := range
          have hout : ¬ (low ≤ s ∧ s ≤ high) := fun hs => h s rfl more ⟨low, high, hsecond, hs⟩
          simp only [Bool.and_eq_true, decide_eq_true_eq, if_neg hout]

/-- Bytes that a character starts with, and the first two of them. -/
theorem IsStart.begins {b s : Byte} {tail : List Byte} (h : IsStart (b :: s :: tail)) :
    (∃ more, Begins b s more ∧ tail.length ≤ more) ∧ ∀ t ∈ tail, isContinuation t = true := by
  obtain ⟨c, hprefix⟩ := h
  obtain ⟨a, ha, -⟩ | ⟨a, u, more, ha, hbegins, hmore, -⟩ := encode_cases c
  · rw [ha] at hprefix
    exact absurd hprefix.length_le (by simp)
  · rw [ha] at hprefix
    obtain ⟨rfl, rfl, htail⟩ :
        b = a ∧ s = u ∧ tail <+: more := by simpa only [List.cons_prefix_cons] using hprefix
    exact ⟨⟨more.length, hbegins, htail.length_le⟩, fun t ht => hmore t (htail.subset ht)⟩

/-- Any bytes in the ranges of a character, as far as they go, are what a character starts with. -/
theorem isStart_of_begins {b s : Byte} {tail : List Byte} {more : Nat} (h : Begins b s more)
    (hlength : tail.length ≤ more) (htail : ∀ t ∈ tail, isContinuation t = true) :
    IsStart (b :: s :: tail) := by
  have hfull : (tail ++ List.replicate (more - tail.length) 0x80).length = more := by
    rw [List.length_append, List.length_replicate]
    omega
  refine ⟨Char.ofNat (number b s (tail ++ List.replicate (more - tail.length) 0x80)), ?_⟩
  rw [encode_number (by rw [hfull]; exact h)
    (List.forall_mem_append.mpr ⟨htail, fun t ht => by rw [List.eq_of_mem_replicate ht]; rfl⟩)]
  exact List.cons_prefix_cons.mpr ⟨rfl, List.cons_prefix_cons.mpr ⟨rfl, List.prefix_append _ _⟩⟩

/-- No more bytes go on with a character than those before one that does not. -/
theorem prefix_length_le {longer tail left : List Byte} (h : longer <+: tail ++ left)
    (hlonger : ∀ t ∈ longer, isContinuation t = true)
    (hend : ∀ t ∈ left.head?, isContinuation t = false) : longer.length ≤ tail.length := by
  refine Nat.le_of_not_lt fun hlt => ?_
  obtain ⟨beyond, rfl⟩ := List.prefix_of_prefix_length_le (List.prefix_append tail left) h
    (Nat.le_of_lt hlt)
  cases beyond with
  | nil => simp at hlt
  | cons t beyond =>
      obtain ⟨after, rfl⟩ := (List.prefix_append_right_inj tail).mp h
      have ht := hlonger t (List.mem_append_right tail List.mem_cons_self)
      exact absurd (hend t rfl) (by simp [ht])

theorem isBroken_of_front {b : Byte} {tail left : List Byte} {count : Nat}
    (hfront : front b (tail ++ left) = (none, count)) (hstart : tail = [] ∨ IsStart (b :: tail))
    (hlongest : ∀ longer, longer <+: tail ++ left → IsStart (b :: longer) →
      longer.length ≤ tail.length) : IsBroken (b :: tail) (b :: (tail ++ left)) where
  front := List.cons_prefix_cons.mpr ⟨rfl, List.prefix_append tail left⟩
  nonempty := List.cons_ne_nil b tail
  unfinished c hc := by
    cases hencode : utf8EncodeChar c with
    | nil => exact String.utf8EncodeChar_ne_nil hencode
    | cons a more =>
        rw [hencode] at hc
        obtain ⟨rfl, after, hafter⟩ := List.cons_prefix_cons.mp hc
        rw [← hafter, front_encode hencode] at hfront
        cases hfront
  start := hstart.imp_left fun h => by rw [h, List.length_singleton]
  longest longer hprefix hlonger := by
    cases longer with
    | nil => exact Nat.zero_le _
    | cons a longer =>
        obtain ⟨rfl, hrest⟩ := List.cons_prefix_cons.mp hprefix
        exact Nat.succ_le_succ (hlongest longer hrest hlonger)

/-- What is read at the front of some bytes is a character, or a part that is broken. -/
theorem front_cases (b : Byte) (rest : List Byte) :
    (∃ c tail left, utf8EncodeChar c = b :: tail ∧ rest = tail ++ left) ∨
    ∃ tail left, IsBroken (b :: tail) (b :: rest) ∧ rest = tail ++ left ∧
      front b rest = (none, tail.length) := by
  by_cases hsmall : b < 0x80
  · exact Or.inl ⟨_, [], rest, encode_ascii hsmall, rfl⟩
  by_cases hbegins : ∃ s ∈ rest.head?, ∃ more, Begins b s more
  · obtain ⟨s, hs, more, hbegins⟩ := hbegins
    obtain ⟨rest, rfl⟩ := List.head?_eq_some_iff.mp hs
    obtain ⟨tail, left, rfl, htail, rfl | ⟨hshort, hend⟩⟩ := exists_tail more rest
    · exact Or.inl ⟨_, s :: tail, left, encode_number hbegins htail, rfl⟩
    · have hfront : front b (s :: (tail ++ left)) = (none, tail.length + 1) := by
        rw [front_begins hbegins, continuations_short htail hend hshort]
        rfl
      refine Or.inr ⟨s :: tail, left, isBroken_of_front hfront ?_ fun longer hprefix hlonger => ?_,
        rfl, hfront⟩
      · exact Or.inr (isStart_of_begins hbegins (Nat.le_of_lt hshort) htail)
      · cases longer with
        | nil => exact Nat.zero_le _
        | cons a longer =>
            exact Nat.succ_le_succ
              (prefix_length_le (List.cons_prefix_cons.mp hprefix).2 hlonger.begins.2 hend)
  · have hnot : ∀ s ∈ rest.head?, ∀ more, ¬ Begins b s more := fun s hs more h =>
      hbegins ⟨s, hs, more, h⟩
    have hfront := front_of_not_begins hsmall hnot
    refine Or.inr ⟨[], rest, isBroken_of_front hfront (Or.inl rfl) fun longer hprefix hlonger => ?_,
      rfl, hfront⟩
    cases longer with
    | nil => exact Nat.le_refl 0
    | cons s longer =>
        obtain ⟨after, rfl⟩ := hprefix
        obtain ⟨more, hbegins, -⟩ := hlonger.begins.1
        exact absurd hbegins (hnot s rfl more)

/-! ### All characters -/

theorem characters_cons {b : Byte} {tail left : List Byte} {c : Option Char}
    (h : front b (tail ++ left) = (c, tail.length)) :
    characters (b :: (tail ++ left)) = c :: characters left := by
  rw [characters, h]
  exact congrArg _ (congrArg characters List.drop_left)

theorem characters_encode (c : Char) (rest : List Byte) :
    characters (utf8EncodeChar c ++ rest) = some c :: characters rest := by
  cases h : utf8EncodeChar c with
  | nil => exact absurd h String.utf8EncodeChar_ne_nil
  | cons b tail => exact characters_cons (front_encode h)

/-- Two parts that are broken at the front of the same bytes are equally long. -/
theorem IsBroken.length_le {part other bytes : List Byte} (h : IsBroken part bytes)
    (hother : IsBroken other bytes) : part.length ≤ other.length := by
  obtain hone | hstart := h.start
  · rw [hone]
    exact List.length_pos_iff.mpr hother.nonempty
  · exact hother.longest part h.front hstart

theorem characters_broken {part rest : List Byte} (h : IsBroken part (part ++ rest)) :
    characters (part ++ rest) = none :: characters rest := by
  cases part with
  | nil => exact absurd rfl h.nonempty
  | cons b part =>
      obtain ⟨c, tail, left, hc, hrest⟩ | ⟨tail, left, hbroken, hrest, hfront⟩ :=
        front_cases b (part ++ rest)
      · refine absurd ?_ (h.unfinished c)
        rw [hc, List.cons_append, hrest]
        exact List.prefix_append (b :: tail) left
      · have hlength : part.length = tail.length :=
          Nat.le_antisymm (Nat.le_of_succ_le_succ (h.length_le hbroken))
            (Nat.le_of_succ_le_succ (hbroken.length_le h))
        obtain ⟨rfl, rfl⟩ := List.append_inj hrest hlength
        exact characters_cons hfront

/-- Bytes are cut into characters and broken parts, one after the other. -/
theorem cut_induction {motive : List Byte → Prop} (nil : motive [])
    (char : ∀ c rest, motive rest → motive (utf8EncodeChar c ++ rest))
    (broken : ∀ part rest, IsBroken part (part ++ rest) → motive rest → motive (part ++ rest))
    (bytes : List Byte) : motive bytes := by
  induction hlength : bytes.length using Nat.strongRecOn generalizing bytes with
  | ind n ih =>
      subst hlength
      cases bytes with
      | nil => exact nil
      | cons b rest =>
          have hleft : ∀ {tail left : List Byte}, rest = tail ++ left → motive left := by
            rintro tail left rfl
            refine ih left.length ?_ left rfl
            rw [List.length_cons, List.length_append]
            omega
          obtain ⟨c, tail, left, hc, hrest⟩ | ⟨tail, left, hbroken, hrest, -⟩ := front_cases b rest
          · have hchar := char c left (hleft hrest)
            rwa [hc, List.cons_append, ← hrest] at hchar
          · rw [hrest] at hbroken ⊢
            exact broken (b :: tail) left hbroken (hleft hrest)

theorem shows_characters (bytes : List Byte) :
    Shows bytes ((characters bytes).map (·.getD replacement)) := by
  induction bytes using cut_induction with
  | nil =>
      rw [characters]
      exact .nil
  | char c rest ih =>
      rw [characters_encode]
      exact .char c ih
  | broken part rest hbroken ih =>
      rw [characters_broken hbroken]
      exact .broken hbroken ih

theorem Shows.eq_characters {bytes : List Byte} {text : List Char} (h : Shows bytes text) :
    text = (characters bytes).map (·.getD replacement) := by
  induction h with
  | nil =>
      rw [characters]
      rfl
  | char c h ih =>
      rw [characters_encode, List.map_cons, ← ih]
      rfl
  | broken hbroken h ih =>
      rw [characters_broken hbroken, List.map_cons, ← ih]
      rfl

/-- One text is shown for bytes, and it is what they are read as. -/
theorem shows_iff {bytes : List Byte} {text : String} :
    Shows bytes text.toList ↔ text = lossy bytes := by
  constructor
  · intro h
    rw [lossy, ← h.eq_characters, String.ofList_toList]
  · rintro rfl
    rw [lossy, String.toList_ofList]
    exact shows_characters bytes

example : lossy [0x48, 0xE2, 0x82, 0xAC, 0xE2, 0x82, 0x21, 0x80] = "H\u20ac\ufffd!\ufffd" := by
  decide +kernel

/-- No bytes show as no text, and only they do. -/
theorem lossy_eq_empty_iff {bytes : List Byte} : lossy bytes = "" ↔ bytes = [] := by
  rw [lossy, String.ofList_eq_empty_iff, List.map_eq_nil_iff]
  cases bytes with
  | nil => simp [characters]
  | cons b rest => simp [characters]

/-! ### Bytes that are a text -/

theorem characters_flatMap (text : List Char) :
    characters (text.flatMap utf8EncodeChar) = text.map some := by
  induction text with
  | nil => rw [List.flatMap_nil, characters]; rfl
  | cons c text ih => rw [List.flatMap_cons, characters_encode, ih, List.map_cons]

theorem eq_flatMap_of_characters {bytes : List Byte} : ∀ {text : List Char},
    characters bytes = text.map some → bytes = text.flatMap utf8EncodeChar := by
  induction bytes using cut_induction with
  | nil =>
      intro text h
      rw [characters] at h
      rw [List.map_eq_nil_iff.mp h.symm, List.flatMap_nil]
  | char c rest ih =>
      intro text h
      rw [characters_encode] at h
      obtain ⟨d, text, rfl, hd, hrest⟩ := List.map_eq_cons_iff.mp h.symm
      rw [List.flatMap_cons, Option.some.inj hd, ← ih hrest.symm]
  | broken part rest hbroken ih =>
      intro text h
      rw [characters_broken hbroken] at h
      obtain ⟨d, text, rfl, hd, -⟩ := List.map_eq_cons_iff.mp h.symm
      cases hd

theorem mapM_id_eq_some_iff {items : List (Option Char)} : ∀ {text : List Char},
    items.mapM id = some text ↔ items = text.map some := by
  induction items with
  | nil => intro text; rw [List.mapM_nil, eq_comm (a := [])]; simp
  | cons item items ih =>
      intro text
      rw [List.mapM_cons, eq_comm (a := item :: items), List.map_eq_cons_iff]
      simp only [id, bind, Option.bind_eq_some_iff, ih, pure, Option.some.injEq]
      constructor
      · rintro ⟨c, rfl, rest, rfl, rfl⟩
        exact ⟨c, rest, rfl, rfl, rfl⟩
      · rintro ⟨c, rest, rfl, rfl, rfl⟩
        exact ⟨c, rfl, rest, rfl, rfl⟩

/-- Bytes are a text if they are the bytes of the text. -/
theorem decode_eq_some_iff {bytes : List Byte} {text : String} :
    decode bytes = some text ↔ bytes = encode text := by
  unfold decode encode
  simp only [Option.map_eq_some_iff, mapM_id_eq_some_iff]
  constructor
  · rintro ⟨chars, h, rfl⟩
    rw [String.toList_ofList]
    exact eq_flatMap_of_characters h
  · rintro rfl
    exact ⟨text.toList, characters_flatMap _, String.ofList_toList⟩

end Sm83.Utf8
