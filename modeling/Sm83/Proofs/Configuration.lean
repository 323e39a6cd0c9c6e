/-
A configuration file counts as a whole or not at all.

A debugging session that a file has set up in part would be worse than one with the defaults,
because it looks like the one that was asked for.  So what a file makes of a configuration is
described here by relations: which values stand for which settings, what each key has in a document,
and which configurations obey a document.  Either every key that is there has a value that it can
have, and then the configuration is one that obeys, or everything is as if there were no file.

It is not so for one value.  A point in time in the place of the breakpoints should be refused like
every other value that is no table.  Instead it is taken for a table that has none of the keys, and
whatever else is in the file counts, while the breakpoints are lost.

An array in that place is left out.  It would be read as the lists in the order of their keys.
-/
import Mathlib.Data.List.Forall2
import Sm83.Config
import Sm83.Proofs.Utf8

namespace Sm83

/-! ### What a value says -/

namespace Config

open Toml (Value Entries)

/-- A value stands for an address, as a number or as a text. -/
inductive Spells : Value → Word → Prop
  | integer (w : Word) : Spells (.integer w.toNat) w
  | text {s : String} {w : Word} (h : Address.parse s = .ok w) : Spells (.string s) w

/-- A value stands for a list of addresses, of the same length and in the same order. -/
def SpellsAll (v : Value) (addrs : List Word) : Prop :=
  ∃ items, v.items? = some items ∧ List.Forall₂ Spells items addrs

/-- A value stands for a number of steps. -/
def Counts (v : Value) (n : Nat) : Prop := v = .integer n ∧ n < UInt64.size

theorem address?_integer_eq_some_iff {n : Int} {w : Word} :
    address? (.integer n) = some w ↔ n = w.toNat := by
  have hw : w.toNat < 65536 := w.toNat_lt
  show (if 0 ≤ n && n < addressSpace then some (UInt16.ofNat n.toNat) else none) = some w ↔ _
  rw [Option.ite_none_right_eq_some, Option.some.injEq, ← UInt16.toNat_inj, UInt16.toNat_ofNat',
    Bool.and_eq_true, decide_eq_true_eq, decide_eq_true_eq]
  show (0 ≤ n ∧ n < 65536) ∧ n.toNat % 65536 = w.toNat ↔ n = w.toNat
  omega

theorem address?_string_eq_some_iff {s : String} {w : Word} :
    address? (.string s) = some w ↔ Address.parse s = .ok w := by
  show (Address.parse s).toOption = some w ↔ _
  cases Address.parse s with
  | ok u => exact ⟨fun h => congrArg _ (Option.some.inj h), fun h => congrArg _ (Except.ok.inj h)⟩
  | error e => exact ⟨fun h => (nomatch h), fun h => (nomatch h)⟩

theorem address?_eq_some_iff {v : Value} {w : Word} : address? v = some w ↔ Spells v w := by
  constructor
  · intro h
    cases v with
    | integer n =>
        rw [address?_integer_eq_some_iff.mp h]
        exact .integer w
    | string s => exact .text (address?_string_eq_some_iff.mp h)
    | _ => cases h
  · rintro (w | hparse)
    · exact address?_integer_eq_some_iff.mpr rfl
    · exact address?_string_eq_some_iff.mpr hparse

theorem steps?_eq_some_iff {v : Value} {n : Nat} : steps? v = some n ↔ Counts v n := by
  constructor
  · intro h
    cases v with
    | integer m =>
        replace h : (if 0 ≤ m && m.toNat < UInt64.size then some m.toNat else none) = some n := h
        rw [Option.ite_none_right_eq_some, Option.some.injEq, Bool.and_eq_true,
          decide_eq_true_eq, decide_eq_true_eq] at h
        obtain ⟨⟨hpos, hfits⟩, rfl⟩ := h
        exact ⟨congrArg _ (Int.toNat_of_nonneg hpos).symm, hfits⟩
    | _ => cases h
  · rintro ⟨rfl, hfits⟩
    show (if 0 ≤ (n : Int) && n < UInt64.size then some n else none) = some n
    rw [if_pos]
    simp [hfits]

theorem boolean?_eq_some_iff {v : Value} {b : Bool} : boolean? v = some b ↔ v = .boolean b := by
  cases v with
  | boolean a =>
      exact ⟨fun h => congrArg _ (Option.some.inj h), fun h => by cases h; rfl⟩
  | _ => exact ⟨fun h => (nomatch h), fun h => (nomatch h)⟩

theorem mapM_eq_some_iff {α β : Type} {f : α → Option β} {xs : List α} : ∀ {ys : List β},
    xs.mapM f = some ys ↔ List.Forall₂ (fun x y => f x = some y) xs ys := by
  induction xs with
  | nil =>
      intro ys
      rw [List.forall₂_nil_left_iff, List.mapM_nil]
      exact ⟨fun h => (Option.some.inj h).symm, fun h => by rw [h]; rfl⟩
  | cons x xs ih =>
      intro ys
      rw [List.forall₂_cons_left_iff, List.mapM_cons]
      simp only [bind, Option.bind_eq_some_iff, ih, pure, Option.some.injEq]
      constructor
      · rintro ⟨y, hy, rest, hrest, rfl⟩
        exact ⟨y, rest, hy, hrest, rfl⟩
      · rintro ⟨y, rest, hy, hrest, rfl⟩
        exact ⟨y, hy, rest, hrest, rfl⟩

theorem addresses?_eq_some_iff {v : Value} {addrs : List Word} :
    addresses? v = some addrs ↔ SpellsAll v addrs := by
  unfold addresses? SpellsAll
  simp only [bind, Option.bind_eq_some_iff, mapM_eq_some_iff, address?_eq_some_iff]

/-! ### What the keys hold -/

/-- The lists of breakpoints, by the accesses that they are about. -/
inductive ListKey where
  | read
  | write
  | jump

def ListKey.name : ListKey → String
  | read => "read"
  | write => "write"
  | jump => "jump"

/-- The keys of a configuration; all others do not count. -/
inductive Key where
  | start
  | steps
  | permissive
  | breakpoints
  | list (k : ListKey)

namespace Key

/-- What a document has for a key; the lists are looked for in the table of breakpoints. -/
def value? (entries : Entries) : Key → Option Value
  | start => entries.get? "start"
  | steps => entries.get? "steps"
  | permissive => entries.get? "permissive"
  | breakpoints => entries.get? "breakpoints"
  | list k =>
    match entries.get? "breakpoints" with
    | some (.table _ inner) => Entries.get? inner k.name
    | _ => none

/-- Whether a value is one that a key can have. -/
def Admits : Key → Value → Prop
  | start, v => ∃ w, Spells v w
  | steps, v => ∃ n, Counts v n
  | permissive, v => ∃ b, v = .boolean b
  | breakpoints, v => ∃ origin inner, v = .table origin inner
  | list _, v => ∃ items, v.items? = some items ∧ ∀ item ∈ items, ∃ w, Spells item w

end Key

/-- What a key is set to: what its value says, or the default if it has none. -/
def Entered {α : Type} (entry : Option Value) (means : Value → α → Prop) (default a : α) : Prop :=
  match entry with
  | some v => means v a
  | none => a = default

end Config

/-- The breakpoints for one kind of access, in the order they are listed. -/
def Breakpoints.list (b : Breakpoints) : Config.ListKey → List Word
  | .read => b.read
  | .write => b.write
  | .jump => b.jump

namespace Config

open Toml (Value Entries)

/-- A configuration is what a document says, with the defaults where it says nothing. -/
structure Obeys (entries : Entries) (c : Config) : Prop where
  start : Entered (Key.start.value? entries) (fun v s => ∃ w, s = some w ∧ Spells v w)
    default.start c.start
  steps : Entered (Key.steps.value? entries) Counts default.steps c.steps
  permissive : Entered (Key.permissive.value? entries) (fun v b => v = .boolean b)
    default.permissive c.permissive
  lists : ∀ k, Entered ((Key.list k).value? entries) SpellsAll
    (default.breakpoints.list k) (c.breakpoints.list k)

variable {α : Type} {means : Value → α → Prop}

theorem orDefault_eq_some_iff {read : Value → Option α}
    (hread : ∀ v a, read v = some a ↔ means v a) {default a : α} (entry : Option Value) :
    orDefault read default entry = some a ↔ Entered entry means default a := by
  cases entry with
  | none => exact ⟨fun h => (Option.some.inj h).symm, fun h => congrArg some h.symm⟩
  | some v => exact hread v a

/-- A key that is there is set to what its value says. -/
theorem Entered.of_some {entry : Option Value} {default a : α} (h : Entered entry means default a)
    {v : Value} (hv : entry = some v) : means v a := by
  rw [hv] at h
  exact h

/-- A key whose value is one that it can have can be set to something. -/
theorem exists_entered {entry : Option Value} (h : ∀ v, entry = some v → ∃ a, means v a)
    (default : α) : ∃ a, Entered entry means default a := by
  cases entry with
  | none => exact ⟨default, rfl⟩
  | some v => exact h v rfl

/-- Items are a list of addresses if they are addresses one by one. -/
theorem exists_forall₂_iff {items : List Value} :
    (∃ addrs, List.Forall₂ Spells items addrs) ↔ ∀ item ∈ items, ∃ w, Spells item w := by
  induction items with
  | nil => exact ⟨fun _ _ hitem => absurd hitem List.not_mem_nil, fun _ => ⟨[], .nil⟩⟩
  | cons item rest ih =>
      rw [List.forall_mem_cons, ← ih]
      constructor
      · rintro ⟨_, _ | ⟨hw, hrest⟩⟩
        exact ⟨⟨_, hw⟩, _, hrest⟩
      · rintro ⟨⟨w, hw⟩, addrs, hrest⟩
        exact ⟨w :: addrs, .cons hw hrest⟩

theorem exists_spellsAll_iff {k : ListKey} {v : Value} :
    (∃ addrs, SpellsAll v addrs) ↔ (Key.list k).Admits v := by
  simp only [Key.Admits, ← exists_forall₂_iff]
  constructor
  · rintro ⟨addrs, items, hitems, hall⟩
    exact ⟨items, hitems, addrs, hall⟩
  · rintro ⟨items, hitems, addrs, hall⟩
    exact ⟨addrs, items, hitems, hall⟩

theorem lists?_eq_some_iff {read write jump : Option Value} {b : Breakpoints} :
    lists? read write jump = some b ↔ Entered read SpellsAll [] b.read ∧
      Entered write SpellsAll [] b.write ∧ Entered jump SpellsAll [] b.jump := by
  have haddrs : ∀ v addrs, addresses? v = some addrs ↔ SpellsAll v addrs :=
    fun _ _ => addresses?_eq_some_iff
  unfold lists?
  simp only [bind, Option.bind_eq_some_iff, pure, Option.some.injEq,
    orDefault_eq_some_iff haddrs]
  constructor
  · rintro ⟨r, hr, w, hw, j, hj, rfl⟩
    exact ⟨hr, hw, hj⟩
  · rintro ⟨hr, hw, hj⟩
    exact ⟨_, hr, _, hw, _, hj, rfl⟩

/-- Three lists of breakpoints are what is entered for each of them. -/
theorem forall_list_iff {entry : ListKey → Option Value} {b : Breakpoints} :
    (∀ k, Entered (entry k) SpellsAll (default.breakpoints.list k) (b.list k)) ↔
      lists? (entry .read) (entry .write) (entry .jump) = some b := by
  rw [lists?_eq_some_iff]
  constructor
  · exact fun h => ⟨h .read, h .write, h .jump⟩
  · rintro ⟨hr, hw, hj⟩ k
    cases k with
    | read => exact hr
    | write => exact hw
    | jump => exact hj

/-- Where there is no array, breakpoints are a table or a point in time, and what the lists hold. -/
theorem breakpoints_eq_some_iff {entries : Entries} {b : Breakpoints}
    (harray : ∀ v, entries.get? "breakpoints" = some v → v.items? = none) :
    orDefault breakpoints? default.breakpoints (entries.get? "breakpoints") = some b ↔
      (∀ v, Key.breakpoints.value? entries = some v →
        Key.breakpoints.Admits v ∨ v = .datetime) ∧
      ∀ k, Entered ((Key.list k).value? entries) SpellsAll
        (default.breakpoints.list k) (b.list k) := by
  simp only [Key.value?, forall_list_iff]
  generalize entries.get? "breakpoints" = holder at harray ⊢
  cases holder with
  | none => exact (and_iff_right fun v hv => (nomatch hv)).symm
  | some v =>
      cases v with
      | table origin inner =>
          refine (and_iff_right fun v hv => ?_).symm
          exact Or.inl ⟨origin, inner, (Option.some.inj hv).symm⟩
      | datetime =>
          refine (and_iff_right fun v hv => ?_).symm
          exact Or.inr (Option.some.inj hv).symm
      | array items => exact absurd (harray _ rfl) (by simp [Value.items?])
      | tables latestFirst => exact absurd (harray _ rfl) (by simp [Value.items?])
      | _ =>
          refine ⟨fun h => (nomatch h), fun h => ?_⟩
          obtain ⟨_, _, hv⟩ | hv := h.1 _ rfl <;> cases hv

/-! ### What a file makes of a configuration -/

/-- A document makes the configuration that it describes, if each key has a value that it can. -/
theorem ofEntries?_eq_some_iff {entries : Entries} {c : Config}
    (harray : ∀ v, entries.get? "breakpoints" = some v → v.items? = none) :
    ofEntries? entries = some c ↔
      (∀ v, Key.breakpoints.value? entries = some v →
        Key.breakpoints.Admits v ∨ v = .datetime) ∧ Obeys entries c := by
  have hstart : ∀ v s, (address? v).map some = some s ↔ ∃ w, s = some w ∧ Spells v w := by
    intro v s
    rw [Option.map_eq_some_iff]
    constructor
    · rintro ⟨w, hw, rfl⟩
      exact ⟨w, rfl, address?_eq_some_iff.mp hw⟩
    · rintro ⟨w, rfl, hw⟩
      exact ⟨w, address?_eq_some_iff.mpr hw, rfl⟩
  unfold ofEntries?
  simp only [bind, Option.bind_eq_some_iff, pure, Option.some.injEq,
    orDefault_eq_some_iff hstart, orDefault_eq_some_iff (fun _ _ => steps?_eq_some_iff),
    orDefault_eq_some_iff (fun _ _ => boolean?_eq_some_iff), breakpoints_eq_some_iff harray]
  constructor
  · rintro ⟨start, hs, steps, hn, permissive, hp, b, ⟨hb, hl⟩, rfl⟩
    exact ⟨hb, hs, hn, hp, hl⟩
  · rintro ⟨hb, hs, hn, hp, hl⟩
    exact ⟨_, hs, _, hn, _, hp, _, ⟨hb, hl⟩, rfl⟩

/-- Each key can be set if its value can be; the breakpoints are set list by list. -/
theorem exists_obeys {entries : Entries} (h : ∀ key v, key ≠ .breakpoints →
    Key.value? entries key = some v → key.Admits v) : ∃ c, Obeys entries c := by
  have hstart : ∀ v, Key.start.value? entries = some v → ∃ s, ∃ w, s = some w ∧ Spells v w := by
    intro v hv
    obtain ⟨w, hw⟩ := h .start v (by simp) hv
    exact ⟨some w, w, rfl, hw⟩
  obtain ⟨start, hs⟩ := exists_entered hstart default.start
  obtain ⟨steps, hn⟩ := exists_entered (h .steps · (by simp)) default.steps
  obtain ⟨permissive, hp⟩ := exists_entered (h .permissive · (by simp)) default.permissive
  have hlist : ∀ k, ∃ addrs, Entered ((Key.list k).value? entries) SpellsAll
      (default.breakpoints.list k) addrs :=
    fun k => exists_entered (fun v hv => exists_spellsAll_iff.mpr (h (.list k) v (by simp) hv)) _
  obtain ⟨read, hread⟩ := hlist .read
  obtain ⟨write, hwrite⟩ := hlist .write
  obtain ⟨jump, hjump⟩ := hlist .jump
  refine ⟨⟨start, steps, permissive, ⟨read, write, jump⟩⟩, hs, hn, hp, fun k => ?_⟩
  cases k with
  | read => exact hread
  | write => exact hwrite
  | jump => exact hjump

/-- A configuration that obeys a document is set to what each key but the breakpoints has in it. -/
theorem Obeys.admits {entries : Entries} {c : Config} (h : Obeys entries c) {key : Key}
    (hkey : key ≠ .breakpoints) {v : Value} (hv : key.value? entries = some v) :
    key.Admits v := by
  cases key with
  | start =>
      obtain ⟨w, -, hw⟩ := h.start.of_some hv
      exact ⟨w, hw⟩
  | steps => exact ⟨_, h.steps.of_some hv⟩
  | permissive => exact ⟨_, h.permissive.of_some hv⟩
  | breakpoints => exact absurd rfl hkey
  | list k => exact exists_spellsAll_iff.mp ⟨_, (h.lists k).of_some hv⟩

/-- There is a file, it holds the bytes of a text, and the text is taken for a document. -/
def Holds (read : String → Option Entries) (file : Option (List Byte)) (entries : Entries) : Prop :=
  ∃ text, file = some (Utf8.encode text) ∧ read text = some entries

theorem holds_iff {read : String → Option Entries} {file : Option (List Byte)} {entries : Entries} :
    Holds read file entries ↔ (file.bind Utf8.decode).bind read = some entries := by
  simp only [Holds, Option.bind_eq_some_iff, Utf8.decode_eq_some_iff]
  constructor
  · rintro ⟨text, hfile, hread⟩
    exact ⟨text, ⟨_, hfile, rfl⟩, hread⟩
  · rintro ⟨text, ⟨bytes, hfile, rfl⟩, hread⟩
    exact ⟨text, hfile, hread⟩

/-- A file counts by the document in it. -/
theorem loadWith_eq (read : String → Option Entries) (file : Option (List Byte)) :
    loadWith read file = (((file.bind Utf8.decode).bind read).bind ofEntries?).getD default := by
  unfold loadWith ofBytes?
  rw [Option.bind_assoc, Option.bind_assoc]
  rfl

theorem loadWith_of_holds {read : String → Option Entries} {file : Option (List Byte)}
    {entries : Entries} (h : Holds read file entries) :
    loadWith read file = (ofEntries? entries).getD default := by
  rw [loadWith_eq, holds_iff.mp h, Option.bind_some]

theorem loadWith_of_not_holds {read : String → Option Entries} {file : Option (List Byte)}
    (h : ¬ ∃ entries, Holds read file entries) : loadWith read file = default := by
  have hnone : (file.bind Utf8.decode).bind read = none :=
    Option.eq_none_iff_forall_ne_some.mpr fun entries he => h ⟨entries, holds_iff.mpr he⟩
  rw [loadWith_eq, hnone]
  rfl

/-- The same addresses are in a set of breakpoints and in its list. -/
theorem mem_canonical_iff (b : Breakpoints) (k : ListKey) (addr : Word) :
    addr ∈ b.canonical.list k ↔ addr ∈ b.list k := by
  cases k <;> simp [Breakpoints.canonical, Breakpoints.list]

/-- A file counts if each key has a value that it can, or the breakpoints are a point in time. -/
theorem obeys_loadWith {read : String → Option Entries} {file : Option (List Byte)}
    {entries : Entries} (hread : Holds read file entries)
    (harray : ∀ v, Key.breakpoints.value? entries = some v → v.items? = none)
    (hbreakpoints : ∀ v, Key.breakpoints.value? entries = some v →
      Key.breakpoints.Admits v ∨ v = .datetime)
    (hothers : ∀ key v, key ≠ .breakpoints → Key.value? entries key = some v → key.Admits v) :
    Obeys entries (loadWith read file) := by
  obtain ⟨c, hc⟩ := exists_obeys hothers
  rw [loadWith_of_holds hread, (ofEntries?_eq_some_iff harray).mpr ⟨hbreakpoints, hc⟩]
  exact hc

/-- A file counts for nothing if some key has a value that it cannot and that is not let through. -/
theorem loadWith_of_not_admits {read : String → Option Entries} {file : Option (List Byte)}
    {entries : Entries} (hread : Holds read file entries)
    (harray : ∀ v, Key.breakpoints.value? entries = some v → v.items? = none)
    {key : Key} {v : Value} (hv : key.value? entries = some v) (hrefused : ¬ key.Admits v)
    (hdate : key = .breakpoints → v ≠ .datetime) : loadWith read file = default := by
  have hnone : ofEntries? entries = none := by
    refine Option.eq_none_iff_forall_ne_some.mpr fun c hc => hrefused ?_
    obtain ⟨hbreakpoints, hobeys⟩ := (ofEntries?_eq_some_iff harray).mp hc
    by_cases hkey : key = .breakpoints
    · subst hkey
      exact (hbreakpoints v hv).resolve_right (hdate rfl)
    · exact hobeys.admits hkey hv
  rw [loadWith_of_holds hread, hnone]
  rfl

/--
**A configuration file counts as a whole or not at all.**

Whatever `read` takes for a document: without a file, or if the file is no text or the text no
document, everything is the default.  Of a document in which the breakpoints are neither an array
nor a point in time, a single value that its key cannot have makes everything the default, however
deep in a list it is.  If there is no such value, the configuration is what the document has for each
key, with the default for each key that is missing, and nothing else in the document counts.

Then the lists are as long as in the document and in the same order.  Where an address stands, its
text and its number are the same; and an address is in a set of breakpoints if it is in the list.

If the breakpoints are a point in time, the other keys count as if there were none.
-/
theorem load_all_or_nothing (read : String → Option Entries) (file : Option (List Byte)) :
    ((¬ ∃ entries, Holds read file entries) → loadWith read file = default) ∧
    (∀ entries, Holds read file entries →
      (∀ v, Key.breakpoints.value? entries = some v → v.items? = none ∧ v ≠ .datetime) →
      (∀ key v, Key.value? entries key = some v → ¬ key.Admits v →
        loadWith read file = default) ∧
      ((∀ key v, Key.value? entries key = some v → key.Admits v) →
        Obeys entries (loadWith read file))) ∧
    (∀ s w, Address.parse s = .ok w →
      address? (.string s) = some w ∧ address? (.integer w.toNat) = some w) ∧
    (∀ k addr, addr ∈ (loadWith read file).breakpoints.canonical.list k ↔
      addr ∈ (loadWith read file).breakpoints.list k) ∧
    ∀ entries, Holds read file entries → Key.breakpoints.value? entries = some .datetime →
      (∀ key v, key ≠ .breakpoints → Key.value? entries key = some v → ¬ key.Admits v →
        loadWith read file = default) ∧
      ((∀ key v, key ≠ .breakpoints → Key.value? entries key = some v → key.Admits v) →
        Obeys entries (loadWith read file)) := by
  refine ⟨loadWith_of_not_holds, fun entries hread hplain => ?_, fun s w hparse => ?_,
    mem_canonical_iff _, fun entries hread hdate => ?_⟩
  · have harray := fun v hv => (hplain v hv).1
    refine ⟨fun key v hv hrefused => ?_, fun h => ?_⟩
    · refine loadWith_of_not_admits hread harray hv hrefused fun hkey => ?_
      subst hkey
      exact (hplain v hv).2
    · exact obeys_loadWith hread harray (fun v hv => .inl (h _ v hv)) fun key v _ hv => h key v hv
  · exact ⟨address?_string_eq_some_iff.mpr hparse, address?_integer_eq_some_iff.mpr rfl⟩
  · have hsame : ∀ v, Key.breakpoints.value? entries = some v → v = .datetime :=
      fun v hv => Option.some.inj (hv.symm.trans hdate)
    have harray : ∀ v, Key.breakpoints.value? entries = some v → v.items? = none := by
      intro v hv
      rw [hsame v hv]
      rfl
    refine ⟨fun key v hkey hv hrefused => ?_, fun h => ?_⟩
    · exact loadWith_of_not_admits hread harray hv hrefused fun hc => absurd hc hkey
    · exact obeys_loadWith hread harray (fun v hv => .inr (hsame v hv)) h

/-! ### Some files -/

/-- A document with breakpoints at two addresses, of which the second one is a text. -/
def listing (second : String) : Entries :=
  [("start", .string "$0150"), ("colour", .string "green"), ("steps", .integer 500),
    ("breakpoints", .table .header [("read", .array [.integer 65284, .string second])])]

/-- The document as it is written. -/
def written (second : String) : String :=
  "start = \"$0150\"\ncolour = \"green\"\nsteps = 500\n\n[breakpoints]\nread = [65284, \"" ++
    second ++ "\"]\n"

/-- Takes one text for a document, and no other text for any. -/
def readOnly (text : String) (entries : Entries) (other : String) : Option Entries :=
  if other = text then some entries else none

theorem holds_readOnly (text : String) (entries : Entries) :
    Holds (readOnly text entries) (some (Utf8.encode text)) entries :=
  ⟨text, rfl, if_pos rfl⟩

example : load (some (Utf8.encode (written "0xFF0F"))) =
    { start := some 0x0150, steps := 500, permissive := true,
      breakpoints := { read := [0xFF04, 0xFF0F], write := [], jump := [] } } := by
  decide +kernel

theorem value?_listing (second : String) (key : Key) : key.value? (listing second) =
    match key with
    | .start => some (.string "$0150")
    | .steps => some (.integer 500)
    | .breakpoints => some (.table .header [("read", .array [.integer 65284, .string second])])
    | .list .read => some (.array [.integer 65284, .string second])
    | _ => none := by
  rcases key with _ | _ | _ | _ | (_ | _ | _) <;>
    simp [Key.value?, Entries.get?, List.lookup_cons, listing, ListKey.name]

theorem plain_listing {second : String} {v : Value}
    (hv : Key.breakpoints.value? (listing second) = some v) : v.items? = none ∧ v ≠ .datetime := by
  rw [value?_listing] at hv
  obtain rfl := Option.some.inj hv
  exact ⟨rfl, fun h => (nomatch h)⟩

theorem admits_listing {second : String} {w : Word} (hsecond : Address.parse second = .ok w)
    {key : Key} {v : Value} (hv : key.value? (listing second) = some v) : key.Admits v := by
  rw [value?_listing] at hv
  match key, hv with
  | .start, rfl => exact ⟨0x0150, .text (address?_string_eq_some_iff.mp (by decide))⟩
  | .steps, rfl => exact ⟨500, rfl, by decide⟩
  | .breakpoints, rfl => exact ⟨_, _, rfl⟩
  | .list .read, rfl =>
      refine ⟨_, rfl, List.forall_mem_cons.mpr ⟨?_, List.forall_mem_singleton.mpr ?_⟩⟩
      · exact ⟨65284, .integer 65284⟩
      · exact ⟨w, .text hsecond⟩

theorem not_admits_listing {second : String} (hsecond : ∀ w, Address.parse second ≠ .ok w) :
    ∃ v, (Key.list .read).value? (listing second) = some v ∧ ¬ (Key.list .read).Admits v := by
  refine ⟨_, value?_listing second (.list .read), ?_⟩
  rintro ⟨items, hitems, hall⟩
  obtain rfl := Option.some.inj hitems
  obtain ⟨w, hw⟩ := hall (.string second) (List.mem_cons_of_mem _ List.mem_cons_self)
  exact hsecond w (address?_string_eq_some_iff.mp (address?_eq_some_iff.mpr hw))

/-- A document in which the breakpoints are a day. -/
def dayEntries : Entries := [("steps", .integer 5), ("breakpoints", .datetime)]

/-- The document as it is written. -/
def day : String := "steps = 5\nbreakpoints = 1979-05-27"

theorem value?_day (key : Key) : key.value? dayEntries =
    match key with
    | .steps => some (.integer 5)
    | .breakpoints => some .datetime
    | _ => none := by
  rcases key with _ | _ | _ | _ | (_ | _ | _) <;>
    simp [Key.value?, Entries.get?, List.lookup_cons, dayEntries]

theorem admits_day {key : Key} {v : Value} (hkey : key ≠ .breakpoints)
    (hv : key.value? dayEntries = some v) : key.Admits v := by
  rw [value?_day] at hv
  match key, hv with
  | .steps, rfl => exact ⟨5, rfl, by decide⟩
  | .breakpoints, _ => exact absurd rfl hkey

/-- No file, one that obeys, one in which a single address is too large, and the day. -/
theorem load_all_or_nothing_listing :
    loadWith (readOnly (written "0xFF0F") (listing "0xFF0F")) none = default ∧
      Address.parse "0xFF0F" = .ok 0xFF0F ∧ address? (.integer 65295) = some 0xFF0F ∧
      Obeys (listing "0xFF0F") (loadWith (readOnly (written "0xFF0F") (listing "0xFF0F"))
        (some (Utf8.encode (written "0xFF0F")))) ∧
      loadWith (readOnly (written "0x1FF0F") (listing "0x1FF0F"))
        (some (Utf8.encode (written "0x1FF0F"))) = default ∧
      Obeys dayEntries (loadWith (readOnly day dayEntries) (some (Utf8.encode day))) := by
  have hparse : Address.parse "0xFF0F" = .ok 0xFF0F :=
    address?_string_eq_some_iff.mp (by decide)
  have hlarge : ∀ w, Address.parse "0x1FF0F" ≠ .ok w := by
    intro w hw
    rw [← address?_string_eq_some_iff, show address? (.string "0x1FF0F") = none by decide] at hw
    cases hw
  obtain ⟨v, hv, hrefused⟩ := not_admits_listing hlarge
  refine ⟨?_, hparse, ?_, ?_, ?_, ?_⟩
  · refine (load_all_or_nothing _ none).1 ?_
    rintro ⟨entries, text, hfile, -⟩
    cases hfile
  · exact ((load_all_or_nothing (readOnly day dayEntries) none).2.2.1 _ _ hparse).2
  · exact ((load_all_or_nothing _ _).2.1 _ (holds_readOnly _ _) fun _ => plain_listing).2
      fun _ _ => admits_listing hparse
  · exact ((load_all_or_nothing _ _).2.1 _ (holds_readOnly _ _) fun _ => plain_listing).1
      _ v hv hrefused
  · exact ((load_all_or_nothing _ _).2.2.2.2 _ (holds_readOnly _ _)
      (value?_day .breakpoints)).2 fun _ _ => admits_day

/-- A day is no value for breakpoints, and yet the number of steps counts. -/
theorem date_for_breakpoints :
    Holds (readOnly day dayEntries) (some (Utf8.encode day)) dayEntries ∧
      Key.breakpoints.value? dayEntries = some .datetime ∧
      Value.items? .datetime = none ∧ ¬ Key.breakpoints.Admits .datetime ∧
      loadWith (readOnly day dayEntries) (some (Utf8.encode day)) = { default with steps := 5 } ∧
      loadWith (readOnly day dayEntries) (some (Utf8.encode day)) ≠ default := by
  have hsteps : loadWith (readOnly day dayEntries) (some (Utf8.encode day)) =
      { default with steps := 5 } := by
    rw [loadWith_of_holds (holds_readOnly _ _)]
    rfl
  refine ⟨holds_readOnly _ _, value?_day .breakpoints, rfl, ?_, hsteps, ?_⟩
  · rintro ⟨origin, inner, h⟩
    cases h
  · rw [hsteps]
    decide

example : load (some (Utf8.encode day)) = { default with steps := 5 } := by decide +kernel

end Config

end Sm83
