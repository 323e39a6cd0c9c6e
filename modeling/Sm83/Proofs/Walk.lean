/-
What the walk finds.

The addresses that a walk comes to are the least set that holds the entry point and every
address that an instruction in the set leads to.  Three facts make up the proof.

  * The walk queues nothing outside that set, and nothing twice.  So it visits every address
    at most once, and there are only so many addresses: it comes to an end.
  * An instruction is followed when it is visited.  So whatever has been visited has all it
    leads to queued.
  * At the end nothing is left in the queue that has an instruction.  So the set of what was
    queued is closed, and holds the least set.

An address without an instruction leads nowhere, and is passed over when its turn comes.
-/
import Sm83.Disassembly
import Sm83.Proofs.Step
import Mathlib.Data.List.Nodup
import Mathlib.Data.List.Perm.Subperm

namespace Sm83

variable {M : Type} [Memory M]

/-! ### What is reached -/

namespace Instruction

/-- Where control goes from an instruction, as far as it is followed. -/
inductive LeadsTo (permissive : Bool) (i : Instruction) : Word → Prop
  | next (h : i.flow = .next) : LeadsTo permissive i i.next
  | direct {target : Word}
      (h : i.flow = .jump target ∨ i.flow = .call target ∨ i.flow = .restart target) :
      LeadsTo permissive i target
  | past (h : ∃ target, i.flow = .conditionalJump target ∨ i.flow = .conditionalCall target) :
      LeadsTo permissive i i.next
  | through {target : Word}
      (h : i.flow = .conditionalJump target ∨ i.flow = .conditionalCall target)
      (hp : permissive = true) : LeadsTo permissive i target

variable {permissive : Bool} {i : Instruction} {addr : Word}

/-- Whoever is strict follows no way that the permissive do not follow. -/
theorem LeadsTo.of_strict (h : i.LeadsTo false addr) : i.LeadsTo true addr := by
  cases h with
  | next h => exact .next h
  | direct h => exact .direct h
  | past h => exact .past h
  | through _ hp => exact absurd hp (by simp)

theorem mem_successors : addr ∈ i.successors permissive ↔ i.LeadsTo permissive addr := by
  constructor
  · intro h
    cases hflow : i.flow with
    | next =>
        have haddr : addr = i.next := by simpa [successors, hflow] using h
        exact haddr ▸ .next hflow
    | jump target | call target | restart target =>
        have haddr : addr = target := by simpa [successors, hflow] using h
        exact haddr ▸ .direct (by simp [hflow])
    | conditionalJump target | conditionalCall target =>
        have hcond : i.flow = .conditionalJump target ∨ i.flow = .conditionalCall target := by
          simp [hflow]
        have haddr : addr = i.next ∨ (addr = target ∧ permissive = true) := by
          cases permissive <;> simpa [successors, hflow, or_comm] using h
        rcases haddr with haddr | ⟨haddr, hp⟩
        · exact haddr ▸ .past ⟨target, hcond⟩
        · exact haddr ▸ .through hcond hp
    | stop => simp [successors, hflow] at h
  · intro h
    cases h with
    | next h => simp [successors, h]
    | direct h => rcases h with h | h | h <;> simp [successors, h]
    | past h =>
        obtain ⟨target, h⟩ := h
        cases permissive <;> rcases h with h | h <;> simp [successors, h]
    | through h hp => rcases h with h | h <;> simp [successors, h, hp]

end Instruction

namespace Disassembly

/-- The least set that holds the entry point and all that its instructions lead to. -/
inductive Reached (m : M) (permissive : Bool) (entry : Word) : Word → Prop
  | entry : Reached m permissive entry entry
  | step {addr next : Word} {i : Instruction} (h : Reached m permissive entry addr)
      (hi : Walk.instructionAt m addr = .ok i) (hnext : i.LeadsTo permissive next) :
      Reached m permissive entry next

theorem Reached.of_strict {m : M} {entry addr : Word} (h : Reached m false entry addr) :
    Reached m true entry addr := by
  induction h with
  | entry => exact .entry
  | step _ hi hnext ih => exact ih.step hi hnext.of_strict

end Disassembly

namespace Walk

open Disassembly (Reached)

/-! ### One address more in the queue -/

/-- Every address that was ever queued has been visited or still waits, and is so once. -/
structure Listed (w : Walk) (visited : List Word) : Prop where
  nodup : (visited ++ w.work).Nodup
  queued : ∀ addr, w.queued.contains addr = true ↔ addr ∈ visited ++ w.work

variable {w : Walk} {visited : List Word}

@[simp] theorem permissive_enqueue (w : Walk) (addr : Word) :
    (w.enqueue addr).permissive = w.permissive := by
  unfold enqueue
  split <;> rfl

@[simp] theorem contains_enqueue (w : Walk) (addr x : Word) :
    (w.enqueue addr).queued.contains x = true ↔ x = addr ∨ w.queued.contains x = true := by
  unfold enqueue
  split
  · rename_i hknown
    refine ⟨Or.inr, ?_⟩
    rintro (rfl | hx)
    · exact hknown
    · exact hx
  · exact AddressSet.contains_insert w.queued addr x

theorem Listed.enqueue (h : w.Listed visited) (addr : Word) : (w.enqueue addr).Listed visited := by
  unfold Walk.enqueue
  split
  · exact h
  · rename_i hnew
    have hperm : (visited ++ addr :: w.work).Perm (addr :: (visited ++ w.work)) :=
      List.perm_middle
    constructor
    · refine hperm.nodup_iff.mpr (List.nodup_cons.mpr ⟨?_, h.nodup⟩)
      exact fun hmem => hnew ((h.queued addr).mpr hmem)
    · intro x
      rw [AddressSet.contains_insert, h.queued x, hperm.mem_iff, List.mem_cons]

/-! ### One instruction followed -/

theorem foldl_enqueue (addrs : List Word) : ∀ w : Walk,
    (addrs.foldl Walk.enqueue w).permissive = w.permissive ∧
      ∀ x, (addrs.foldl Walk.enqueue w).queued.contains x = true ↔
        x ∈ addrs ∨ w.queued.contains x = true := by
  induction addrs with
  | nil => intro w; simp
  | cons addr rest ih =>
      intro w
      obtain ⟨hpermissive, hqueued⟩ := ih (w.enqueue addr)
      refine ⟨by simpa using hpermissive, fun x => ?_⟩
      rw [List.foldl_cons, hqueued x, contains_enqueue, List.mem_cons]
      tauto

theorem Listed.foldl (addrs : List Word) : ∀ {w : Walk}, w.Listed visited →
    (addrs.foldl Walk.enqueue w).Listed visited := by
  induction addrs with
  | nil => intro w h; exact h
  | cons addr rest ih => intro w h; exact ih (h.enqueue addr)

@[simp] theorem permissive_follow (w : Walk) (i : Instruction) :
    (w.follow i).permissive = w.permissive :=
  (foldl_enqueue (i.successors w.permissive) w).1

/-- To follow an instruction is to queue what it leads to. -/
theorem contains_follow (w : Walk) (i : Instruction) (x : Word) :
    (w.follow i).queued.contains x = true ↔
      i.LeadsTo w.permissive x ∨ w.queued.contains x = true := by
  rw [← Instruction.mem_successors]
  exact (foldl_enqueue (i.successors w.permissive) w).2 x

/-! ### What the walk knows while it runs -/

/-- What is known of a walk that has visited some addresses and is still under way. -/
structure Knows (m : M) (entry : Word) (permissive : Bool) (w : Walk) (visited : List Word) :
    Prop where
  mode : w.permissive = permissive
  listed : w.Listed visited
  entered : w.queued.contains entry = true
  reached : ∀ addr, w.queued.contains addr = true → Reached m permissive entry addr
  closed : ∀ addr ∈ visited, ∀ i, instructionAt m addr = .ok i →
    ∀ next, i.LeadsTo permissive next → w.queued.contains next = true

variable {m : M} {entry : Word} {permissive : Bool}

theorem knows_start (m : M) (entry : Word) (permissive : Bool) :
    Knows m entry permissive (start entry permissive) [] where
  mode := rfl
  listed := ⟨by simp [start], by simp [start]⟩
  entered := by simp [start]
  reached addr h := by
    have haddr : addr = entry := by simpa [start] using h
    exact haddr ▸ .entry
  closed addr h := absurd h List.not_mem_nil

/-- The instruction that a walk finds at an address, if there is one. -/
def found (m : M) (addr : Word) : Option Instruction := (instructionAt m addr).toOption

theorem found_eq_some_iff {addr : Word} {i : Instruction} :
    found m addr = some i ↔ instructionAt m addr = .ok i := by
  unfold found
  cases instructionAt m addr <;> simp [Except.toOption]

theorem addr_of_instructionAt {addr : Word} {i : Instruction}
    (h : instructionAt m addr = .ok i) : i.addr = addr := Instruction.addr_of_decode h

namespace Knows

variable {queued : AddressSet} {addr : Word} {work : List Word} {i : Instruction}

/-- An address without an instruction is passed over. -/
theorem skip (h : Knows m entry permissive ⟨permissive, addr :: work, queued⟩ visited)
    (hnone : ∀ i, instructionAt m addr ≠ .ok i) :
    Knows m entry permissive ⟨permissive, work, queued⟩ (visited ++ [addr]) where
  mode := rfl
  listed := by
    obtain ⟨hnodup, hqueued⟩ := h.listed
    exact ⟨by simpa using hnodup, by simpa using hqueued⟩
  entered := h.entered
  reached := h.reached
  closed x hx i hi := by
    rcases List.mem_append.mp hx with hx | hx
    · exact h.closed x hx i hi
    · rw [List.mem_singleton.mp hx] at hi
      exact absurd hi (hnone i)

/-- An address with an instruction is visited, and the instruction is followed. -/
theorem visit (h : Knows m entry permissive ⟨permissive, addr :: work, queued⟩ visited)
    (hi : instructionAt m addr = .ok i) :
    Knows m entry permissive (follow ⟨permissive, work, queued⟩ i) (visited ++ [addr]) := by
  have hlisted : Listed ⟨permissive, work, queued⟩ (visited ++ [addr]) := by
    obtain ⟨hnodup, hqueued⟩ := h.listed
    exact ⟨by simpa using hnodup, by simpa using hqueued⟩
  have haddr : queued.contains addr = true := (hlisted.queued addr).mpr (by simp)
  have hfollow := contains_follow ⟨permissive, work, queued⟩ i
  refine ⟨permissive_follow _ i, hlisted.foldl _, ?_, ?_, ?_⟩
  · exact (hfollow entry).mpr (Or.inr h.entered)
  · intro x hx
    rcases (hfollow x).mp hx with hlead | hx
    · exact (h.reached addr haddr).step hi hlead
    · exact h.reached x hx
  · intro x hx j hj next hnext
    rcases List.mem_append.mp hx with hx | hx
    · exact (hfollow next).mpr (Or.inr (h.closed x hx j hj next hnext))
    · rw [List.mem_singleton.mp hx, hi, Except.ok.injEq] at hj
      exact (hfollow next).mpr (Or.inl (hj ▸ hnext))

/-- One more instruction: some addresses are passed over, and the last one has it. -/
theorem nextFrom {after : Walk} (hnext : Walk.nextFrom m permissive queued work = some (i, after)) :
    ∀ {visited : List Word}, Knows m entry permissive ⟨permissive, work, queued⟩ visited →
      ∃ passed, Knows m entry permissive after (visited ++ passed) ∧
        passed.filterMap (found m) = [i] := by
  induction work with
  | nil => simp [Walk.nextFrom] at hnext
  | cons addr rest ih =>
      intro visited h
      rw [Walk.nextFrom] at hnext
      cases hi : instructionAt m addr with
      | ok j =>
          simp only [hi, Option.some.injEq, Prod.mk.injEq] at hnext
          obtain ⟨rfl, rfl⟩ := hnext
          refine ⟨[addr], h.visit hi, ?_⟩
          rw [List.filterMap_cons_some (found_eq_some_iff.mpr hi), List.filterMap_nil]
      | error fault =>
          simp only [hi] at hnext
          have hnone : ∀ j, instructionAt m addr ≠ .ok j := by simp [hi]
          obtain ⟨passed, hknows, hfound⟩ := ih hnext (h.skip hnone)
          refine ⟨addr :: passed, by simpa using hknows, ?_⟩
          rw [List.filterMap_cons_none (by simp [found, hi, Except.toOption]), hfound]

theorem next {w after : Walk} (h : Knows m entry permissive w visited)
    (hnext : w.next m = some (i, after)) :
    ∃ passed, Knows m entry permissive after (visited ++ passed) ∧
      passed.filterMap (found m) = [i] := by
  obtain ⟨mode, work, queued⟩ := w
  obtain rfl : mode = permissive := h.mode
  exact nextFrom hnext h

/-- As many instructions as one likes: they are those at the addresses visited meanwhile. -/
theorem take (n : Nat) : ∀ {w : Walk} {visited : List Word}, Knows m entry permissive w visited →
    ∃ passed, Knows m entry permissive (Walk.take m n w).2 (visited ++ passed) ∧
      (Walk.take m n w).1 = passed.filterMap (found m) := by
  induction n with
  | zero => intro w visited h; exact ⟨[], by simpa [Walk.take] using h, rfl⟩
  | succ n ih =>
      intro w visited h
      rw [Walk.take]
      cases hnext : w.next m with
      | none => exact ⟨[], by simpa using h, rfl⟩
      | some visit =>
          obtain ⟨i, after⟩ := visit
          obtain ⟨first, hfirst, hi⟩ := h.next hnext
          obtain ⟨rest, hrest, hfound⟩ := ih hfirst
          refine ⟨first ++ rest, by simpa using hrest, ?_⟩
          rw [List.filterMap_append, hi, ← hfound]
          rfl

/-! ### How it ends -/

theorem length_le (h : Knows m entry permissive w visited) :
    visited.length + w.work.length ≤ addressSpace := by
  have hnodup : ((visited ++ w.work).map UInt16.toNat).Nodup :=
    h.listed.nodup.map fun _ _ => UInt16.toNat_inj.mp
  have hrange : (visited ++ w.work).map UInt16.toNat ⊆ List.range addressSpace := by
    intro n hn
    obtain ⟨addr, -, rfl⟩ := List.mem_map.mp hn
    exact List.mem_range.mpr addr.toNat_lt
  simpa using (hnodup.subperm hrange).length_le

end Knows

theorem eq_error_of_next {w : Walk} (hend : w.next m = none) :
    ∀ addr ∈ w.work, ∀ i, instructionAt m addr ≠ .ok i := by
  obtain ⟨permissive, work, queued⟩ := w
  change nextFrom m permissive queued work = none at hend
  induction work with
  | nil => intro addr haddr; exact absurd haddr List.not_mem_nil
  | cons addr rest ih =>
      intro x hx i hi
      rw [nextFrom] at hend
      cases haddr : instructionAt m addr with
      | ok j => simp [haddr] at hend
      | error fault =>
          simp only [haddr] at hend
          rcases List.mem_cons.mp hx with rfl | hx
          · simp [haddr] at hi
          · exact ih hend x hx i hi

/-- A walk that has not found as many instructions as it was asked for is over. -/
theorem take_ends (m : M) (n : Nat) : ∀ w : Walk,
    (take m n w).2.next m = none ∨ (take m n w).1.length = n := by
  induction n with
  | zero => intro w; exact Or.inr rfl
  | succ n ih =>
      intro w
      rw [take]
      cases hnext : w.next m with
      | none => exact Or.inl hnext
      | some visit =>
          rcases ih visit.2 with hend | hlength
          · exact Or.inl hend
          · exact Or.inr (congrArg (· + 1) hlength)

/-- A walk is over when it has found as many instructions as there are addresses. -/
theorem next_take_addressSpace (m : M) (entry : Word) (permissive : Bool) :
    (take m addressSpace (start entry permissive)).2.next m = none := by
  rcases take_ends m addressSpace (start entry permissive) with hend | hlength
  · exact hend
  · obtain ⟨passed, hknows, hfound⟩ := (knows_start m entry permissive).take addressSpace
    have hpassed : addressSpace ≤ passed.length := by
      rw [← hlength, hfound]
      exact List.length_filterMap_le (found m) passed
    have hle := hknows.length_le
    rw [List.nil_append] at hle
    -- every address there is has been visited, so none is left to wait
    have hwork : (take m addressSpace (start entry permissive)).2.work = [] :=
      List.length_eq_zero_iff.mp (by omega)
    rw [next, hwork, nextFrom]

/-- When the walk is over, it has queued all that is reached. -/
theorem Knows.queued_of_reached (h : Knows m entry permissive w visited)
    (hend : w.next m = none) {addr : Word} (hreached : Reached m permissive entry addr) :
    w.queued.contains addr = true := by
  induction hreached with
  | entry => exact h.entered
  | @step addr next i _ hi hnext ih =>
      rcases List.mem_append.mp ((h.listed.queued addr).mp ih) with hvisited | hwork
      · exact h.closed addr hvisited i hi next hnext
      · exact absurd hi (eq_error_of_next hend addr hwork i)

end Walk

namespace Disassembly

variable {m : M} {entry : Word} {permissive : Bool} {i : Instruction}

/-- The walk that is over, and the addresses it has visited. -/
theorem exists_visited (m : M) (entry : Word) (permissive : Bool) : ∃ w visited,
    Walk.Knows m entry permissive w visited ∧ w.next m = none ∧
      discovered m entry permissive = visited.filterMap (Walk.found m) := by
  obtain ⟨visited, hknows, hfound⟩ := (Walk.knows_start m entry permissive).take addressSpace
  exact ⟨_, visited, hknows, Walk.next_take_addressSpace m entry permissive, hfound⟩

/-- What is discovered are the instructions at the addresses that are reached. -/
theorem mem_discovered : i ∈ discovered m entry permissive ↔
    Reached m permissive entry i.addr ∧ Walk.instructionAt m i.addr = .ok i := by
  obtain ⟨w, visited, hknows, hend, hfound⟩ := exists_visited m entry permissive
  rw [hfound, List.mem_filterMap]
  constructor
  · rintro ⟨addr, hvisited, hi⟩
    have hi := Walk.found_eq_some_iff.mp hi
    have hqueued : w.queued.contains addr = true :=
      (hknows.listed.queued addr).mpr (List.mem_append_left _ hvisited)
    rw [Walk.addr_of_instructionAt hi]
    exact ⟨hknows.reached addr hqueued, hi⟩
  · rintro ⟨hreached, hi⟩
    refine ⟨i.addr, ?_, Walk.found_eq_some_iff.mpr hi⟩
    have hqueued := hknows.queued_of_reached hend hreached
    rcases List.mem_append.mp ((hknows.listed.queued i.addr).mp hqueued) with hvisited | hwork
    · exact hvisited
    · exact absurd hi (Walk.eq_error_of_next hend i.addr hwork i)

/-- No two discovered instructions are at one address. -/
theorem nodup_discovered (m : M) (entry : Word) (permissive : Bool) :
    ((discovered m entry permissive).map (·.addr)).Nodup := by
  obtain ⟨w, visited, hknows, -, hfound⟩ := exists_visited m entry permissive
  rw [hfound, List.map_filterMap]
  refine (List.nodup_append.mp hknows.listed.nodup).1.filterMap ?_
  intro first second addr hfirst hsecond
  obtain ⟨i, hi, rfl⟩ := Option.map_eq_some_iff.mp hfirst
  obtain ⟨j, hj, hsame⟩ := Option.map_eq_some_iff.mp hsecond
  rw [← Walk.addr_of_instructionAt (Walk.found_eq_some_iff.mp hi), ← hsame,
    Walk.addr_of_instructionAt (Walk.found_eq_some_iff.mp hj)]

theorem perm_instructions (m : M) (entry : Word) (permissive : Bool) :
    (instructions m entry permissive).Perm (discovered m entry permissive) :=
  List.mergeSort_perm _ _

/-- The sorted instructions ascend, because no two are at one address. -/
theorem ascending_instructions (m : M) (entry : Word) (permissive : Bool) :
    (instructions m entry permissive).Pairwise fun i j => i.addr < j.addr := by
  have hsorted : (instructions m entry permissive).Pairwise
      fun i j => decide (i.addr ≤ j.addr) = true := by
    refine List.pairwise_mergeSort ?_ ?_ _
    · intro i j k hij hjk
      exact decide_eq_true (UInt16.le_trans (of_decide_eq_true hij) (of_decide_eq_true hjk))
    · intro i j
      simpa using UInt16.le_total i.addr j.addr
  have hdistinct : (instructions m entry permissive).Pairwise fun i j => i.addr ≠ j.addr := by
    have hperm := (perm_instructions m entry permissive).map (·.addr)
    exact List.pairwise_map.mp (hperm.nodup_iff.mpr (nodup_discovered m entry permissive))
  refine (hsorted.and hdistinct).imp fun {i j} h => ?_
  exact UInt16.lt_of_le_of_ne (of_decide_eq_true h.1) h.2

theorem length_instructions_le (m : M) (entry : Word) (permissive : Bool) :
    (instructions m entry permissive).length ≤ addressSpace := by
  obtain ⟨w, visited, hknows, -, hfound⟩ := exists_visited m entry permissive
  rw [(perm_instructions m entry permissive).length_eq, hfound]
  have hle := hknows.length_le
  have hfilter := List.length_filterMap_le (Walk.found m) visited
  omega

/--
**The walk ends, and finds the instructions that are reached, each of them once.**

There are no more of them than addresses, and after so many the walk has nothing more to
give.  Sorting puts the same instructions in strictly ascending order.  Whoever is strict
finds nothing that the permissive do not find.
-/
theorem walk_finds_reached (m : M) (entry : Word) (permissive : Bool) :
    (Walk.take m addressSpace (Walk.start entry permissive)).2.next m = none ∧
      ((discovered m entry permissive).map (·.addr)).Nodup ∧
      (∀ i, i ∈ discovered m entry permissive ↔
        Reached m permissive entry i.addr ∧ Walk.instructionAt m i.addr = .ok i) ∧
      (instructions m entry permissive).Perm (discovered m entry permissive) ∧
      (instructions m entry permissive).Pairwise (fun i j => i.addr < j.addr) ∧
      (instructions m entry permissive).length ≤ addressSpace ∧
      ∀ i ∈ instructions m entry false, i ∈ instructions m entry true := by
  refine ⟨Walk.next_take_addressSpace m entry permissive, nodup_discovered m entry permissive,
    fun i => mem_discovered, perm_instructions m entry permissive,
    ascending_instructions m entry permissive, length_instructions_le m entry permissive, ?_⟩
  intro i hi
  rw [(perm_instructions m entry false).mem_iff, mem_discovered] at hi
  rw [(perm_instructions m entry true).mem_iff, mem_discovered]
  exact ⟨hi.1.of_strict, hi.2⟩

end Disassembly

end Sm83
