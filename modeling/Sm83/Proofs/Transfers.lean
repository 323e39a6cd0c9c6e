/-
What is sent over the cable.

Every write of a control byte with the start bit sends one byte, and nothing else sends any.  What
is sent is what the data register holds at that moment, and what comes back is in it afterwards.

An account is kept of the interface along the writes: how many bytes have been sent, what their
exchange has made of the cable, what the data register holds and why, and that no transfer is ever
seen under way.  It is true of an interface that has just been plugged in, and each write keeps it
true, whether it starts a transfer or not.  A processor acts on the interface through its writes
only, so that the account is true wherever a processor has got to.
-/
import Sm83.Proofs.Transparency

namespace Sm83

namespace Cable

variable {C : Type} [Cable C]

/-- The replies to bytes that are sent one after the other, and the cable after them. -/
def converse (cable : C) : List Byte → List Byte × C
  | [] => ([], cable)
  | byte :: rest =>
    let first := exchange cable byte
    let others := converse first.2 rest
    (first.1 :: others.1, others.2)

/-- One more byte gets one more reply, from the cable as it is after the bytes before. -/
theorem converse_concat (bytes : List Byte) (byte : Byte) : ∀ cable : C,
    converse cable (bytes ++ [byte]) =
      ((converse cable bytes).1 ++ [(exchange (converse cable bytes).2 byte).1],
        (exchange (converse cable bytes).2 byte).2) := by
  induction bytes with
  | nil => exact fun cable => rfl
  | cons first rest ih =>
      intro cable
      simp only [List.cons_append, converse, ih]

end Cable

namespace SerialInterface

variable {C : Type} [Cable C]

/-! ### One transfer -/

/-- What a control byte that starts a transfer makes of an interface. -/
structure Transferred (before : SerialInterface FlatMemory C) (control : Byte)
    (after : SerialInterface FlatMemory C) : Prop where
  sent : after.sent = before.sent.push (before.memory.get dataAddr)
  cable : after.cable = (Cable.exchange before.cable (before.memory.get dataAddr)).2
  data : after.memory.get dataAddr =
    (Cable.exchange before.cable (before.memory.get dataAddr)).1
  control : after.memory.get controlAddr = control &&& ~~~startBit
  requested : after.memory.get Interrupt.requestAddr =
    before.memory.get Interrupt.requestAddr ||| Interrupt.serial.bit
  elsewhere : ∀ addr, addr ∉ [dataAddr, controlAddr, Interrupt.requestAddr] →
    after.memory.get addr = before.memory.get addr

/-- The registers of the interface are written, and so is the register of the requests. -/
theorem get_write_register {m : FlatMemory} (hm : m.romEnd ≤ dataAddr) {addr : Word}
    (haddr : dataAddr ≤ addr) (value : Byte) (x : Word) :
    (m.write addr value).get x = if x = addr then value else m.get x := by
  have hwritable : ¬ addr < m.romEnd := UInt16.not_lt.mpr (UInt16.le_trans hm haddr)
  rw [FlatMemory.get_write]
  simp only [hwritable, not_false_eq_true, and_true]

theorem romEnd_transfer (serial : SerialInterface FlatMemory C) (control : Byte) :
    (serial.transfer control).memory.romEnd = serial.memory.romEnd := by
  simp only [transfer, FlatMemory.memory_write, FlatMemory.romEnd_write]

theorem transferred (serial : SerialInterface FlatMemory C) (control : Byte)
    (hm : serial.memory.romEnd ≤ dataAddr) :
    Transferred serial control (serial.transfer control) := by
  have hget : ∀ x, (serial.transfer control).memory.get x =
      if x = Interrupt.requestAddr then
        serial.memory.get Interrupt.requestAddr ||| Interrupt.serial.bit
      else if x = controlAddr then control &&& ~~~startBit
      else if x = dataAddr then
        (Cable.exchange serial.cable (serial.memory.get dataAddr)).1
      else serial.memory.get x := by
    intro x
    have hdata : dataAddr ≤ dataAddr := UInt16.le_refl dataAddr
    have hcontrol : dataAddr ≤ controlAddr := by decide
    have hrequest : dataAddr ≤ Interrupt.requestAddr := by decide
    simp only [transfer, FlatMemory.memory_read, FlatMemory.memory_write, get_write_register,
      FlatMemory.romEnd_write, hm, hdata, hcontrol, hrequest]
    rw [if_neg (show Interrupt.requestAddr ≠ controlAddr by decide),
      if_neg (show Interrupt.requestAddr ≠ dataAddr by decide)]
  refine ⟨rfl, rfl, ?_, ?_, ?_, ?_⟩
  · rw [hget, if_neg (by decide), if_neg (by decide), if_pos rfl]
  · rw [hget, if_neg (by decide), if_pos rfl]
  · rw [hget, if_pos rfl]
  · intro addr haddr
    simp only [List.mem_cons, List.not_mem_nil, or_false, not_or] at haddr
    rw [hget, if_neg haddr.2.2, if_neg haddr.2.1, if_neg haddr.1]

/-! ### What the data register holds -/

/-- Whether a write gives the data register a new byte, its own or one that is received. -/
def Renews (w : Word × Byte) : Prop := w.1 = dataAddr ∨ starts w.1 w.2 = true

/--
What the data register holds after some writes, where `replies` are the bytes received in them.

It is the byte that was there first, the byte that was written there last, or the reply that came
last, whichever is the latest.
-/
inductive Latest (first : Byte) (replies : List Byte) : List (Word × Byte) → Byte → Prop
  | first {writes : List (Word × Byte)} (hkept : ∀ w ∈ writes, ¬ Renews w) :
      Latest first replies writes first
  | written (before : List (Word × Byte)) (value : Byte) {rest : List (Word × Byte)}
      (hkept : ∀ w ∈ rest, ¬ Renews w) :
      Latest first replies (before ++ (dataAddr, value) :: rest) value
  | received (before : List (Word × Byte)) {control reply : Byte} {rest : List (Word × Byte)}
      (hstart : starts controlAddr control = true) (hreply : replies.getLast? = some reply)
      (hkept : ∀ w ∈ rest, ¬ Renews w) :
      Latest first replies (before ++ (controlAddr, control) :: rest) reply

/-- A write that does not renew the data register leaves it as it is. -/
theorem Latest.concat {first value : Byte} {replies : List Byte} {writes : List (Word × Byte)}
    (h : Latest first replies writes value) {w : Word × Byte} (hw : ¬ Renews w) :
    Latest first replies (writes ++ [w]) value := by
  have hmore : ∀ {rest : List (Word × Byte)}, (∀ v ∈ rest, ¬ Renews v) →
      ∀ v ∈ rest ++ [w], ¬ Renews v := by
    intro rest hkept v hv
    rcases List.mem_append.mp hv with hold | hnew
    · exact hkept v hold
    · rw [List.mem_singleton.mp hnew]
      exact hw
  cases h with
  | first hkept => exact .first (hmore hkept)
  | written before value hkept =>
      rw [List.append_assoc, List.cons_append]
      exact .written before value (hmore hkept)
  | received before hstart hreply hkept =>
      rw [List.append_assoc, List.cons_append]
      exact .received before hstart hreply (hmore hkept)

/-! ### The account -/

/-- How an interface has come to be what it is, by writes to one that was plugged in. -/
structure Account (memory : FlatMemory) (cable : C) (writes : List (Word × Byte))
    (serial : SerialInterface FlatMemory C) : Prop where
  /-- One byte has been sent for each write that starts a transfer. -/
  count : serial.sent.size = writes.countP fun w => starts w.1 w.2
  /-- The cable has exchanged the bytes that have been sent, in order, and nothing else. -/
  exchanged : serial.cable = (Cable.converse cable serial.sent.toList).2
  /-- The data register holds the latest byte that it could hold. -/
  data : Latest (memory.get dataAddr) (Cable.converse cable serial.sent.toList).1 writes
    (serial.memory.get dataAddr)
  /-- No transfer is seen under way unless one was from the beginning. -/
  idle : memory.get controlAddr &&& startBit = 0 → serial.memory.get controlAddr &&& startBit = 0
  /-- The registers of the interface are not read-only. -/
  writable : serial.memory.romEnd ≤ dataAddr

namespace Account

variable {memory : FlatMemory} {cable : C} {writes : List (Word × Byte)}
  {serial : SerialInterface FlatMemory C}

/-- An interface that has just been plugged in has done nothing yet. -/
theorem plug (hm : memory.romEnd ≤ dataAddr) (cable : C) :
    Account memory cable [] (plug memory cable) where
  count := rfl
  exchanged := rfl
  data := .first fun _ hw => absurd hw List.not_mem_nil
  idle h := h
  writable := hm

/-- After a write that starts a transfer. -/
theorem transfer (h : Account memory cable writes serial) {control : Byte}
    (hstart : starts controlAddr control = true) :
    Account memory cable (writes ++ [(controlAddr, control)]) (serial.transfer control) := by
  have hdone := transferred serial control h.writable
  have hconverse : Cable.converse cable (serial.transfer control).sent.toList =
      ((Cable.converse cable serial.sent.toList).1 ++
          [(Cable.exchange serial.cable (serial.memory.get dataAddr)).1],
        (Cable.exchange serial.cable (serial.memory.get dataAddr)).2) := by
    rw [hdone.sent, Array.toList_push, Cable.converse_concat, ← h.exchanged]
  refine ⟨?_, ?_, ?_, fun _ => ?_, ?_⟩
  · rw [hdone.sent, Array.size_push, h.count, List.countP_append, List.countP_singleton,
      if_pos hstart]
  · rw [hdone.cable, hconverse]
  · rw [hdone.data, hconverse]
    exact .received writes hstart List.getLast?_concat fun w hw => absurd hw List.not_mem_nil
  · rw [hdone.control, UInt8.and_assoc, UInt8.and_comm (~~~startBit), UInt8.and_not_self,
      UInt8.and_zero]
  · rw [romEnd_transfer]
    exact h.writable

/-- After a write that starts none. -/
theorem pass (h : Account memory cable writes serial) {addr : Word} {value : Byte}
    (hstart : starts addr value = false) :
    Account memory cable (writes ++ [(addr, value)])
      { serial with memory := serial.memory.write addr value } := by
  refine ⟨?_, h.exchanged, ?_, fun hidle => ?_, ?_⟩
  · rw [h.count, List.countP_append, List.countP_singleton, if_neg (by simp [hstart]), Nat.add_zero]
  · by_cases haddr : addr = dataAddr
    · rw [haddr, get_write_register h.writable (UInt16.le_refl _), if_pos rfl]
      exact .written writes value fun w hw => absurd hw List.not_mem_nil
    · rw [FlatMemory.get_write_of_ne _ _ (Ne.symm haddr)]
      refine h.data.concat ?_
      rintro (hdata | hstarts)
      · exact haddr hdata
      · rw [hstart] at hstarts
        exact Bool.false_ne_true hstarts
  · by_cases haddr : addr = controlAddr
    · rw [haddr, get_write_register h.writable (by decide), if_pos rfl]
      exact starts_eq_false_iff.mp hstart haddr
    · rw [FlatMemory.get_write_of_ne _ _ (Ne.symm haddr)]
      exact h.idle hidle
  · rw [FlatMemory.romEnd_write]
    exact h.writable

/-- After any write. -/
theorem write (h : Account memory cable writes serial) (w : Word × Byte) :
    Account memory cable (writes ++ [w]) (serial.write w.1 w.2) := by
  obtain ⟨addr, value⟩ := w
  by_cases hstart : starts addr value = true
  · have haddr : addr = controlAddr := by
      simp only [starts, Bool.and_eq_true, beq_iff_eq] at hstart
      exact hstart.1
    subst haddr
    rw [SerialInterface.write, if_pos hstart]
    exact h.transfer hstart
  · have hpass : starts addr value = false := by simpa using hstart
    rw [write_of_starts_false serial hpass]
    exact h.pass hpass

end Account

/-! ### Along the writes -/

/-- An interface after some writes to it. -/
def afterWrites (serial : SerialInterface FlatMemory C) (writes : List (Word × Byte)) :
    SerialInterface FlatMemory C :=
  writes.foldl (fun serial w => serial.write w.1 w.2) serial

theorem afterWrites_append (serial : SerialInterface FlatMemory C)
    (writes more : List (Word × Byte)) :
    serial.afterWrites (writes ++ more) = (serial.afterWrites writes).afterWrites more :=
  List.foldl_append

/-- What a program leaves of an interface is what its writes leave. -/
theorem exec_eq_afterWrites {α : Type} (p : Bus α) (serial : SerialInterface FlatMemory C) :
    p.exec serial = serial.afterWrites (writesOf (p.trace serial)) := p.exec_eq_foldl serial

/-- All writes keep the account. -/
theorem Account.afterWrites {memory : FlatMemory} {cable : C} (more : List (Word × Byte)) :
    ∀ {writes : List (Word × Byte)} {serial : SerialInterface FlatMemory C},
      Account memory cable writes serial →
        Account memory cable (writes ++ more) (serial.afterWrites more) := by
  induction more with
  | nil =>
      intro writes serial h
      rwa [List.append_nil]
  | cons w rest ih =>
      intro writes serial h
      rw [List.append_cons]
      exact ih (h.write w)

theorem sent_write (serial : SerialInterface FlatMemory C) (addr : Word) (value : Byte) :
    serial.sent.toList <+: (serial.write addr value).sent.toList := by
  unfold write
  split
  · rw [transfer, Array.toList_push]
    exact List.prefix_append _ _
  · exact List.prefix_rfl

/-- What has been sent stays sent. -/
theorem sent_afterWrites (writes : List (Word × Byte)) :
    ∀ serial : SerialInterface FlatMemory C,
      serial.sent.toList <+: (serial.afterWrites writes).sent.toList := by
  induction writes with
  | nil => exact fun serial => List.prefix_rfl
  | cons w rest ih =>
      intro serial
      exact (serial.sent_write w.1 w.2).trans (ih (serial.write w.1 w.2))

/-- The byte that a transfer sends keeps its place among the bytes sent. -/
theorem sent_afterWrites_transfer (serial : SerialInterface FlatMemory C) (control : Byte)
    (later : List (Word × Byte)) :
    ((serial.transfer control).afterWrites later).sent[serial.sent.size]? =
      some (serial.memory.get dataAddr) := by
  have hsent : (serial.transfer control).sent.toList =
      serial.sent.toList ++ [serial.memory.get dataAddr] := Array.toList_push
  obtain ⟨more, hmore⟩ := sent_afterWrites later (serial.transfer control)
  rw [← Array.getElem?_toList, ← hmore, hsent, List.append_assoc,
    List.getElem?_append_right (Nat.le_of_eq Array.length_toList), Array.length_toList,
    Nat.sub_self]
  rfl

/--
**Each transfer sends the byte that the data register holds, and nothing else is sent.**

Let a processor be driven by any operations on an interface that has just been plugged in, and look
at the interface between any two of the writes that it is given.  Then the account is true: one
byte has been sent for each write of a control byte with the start bit, the cable has exchanged
these bytes and nothing else, the data register holds the latest of its first byte, the last byte
written there and the last reply, and the start bit does not read as set unless it was set from the
beginning.  If the next write is such a control byte, the byte that the data register holds is
sent, and keeps its place among the bytes sent in the end; the reply takes its place, the control
byte is stored without the start bit, and the serial interrupt is requested along with what is.
-/
theorem sends_data_held {m : FlatMemory} (hm : m.Made) (cable : C) (cpu : Cpu)
    (ops : List Operation) :
    let start := plug m cable
    let writes := writesOf ((Operation.history ops cpu).trace start)
    let finish := (Operation.history ops cpu).exec start
    finish = start.afterWrites writes ∧
      (∀ n, ∃ done, done <+: writes ∧
        (Operation.history (ops.take n) cpu).exec start = start.afterWrites done) ∧
      (∀ done, done <+: writes → Account m cable done (start.afterWrites done)) ∧
      ∀ done control, done ++ [(controlAddr, control)] <+: writes → control &&& startBit ≠ 0 →
        let before := start.afterWrites done
        finish.sent[done.countP fun w => starts w.1 w.2]? = some (before.memory.get dataAddr) ∧
          Transferred before control (start.afterWrites (done ++ [(controlAddr, control)])) := by
  intro start writes finish
  have hfinish : finish = start.afterWrites writes := exec_eq_afterWrites _ start
  have hregisters : m.romEnd ≤ dataAddr := UInt16.le_trans hm.romEnd_le (by decide)
  have haccount : ∀ done, Account m cable done (start.afterWrites done) :=
    fun done => (Account.plug hregisters cable).afterWrites done
  refine ⟨hfinish, fun n => ?_, fun done _ => haccount done, ?_⟩
  · exact ⟨_, (Operation.trace_take ops n cpu start).filterMap _, exec_eq_afterWrites _ start⟩
  · intro done control hnext hset before
    have hafter : start.afterWrites (done ++ [(controlAddr, control)]) =
        before.transfer control := by
      rw [afterWrites_append]
      exact if_pos (by simpa [starts] using hset)
    obtain ⟨later, hlater⟩ := hnext
    rw [hfinish, ← hlater, afterWrites_append, hafter, ← (haccount done).count]
    exact ⟨before.sent_afterWrites_transfer control later,
      transferred before control (haccount done).writable⟩

/-- A byte is put in the data register, and an instruction sends it. -/
theorem sends_data_held_store :
    let ops := [.writeByte dataAddr 0x4F, .step]
    let finish := (Operation.history ops (storer 0x81)).exec (plug storing OpenCable.unplugged)
    finish.sent.size = 1 ∧ finish.sent[0]? = some 0x4F ∧ finish.memory.get dataAddr = 0xFF ∧
      finish.memory.get controlAddr = 0x01 ∧ finish.memory.get Interrupt.requestAddr = 0x08 := by
  intro ops finish
  have hmade : storing.Made := .load .zeroed 0x100 [0xE2]
  obtain ⟨hfinish, -, haccount, hsends⟩ :=
    sends_data_held hmade OpenCable.unplugged (storer 0x81) ops
  have hloaded : (plug storing OpenCable.unplugged).write dataAddr 0x4F =
      plug (storing.write dataAddr 0x4F) OpenCable.unplugged := write_of_starts_false _ rfl
  have hfirst : Memory.read ((plug storing OpenCable.unplugged).write dataAddr 0x4F) 0x100 =
      0xE2 := by
    rw [hloaded]
    show (storing.write dataAddr 0x4F).get 0x100 = 0xE2
    rw [FlatMemory.get_write_of_ne _ _ (by decide)]
    exact get_storing 0x100
  have hwrites : writesOf ((Operation.history ops (storer 0x81)).trace
      (plug storing OpenCable.unplugged)) = [(dataAddr, 0x4F), (controlAddr, 0x81)] := by
    simp only [ops, Operation.trace_history_cons, Operation.on_writeByte, Operation.on_step,
      Bus.trace_map, Bus.eval_map, Bus.exec_map, Bus.trace_writeByte, Bus.exec_writeByte,
      memory_write, writesOf_append, Cpu.writesOf_storer hfirst]
    rfl
  rw [hwrites] at hfinish haccount hsends
  obtain ⟨hbyte, hdone⟩ := hsends [(dataAddr, 0x4F)] 0x81 List.prefix_rfl (by decide)
  have hcount := (haccount _ List.prefix_rfl).count
  have hbefore : (plug storing OpenCable.unplugged).afterWrites [(dataAddr, 0x4F)] =
      plug (storing.write dataAddr 0x4F) OpenCable.unplugged := hloaded
  have hheld : (storing.write dataAddr 0x4F).get dataAddr = 0x4F := by
    rw [get_write_register (UInt16.le_trans hmade.romEnd_le (by decide)) (by decide), if_pos rfl]
  rw [← hfinish] at hcount
  rw [hbefore, List.cons_append, List.nil_append, ← hfinish] at hdone
  rw [hbefore] at hbyte
  refine ⟨hcount, hbyte.trans (congrArg some hheld), hdone.data, hdone.control, ?_⟩
  rw [hdone.requested]
  show (storing.write dataAddr 0x4F).get Interrupt.requestAddr ||| 0x08 = 0x08
  rw [FlatMemory.get_write_of_ne _ _ (by decide), get_storing]
  rfl

end SerialInterface

end Sm83
