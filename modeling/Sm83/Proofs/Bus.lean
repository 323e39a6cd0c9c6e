/-
What a program on the bus does, piece by piece.

A program made of pieces moves the bytes of its pieces one after the other, and each
piece runs on the memory that the pieces before it left.  With that, the trace of a step
of the processor is put together from the traces of its phases.

The trace also says what becomes of memory: a program leaves the memory that its writes,
done in order, leave.  So an address that is in none of the writes keeps its byte.

All that a program learns of memory is what it reads.  So it does the same on memories of
different kinds, as long as they answer its reads alike.
-/
import Sm83.Bus

namespace Sm83

namespace Bus

variable {α β γ : Type} {M : Type} [Memory M]

/-! ### Laws of sequencing -/

theorem bind_eq (p : Bus α) (f : α → Bus β) : p >>= f = p.bind f := rfl

theorem map_id (p : Bus α) : id <$> p = p := by
  show p.bind (fun a => done (id a)) = p
  induction p with
  | done a => rfl
  | read addr rest ih => exact congrArg (read addr) (funext ih)
  | write addr value rest ih => exact congrArg (write addr value) ih

theorem bind_bind (p : Bus α) (f : α → Bus β) (g : β → Bus γ) :
    p >>= f >>= g = p >>= fun a => f a >>= g := by
  simp only [bind_eq]
  induction p with
  | done a => rfl
  | read addr rest ih => exact congrArg (read addr) (funext ih)
  | write addr value rest ih => exact congrArg (write addr value) ih

instance : LawfulMonad Bus :=
  LawfulMonad.mk' Bus (fun p => map_id p) (fun _ _ => rfl) (fun p f g => bind_bind p f g)

/-! ### Running, recording and their three parts -/

theorem record_snd (p : Bus α) (m : M) : (p.record m).2 = p.run m := by
  induction p generalizing m with
  | done a => rfl
  | read addr rest ih => exact ih _ m
  | write addr value rest ih => exact ih _

/-- A record is the trace, the result and the memory after it. -/
theorem record_eq (p : Bus α) (m : M) : p.record m = (p.trace m, p.eval m, p.exec m) := by
  show ((p.record m).1, (p.record m).2) = (p.trace m, p.run m)
  rw [record_snd, trace]

theorem run_eq (p : Bus α) (m : M) : p.run m = (p.eval m, p.exec m) := rfl

@[simp] theorem trace_pure (a : α) (m : M) : (pure a : Bus α).trace m = [] := rfl

@[simp] theorem eval_pure (a : α) (m : M) : (pure a : Bus α).eval m = a := rfl

@[simp] theorem exec_pure (a : α) (m : M) : (pure a : Bus α).exec m = m := rfl

@[simp] theorem trace_read (addr : Word) (rest : Byte → Bus α) (m : M) :
    (read addr rest).trace m = .read addr :: (rest (Memory.read m addr)).trace m := rfl

@[simp] theorem eval_read (addr : Word) (rest : Byte → Bus α) (m : M) :
    (read addr rest).eval m = (rest (Memory.read m addr)).eval m := rfl

@[simp] theorem exec_read (addr : Word) (rest : Byte → Bus α) (m : M) :
    (read addr rest).exec m = (rest (Memory.read m addr)).exec m := rfl

@[simp] theorem trace_write (addr : Word) (value : Byte) (rest : Bus α) (m : M) :
    (write addr value rest).trace m =
      .write addr value :: rest.trace (Memory.write m addr value) := rfl

@[simp] theorem eval_write (addr : Word) (value : Byte) (rest : Bus α) (m : M) :
    (write addr value rest).eval m = rest.eval (Memory.write m addr value) := rfl

@[simp] theorem exec_write (addr : Word) (value : Byte) (rest : Bus α) (m : M) :
    (write addr value rest).exec m = rest.exec (Memory.write m addr value) := rfl

/-- The pieces of a program run one after the other, and the trace says so. -/
@[simp] theorem trace_bind (p : Bus α) (f : α → Bus β) (m : M) :
    (p >>= f).trace m = p.trace m ++ (f (p.eval m)).trace (p.exec m) := by
  rw [bind_eq]
  induction p generalizing m with
  | done a => rfl
  | read addr rest ih => simp only [bind, trace_read, eval_read, exec_read, ih, List.cons_append]
  | write addr value rest ih =>
      simp only [bind, trace_write, eval_write, exec_write, ih, List.cons_append]

@[simp] theorem eval_bind (p : Bus α) (f : α → Bus β) (m : M) :
    (p >>= f).eval m = (f (p.eval m)).eval (p.exec m) := by
  rw [bind_eq]
  induction p generalizing m with
  | done a => rfl
  | read addr rest ih => simp only [bind, eval_read, exec_read, ih]
  | write addr value rest ih => simp only [bind, eval_write, exec_write, ih]

@[simp] theorem exec_bind (p : Bus α) (f : α → Bus β) (m : M) :
    (p >>= f).exec m = (f (p.eval m)).exec (p.exec m) := by
  rw [bind_eq]
  induction p generalizing m with
  | done a => rfl
  | read addr rest ih => simp only [bind, eval_read, exec_read, ih]
  | write addr value rest ih => simp only [bind, eval_write, exec_write, ih]

@[simp] theorem trace_map (f : α → β) (p : Bus α) (m : M) : (f <$> p).trace m = p.trace m := by
  rw [map_eq_pure_bind, trace_bind, trace_pure, List.append_nil]

@[simp] theorem eval_map (f : α → β) (p : Bus α) (m : M) : (f <$> p).eval m = f (p.eval m) := by
  rw [map_eq_pure_bind, eval_bind, eval_pure]

@[simp] theorem exec_map (f : α → β) (p : Bus α) (m : M) : (f <$> p).exec m = p.exec m := by
  rw [map_eq_pure_bind, exec_bind, exec_pure]

/-! ### Small programs -/

@[simp] theorem trace_readByte (addr : Word) (m : M) : (readByte addr).trace m = [.read addr] := rfl

@[simp] theorem eval_readByte (addr : Word) (m : M) :
    (readByte addr).eval m = Memory.read m addr := rfl

@[simp] theorem exec_readByte (addr : Word) (m : M) : (readByte addr).exec m = m := rfl

@[simp] theorem trace_writeByte (addr : Word) (value : Byte) (m : M) :
    (writeByte addr value).trace m = [.write addr value] := rfl

@[simp] theorem eval_writeByte (addr : Word) (value : Byte) (m : M) :
    (writeByte addr value).eval m = () := rfl

@[simp] theorem exec_writeByte (addr : Word) (value : Byte) (m : M) :
    (writeByte addr value).exec m = Memory.write m addr value := rfl

@[simp] theorem trace_readWord (addr : Word) (m : M) :
    (readWord addr).trace m = [.read addr, .read (addr + 1)] := rfl

@[simp] theorem eval_readWord (addr : Word) (m : M) :
    (readWord addr).eval m = Word.ofBytes (Memory.read m (addr + 1)) (Memory.read m addr) := rfl

@[simp] theorem exec_readWord (addr : Word) (m : M) : (readWord addr).exec m = m := rfl

@[simp] theorem trace_writeWord (addr value : Word) (m : M) :
    (writeWord addr value).trace m =
      [.write addr (Word.low value), .write (addr + 1) (Word.high value)] := rfl

@[simp] theorem exec_writeWord (addr value : Word) (m : M) :
    (writeWord addr value).exec m =
      Memory.write (Memory.write m addr (Word.low value)) (addr + 1) (Word.high value) := rfl

end Bus

/-! ### Reads and writes of a trace -/

@[simp] theorem readsOf_nil : readsOf [] = [] := rfl

@[simp] theorem readsOf_append (s t : List Transfer) : readsOf (s ++ t) = readsOf s ++ readsOf t :=
  List.filterMap_append

@[simp] theorem readsOf_read_cons (addr : Word) (t : List Transfer) :
    readsOf (.read addr :: t) = addr :: readsOf t := rfl

@[simp] theorem readsOf_write_cons (addr : Word) (value : Byte) (t : List Transfer) :
    readsOf (.write addr value :: t) = readsOf t := rfl

@[simp] theorem writesOf_nil : writesOf [] = [] := rfl

@[simp] theorem writesOf_append (s t : List Transfer) :
    writesOf (s ++ t) = writesOf s ++ writesOf t := List.filterMap_append

@[simp] theorem writesOf_read_cons (addr : Word) (t : List Transfer) :
    writesOf (.read addr :: t) = writesOf t := rfl

@[simp] theorem writesOf_write_cons (addr : Word) (value : Byte) (t : List Transfer) :
    writesOf (.write addr value :: t) = (addr, value) :: writesOf t := rfl

namespace Bus

variable {α : Type} {M : Type} [Memory M]

/-- A program leaves the memory that its writes leave. -/
theorem exec_eq_foldl (p : Bus α) (m : M) :
    p.exec m = (writesOf (p.trace m)).foldl (fun m w => Memory.write m w.1 w.2) m := by
  induction p generalizing m with
  | done a => rfl
  | read addr rest ih => exact ih _ m
  | write addr value rest ih => exact ih _

/-- A program that writes nothing leaves memory as it is. -/
theorem exec_eq_self {p : Bus α} {m : M} (h : writesOf (p.trace m) = []) : p.exec m = m := by
  rw [exec_eq_foldl, h, List.foldl_nil]

/--
A program cannot tell two memories apart that read alike and stay so under its writes.

The memories may be of different kinds; `allowed` says which writes keep them alike.
-/
theorem run_alike {M' : Type} [Memory M'] {Alike : M → M' → Prop} {allowed : Word × Byte → Prop}
    (hread : ∀ {m m'}, Alike m m' → ∀ addr, Memory.read m' addr = Memory.read m addr)
    (hwrite : ∀ {m m'} addr value, Alike m m' → allowed (addr, value) →
      Alike (Memory.write m addr value) (Memory.write m' addr value))
    (p : Bus α) : ∀ {m m'}, Alike m m' → (∀ w ∈ writesOf (p.trace m), allowed w) →
      p.trace m' = p.trace m ∧ p.eval m' = p.eval m ∧ Alike (p.exec m) (p.exec m') := by
  induction p with
  | done a => exact fun h _ => ⟨rfl, rfl, h⟩
  | read addr rest ih =>
      intro m m' h hallowed
      obtain ⟨htrace, heval, hexec⟩ := ih (Memory.read m addr) h hallowed
      simp only [trace_read, eval_read, exec_read, hread h addr]
      exact ⟨congrArg (Transfer.read addr :: ·) htrace, heval, hexec⟩
  | write addr value rest ih =>
      intro m m' h hallowed
      rw [trace_write, writesOf_write_cons, List.forall_mem_cons] at hallowed
      obtain ⟨htrace, heval, hexec⟩ := ih (hwrite addr value h hallowed.1) hallowed.2
      exact ⟨congrArg (Transfer.write addr value :: ·) htrace, heval, hexec⟩

end Bus

end Sm83
