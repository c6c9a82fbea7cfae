import Mathlib.Logic.Relation

/-!
# Programs of atomic accesses

A concurrent program is a tree: it either returns, or performs one access of
an interface and continues with the response.  The same tree has a sequential
meaning, in which nothing else touches the memory, and an interleaved one, in
which other threads act between any two accesses.  This file defines the trees
and their sequential meaning.
-/

namespace AtomicProgram

/-- A finite program over the accesses `Op`, each answered in `Resp`. -/
inductive Program {Op : Type} (Resp : Op → Type) (α : Type) : Type where
  | done (value : α)
  | act (op : Op) (next : Resp op → Program Resp α)

variable {Op : Type} {Resp : Op → Type} {α β γ σ : Type}

namespace Program

/-- Run one program and continue with what it returns. -/
def bind : Program Resp α → (α → Program Resp β) → Program Resp β
  | .done value, next => next value
  | .act op rest, next => .act op fun response => bind (rest response) next

/-- The program that performs exactly one access. -/
def perform (op : Op) : Program Resp (Resp op) :=
  .act op .done

instance : Monad (Program Resp) where
  pure := .done
  bind := bind

@[simp]
theorem done_bind (value : α) (next : α → Program Resp β) :
    (Program.done value >>= next : Program Resp β) = next value :=
  rfl

@[simp]
theorem act_bind (op : Op) (rest : Resp op → Program Resp α)
    (next : α → Program Resp β) :
    (Program.act op rest >>= next : Program Resp β) =
      .act op fun response => rest response >>= next :=
  rfl

@[simp]
theorem perform_bind (op : Op) (next : Resp op → Program Resp β) :
    (perform op >>= next : Program Resp β) = .act op next :=
  rfl

@[simp]
theorem pure_eq_done (value : α) :
    (pure value : Program Resp α) = .done value :=
  rfl

theorem bind_done (program : Program Resp α) :
    (program >>= Program.done) = program := by
  induction program with
  | done value => rfl
  | act op rest ih => exact congrArg (Program.act op) (funext ih)

theorem bind_bind (program : Program Resp α) (next : α → Program Resp β)
    (last : β → Program Resp γ) :
    (program >>= next) >>= last = program >>= fun value => next value >>= last := by
  induction program with
  | done value => rfl
  | act op rest ih => exact congrArg (Program.act op) (funext ih)

instance : LawfulMonad (Program Resp) :=
  LawfulMonad.mk' _ bind_done (fun _ _ => rfl) bind_bind

end Program

/-- What each access answers and how it changes the memory. -/
abbrev Semantics (Resp : Op → Type) (σ : Type) : Type :=
  (op : Op) → σ → Resp op × σ

namespace Program

/-- The sequential meaning: no other thread acts until the program returns. -/
def run (exec : Semantics Resp σ) : Program Resp α → σ → α × σ
  | .done value, memory => (value, memory)
  | .act op next, memory =>
      run exec (next (exec op memory).1) (exec op memory).2

variable (exec : Semantics Resp σ)

@[simp]
theorem run_done (value : α) (memory : σ) :
    run exec (.done value : Program Resp α) memory = (value, memory) :=
  rfl

@[simp]
theorem run_act (op : Op) (next : Resp op → Program Resp α) (memory : σ) :
    run exec (.act op next) memory =
      run exec (next (exec op memory).1) (exec op memory).2 :=
  rfl

@[simp]
theorem run_bind (program : Program Resp α) (next : α → Program Resp β)
    (memory : σ) :
    run exec (program >>= next) memory =
      run exec (next (run exec program memory).1) (run exec program memory).2 := by
  induction program generalizing memory with
  | done value => rfl
  | act op rest ih => exact ih _ _

@[simp]
theorem run_perform (op : Op) (memory : σ) :
    run exec (perform op) memory = exec op memory :=
  rfl

end Program

end AtomicProgram
