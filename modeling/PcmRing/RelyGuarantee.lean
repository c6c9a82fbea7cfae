import PcmRing.AtomicProgram

/-!
# Rely/guarantee reasoning about atomic programs

A thread's program is judged against what the other threads may do between
two of its accesses (the rely) and promises that each access it performs is
one the others can tolerate (the guarantee).  The judgment is defined by
recursion on the program tree, so a proof about a program follows its text.
-/

namespace AtomicProgram

open Relation

variable {Op : Type} {Resp : Op → Type} {α β σ : Type}

namespace Program

/-- From this memory, and whatever `rely` does in between, every access the
program performs meets `guar`, and what it returns meets `post`. -/
def Safe (exec : Semantics Resp σ) (rely : σ → σ → Prop) (guar : Op → σ → Prop)
    (post : α → σ → Prop) : Program Resp α → σ → Prop
  | .done value, memory => ∀ current, rely memory current → post value current
  | .act op next, memory => ∀ current, rely memory current →
      guar op current ∧
        Safe exec rely guar post (next (exec op current).1) (exec op current).2

/-- The interference between two accesses is a preorder. -/
structure Preordered (rely : σ → σ → Prop) : Prop where
  refl : ∀ memory, rely memory memory
  trans : ∀ {first middle last}, rely first middle → rely middle last →
    rely first last

theorem preordered_eq : Preordered (Eq : σ → σ → Prop) :=
  ⟨fun _ => rfl, Eq.trans⟩

variable {exec : Semantics Resp σ} {rely : σ → σ → Prop} {guar : Op → σ → Prop}
  {post post' : α → σ → Prop}

/-- The judgment survives interference before the program starts. -/
theorem Safe.stable (order : Preordered rely) {program : Program Resp α}
    {memory current : σ} (safe : Safe exec rely guar post program memory)
    (moves : rely memory current) : Safe exec rely guar post program current := by
  cases program with
  | done value => exact fun later further => safe later (order.trans moves further)
  | act op next => exact fun later further => safe later (order.trans moves further)

theorem Safe.mono (weaker : ∀ value memory, post value memory → post' value memory)
    {program : Program Resp α} {memory : σ}
    (safe : Safe exec rely guar post program memory) :
    Safe exec rely guar post' program memory := by
  induction program generalizing memory with
  | done value => exact fun current moves => weaker _ _ (safe current moves)
  | act op next ih =>
      exact fun current moves => ⟨(safe current moves).1, ih _ (safe current moves).2⟩

theorem Safe.promising {guar' : Op → σ → Prop}
    (weaker : ∀ op memory, guar op memory → guar' op memory) {program : Program Resp α}
    {memory : σ} (safe : Safe exec rely guar post program memory) :
    Safe exec rely guar' post program memory := by
  induction program generalizing memory with
  | done value => exact safe
  | act op next ih =>
      exact fun current moves =>
        ⟨weaker _ _ (safe current moves).1, ih _ (safe current moves).2⟩

theorem safe_trivial (program : Program Resp α) (memory : σ) :
    Safe exec rely (fun _ _ => True) (fun _ _ => True) program memory := by
  induction program generalizing memory with
  | done value => exact fun _ _ => trivial
  | act op next ih => exact fun _ _ => ⟨trivial, ih _ _⟩

theorem Safe.and {guar' : Op → σ → Prop} {program : Program Resp α} {memory : σ}
    (first : Safe exec rely guar post program memory)
    (second : Safe exec rely guar' post' program memory) :
    Safe exec rely (fun op current => guar op current ∧ guar' op current)
      (fun value current => post value current ∧ post' value current) program memory := by
  induction program generalizing memory with
  | done value => exact fun current moves => ⟨first current moves, second current moves⟩
  | act op next ih =>
      intro current moves
      obtain ⟨promised, rest⟩ := first current moves
      obtain ⟨promised', rest'⟩ := second current moves
      exact ⟨⟨promised, promised'⟩, ih _ rest rest'⟩

/-- Any number of judgments of one program are one judgment. -/
theorem Safe.all {ι : Sort*} {guar : ι → Op → σ → Prop} {post : ι → α → σ → Prop}
    {program : Program Resp α} {memory : σ}
    (safe : ∀ index, Safe exec rely (guar index) (post index) program memory) :
    Safe exec rely (fun op current => ∀ index, guar index op current)
      (fun value current => ∀ index, post index value current) program memory := by
  induction program generalizing memory with
  | done value => exact fun current moves index => safe index current moves
  | act op next ih =>
      exact fun current moves =>
        ⟨fun index => (safe index current moves).1, ih _ fun index => (safe index current moves).2⟩

/-- Sequencing: the continuation is judged wherever the first program ends. -/
theorem Safe.bind (order : Preordered rely) {program : Program Resp α}
    {next : α → Program Resp β} {post : β → σ → Prop} {memory : σ}
    (safe : Safe exec rely guar
      (fun value current => Safe exec rely guar post (next value) current)
      program memory) :
    Safe exec rely guar post (program >>= next) memory := by
  induction program generalizing memory with
  | done value => exact safe memory (order.refl memory)
  | act op rest ih =>
      exact fun current moves => ⟨(safe current moves).1, ih _ (safe current moves).2⟩

/-- A judgment against no interference speaks about the sequential meaning. -/
theorem Safe.run {program : Program Resp α} {memory : σ}
    (safe : Safe exec Eq guar post program memory) :
    post (program.run exec memory).1 (program.run exec memory).2 := by
  induction program generalizing memory with
  | done value => exact safe memory rfl
  | act op next ih => exact ih _ (safe memory rfl).2

/-- An assertion that every promised access keeps, and the others too, holds at
the end. -/
theorem Safe.keeping {assertion : σ → Prop}
    (stable : ∀ {first last}, rely first last → assertion first → assertion last)
    (step : ∀ op memory, guar op memory → assertion memory → assertion (exec op memory).2)
    {program : Program Resp α} {memory : σ} (safe : Safe exec rely guar post program memory)
    (holds : assertion memory) :
    Safe exec rely guar (fun value current => post value current ∧ assertion current) program
      memory := by
  induction program generalizing memory with
  | done value => exact fun current moves => ⟨safe current moves, stable moves holds⟩
  | act op next ih =>
      intro current moves
      obtain ⟨promised, rest⟩ := safe current moves
      exact ⟨promised, ih _ rest (step op current promised (stable moves holds))⟩

/-- A program judged against more interference is judged against less. -/
theorem Safe.weaken {rely' : σ → σ → Prop}
    (less : ∀ {first last}, rely' first last → rely first last)
    {program : Program Resp α} {memory : σ}
    (safe : Safe exec rely guar post program memory) :
    Safe exec rely' guar post program memory := by
  induction program generalizing memory with
  | done value => exact fun current moves => safe current (less moves)
  | act op next ih =>
      exact fun current moves =>
        ⟨(safe current (less moves)).1, ih _ (safe current (less moves)).2⟩

/-- Once a quantity that never shrinks has grown, nothing is owed any more. -/
private theorem safe_of_grown (rank : σ → Nat) {start : Nat}
    (grows : ∀ {first last}, rely first last → rank first ≤ rank last)
    (keeps : ∀ op memory, rank memory ≤ rank (exec op memory).2)
    (program : Program Resp α) {memory : σ} (grown : start < rank memory) :
    Safe exec rely (fun _ _ => True)
      (fun value current => rank current = start → post value current) program memory := by
  induction program generalizing memory with
  | done value =>
      intro current moves same
      exact (Nat.lt_irrefl _ (same ▸ Nat.lt_of_lt_of_le grown (grows moves))).elim
  | act op next ih =>
      exact fun current moves => ⟨trivial,
        ih _ (Nat.lt_of_lt_of_le grown (Nat.le_trans (grows moves) (keeps op current)))⟩

/-- To know what holds if a quantity that never shrinks is unchanged at the end,
assume that it is unchanged all along. -/
theorem Safe.while_unchanged (rank : σ → Nat)
    (grows : ∀ {first last}, rely first last → rank first ≤ rank last)
    (keeps : ∀ op memory, rank memory ≤ rank (exec op memory).2)
    {program : Program Resp α} {memory : σ}
    (safe : Safe exec (fun before after => rely before after ∧ rank after = rank before)
      guar post program memory) :
    Safe exec rely (fun _ _ => True)
      (fun value current => rank current = rank memory → post value current) program memory := by
  induction program generalizing memory with
  | done value => exact fun current moves same => safe current ⟨moves, same⟩
  | act op next ih =>
      intro current moves
      refine ⟨trivial, ?_⟩
      by_cases same : rank (exec op current).2 = rank memory
      · have before := grows moves
        have after := keeps op current
        rw [← same]
        exact ih _ (safe current ⟨moves, by omega⟩).2
      · have grown := Nat.lt_of_le_of_ne (Nat.le_trans (grows moves) (keeps op current))
          (Ne.symm same)
        exact safe_of_grown rank grows keeps _ grown

/-- Every access the program performs is among `allowed`, whatever it is answered. -/
def Performs (allowed : Op → Prop) : Program Resp α → Prop
  | .done _ => True
  | .act op next => allowed op ∧ ∀ response, Performs allowed (next response)

theorem Performs.bind {allowed : Op → Prop} {program : Program Resp α}
    {next : α → Program Resp β} (first : program.Performs allowed)
    (rest : ∀ value, (next value).Performs allowed) :
    (program >>= next).Performs allowed := by
  induction program with
  | done value => exact rest value
  | act op continue' ih => exact ⟨first.1, fun response => ih response (first.2 response)⟩

theorem Performs.mono {allowed allowed' : Op → Prop} (weaker : ∀ op, allowed op → allowed' op)
    {program : Program Resp α} (performs : program.Performs allowed) :
    program.Performs allowed' := by
  induction program with
  | done value => trivial
  | act op next ih => exact ⟨weaker op performs.1, fun response => ih response (performs.2 _)⟩

/-- A program whose accesses all keep an assertion keeps it. -/
theorem Performs.safe {allowed : Op → Prop} (assertion : σ → Prop)
    (promised : ∀ op memory, allowed op → guar op memory)
    (keeps : ∀ op memory, allowed op → assertion memory → assertion (exec op memory).2)
    (stable : ∀ {first last}, rely first last → assertion first → assertion last)
    {program : Program Resp α} (performs : program.Performs allowed) {memory : σ}
    (holds : assertion memory) :
    Safe exec rely guar (fun _ => assertion) program memory := by
  induction program generalizing memory with
  | done value => exact fun current moves => stable moves holds
  | act op next ih =>
      exact fun current moves => ⟨promised op current performs.1,
        ih _ (performs.2 _) (keeps op current performs.1 (stable moves holds))⟩

end Program

end AtomicProgram
