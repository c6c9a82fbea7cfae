import PcmRing.RelyGuarantee

/-!
# Uninterrupted programs compute

A program that nothing interrupts computes a function of what can be seen of
the memory.  The function is built along the program: the rules below compose
it from the functions of its parts.
-/

namespace AtomicProgram

namespace Program

variable {Op σ ν α β : Type} {Resp : Op → Type}

/-- From every tidy memory the program leaves a tidy one, and its result and the
view it leaves are those of `spec`. -/
def Computes (exec : Semantics Resp σ) (tidy : σ → Prop) (view : σ → ν)
    (program : Program Resp α) (spec : ν → α × ν) : Prop :=
  ∀ memory, tidy memory → tidy (program.run exec memory).2 ∧
    ((program.run exec memory).1, view (program.run exec memory).2) = spec (view memory)

variable {exec : Semantics Resp σ} {tidy : σ → Prop} {view : σ → ν}

theorem computes_pure (value : α) :
    (pure value : Program Resp α).Computes exec tidy view fun seen => (value, seen) :=
  fun _ holds => ⟨holds, rfl⟩

theorem Computes.bind {program : Program Resp α} {spec : ν → α × ν}
    {next : α → Program Resp β} {later : α → ν → β × ν}
    (first : program.Computes exec tidy view spec)
    (second : ∀ value, (next value).Computes exec tidy view (later value)) :
    (program >>= next).Computes exec tidy view
      fun seen => later (spec seen).1 (spec seen).2 := by
  intro memory holds
  obtain ⟨between, seen⟩ := first memory holds
  rw [run_bind]
  obtain ⟨after, ends⟩ := second (program.run exec memory).1 _ between
  refine ⟨after, ends.trans ?_⟩
  dsimp only
  rw [← seen]

theorem Computes.ite {condition : Prop} [Decidable condition] {yes no : Program Resp α}
    {yesSpec noSpec : ν → α × ν} (first : condition → yes.Computes exec tidy view yesSpec)
    (second : ¬condition → no.Computes exec tidy view noSpec) :
    (if condition then yes else no).Computes exec tidy view
      fun seen => if condition then yesSpec seen else noSpec seen := by
  by_cases holds : condition
  · simpa only [if_pos holds] using first holds
  · simpa only [if_neg holds] using second holds

theorem Computes.congr {program : Program Resp α} {spec spec' : ν → α × ν}
    (computes : program.Computes exec tidy view spec) (same : ∀ seen, spec seen = spec' seen) :
    program.Computes exec tidy view spec' :=
  fun memory holds => ⟨(computes memory holds).1,
    (computes memory holds).2.trans (same _)⟩

theorem computes_perform {op : Op} {spec : ν → Resp op × ν}
    (keeps : ∀ memory, tidy memory → tidy (exec op memory).2)
    (sees : ∀ memory, tidy memory →
      ((exec op memory).1, view (exec op memory).2) = spec (view memory)) :
    (perform op : Program Resp (Resp op)).Computes exec tidy view spec :=
  fun memory holds => ⟨keeps memory holds, sees memory holds⟩

/-- What a judgment without interference establishes. -/
theorem computes_of_safe {program : Program Resp α} {spec : ν → α × ν}
    (safe : ∀ memory, tidy memory → program.Safe exec Eq (fun _ _ => True)
      (fun value after => tidy after ∧ (value, view after) = spec (view memory)) memory) :
    program.Computes exec tidy view spec :=
  fun memory holds => (safe memory holds).run

end Program

end AtomicProgram
