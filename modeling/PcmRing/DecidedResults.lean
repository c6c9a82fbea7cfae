import PcmRing.ThreadInterleaving

/-!
# Accesses that decide what a call returns

Some accesses leave a program no choice: once one of them was performed, every
result it may still return is of one kind, whatever the other threads do.  The
call is then in the log with such a result as soon as it has returned.
-/

namespace AtomicProgram

variable {Op : Type} {Resp : Op → Type} {α β σ : Type}

namespace Program

variable (exec : Semantics Resp σ)

/-- Whatever becomes of the memory meanwhile, the program returns such a result. -/
def Returns (ends : α → Prop) : Program Resp α → Prop
  | .done value => ends value
  | .act op next => ∀ memory, Returns ends (next (exec op memory).1)

/-- Once it performs a marked access, the program returns such a result. -/
def Decides (marked : Op → Prop) (ends : α → Prop) : Program Resp α → Prop
  | .done _ => True
  | .act op next => ∀ memory, (marked op → Returns exec ends (next (exec op memory).1)) ∧
      Decides marked ends (next (exec op memory).1)

variable {exec} {marked : Op → Prop} {ends : β → Prop}

theorem returns_any (program : Program Resp α) : program.Returns exec fun _ => True := by
  induction program with
  | done value => trivial
  | act op next ih => exact fun memory => ih _

theorem Returns.bind {middle : α → Prop} {program : Program Resp α} {next : α → Program Resp β}
    (first : program.Returns exec middle)
    (rest : ∀ value, middle value → (next value).Returns exec ends) :
    (program >>= next).Returns exec ends := by
  induction program with
  | done value => exact rest value first
  | act op continue' ih => exact fun memory => ih _ (first memory)

theorem returns_behind (program : Program Resp α) {next : α → Program Resp β}
    (rest : ∀ value, (next value).Returns exec ends) : (program >>= next).Returns exec ends :=
  (returns_any program).bind fun value _ => rest value

theorem Decides.bind {middle : α → Prop} {program : Program Resp α}
    {next : α → Program Resp β} (first : program.Decides exec marked middle)
    (decided : ∀ value, middle value → (next value).Returns exec ends)
    (rest : ∀ value, (next value).Decides exec marked ends) :
    (program >>= next).Decides exec marked ends := by
  induction program with
  | done value => exact rest value
  | act op continue' ih =>
      exact fun memory => ⟨fun mark => ((first memory).1 mark).bind decided,
        ih _ (first memory).2⟩

theorem Performs.decides {ends : α → Prop} {program : Program Resp α}
    (performs : program.Performs fun op => ¬marked op) : program.Decides exec marked ends := by
  induction program with
  | done value => trivial
  | act op next ih =>
      exact fun memory => ⟨fun mark => (performs.1 mark).elim, ih _ (performs.2 _)⟩

theorem Performs.decidesBefore {program : Program Resp α} {next : α → Program Resp β}
    (performs : program.Performs fun op => ¬marked op)
    (rest : ∀ value, (next value).Decides exec marked ends) :
    (program >>= next).Decides exec marked ends := by
  have undecided : program.Decides exec marked fun _ => False := performs.decides
  exact undecided.bind (fun _ nothing => nothing.elim) rest

end Program

variable {ι : Type} {Call Ret : ι → Type} [DecidableEq ι]
  {body : (i : ι) → Call i → Program Resp (Ret i)} {exec : Semantics Resp σ}
  {allowed : (i : ι) → Call i → Prop} {i : ι} {marked : Op → Prop} {ends : Ret i → Prop}

/-- What is left of a call decides its result as the call does. -/
theorem decides_of_running {memory : σ} (decides : ∀ call, (body i call).Decides exec marked ends)
    {config : Config Resp σ Call Ret} (reached : Reachable body exec allowed memory config)
    {call : Call i} {entry : σ} {rest : Program Resp (Ret i)}
    (running : config.thread i = .running call entry rest) :
    rest.Decides exec marked ends := by
  induction reached generalizing rest with
  | refl => cases running
  | @tail before after earlier step ih =>
      cases step with
      | invoke j other admitted idle =>
          by_cases same : i = j
          · subst same
            simp only [Config.invoke, Function.update_self] at running
            cases running
            exact decides _
          · simp only [Config.invoke, Function.update_of_ne same] at running
            exact ih running
      | perform j other entry' op next current =>
          by_cases same : i = j
          · subst same
            simp only [Config.perform, Function.update_self] at running
            cases running
            exact (ih current before.memory).2
          · simp only [Config.perform, Function.update_of_ne same] at running
            exact ih running
      | conclude j other entry' result current =>
          by_cases same : i = j
          · subst same
            simp only [Config.conclude, Function.update_self] at running
            cases running
          · simp only [Config.conclude, Function.update_of_ne same] at running
            exact ih running

/-- A call whose result is decided is still in progress, or is the next in the log. -/
theorem returned_of_running {config last : Config Resp σ Call Ret}
    (later : Relation.ReflTransGen (Step body exec allowed) config last)
    {call : Call i} {entry : σ} {rest : Program Resp (Ret i)}
    (running : config.thread i = .running call entry rest) (returns : rest.Returns exec ends) :
    ((∃ rest', last.thread i = .running call entry rest' ∧ rest'.Returns exec ends) ∧
        last.returned i = config.returned i) ∨
      ∃ record, (last.returned i)[(config.returned i).length]? = some record ∧
        ends record.result := by
  induction later with
  | refl => exact .inl ⟨⟨rest, running, returns⟩, rfl⟩
  | @tail before after earlier step ih =>
      cases step with
      | invoke j other admitted idle =>
          refine ih.imp_left fun ⟨⟨rest', current, returns'⟩, logEq⟩ =>
            ⟨⟨rest', ?_, returns'⟩, logEq⟩
          have other : i ≠ j := by
            rintro rfl
            rw [idle] at current
            cases current
          simpa only [Config.invoke, Function.update_of_ne other] using current
      | perform j other entry' op next performing =>
          refine ih.imp_left fun ⟨⟨rest', current, returns'⟩, logEq⟩ => ⟨?_, logEq⟩
          by_cases same : i = j
          · subst same
            rw [performing] at current
            cases current
            exact ⟨_, by simp only [Config.perform, Function.update_self], returns' before.memory⟩
          · exact ⟨rest', by simpa only [Config.perform, Function.update_of_ne same] using current,
              returns'⟩
      | conclude j other entry' result concluding =>
          by_cases same : i = j
          · subst same
            simp only [Config.conclude, Function.update_self]
            rcases ih with ⟨⟨rest', current, returns'⟩, logEq⟩ | ⟨record, recordAt, ended⟩
            · rw [concluding] at current
              cases current
              exact .inr ⟨⟨_, _, result, _⟩, by rw [logEq, List.getElem?_concat_length], returns'⟩
            · exact .inr ⟨record, List.getElem?_append_left (List.getElem?_eq_some_iff.mp
                recordAt).1 ▸ recordAt, ended⟩
          · simpa only [Config.conclude, Function.update_of_ne same] using ih

end AtomicProgram
