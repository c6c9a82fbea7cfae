import PcmRing.ThreadInterleaving
import Mathlib.Data.Option.Basic

/-!
# Programs seen through a projection of their memory

One interface looks like another when its accesses, their answers and its memory
can be projected so that every access commutes with the projection.  A program
that performs the projected accesses of another one, whatever those answer, then
does so in every schedule of any threads.
-/

namespace AtomicProgram

variable {Op Op' : Type} {Resp : Op → Type} {Resp' : Op' → Type} {σ σ' : Type}
  {α β γ δ : Type}

/-- A projection of accesses, answers and memory that every access commutes with. -/
structure Mirror (exec : Semantics Resp σ) (exec' : Semantics Resp' σ') where
  op : Op → Op'
  response : (op' : Op) → Resp op' → Resp' (op op')
  memory : σ → σ'
  exec_eq : ∀ op' state, exec' (op op') (memory state) =
    (response op' (exec op' state).1, memory (exec op' state).2)

variable {exec : Semantics Resp σ} {exec' : Semantics Resp' σ'} (mirror : Mirror exec exec')

/-- One program performs the projected accesses of another one. -/
inductive Program.Mirrors (related : α → β → Prop) : Program Resp α → Program Resp' β → Prop where
  | done {value : α} {image : β} (same : related value image) :
      Mirrors related (.done value) (.done image)
  | act (op : Op) {next : Resp op → Program Resp α}
      {next' : Resp' (mirror.op op) → Program Resp' β}
      (rest : ∀ response, Mirrors related (next response) (next' (mirror.response op response))) :
      Mirrors related (.act op next) (.act (mirror.op op) next')

namespace Program.Mirrors

variable {mirror} {related : α → β → Prop} {further : γ → δ → Prop}
  {program : Program Resp α} {image : Program Resp' β}

theorem bind {next : α → Program Resp γ} {next' : β → Program Resp' δ}
    (first : Program.Mirrors mirror related program image)
    (rest : ∀ value value', related value value' →
      Program.Mirrors mirror further (next value) (next' value')) :
    Program.Mirrors mirror further (program >>= next) (image >>= next') := by
  induction first with
  | done same => exact rest _ _ same
  | act op _ ih => exact .act op ih

theorem ite {condition condition' : Prop} [Decidable condition] [Decidable condition']
    (same : condition' ↔ condition) {other : Program Resp α} {other' : Program Resp' β}
    (yes : condition → Program.Mirrors mirror related program image)
    (no : ¬condition → Program.Mirrors mirror related other other') :
    Program.Mirrors mirror related (if condition then program else other)
      (if condition' then image else other') := by
  by_cases holds : condition
  · rw [if_pos holds, if_pos (same.mpr holds)]
    exact yes holds
  · rw [if_neg holds, if_neg fun found => holds (same.mp found)]
    exact no holds

theorem perform (op : Op) : Program.Mirrors mirror
    (fun response image => image = mirror.response op response)
    (Program.perform op : Program Resp (Resp op)) (Program.perform (mirror.op op)) :=
  .act op fun _ => .done rfl

theorem mono {other : α → β → Prop} (mirrors : Program.Mirrors mirror related program image)
    (weaker : ∀ value value', related value value' → other value value') :
    Program.Mirrors mirror other program image := by
  induction mirrors with
  | done same => exact .done (weaker _ _ same)
  | act op _ ih => exact .act op ih

theorem run (mirrors : Program.Mirrors mirror related program image) (state : σ) :
    related (program.run exec state).1 (image.run exec' (mirror.memory state)).1 ∧
      (image.run exec' (mirror.memory state)).2 = mirror.memory (program.run exec state).2 := by
  induction mirrors generalizing state with
  | done same => exact ⟨same, rfl⟩
  | act op _ ih =>
      rw [Program.run_act, Program.run_act, mirror.exec_eq]
      exact ih _ _

end Program.Mirrors

section Schedules

variable {ι : Type} {Call Ret Call' Ret' : ι → Type} (call : (i : ι) → Call i → Call' i)
  (related : (i : ι) → Call i → Ret i → Ret' i → Prop)

/-- Two threads do the same. -/
inductive Activity.Mirrors (i : ι) :
    Activity Resp σ (Call i) (Ret i) → Activity Resp' σ' (Call' i) (Ret' i) → Prop where
  | idle : Activity.Mirrors i .idle .idle
  | running (called : Call i) (entry : σ) {rest : Program Resp (Ret i)}
      {rest' : Program Resp' (Ret' i)}
      (same : Program.Mirrors mirror (related i called) rest rest') :
      Activity.Mirrors i (.running called entry rest)
        (.running (call i called) (mirror.memory entry) rest')

/-- Two calls returned alike. -/
structure Returned.Mirrors (i : ι) (record : Returned σ (Call i) (Ret i))
    (image : Returned σ' (Call' i) (Ret' i)) : Prop where
  call_eq : image.call = call i record.call
  entry_eq : image.entry = mirror.memory record.entry
  result : related i record.call record.result image.result
  exit_eq : image.exit = mirror.memory record.exit

/-- Two systems between two steps. -/
structure Config.Mirrors (config : Config Resp σ Call Ret) (image : Config Resp' σ' Call' Ret') :
    Prop where
  memory_eq : image.memory = mirror.memory config.memory
  thread : ∀ i, Activity.Mirrors mirror call related i (config.thread i) (image.thread i)
  returned : ∀ i, List.Forall₂ (Returned.Mirrors mirror call related i) (config.returned i)
    (image.returned i)

namespace Config.Mirrors

variable {mirror call related} [DecidableEq ι] {config : Config Resp σ Call Ret}
  {image : Config Resp' σ' Call' Ret'}

omit [DecidableEq ι] in
theorem start (state : σ) : Config.Mirrors mirror call related
    (Config.start state) (Config.start (mirror.memory state)) :=
  ⟨rfl, fun _ => .idle, fun _ => .nil⟩

theorem thread_update (same : Config.Mirrors mirror call related config image) {i : ι}
    {activity : Activity Resp σ (Call i) (Ret i)}
    {activity' : Activity Resp' σ' (Call' i) (Ret' i)}
    (replaced : Activity.Mirrors mirror call related i activity activity') (j : ι) :
    Activity.Mirrors mirror call related j (Function.update config.thread i activity j)
      (Function.update image.thread i activity' j) := by
  by_cases found : j = i
  · subst found
    rw [Function.update_self, Function.update_self]
    exact replaced
  · rw [Function.update_of_ne found, Function.update_of_ne found]
    exact same.thread j

theorem invoke {body : (i : ι) → Call i → Program Resp (Ret i)}
    {body' : (i : ι) → Call' i → Program Resp' (Ret' i)}
    (bodies : ∀ i called, Program.Mirrors mirror (related i called) (body i called)
      (body' i (call i called)))
    (same : Config.Mirrors mirror call related config image) (i : ι) (called : Call i) :
    Config.Mirrors mirror call related (config.invoke body i called)
      (image.invoke body' i (call i called)) := by
  refine ⟨same.memory_eq, same.thread_update ?_, same.returned⟩
  rw [same.memory_eq]
  exact .running called config.memory (bodies i called)

theorem advance (same : Config.Mirrors mirror call related config image) (i : ι) :
    Option.Rel (Config.Mirrors mirror call related) (advance exec i config)
      (AtomicProgram.advance exec' i image) := by
  have running := same.thread i
  unfold AtomicProgram.advance
  generalize config.thread i = activity at running
  generalize image.thread i = activity' at running
  cases running with
  | idle => exact .none
  | running called entry rest =>
      cases rest with
      | act op rest =>
          refine .some ⟨?_, ?_, same.returned⟩
          · change (exec' (mirror.op op) image.memory).2 = _
            rw [same.memory_eq, mirror.exec_eq]
            rfl
          · apply same.thread_update
            rw [same.memory_eq, mirror.exec_eq]
            exact .running called entry (rest _)
      | done result =>
          refine .some ⟨same.memory_eq, same.thread_update .idle, fun j => ?_⟩
          change List.Forall₂ _ (Function.update config.returned i _ j)
            (Function.update image.returned i _ j)
          by_cases found : j = i
          · subst found
            rw [Function.update_self, Function.update_self]
            exact List.rel_append (same.returned j) (.cons ⟨rfl, rfl, result, same.memory_eq⟩ .nil)
          · rw [Function.update_of_ne found, Function.update_of_ne found]
            exact same.returned j

omit [DecidableEq ι] in
theorem bind {first : Option (Config Resp σ Call Ret)}
    {first' : Option (Config Resp' σ' Call' Ret')}
    {next : Config Resp σ Call Ret → Option (Config Resp σ Call Ret)}
    {next' : Config Resp' σ' Call' Ret' → Option (Config Resp' σ' Call' Ret')}
    (begins : Option.Rel (Config.Mirrors mirror call related) first first')
    (continues : ∀ config image, Config.Mirrors mirror call related config image →
      Option.Rel (Config.Mirrors mirror call related) (next config) (next' image)) :
    Option.Rel (Config.Mirrors mirror call related) (first.bind next) (first'.bind next') := by
  cases begins with
  | none => exact .none
  | some same => exact continues _ _ same

theorem advanceBy (same : Config.Mirrors mirror call related config image) (i : ι) (count : Nat) :
    Option.Rel (Config.Mirrors mirror call related) (advanceBy exec i count config)
      (AtomicProgram.advanceBy exec' i count image) := by
  induction count generalizing config image with
  | zero => exact .some same
  | succ count ih => exact bind (same.advance i) fun _ _ next => ih next

theorem complete (same : Config.Mirrors mirror call related config image) (i : ι) (fuel : Nat) :
    Option.Rel (Config.Mirrors mirror call related) (complete exec i fuel config)
      (AtomicProgram.complete exec' i fuel image) := by
  induction fuel generalizing config image with
  | zero => exact .none
  | succ fuel ih =>
      have running := same.thread i
      have stepped := bind (same.advance i) fun _ _ next => ih next
      unfold AtomicProgram.complete
      generalize config.thread i = activity at running
      generalize image.thread i = activity' at running
      cases running with
      | idle => exact .some same
      | running called entry rest => exact stepped

end Config.Mirrors

/-- The same choice in the other system. -/
def Choice.lower : Choice Call → Choice Call'
  | invoke i called => .invoke i (call i called)
  | advance i count => .advance i count
  | complete i fuel => .complete i fuel

variable {mirror call related} [DecidableEq ι]

/-- Every schedule takes both systems to configurations that look alike, or neither
can carry it out. -/
theorem Config.Mirrors.playAll {body : (i : ι) → Call i → Program Resp (Ret i)}
    {body' : (i : ι) → Call' i → Program Resp' (Ret' i)}
    (bodies : ∀ i called, Program.Mirrors mirror (related i called) (body i called)
      (body' i (call i called))) (schedule : List (Choice Call))
    {config : Config Resp σ Call Ret} {image : Config Resp' σ' Call' Ret'}
    (same : Config.Mirrors mirror call related config image) :
    Option.Rel (Config.Mirrors mirror call related) (playAll body exec schedule config)
      (AtomicProgram.playAll body' exec' (schedule.map (Choice.lower call)) image) := by
  induction schedule generalizing config image with
  | nil => exact .some same
  | cons choice rest ih =>
      refine bind ?_ fun _ _ next => ih next
      cases choice with
      | invoke i called =>
          have begun := same.invoke bodies i called
          have running := same.thread i
          unfold AtomicProgram.play Choice.lower
          dsimp only
          generalize config.thread i = activity at running
          generalize image.thread i = activity' at running
          cases running with
          | idle => exact .some begun
          | running called entry rest => exact .none
      | advance i count => exact same.advanceBy i count
      | complete i fuel => exact same.complete i fuel

end Schedules

end AtomicProgram
