import PcmRing.RelyGuarantee
import Mathlib.Data.List.Chain
import Mathlib.Data.List.Forall2
import Mathlib.Logic.Function.Basic

/-!
# Threads that call atomic programs on one memory

Every thread repeatedly calls an operation, performs the accesses of its
program one at a time, and returns.  A configuration holds the memory, what
each thread is doing, and every call that has returned, with the memory as it
was when the call began and when it returned.  One access of one thread is one
step, so the reachable configurations are those of every schedule.
-/

namespace AtomicProgram

variable {Op : Type} {Resp : Op → Type} {ι σ : Type} {Call Ret : ι → Type}

/-- A thread is between calls, or has the rest of one call to perform. -/
inductive Activity (Resp : Op → Type) (σ Call Ret : Type) : Type where
  | idle
  | running (call : Call) (entry : σ) (rest : Program Resp Ret)

/-- One call that has returned, with the memory at both of its ends. -/
structure Returned (σ Call Ret : Type) where
  call : Call
  entry : σ
  result : Ret
  exit : σ

/-- The memory, every thread, and every call that has returned so far. -/
structure Config (Resp : Op → Type) (σ : Type) (Call Ret : ι → Type) where
  memory : σ
  thread : (i : ι) → Activity Resp σ (Call i) (Ret i)
  returned : (i : ι) → List (Returned σ (Call i) (Ret i))

namespace Config

/-- Every thread is between calls and nothing has returned. -/
def start (memory : σ) : Config Resp σ Call Ret where
  memory := memory
  thread _ := .idle
  returned _ := []

/-- The access a thread performs next. -/
def nextAccess (config : Config Resp σ Call Ret) (i : ι) : Option Op :=
  match config.thread i with
  | .running _ _ (.act op _) => some op
  | _ => none

theorem running_of_nextAccess {config : Config Resp σ Call Ret} {i : ι} {op : Op}
    (next : config.nextAccess i = some op) :
    ∃ call entry rest, config.thread i = .running call entry (.act op rest) := by
  unfold nextAccess at next
  split at next
  · rename_i running
    cases next
    exact ⟨_, _, _, running⟩
  · cases next

/-- Thread `i` is between two calls. -/
def resting (config : Config Resp σ Call Ret) (i : ι) : Bool :=
  match config.thread i with
  | .idle => true
  | .running .. => false

theorem idle_of_resting {config : Config Resp σ Call Ret} {i : ι}
    (resting : config.resting i = true) : config.thread i = .idle := by
  unfold Config.resting at resting
  split at resting
  · assumption
  · cases resting

/-- The memory when thread `i` was last between two calls. -/
def settled (config : Config Resp σ Call Ret) (i : ι) : σ :=
  match config.thread i with
  | .idle => config.memory
  | .running _ entry _ => entry

theorem settled_of_idle {config : Config Resp σ Call Ret} {i : ι}
    (idle : config.thread i = .idle) : config.settled i = config.memory := by
  simp only [settled, idle]

theorem settled_of_running {config : Config Resp σ Call Ret} {i : ι} {call : Call i}
    {entry : σ} {rest : Program Resp (Ret i)}
    (running : config.thread i = .running call entry rest) : config.settled i = entry := by
  simp only [settled, running]

variable [DecidableEq ι]

/-- Thread `i` begins a call. -/
def invoke (body : (i : ι) → Call i → Program Resp (Ret i)) (i : ι) (call : Call i)
    (config : Config Resp σ Call Ret) : Config Resp σ Call Ret :=
  { config with
    thread := Function.update config.thread i
      (.running call config.memory (body i call)) }

/-- Thread `i` performs the access `op` and keeps the rest of its call. -/
def perform (exec : Semantics Resp σ) (i : ι) (call : Call i) (entry : σ) (op : Op)
    (next : Resp op → Program Resp (Ret i)) (config : Config Resp σ Call Ret) :
    Config Resp σ Call Ret :=
  { config with
    memory := (exec op config.memory).2
    thread := Function.update config.thread i
      (.running call entry (next (exec op config.memory).1)) }

/-- Thread `i` returns from its call. -/
def conclude (i : ι) (call : Call i) (entry : σ) (result : Ret i)
    (config : Config Resp σ Call Ret) : Config Resp σ Call Ret :=
  { config with
    thread := Function.update config.thread i .idle
    returned := Function.update config.returned i
      (config.returned i ++ [⟨call, entry, result, config.memory⟩]) }

end Config

variable [DecidableEq ι] (body : (i : ι) → Call i → Program Resp (Ret i))
  (exec : Semantics Resp σ)

/-- One step of one thread; only calls that `allowed` admits are begun. -/
inductive Step (allowed : (i : ι) → Call i → Prop) :
    Config Resp σ Call Ret → Config Resp σ Call Ret → Prop where
  | invoke (config : Config Resp σ Call Ret) (i : ι) (call : Call i)
      (admitted : allowed i call) (idle : config.thread i = .idle) :
      Step allowed config (config.invoke body i call)
  | perform (config : Config Resp σ Call Ret) (i : ι) (call : Call i) (entry : σ) (op : Op)
      (next : Resp op → Program Resp (Ret i))
      (current : config.thread i = .running call entry (.act op next)) :
      Step allowed config (config.perform exec i call entry op next)
  | conclude (config : Config Resp σ Call Ret) (i : ι) (call : Call i) (entry : σ)
      (result : Ret i) (current : config.thread i = .running call entry (.done result)) :
      Step allowed config (config.conclude i call entry result)

/-- The configurations of every schedule of admitted calls from `memory`. -/
def Reachable (allowed : (i : ι) → Call i → Prop) (memory : σ) :
    Config Resp σ Call Ret → Prop :=
  Relation.ReflTransGen (Step body exec allowed) (Config.start memory)

/-- One choice of a scheduler: a call begins, or its thread performs `count`
steps, or it runs until it is between calls again. -/
inductive Choice (Call : ι → Type) : Type where
  | invoke (i : ι) (call : Call i)
  | advance (i : ι) (count : Nat)
  | complete (i : ι) (fuel : Nat)

/-- A choice begins no call but an allowed one. -/
def Choice.Admitted (allowed : (i : ι) → Call i → Prop) : Choice Call → Prop
  | invoke i call => allowed i call
  | advance .. | complete .. => True

/-- One step of a thread that has a call to perform. -/
def advance (i : ι) (config : Config Resp σ Call Ret) : Option (Config Resp σ Call Ret) :=
  match config.thread i with
  | .idle => none
  | .running call entry (.act op next) => some (config.perform exec i call entry op next)
  | .running call entry (.done result) => some (config.conclude i call entry result)

def advanceBy (i : ι) : Nat → Config Resp σ Call Ret → Option (Config Resp σ Call Ret)
  | 0, config => some config
  | count + 1, config => (advance exec i config).bind (advanceBy i count)

/-- Run a thread until it is between calls. -/
def complete (i : ι) : Nat → Config Resp σ Call Ret → Option (Config Resp σ Call Ret)
  | 0, _ => none
  | fuel + 1, config =>
      match config.thread i with
      | .idle => some config
      | .running .. => (advance exec i config).bind (complete i fuel)

/-- Carry out one choice, when the chosen thread can take it. -/
def play (config : Config Resp σ Call Ret) : Choice Call → Option (Config Resp σ Call Ret)
  | .invoke i call =>
      match config.thread i with
      | .idle => some (config.invoke body i call)
      | .running .. => none
  | .advance i count => advanceBy exec i count config
  | .complete i fuel => complete exec i fuel config

/-- Carry out a whole schedule. -/
def playAll : List (Choice Call) → Config Resp σ Call Ret → Option (Config Resp σ Call Ret)
  | [], config => some config
  | choice :: rest, config => (play body exec config choice).bind (playAll rest)

section Play

variable {allowed : (i : ι) → Call i → Prop} {memory : σ}
  {config last : Config Resp σ Call Ret}

theorem reachable_of_advance {i : ι} (reached : Reachable body exec allowed memory config)
    (played : advance exec i config = some last) :
    Reachable body exec allowed memory last := by
  unfold advance at played
  split at played
  · cases played
  · rename_i call entry op next running
    exact Option.some.inj played ▸ reached.tail (.perform config i call entry op next running)
  · rename_i call entry result running
    exact Option.some.inj played ▸ reached.tail (.conclude config i call entry result running)

theorem reachable_of_advanceBy {i : ι} (count : Nat)
    (reached : Reachable body exec allowed memory config)
    (played : advanceBy exec i count config = some last) :
    Reachable body exec allowed memory last := by
  induction count generalizing config with
  | zero => exact Option.some.inj played ▸ reached
  | succ count ih =>
      obtain ⟨next, first, others⟩ := Option.bind_eq_some_iff.mp played
      exact ih (reachable_of_advance body exec reached first) others

theorem reachable_of_complete {i : ι} (fuel : Nat)
    (reached : Reachable body exec allowed memory config)
    (played : complete exec i fuel config = some last) :
    Reachable body exec allowed memory last := by
  induction fuel generalizing config with
  | zero => cases played
  | succ fuel ih =>
      unfold complete at played
      split at played
      · exact Option.some.inj played ▸ reached
      · obtain ⟨next, first, others⟩ := Option.bind_eq_some_iff.mp played
        exact ih (reachable_of_advance body exec reached first) others

theorem reachable_of_play {choice : Choice Call} (admitted : choice.Admitted allowed)
    (reached : Reachable body exec allowed memory config)
    (played : play body exec config choice = some last) :
    Reachable body exec allowed memory last := by
  cases choice with
  | invoke i call =>
      unfold play at played
      dsimp only at played
      split at played
      · rename_i idle
        exact Option.some.inj played ▸
          reached.tail (.invoke config i call admitted idle)
      · cases played
  | advance i count => exact reachable_of_advanceBy body exec count reached played
  | complete i fuel => exact reachable_of_complete body exec fuel reached played

theorem reachable_of_playAll (schedule : List (Choice Call))
    (admitted : ∀ choice ∈ schedule, choice.Admitted allowed)
    (reached : Reachable body exec allowed memory config)
    (played : playAll body exec schedule config = some last) :
    Reachable body exec allowed memory last := by
  induction schedule generalizing config with
  | nil => exact Option.some.inj played ▸ reached
  | cons choice rest ih =>
      obtain ⟨next, first, others⟩ := Option.bind_eq_some_iff.mp played
      exact ih (fun later member => admitted later (List.mem_cons_of_mem choice member))
        (reachable_of_play body exec (admitted choice List.mem_cons_self) reached first) others

end Play

/-- One proof outline for each thread: its invariant between calls, what it
tolerates and promises, and what each of its calls establishes. -/
structure Outline (allowed : (i : ι) → Call i → Prop) where
  rely : ι → σ → σ → Prop
  guar : ι → Op → σ → Prop
  inv : ι → σ → Prop
  post : (i : ι) → Call i → σ → Ret i → σ → Prop
  order : ∀ i, Program.Preordered (rely i)
  stable : ∀ {i first last}, rely i first last → inv i first → inv i last
  compatible : ∀ {i j op memory}, i ≠ j → guar j op memory →
    rely i memory (exec op memory).2
  safe : ∀ i call memory, allowed i call → inv i memory →
    (body i call).Safe exec (rely i) (guar i)
      (fun result exit => inv i exit ∧ post i call memory result exit) memory

variable {body exec}

namespace Outline

variable {allowed : (i : ι) → Call i → Prop}
  (outline : Outline body exec allowed)

/-- What the outline knows about one thread of a configuration. -/
def Holds (config : Config Resp σ Call Ret) (i : ι) : Prop :=
  (match config.thread i with
    | .idle => outline.inv i config.memory
    | .running call entry rest => allowed i call ∧
        rest.Safe exec (outline.rely i) (outline.guar i)
          (fun result exit => outline.inv i exit ∧ outline.post i call entry result exit)
          config.memory) ∧
    ∀ record ∈ config.returned i, allowed i record.call ∧
      outline.post i record.call record.entry record.result record.exit

omit [DecidableEq ι] in
theorem holds_start {memory : σ} (holds : ∀ i, outline.inv i memory) (i : ι) :
    outline.Holds (Config.start memory) i :=
  ⟨holds i, by simp [Config.start]⟩

omit [DecidableEq ι] in
/-- Another thread's permitted access disturbs no judgment. -/
theorem Holds.interfered {config : Config Resp σ Call Ret} {i : ι}
    (holds : outline.Holds config i) {memory : σ}
    (moves : outline.rely i config.memory memory)
    {next : Config Resp σ Call Ret} (memoryEq : next.memory = memory)
    (threadEq : next.thread i = config.thread i)
    (returnedEq : next.returned i = config.returned i) : outline.Holds next i := by
  refine ⟨?_, by simpa only [returnedEq] using holds.2⟩
  have current := holds.1
  rw [threadEq, memoryEq]
  cases state : config.thread i with
  | idle =>
      simp only [state] at current ⊢
      exact outline.stable moves current
  | running call entry rest =>
      simp only [state] at current ⊢
      exact ⟨current.1, current.2.stable (outline.order i) moves⟩

theorem holds_step {config next : Config Resp σ Call Ret}
    (holds : ∀ i, outline.Holds config i) (step : Step body exec allowed config next)
    (i : ι) : outline.Holds next i := by
  cases step with
  | invoke j call admitted idle =>
      by_cases same : i = j
      · subst same
        have current := (holds i).1
        simp only [idle] at current
        refine ⟨?_, (holds i).2⟩
        simp only [Config.invoke, Function.update_self]
        exact ⟨admitted, outline.safe i call _ admitted current⟩
      · exact Holds.interfered outline (holds i) ((outline.order i).refl _) rfl
          (Function.update_of_ne same _ _) rfl
  | perform j call entry op next running =>
      have current := (holds j).1
      simp only [running] at current
      have promised := current.2 config.memory ((outline.order j).refl _)
      by_cases same : i = j
      · subst same
        refine ⟨?_, (holds i).2⟩
        simp only [Config.perform, Function.update_self]
        exact ⟨current.1, promised.2⟩
      · exact Holds.interfered outline (holds i)
          (outline.compatible same promised.1) rfl
          (Function.update_of_ne same _ _) rfl
  | conclude j call entry result running =>
      have current := (holds j).1
      simp only [running] at current
      have finished := current.2 config.memory ((outline.order j).refl _)
      by_cases same : i = j
      · subst same
        refine ⟨by simpa [Config.conclude] using finished.1, ?_⟩
        intro record member
        simp only [Config.conclude, Function.update_self, List.mem_append,
          List.mem_singleton] at member
        rcases member with earlier | rfl
        · exact (holds i).2 record earlier
        · exact ⟨current.1, finished.2⟩
      · exact Holds.interfered outline (holds i) ((outline.order i).refl _) rfl
          (Function.update_of_ne same _ _) (Function.update_of_ne same _ _)

/-- Every thread's judgment holds in every configuration of every schedule. -/
theorem holds_of_reachable {memory : σ} (holds : ∀ i, outline.inv i memory)
    {config : Config Resp σ Call Ret}
    (reached : Reachable body exec allowed memory config) (i : ι) :
    outline.Holds config i := by
  induction reached generalizing i with
  | refl => exact outline.holds_start holds i
  | tail _ step ih => exact outline.holds_step ih step i

/-- What every promised access keeps holds in every configuration. -/
theorem memory_of_reachable {memory : σ} (holds : ∀ i, outline.inv i memory)
    (assertion : σ → Prop) (initial : assertion memory)
    (keeps : ∀ i op current, outline.guar i op current → assertion current →
      assertion (exec op current).2)
    {config : Config Resp σ Call Ret}
    (reached : Reachable body exec allowed memory config) : assertion config.memory := by
  induction reached with
  | refl => exact initial
  | tail before step ih =>
      cases step with
      | invoke i call admitted idle => exact ih
      | perform i call entry op next running =>
          have current := (outline.holds_of_reachable holds before i).1
          simp only [running] at current
          exact keeps i op _ (current.2 _ ((outline.order i).refl _)).1 ih
      | conclude i call entry result running => exact ih

omit [DecidableEq ι] in
theorem inv_of_idle {config : Config Resp σ Call Ret} {i : ι}
    (holds : outline.Holds config i) (idle : config.thread i = .idle) :
    outline.inv i config.memory := by
  simpa only [idle] using holds.1

omit [DecidableEq ι] in
/-- The access a thread is about to perform meets its guarantee. -/
theorem guar_of_running {config : Config Resp σ Call Ret} {i : ι}
    (holds : outline.Holds config i) {call : Call i} {entry : σ} {op : Op}
    {next : Resp op → Program Resp (Ret i)}
    (running : config.thread i = .running call entry (.act op next)) :
    outline.guar i op config.memory := by
  have current := holds.1
  simp only [running] at current
  exact (current.2 config.memory ((outline.order i).refl _)).1

omit [DecidableEq ι] in
theorem post_of_returned {config : Config Resp σ Call Ret} {i : ι}
    (holds : outline.Holds config i) {record : Returned σ (Call i) (Ret i)}
    (member : record ∈ config.returned i) :
    outline.post i record.call record.entry record.result record.exit :=
  (holds.2 record member).2

/-- A log that only one thread extends is what its calls appended, in order. -/
theorem log_of_settled {ε : Type} {memory : σ} (holds : ∀ i, outline.inv i memory) (i : ι)
    (sound : σ → Prop) (sounds : ∀ {config : Config Resp σ Call Ret},
      Reachable body exec allowed memory config → sound config.memory)
    (log : σ → List ε)
    (owned : ∀ {first last}, sound first → outline.rely i first last → log last = log first)
    (appended : Returned σ (Call i) (Ret i) → List ε → Prop)
    (appends : ∀ record : Returned σ (Call i) (Ret i),
      outline.post i record.call record.entry record.result record.exit →
      ∃ block, log record.exit = log record.entry ++ block ∧ appended record block)
    {config : Config Resp σ Call Ret}
    (reached : Reachable body exec allowed memory config) :
    ∃ blocks, List.Forall₂ appended (config.returned i) blocks ∧
      log (config.settled i) = log memory ++ blocks.flatten := by
  induction reached with
  | refl => exact ⟨[], .nil, (List.append_nil _).symm⟩
  | @tail before after earlier step ih =>
      obtain ⟨blocks, matched, logEq⟩ := ih
      have judged := outline.holds_of_reachable holds earlier
      cases step with
      | invoke j call admitted idle =>
          refine ⟨blocks, matched, ?_⟩
          by_cases same : i = j
          · subst same
            rw [Config.settled_of_idle idle] at logEq
            simpa only [Config.settled, Config.invoke, Function.update_self] using logEq
          · simpa only [Config.settled, Config.invoke, Function.update_of_ne same] using logEq
      | perform j call entry op next running =>
          refine ⟨blocks, matched, ?_⟩
          by_cases same : i = j
          · subst same
            rw [Config.settled_of_running running] at logEq
            simpa only [Config.settled, Config.perform, Function.update_self] using logEq
          · have kept := owned (sounds earlier) (outline.compatible same
              (outline.guar_of_running (judged j) running))
            rw [← logEq]
            simp only [Config.settled, Config.perform, Function.update_of_ne same]
            split
            · exact kept
            · rfl
      | conclude j call entry result running =>
          by_cases same : i = j
          · subst same
            have after := outline.holds_of_reachable holds
              (earlier.tail (.conclude before i call entry result running)) i
            have record : (⟨call, entry, result, before.memory⟩ :
                Returned σ (Call i) (Ret i)) ∈
                (before.conclude i call entry result).returned i := by
              simp [Config.conclude]
            obtain ⟨block, blockEq, fits⟩ := appends _ (outline.post_of_returned after record)
            rw [Config.settled_of_running running] at logEq
            refine ⟨blocks ++ [block], ?_, ?_⟩
            · simp only [Config.conclude, Function.update_self]
              exact List.rel_append matched (.cons fits .nil)
            · simp only [Config.settled, Config.conclude, Function.update_self]
              rw [blockEq, logEq, List.flatten_append, List.flatten_singleton, List.append_assoc]
          · refine ⟨blocks, ?_, ?_⟩
            · simpa only [Config.conclude, Function.update_of_ne same] using matched
            · simpa only [Config.settled, Config.conclude, Function.update_of_ne same] using logEq

theorem log_of_idle {ε : Type} {memory : σ} (holds : ∀ i, outline.inv i memory) (i : ι)
    (sound : σ → Prop) (sounds : ∀ {config : Config Resp σ Call Ret},
      Reachable body exec allowed memory config → sound config.memory)
    (log : σ → List ε)
    (owned : ∀ {first last}, sound first → outline.rely i first last → log last = log first)
    (appended : Returned σ (Call i) (Ret i) → List ε → Prop)
    (appends : ∀ record : Returned σ (Call i) (Ret i),
      outline.post i record.call record.entry record.result record.exit →
      ∃ block, log record.exit = log record.entry ++ block ∧ appended record block)
    {config : Config Resp σ Call Ret}
    (reached : Reachable body exec allowed memory config)
    (idle : config.thread i = .idle) :
    ∃ blocks, List.Forall₂ appended (config.returned i) blocks ∧
      log config.memory = log memory ++ blocks.flatten :=
  Config.settled_of_idle idle ▸
    outline.log_of_settled holds i sound sounds log owned appended appends reached

/-- A judgment of every call that may speak about the call and the memory it
began in holds of every call in progress. -/
theorem safe_of_running {memory : σ} (holds : ∀ i, outline.inv i memory)
    (guar : (i : ι) → Call i → σ → Op → σ → Prop) (post : (i : ι) → Call i → σ → Ret i → σ → Prop)
    (safe : ∀ i call entry, allowed i call → outline.inv i entry →
      (body i call).Safe exec (outline.rely i) (guar i call entry) (post i call entry) entry)
    {config : Config Resp σ Call Ret} (reached : Reachable body exec allowed memory config) {i : ι}
    {call : Call i} {entry : σ} {rest : Program Resp (Ret i)}
    (running : config.thread i = .running call entry rest) :
    rest.Safe exec (outline.rely i) (guar i call entry) (post i call entry) config.memory := by
  induction reached generalizing rest with
  | refl => cases running
  | @tail before after earlier step ih =>
      have judged := outline.holds_of_reachable holds earlier
      cases step with
      | invoke j other admitted idle =>
          by_cases same : i = j
          · subst same
            simp only [Config.invoke, Function.update_self] at running ⊢
            cases running
            exact safe i _ _ admitted (inv_of_idle outline (judged i) idle)
          · simp only [Config.invoke, Function.update_of_ne same] at running
            exact ih running
      | perform j other entry' op next current =>
          by_cases same : i = j
          · subst same
            simp only [Config.perform, Function.update_self] at running ⊢
            cases running
            exact (ih current _ ((outline.order i).refl _)).2
          · simp only [Config.perform, Function.update_of_ne same] at running
            exact (ih running).stable (outline.order i)
              (outline.compatible same (outline.guar_of_running (judged j) current))
      | conclude j other entry' result current =>
          by_cases same : i = j
          · subst same
            simp only [Config.conclude, Function.update_self] at running
            cases running
          · simp only [Config.conclude, Function.update_of_ne same] at running
            exact ih running

/-- A second judgment of every call beside the first. -/
def also (guar : ι → Op → σ → Prop) (post : (i : ι) → Call i → σ → Ret i → σ → Prop)
    (safe : ∀ i call memory, allowed i call → outline.inv i memory →
      (body i call).Safe exec (outline.rely i) (guar i) (post i call memory) memory) :
    Outline body exec allowed :=
  { outline with
    guar := fun i op memory => outline.guar i op memory ∧ guar i op memory
    post := fun i call entry result exit =>
      outline.post i call entry result exit ∧ post i call entry result exit
    compatible := fun other promised => outline.compatible other promised.1
    safe := fun i call memory admitted holds =>
      ((outline.safe i call memory admitted holds).and (safe i call memory admitted holds)).mono
        fun _ _ ends => ⟨ends.1.1, ends.1.2, ends.2⟩ }

/-- What relates every memory to the one after a promised access relates the
memories of a run. -/
theorem related_of_steps {memory : σ} (holds : ∀ i, outline.inv i memory)
    (related : σ → σ → Prop) (order : Program.Preordered related)
    (moves : ∀ i op current, outline.guar i op current → related current (exec op current).2)
    {first last : Config Resp σ Call Ret} (reached : Reachable body exec allowed memory first)
    (later : Relation.ReflTransGen (Step body exec allowed) first last) :
    related first.memory last.memory := by
  induction later with
  | refl => exact order.refl _
  | @tail middle next before step ih =>
      cases step with
      | invoke j call admitted idle => exact ih
      | perform j call entry op next running =>
          exact order.trans ih (moves j op _ (outline.guar_of_running
            (outline.holds_of_reachable holds (reached.trans before) j) running))
      | conclude j call entry result running => exact ih

/-- Such a relation holds from the end of each call to the beginning of every
later call of the same thread. -/
theorem pairwise_of_returned {memory : σ} (holds : ∀ i, outline.inv i memory)
    (related : σ → σ → Prop) (order : Program.Preordered related)
    (moves : ∀ i op current, outline.guar i op current → related current (exec op current).2)
    {config : Config Resp σ Call Ret} (reached : Reachable body exec allowed memory config)
    (i : ι) : (config.returned i).Pairwise (fun earlier later =>
        related earlier.exit later.entry) ∧
      ∀ record ∈ config.returned i, related record.exit (config.settled i) := by
  -- The call in progress began after every call that has returned.
  suffices settled : (config.returned i).Pairwise (fun earlier later =>
        related earlier.exit later.entry) ∧
      (∀ record ∈ config.returned i, related record.exit (config.settled i)) ∧
      related (config.settled i) config.memory from ⟨settled.1, settled.2.1⟩
  induction reached with
  | refl => exact ⟨.nil, by simp [Config.start], order.refl _⟩
  | @tail before after earlier step ih =>
      obtain ⟨pairs, ends, current⟩ := ih
      cases step with
      | invoke j call admitted idle =>
          by_cases same : i = j
          · subst same
            rw [Config.settled_of_idle idle] at ends
            refine ⟨pairs, ?_, ?_⟩ <;>
              simp only [Config.settled, Config.invoke, Function.update_self]
            · exact ends
            · exact order.refl _
          · refine ⟨pairs, ?_, ?_⟩ <;>
              simp only [Config.settled, Config.invoke, Function.update_of_ne same]
            · exact ends
            · exact current
      | perform j call entry op next running =>
          have moved := moves j op _ (outline.guar_of_running
            (outline.holds_of_reachable holds earlier j) running)
          by_cases same : i = j
          · subst same
            rw [Config.settled_of_running running] at ends current
            refine ⟨pairs, ?_, ?_⟩ <;>
              simp only [Config.settled, Config.perform, Function.update_self]
            · exact ends
            · exact order.trans current moved
          · refine ⟨pairs, ?_⟩
            cases state : before.thread i with
            | idle =>
                rw [Config.settled_of_idle state] at ends
                simp only [Config.settled, Config.perform, Function.update_of_ne same, state]
                exact ⟨fun record member => order.trans (ends record member) moved,
                  order.refl _⟩
            | running =>
                rw [Config.settled_of_running state] at ends current
                simp only [Config.settled, Config.perform, Function.update_of_ne same, state]
                exact ⟨ends, order.trans current moved⟩
      | conclude j call entry result running =>
          by_cases same : i = j
          · subst same
            rw [Config.settled_of_running running] at ends current
            simp only [Config.settled, Config.conclude, Function.update_self,
              List.pairwise_append, List.mem_append, List.mem_singleton]
            refine ⟨⟨pairs, List.pairwise_singleton _ _, ?_⟩, ?_, order.refl _⟩
            · rintro record member _ rfl
              exact ends record member
            · rintro record (member | rfl)
              · exact order.trans (ends record member) current
              · exact order.refl _
          · simp only [Config.settled, Config.conclude, Function.update_of_ne same]
            exact ⟨pairs, ends, current⟩

theorem chained_of_returned {memory : σ} (holds : ∀ i, outline.inv i memory)
    {config : Config Resp σ Call Ret} (reached : Reachable body exec allowed memory config)
    (i : ι) : (config.returned i).IsChain fun earlier later =>
      outline.rely i earlier.exit later.entry := by
  -- So it is after the last call, until the next one begins.
  suffices settled : (config.returned i).IsChain (fun earlier later =>
        outline.rely i earlier.exit later.entry) ∧
      ∀ last ∈ (config.returned i).getLast?, outline.rely i last.exit (config.settled i)
    from settled.1
  induction reached with
  | refl => exact ⟨.nil, by simp [Config.start]⟩
  | @tail before after earlier step ih =>
      obtain ⟨chain, ends⟩ := ih
      cases step with
      | invoke j call admitted idle =>
          by_cases same : i = j
          · subst same
            rw [Config.settled_of_idle idle] at ends
            simp only [Config.settled, Config.invoke, Function.update_self]
            exact ⟨chain, ends⟩
          · simp only [Config.settled, Config.invoke, Function.update_of_ne same]
            exact ⟨chain, ends⟩
      | perform j call entry op next running =>
          by_cases same : i = j
          · subst same
            rw [Config.settled_of_running running] at ends
            simp only [Config.settled, Config.perform, Function.update_self]
            exact ⟨chain, ends⟩
          · have moved := outline.compatible same (outline.guar_of_running
              (outline.holds_of_reachable holds earlier j) running)
            refine ⟨chain, ?_⟩
            cases state : before.thread i with
            | idle =>
                rw [Config.settled_of_idle state] at ends
                simp only [Config.settled, Config.perform, Function.update_of_ne same, state]
                exact fun last member => (outline.order i).trans (ends last member) moved
            | running =>
                rw [Config.settled_of_running state] at ends
                simp only [Config.settled, Config.perform, Function.update_of_ne same, state]
                exact ends
      | conclude j call entry result running =>
          by_cases same : i = j
          · subst same
            rw [Config.settled_of_running running] at ends
            simp only [Config.settled, Config.conclude, Function.update_self]
            refine ⟨List.isChain_append.mpr ⟨chain, .singleton _, ?_⟩, ?_⟩
            · rintro last member _ ⟨⟩
              exact ends last member
            · intro last member
              rw [List.getLast?_concat] at member
              obtain rfl := Option.mem_some.mp member
              exact (outline.order i).refl _
          · simp only [Config.settled, Config.conclude, Function.update_of_ne same]
            exact ⟨chain, ends⟩

/-- What the calls of a thread keep from beginning to end, and the others in
between, holds from the beginning of any of its calls on. -/
theorem kept_of_returned {memory : σ} (holds : ∀ i, outline.inv i memory) (i : ι)
    (kept : σ → Prop)
    (stable : ∀ {first last}, outline.rely i first last → kept first → kept last)
    (calls : ∀ record : Returned σ (Call i) (Ret i),
      outline.post i record.call record.entry record.result record.exit →
      kept record.entry → kept record.exit)
    {config : Config Resp σ Call Ret} (reached : Reachable body exec allowed memory config)
    {record : Returned σ (Call i) (Ret i)} (member : record ∈ config.returned i)
    (start : kept record.entry) : kept (config.settled i) := by
  induction reached with
  | refl => cases member
  | @tail before after earlier step ih =>
      have judged {config : Config Resp σ Call Ret}
          (reached : Reachable body exec allowed memory config) (j : ι) :
          outline.Holds config j := outline.holds_of_reachable holds reached j
      cases step with
      | invoke j call admitted idle =>
          have held := ih member
          by_cases same : i = j
          · subst same
            rw [Config.settled_of_idle idle] at held
            simpa only [Config.settled, Config.invoke, Function.update_self] using held
          · simpa only [Config.settled, Config.invoke, Function.update_of_ne same] using held
      | perform j call entry op next running =>
          have held := ih member
          by_cases same : i = j
          · subst same
            rw [Config.settled_of_running running] at held
            simpa only [Config.settled, Config.perform, Function.update_self] using held
          · have moved := outline.compatible same
              (outline.guar_of_running (judged earlier j) running)
            cases state : before.thread i with
            | idle =>
                rw [Config.settled_of_idle state] at held
                simpa only [Config.settled, Config.perform, Function.update_of_ne same, state]
                  using stable moved held
            | running =>
                rw [Config.settled_of_running state] at held
                simpa only [Config.settled, Config.perform, Function.update_of_ne same, state]
                  using held
      | conclude j call entry result running =>
          by_cases same : i = j
          · subst same
            -- The call that returns is the record's, or a later one.
            have ends : kept entry → kept before.memory := calls ⟨call, entry, result, _⟩
              (outline.post_of_returned (judged (earlier.tail
                (.conclude before i call entry result running)) i) (by
                  simp only [Config.conclude, Function.update_self, List.mem_append,
                    List.mem_singleton, or_true]))
            simp only [Config.conclude, Function.update_self, List.mem_append,
              List.mem_singleton] at member
            simp only [Config.settled, Config.conclude, Function.update_self]
            rcases member with returned | rfl
            · have held := ih returned
              rw [Config.settled_of_running running] at held
              exact ends held
            · exact ends start
          · simp only [Config.conclude, Function.update_of_ne same] at member
            simpa only [Config.settled, Config.conclude, Function.update_of_ne same] using ih member

end Outline

/-- What relates every memory to the one after any access relates a memory at
which a call returned to every later one. -/
theorem related_of_returned {allowed : (i : ι) → Call i → Prop} {memory : σ}
    (related : σ → σ → Prop) (order : Program.Preordered related)
    (moves : ∀ op memory, related memory (exec op memory).2)
    {config : Config Resp σ Call Ret} (reached : Reachable body exec allowed memory config)
    {i : ι} {record : Returned σ (Call i) (Ret i)} (member : record ∈ config.returned i) :
    related record.exit config.memory := by
  induction reached with
  | refl => cases member
  | tail _ step ih =>
      cases step with
      | invoke j call admitted idle => exact ih member
      | perform j call entry op next running => exact order.trans (ih member) (moves op _)
      | conclude j call entry result running =>
          by_cases same : i = j
          · subst same
            simp only [Config.conclude, Function.update_self, List.mem_append,
              List.mem_singleton] at member
            rcases member with earlier | rfl
            · exact ih earlier
            · exact order.refl _
          · simp only [Config.conclude, Function.update_of_ne same] at member
            exact ih member

/-- A thread that nothing interrupts performs the sequential meaning. -/
theorem reachable_of_rest {allowed : (i : ι) → Call i → Prop} {memory : σ} {i : ι}
    (call : Call i) (entry : σ) (rest : Program Resp (Ret i))
    {config : Config Resp σ Call Ret}
    (reached : Reachable body exec allowed memory config)
    (running : config.thread i = .running call entry rest) :
    ∃ last, Reachable body exec allowed memory last ∧
      last.memory = (rest.run exec config.memory).2 ∧ last.thread i = .idle ∧
      (∀ j, j ≠ i → last.thread j = config.thread j) := by
  induction rest generalizing config with
  | done result =>
      exact ⟨_, reached.tail (.conclude config i call entry result running), rfl,
        Function.update_self _ _ _, fun j other => Function.update_of_ne other _ _⟩
  | act op next ih =>
      obtain ⟨last, reachedLast, memoryEq, idle, others⟩ :=
        ih (exec op config.memory).1
          (reached.tail (.perform config i call entry op next running))
          (Function.update_self _ _ _)
      exact ⟨last, reachedLast, memoryEq, idle, fun j other =>
        (others j other).trans (Function.update_of_ne other _ _)⟩

/-- An uninterrupted call from a configuration whose thread is between calls. -/
theorem reachable_of_call {allowed : (i : ι) → Call i → Prop} {memory : σ} {i : ι}
    {call : Call i} (admitted : allowed i call) {config : Config Resp σ Call Ret}
    (reached : Reachable body exec allowed memory config)
    (idle : config.thread i = .idle) :
    ∃ last, Reachable body exec allowed memory last ∧
      last.memory = ((body i call).run exec config.memory).2 ∧ last.thread i = .idle ∧
      (∀ j, j ≠ i → last.thread j = config.thread j) := by
  obtain ⟨last, reachedLast, memoryEq, idleLast, others⟩ :=
    reachable_of_rest call config.memory (body i call)
      (reached.tail (.invoke config i call admitted idle)) (Function.update_self _ _ _)
  exact ⟨last, reachedLast, memoryEq, idleLast, fun j other =>
    (others j other).trans (Function.update_of_ne other _ _)⟩

end AtomicProgram
