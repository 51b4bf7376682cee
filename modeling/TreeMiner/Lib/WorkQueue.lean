import Mathlib.Algebra.BigOperators.Group.Multiset.Basic
import Mathlib.Algebra.GroupWithZero.Nat
import Mathlib.Logic.Relation

/-! Workers that take chunks of tasks from one shared queue. Every task has a cell of its
own, so whatever order the chunks are taken in and the tasks run in, what the workers leave
is what one loop over the tasks leaves, and a worker fails exactly if the loop does. -/

namespace TreeMiner.Lib.WorkQueue

/-- Tasks, the cell each works on, and what it makes of the cell. -/
structure Tasks (ι κ γ ε : Type*) where
  key : ι → κ
  run : ι → γ → Except ε γ

/-- A worker is between chunks, in one, or at its end. -/
inductive Worker (ι ε : Type*)
  | idle
  | busy (rest : List ι)
  | stopped
  | failed (e : ε)

structure State (ι κ γ ε : Type*) where
  queue : List (List ι)
  workers : List (Worker ι ε)
  cells : κ → γ

variable {ι κ γ ε : Type*}

section

variable [DecidableEq κ]

/-- What a worker can do: take the front of the queue, stop when there is none, run its next
task, and go back to the queue. -/
inductive Move (T : Tasks ι κ γ ε) :
    List (List ι) → Worker ι ε → (κ → γ) → List (List ι) → Worker ι ε → (κ → γ) → Prop
  | take {chunk queue c} : Move T (chunk :: queue) .idle c queue (.busy chunk) c
  | stop {c} : Move T [] .idle c [] .stopped c
  | fill {queue i rest c v} (h : T.run i (c (T.key i)) = .ok v) :
      Move T queue (.busy (i :: rest)) c queue (.busy rest) (Function.update c (T.key i) v)
  | fail {queue i rest c e} (h : T.run i (c (T.key i)) = .error e) :
      Move T queue (.busy (i :: rest)) c queue (.failed e) c
  | next {queue c} : Move T queue (.busy []) c queue .idle c

/-- One of the workers moves. -/
inductive Step (T : Tasks ι κ γ ε) : State ι κ γ ε → State ι κ γ ε → Prop
  | move {queue queue' w w' cells cells' before after}
      (h : Move T queue w cells queue' w' cells') :
      Step T ⟨queue, before ++ w :: after, cells⟩ ⟨queue', before ++ w' :: after, cells'⟩

def start (queue : List (List ι)) (workers : Nat) (init : κ → γ) : State ι κ γ ε :=
  ⟨queue, List.replicate workers .idle, init⟩

/-- States the workers come to, in any order of their moves. -/
def Reachable (T : Tasks ι κ γ ε) : State ι κ γ ε → State ι κ γ ε → Prop :=
  Relation.ReflTransGen (Step T)

/-- One loop over the tasks. -/
def serial (T : Tasks ι κ γ ε) : List ι → (κ → γ) → Except ε (κ → γ)
  | [], cells => .ok cells
  | i :: rest, cells =>
    match T.run i (cells (T.key i)) with
    | .ok v => serial T rest (Function.update cells (T.key i) v)
    | .error e => .error e

end

def Worker.Ended : Worker ι ε → Prop
  | .idle | .busy _ => False
  | .stopped | .failed _ => True

/-- Every worker has returned. -/
def State.Final (s : State ι κ γ ε) : Prop := ∀ w ∈ s.workers, w.Ended

def Worker.error? : Worker ι ε → Option ε
  | .failed e => some e
  | _ => none

/-- The first failure, in the order the workers are joined. -/
def State.failure (s : State ι κ γ ε) : Option ε := s.workers.findSome? Worker.error?

variable {T : Tasks ι κ γ ε} {tasks : List ι} {init : κ → γ} {done : Multiset ι}
  {s s' : State ι κ γ ε}

/-! ## What is left to do -/

def Worker.rest : Worker ι ε → Multiset ι
  | .busy rest => rest
  | _ => 0

def State.pending (s : State ι κ γ ε) : Multiset ι :=
  (s.queue.flatten : Multiset ι) + (s.workers.map Worker.rest).sum

theorem pending_split (queue : List (List ι)) (before after : List (Worker ι ε)) (w : Worker ι ε)
    (cells : κ → γ) : State.pending ⟨queue, before ++ w :: after, cells⟩ =
      ((queue.flatten : Multiset ι) + w.rest) +
        ((before.map Worker.rest).sum + (after.map Worker.rest).sum) := by
  unfold State.pending
  dsimp only
  rw [List.map_append, List.sum_append, List.map_cons, List.sum_cons]
  ac_rfl

/-- With `done` the tasks that were run: each has made of its cell what it makes of the cell
it found there at first. -/
structure Inv (T : Tasks ι κ γ ε) (tasks : List ι) (init : κ → γ) (done : Multiset ι)
    (s : State ι κ γ ε) : Prop where
  within : done + s.pending ≤ tasks
  whole : (∀ e, .failed e ∉ s.workers) → done + s.pending = tasks
  filled : ∀ i ∈ done, T.run i (init (T.key i)) = .ok (s.cells (T.key i))
  untouched : ∀ k, k ∉ done.map T.key → s.cells k = init k
  failures : ∀ e, .failed e ∈ s.workers → ∃ i ∈ tasks, T.run i (init (T.key i)) = .error e
  stopped : .stopped ∈ s.workers → s.queue = []

theorem inv_start (queue : List (List ι)) (workers : Nat) (init : κ → γ) :
    Inv T queue.flatten init 0 (start queue workers init) := by
  have hpending : (start queue workers init : State ι κ γ ε).pending = queue.flatten := by
    unfold State.pending start
    dsimp only
    rw [List.map_replicate, List.sum_replicate]
    exact (congrArg _ (nsmul_zero workers)).trans (add_zero _)
  have hidle : ∀ w ∈ (start queue workers init : State ι κ γ ε).workers, w = .idle :=
    fun w hw => List.eq_of_mem_replicate hw
  refine ⟨?_, fun _ => ?_, ?_, fun _ _ => rfl, fun e he => ?_, fun hs => ?_⟩
  · rw [hpending, zero_add]
  · rw [hpending, zero_add]
  · intro i hi
    exact absurd hi (Multiset.notMem_zero i)
  · exact absurd (hidle _ he) nofun
  · exact absurd (hidle _ hs) nofun

/-- A task that is still to be run finds its cell as it was at first. -/
theorem Inv.fresh (h : Inv T tasks init done s)
    (hkeys : (tasks.map T.key).Nodup) {i : ι} (hi : i ∈ s.pending) : T.key i ∉ done.map T.key := by
  have hle : done.map T.key + s.pending.map T.key ≤ ((tasks.map T.key : List κ) : Multiset κ) := by
    rw [← Multiset.map_add, ← Multiset.map_coe]
    exact Multiset.map_le_map h.within
  have hnodup := Multiset.nodup_of_le hle (Multiset.coe_nodup.2 hkeys)
  exact fun hdone => Multiset.disjoint_left.1 (Multiset.nodup_add.1 hnodup).2.2 hdone
    (Multiset.mem_map_of_mem _ hi)

/-- Moves between the queue and the chunks run nothing. -/
theorem Inv.same (h : Inv T tasks init done s) (hpending : s'.pending = s.pending)
    (hcells : s'.cells = s.cells) (hfailed : ∀ e, .failed e ∈ s'.workers ↔ .failed e ∈ s.workers)
    (hstopped : .stopped ∈ s'.workers → s'.queue = []) : Inv T tasks init done s' := by
  refine ⟨?_, fun hnone => ?_, ?_, ?_, fun e he => ?_, hstopped⟩
  · rw [hpending]
    exact h.within
  · rw [hpending]
    exact h.whole fun e he => hnone e ((hfailed e).2 he)
  · rw [hcells]
    exact h.filled
  · rw [hcells]
    exact h.untouched
  · exact h.failures e ((hfailed e).1 he)

theorem mem_middle {α : Type*} {before after : List α} {w x : α} :
    x ∈ before ++ w :: after ↔ x = w ∨ x ∈ before ++ after := by
  rw [List.mem_append, List.mem_cons, or_left_comm, List.mem_append]

/-- A worker that has not failed is as good as another. -/
theorem failed_middle {before after : List (Worker ι ε)} {w w' : Worker ι ε}
    (hw : ∀ e, w ≠ .failed e) (hw' : ∀ e, w' ≠ .failed e) (e : ε) :
    .failed e ∈ before ++ w' :: after ↔ .failed e ∈ before ++ w :: after := by
  rw [mem_middle, mem_middle, or_iff_right (hw' e).symm, or_iff_right (hw e).symm]

theorem stopped_middle {before after : List (Worker ι ε)} {w : Worker ι ε} (w' : Worker ι ε)
    (hw' : w' ≠ .stopped) (h : .stopped ∈ before ++ w' :: after) :
    .stopped ∈ before ++ w :: after := by
  rw [mem_middle] at h ⊢
  exact Or.inr (h.resolve_left hw'.symm)

/-- A task that is still to be run does with its cell what it does at first. -/
theorem Inv.run_eq (h : Inv T tasks init done s) (hkeys : (tasks.map T.key).Nodup) {i : ι}
    (hi : i ∈ s.pending) : T.run i (init (T.key i)) = T.run i (s.cells (T.key i)) :=
  congrArg (T.run i) (h.untouched _ (h.fresh hkeys hi)).symm

variable {queue : List (List ι)} {before after : List (Worker ι ε)} {cells : κ → γ} {i : ι}
  {rest : List ι}

theorem pending_busy : State.pending ⟨queue, before ++ .busy (i :: rest) :: after, cells⟩ =
    {i} + State.pending ⟨queue, before ++ .busy rest :: after, cells⟩ := by
  rw [pending_split, pending_split]
  simp only [Worker.rest, ← Multiset.cons_coe, ← Multiset.singleton_add]
  ac_rfl

theorem mem_pending_busy :
    i ∈ State.pending ⟨queue, before ++ .busy (i :: rest) :: after, cells⟩ := by
  rw [pending_busy]
  exact Multiset.mem_add.2 (Or.inl (Multiset.mem_singleton_self i))

theorem Inv.fail (h : Inv T tasks init done ⟨queue, before ++ .busy (i :: rest) :: after, cells⟩)
    (hkeys : (tasks.map T.key).Nodup) {e : ε} (hrun : T.run i (cells (T.key i)) = .error e) :
    Inv T tasks init done ⟨queue, before ++ .failed e :: after, cells⟩ := by
  have hle : State.pending ⟨queue, before ++ .failed e :: after, cells⟩ ≤
      State.pending ⟨queue, before ++ .busy (i :: rest) :: after, cells⟩ := by
    rw [pending_split, pending_split]
    refine add_le_add_left (add_le_add_right ?_ _) _
    exact Multiset.zero_le _
  refine ⟨(add_le_add_right hle _).trans h.within, fun hnone => ?_, h.filled, h.untouched,
    fun e' he' => ?_, fun hs => h.stopped (stopped_middle (.failed e) nofun hs)⟩
  · exact absurd (mem_middle.2 (Or.inl rfl)) (hnone e)
  · rcases mem_middle.1 he' with heq | he'
    · obtain rfl := Worker.failed.inj heq
      have hmem : i ∈ (tasks : Multiset ι) := Multiset.mem_of_le h.within
        (Multiset.mem_add.2 (Or.inr mem_pending_busy))
      exact ⟨i, hmem, (h.run_eq hkeys mem_pending_busy).trans hrun⟩
    · exact h.failures e' (mem_middle.2 (Or.inr he'))

variable [DecidableEq κ]

theorem Inv.fill (h : Inv T tasks init done ⟨queue, before ++ .busy (i :: rest) :: after, cells⟩)
    (hkeys : (tasks.map T.key).Nodup) {v : γ} (hrun : T.run i (cells (T.key i)) = .ok v) :
    Inv T tasks init ({i} + done)
      ⟨queue, before ++ .busy rest :: after, Function.update cells (T.key i) v⟩ := by
  have hfresh := h.fresh hkeys mem_pending_busy
  have hmoved : done + State.pending ⟨queue, before ++ .busy (i :: rest) :: after, cells⟩ =
      ({i} + done) + State.pending ⟨queue, before ++ .busy rest :: after,
        Function.update cells (T.key i) v⟩ := by
    rw [pending_busy, ← add_assoc, add_comm done]
    rfl
  have hfailed := @failed_middle ι ε before after (.busy (i :: rest)) (.busy rest) nofun nofun
  have hwithin := h.within
  have hwhole := h.whole
  rw [hmoved] at hwithin hwhole
  refine ⟨hwithin, fun hnone => hwhole fun e he => hnone e ((hfailed e).2 he), ?_, ?_,
    fun e he => h.failures e ((hfailed e).1 he),
    fun hs => h.stopped (stopped_middle (.busy rest) nofun hs)⟩
  · intro j hj
    rcases Multiset.mem_add.1 hj with hj | hj
    · obtain rfl := Multiset.mem_singleton.1 hj
      dsimp only
      rw [Function.update_self]
      exact (h.run_eq hkeys mem_pending_busy).trans hrun
    · have hne : T.key j ≠ T.key i := fun heq =>
        hfresh (heq ▸ Multiset.mem_map_of_mem T.key hj)
      dsimp only
      rw [Function.update_of_ne hne]
      exact h.filled j hj
  · intro k hk
    rw [Multiset.map_add, Multiset.mem_add, Multiset.map_singleton, Multiset.mem_singleton,
      not_or] at hk
    dsimp only
    rw [Function.update_of_ne hk.1]
    exact h.untouched k hk.2

theorem Inv.step (h : Inv T tasks init done s) (hkeys : (tasks.map T.key).Nodup)
    (hstep : Step T s s') : ∃ done', Inv T tasks init done' s' := by
  cases hstep with
  | @move queue queue' w w' cells cells' before after hmove =>
    cases hmove with
    | @take chunk =>
      refine ⟨done, h.same ?_ rfl (failed_middle nofun nofun) fun hs => ?_⟩
      · rw [pending_split, pending_split, List.flatten_cons, ← Multiset.coe_add,
          add_comm (chunk : Multiset ι)]
        simp only [Worker.rest, add_zero]
      · cases h.stopped (stopped_middle (.busy chunk) nofun hs)
    | stop =>
      refine ⟨done, h.same ?_ rfl (failed_middle nofun nofun) fun _ => rfl⟩
      rw [pending_split, pending_split]
      rfl
    | next =>
      refine ⟨done, h.same ?_ rfl (failed_middle nofun nofun) fun hs => ?_⟩
      · rw [pending_split, pending_split]
        rfl
      · exact h.stopped (stopped_middle .idle nofun hs)
    | @fill _ i rest _ v hrun => exact ⟨{i} + done, h.fill hkeys hrun⟩
    | fail hrun => exact ⟨done, h.fail hkeys hrun⟩

/-! ## What the workers leave -/

theorem Inv.reach (h : Inv T tasks init done s) (hkeys : (tasks.map T.key).Nodup)
    (hreach : Reachable T s s') : ∃ done', Inv T tasks init done' s' := by
  induction hreach with
  | refl => exact ⟨done, h⟩
  | tail _ hstep ih =>
    obtain ⟨done', h'⟩ := ih
    exact h'.step hkeys hstep

theorem Step.length (h : Step T s s') : s'.workers.length = s.workers.length := by
  cases h with
  | move h => rw [List.length_append, List.length_append, List.length_cons, List.length_cons]

theorem Reachable.length (h : Reachable T s s') : s'.workers.length = s.workers.length := by
  induction h with
  | refl => rfl
  | tail _ hstep ih => rw [hstep.length, ih]

omit [DecidableEq κ] in
theorem failure_none : s.failure = none ↔ ∀ e, .failed e ∉ s.workers := by
  unfold State.failure
  rw [List.findSome?_eq_none_iff]
  refine ⟨fun h e he => ?_, fun h w hw => ?_⟩
  · cases h _ he
  · cases w with
    | failed e => exact absurd hw (h e)
    | idle => rfl
    | busy rest => rfl
    | stopped => rfl

omit [DecidableEq κ] in
theorem failure_some {e : ε} (h : s.failure = some e) : .failed e ∈ s.workers := by
  obtain ⟨w, hw, he⟩ := List.exists_of_findSome?_eq_some h
  cases w with
  | failed e' =>
    obtain rfl : e' = e := Option.some.inj he
    exact hw
  | idle => cases he
  | busy rest => cases he
  | stopped => cases he

omit [DecidableEq κ] in
/-- When every worker has returned and none has failed, every task was run. -/
theorem Inv.finished (h : Inv T tasks init done s) (hfinal : s.Final) (hworkers : s.workers ≠ [])
    (hnone : ∀ e, .failed e ∉ s.workers) : done = tasks := by
  have hstopped : ∀ w ∈ s.workers, w = .stopped := by
    intro w hw
    have hended := hfinal w hw
    cases w with
    | stopped => rfl
    | failed e => exact absurd hw (hnone e)
    | idle => exact hended.elim
    | busy rest => exact hended.elim
  obtain ⟨w, hw⟩ := List.exists_mem_of_ne_nil _ hworkers
  have hqueue : s.queue = [] := h.stopped (hstopped w hw ▸ hw)
  have hrest : s.workers.map Worker.rest = s.workers.map fun _ => 0 :=
    List.map_congr_left fun w hw => by
      rw [hstopped w hw]
      rfl
  have hpending : s.pending = 0 := by
    unfold State.pending
    rw [hqueue, hrest]
    simp
  rw [← h.whole hnone, hpending, add_zero]

theorem serial_cons_ok {i : ι} {v : γ} (h : T.run i (init (T.key i)) = .ok v) :
    serial T (i :: tasks) init = serial T tasks (Function.update init (T.key i) v) := by
  rw [serial, h]

theorem serial_cons_error {i : ι} {e : ε} (h : T.run i (init (T.key i)) = .error e) :
    serial T (i :: tasks) init = .error e := by
  rw [serial, h]

/-- The loop leaves what each task makes of its cell. -/
theorem serial_ok {c : κ → γ} (hkeys : (tasks.map T.key).Nodup)
    (hrun : ∀ i ∈ tasks, T.run i (init (T.key i)) = .ok (c (T.key i)))
    (hrest : ∀ k ∉ tasks.map T.key, c k = init k) : serial T tasks init = .ok c := by
  induction tasks generalizing init with
  | nil => exact congrArg Except.ok (funext fun k => (hrest k List.not_mem_nil).symm)
  | cons i tasks ih =>
    rw [List.map_cons, List.nodup_cons] at hkeys
    rw [serial_cons_ok (hrun i List.mem_cons_self)]
    refine ih hkeys.2 (fun j hj => ?_) fun k hk => ?_
    · have hne : T.key j ≠ T.key i := fun heq => hkeys.1 (heq ▸ List.mem_map_of_mem hj)
      rw [Function.update_of_ne hne]
      exact hrun j (List.mem_cons_of_mem _ hj)
    · by_cases hki : k = T.key i
      · rw [hki, Function.update_self]
      · rw [Function.update_of_ne hki]
        refine hrest k fun hmem => ?_
        rcases List.mem_cons.1 hmem with heq | hmem
        · exact hki heq
        · exact hk hmem

/-- Nothing else is left by it. -/
theorem serial_value {c : κ → γ} (hkeys : (tasks.map T.key).Nodup)
    (h : serial T tasks init = .ok c) :
    (∀ i ∈ tasks, T.run i (init (T.key i)) = .ok (c (T.key i))) ∧
      ∀ k ∉ tasks.map T.key, c k = init k := by
  induction tasks generalizing init with
  | nil =>
    obtain rfl := Except.ok.inj h
    exact ⟨nofun, fun _ _ => rfl⟩
  | cons i tasks ih =>
    rw [List.map_cons, List.nodup_cons] at hkeys
    cases hrun : T.run i (init (T.key i)) with
    | error e =>
      rw [serial_cons_error hrun] at h
      cases h
    | ok v =>
      rw [serial_cons_ok hrun] at h
      obtain ⟨hvalues, hrest⟩ := ih hkeys.2 h
      refine ⟨fun j hj => ?_, fun k hk => ?_⟩
      · rcases List.mem_cons.1 hj with rfl | hj
        · rw [hrun, hrest _ hkeys.1, Function.update_self]
        · have hne : T.key j ≠ T.key i := fun heq => hkeys.1 (heq ▸ List.mem_map_of_mem hj)
          have := hvalues j hj
          rwa [Function.update_of_ne hne] at this
      · rw [List.map_cons, List.mem_cons, not_or] at hk
        rw [hrest k hk.2, Function.update_of_ne hk.1]

/-- It fails on no tasks that all succeed. -/
theorem serial_succeeds (hkeys : (tasks.map T.key).Nodup)
    (h : ∀ i ∈ tasks, ∃ v, T.run i (init (T.key i)) = .ok v) :
    ∃ c, serial T tasks init = .ok c := by
  induction tasks generalizing init with
  | nil => exact ⟨init, rfl⟩
  | cons i tasks ih =>
    rw [List.map_cons, List.nodup_cons] at hkeys
    obtain ⟨v, hv⟩ := h i List.mem_cons_self
    rw [serial_cons_ok hv]
    refine ih hkeys.2 fun j hj => ?_
    have hne : T.key j ≠ T.key i := fun heq => hkeys.1 (heq ▸ List.mem_map_of_mem hj)
    rw [Function.update_of_ne hne]
    exact h j (List.mem_cons_of_mem _ hj)

/-- It fails once a task does. -/
theorem serial_error {i : ι} {e : ε} (hkeys : (tasks.map T.key).Nodup) (hi : i ∈ tasks)
    (hrun : T.run i (init (T.key i)) = .error e) : ∃ e', serial T tasks init = .error e' := by
  induction tasks generalizing init with
  | nil => cases hi
  | cons j tasks ih =>
    rw [List.map_cons, List.nodup_cons] at hkeys
    cases hj : T.run j (init (T.key j)) with
    | error e' => exact ⟨e', serial_cons_error hj⟩
    | ok v =>
      rw [serial_cons_ok hj]
      rcases List.mem_cons.1 hi with rfl | hi
      · rw [hrun] at hj
        cases hj
      · have hne : T.key i ≠ T.key j := fun heq => hkeys.1 (heq ▸ List.mem_map_of_mem hi)
        refine ih hkeys.2 hi ?_
        rw [Function.update_of_ne hne]
        exact hrun

/-- Whatever the workers did in whatever order: if none has failed they leave what the loop
leaves, and if one has the loop fails. -/
theorem joined {queue : List (List ι)} {workers : Nat} (hkeys : (queue.flatten.map T.key).Nodup)
    (hworkers : 0 < workers) (hreach : Reachable T (start queue workers init) s)
    (hfinal : s.Final) :
    (s.failure = none → serial T queue.flatten init = .ok s.cells) ∧
      ∀ e, s.failure = some e → ∃ e', serial T queue.flatten init = .error e' := by
  obtain ⟨done, h⟩ := (inv_start queue workers init).reach hkeys hreach
  have hne : s.workers ≠ [] := by
    rw [← List.length_pos_iff, hreach.length]
    unfold start
    rwa [List.length_replicate]
  refine ⟨fun hnone => ?_, fun e he => ?_⟩
  · have hdone := h.finished hfinal hne (failure_none.1 hnone)
    refine serial_ok hkeys (fun i hi => h.filled i ?_) fun k hk => h.untouched k ?_
    · rwa [hdone]
    · rwa [hdone]
  · obtain ⟨i, hi, hrun⟩ := h.failures e (failure_some he)
    exact serial_error hkeys hi hrun

/-! ## The workers return -/

/-- What a worker has still to do, counting each way to and from the queue. -/
def Worker.weight : Worker ι ε → Nat
  | .idle => 1
  | .busy rest => rest.length + 2
  | .stopped | .failed _ => 0

def State.weight (s : State ι κ γ ε) : Nat :=
  (s.queue.map fun chunk => chunk.length + 2).sum + (s.workers.map Worker.weight).sum

/-- Every move brings the workers nearer to their end. -/
theorem Step.weight (h : Step T s s') : s'.weight < s.weight := by
  cases h with
  | move h =>
    unfold State.weight
    simp only [List.map_append, List.map_cons, List.sum_append, List.sum_cons]
    cases h with
    | take =>
      simp only [List.map_cons, List.sum_cons, Worker.weight]
      omega
    | stop =>
      simp only [Worker.weight]
      omega
    | fill h =>
      simp only [Worker.weight, List.length_cons]
      omega
    | fail h =>
      simp only [Worker.weight]
      omega
    | next =>
      simp only [Worker.weight, List.length_nil]
      omega

theorem weight_of_steps (h : Relation.TransGen (Step T) s s') : s'.weight < s.weight := by
  induction h with
  | single h => exact h.weight
  | tail _ h ih => exact h.weight.trans ih

/-- A worker that has not returned can move. -/
theorem exists_step (h : ¬ s.Final) : ∃ s', Step T s s' := by
  unfold State.Final at h
  push Not at h
  obtain ⟨w, hw, hended⟩ := h
  obtain ⟨before, after, hsplit⟩ := List.append_of_mem hw
  obtain ⟨queue, workers, cells⟩ := s
  obtain rfl : workers = _ := hsplit
  cases w with
  | stopped => exact absurd trivial hended
  | failed e => exact absurd trivial hended
  | idle =>
    cases queue with
    | nil => exact ⟨_, .move .stop⟩
    | cons chunk queue => exact ⟨_, .move .take⟩
  | busy rest =>
    cases rest with
    | nil => exact ⟨_, .move .next⟩
    | cons i rest =>
      cases hrun : T.run i (cells (T.key i)) with
      | ok v => exact ⟨_, .move (.fill hrun)⟩
      | error e => exact ⟨_, .move (.fail hrun)⟩

/-- From every state the workers come to their end. -/
theorem exists_final (T : Tasks ι κ γ ε) (s : State ι κ γ ε) :
    ∃ s', Reachable T s s' ∧ s'.Final := by
  induction hweight : s.weight using Nat.strong_induction_on generalizing s with
  | _ n ih =>
    by_cases hfinal : s.Final
    · exact ⟨s, .refl, hfinal⟩
    · obtain ⟨t, hstep⟩ := exists_step (T := T) hfinal
      obtain ⟨s', hreach, hfinal'⟩ := ih t.weight (hweight ▸ hstep.weight) t rfl
      exact ⟨s', .head hstep hreach, hfinal'⟩

/-! ## A counter for a queue -/

/-- The chunks of `0, .., total - 1` that a counter at `next` has still to hand out. -/
def counted (total size next : Nat) : List (List Nat) :=
  if next < total ∧ 0 < size then
    List.range' next (min size (total - next)) :: counted total size (next + size)
  else []
termination_by total - next

theorem counted_cons {total size next : Nat} (h : next < total) (hsize : 0 < size) :
    counted total size next =
      List.range' next (min size (total - next)) :: counted total size (next + size) := by
  rw [counted, if_pos ⟨h, hsize⟩]

theorem counted_nil {total size next : Nat} (h : total ≤ next) : counted total size next = [] := by
  rw [counted, if_neg fun hc => absurd hc.1 (Nat.not_lt.2 h)]

/-- Every number is handed out, and none twice. -/
theorem counted_flatten {total size : Nat} (hsize : 0 < size) (next : Nat) :
    (counted total size next).flatten = List.range' next (total - next) := by
  induction next using counted.induct total size with
  | case1 next h ih =>
    rw [counted_cons h.1 hsize, List.flatten_cons, ih]
    by_cases hlast : total - next ≤ size
    · rw [Nat.min_eq_right hlast, show total - (next + size) = 0 by omega, List.range'_zero,
        List.append_nil]
    · rw [Nat.min_eq_left (by omega), List.range'_append_1,
        show size + (total - (next + size)) = total - next by omega]
  | case2 next h =>
    have hend : total ≤ next := Nat.not_lt.1 fun hlt => h ⟨hlt, hsize⟩
    rw [counted_nil hend, Nat.sub_eq_zero_of_le hend]
    rfl

/-- With a worker for every chunk, each can take one. -/
theorem hand_out (queue : List (List ι)) (before : List (Worker ι ε)) (cells : κ → γ) :
    Reachable T ⟨queue, before ++ List.replicate queue.length .idle, cells⟩
      ⟨[], before ++ queue.map .busy, cells⟩ := by
  induction queue generalizing before with
  | nil => exact .refl
  | cons chunk queue ih =>
    have hrest := ih (before ++ [.busy chunk])
    rw [List.append_assoc, List.append_assoc] at hrest
    exact .head (.move .take) hrest

end TreeMiner.Lib.WorkQueue
