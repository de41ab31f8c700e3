import ShareBike.Lib.LinkedQueue
import ShareBike.Lib.Transition
import ShareBike.Lib.Words
import Mathlib.Data.Fintype.Card

/-!
# The thread pool

Any number of producers, workers and at most one destroyer share a pool. Each
critical section of the pool's mutex is one step; so is each handler call, each
return of a handler, and each step of `thread_pool_destroy` between two of its
critical sections. The results of the pthread functions, and the waiters that a
signal wakes, are part of the step's label.

The tasks of the producers are heap objects, named by their address. The task of
`thread_pool_destroy` is a local variable, `Task.exit`, whose handler is
`thread_pool_exit_handler`.
-/
namespace ShareBike.ThreadPool
open ShareBike.Lib

inductive Rc
  | OK
  | ERROR
  deriving DecidableEq, Repr

inductive Task (T : Type)
  | heap (t : T)
  | exit
  deriving DecidableEq, Repr

/-- Where a worker is in `thread_pool_cycle`; the number counts the acceptances. -/
inductive Pc (T : Type)
  | top
  | blocked
  | woken
  | got (task : Task T) (i : ℕ)
  | handling (task : Task T) (i : ℕ)
  | handled (task : Task T) (i : ℕ)
  | exiting
  | exited
  | left
  deriving DecidableEq, Repr

/-- The task that a worker has dequeued and not yet freed. -/
def Pc.task {T : Type} : Pc T → Option (Task T)
  | got task _ => some task
  | handling task _ => some task
  | handled task _ => some task
  | _ => none

/-- Where `thread_pool_destroy` is; the number is its loop variable. -/
inductive Destroyer
  | idle
  | loop (n : ℕ)
  | post (n : ℕ)
  | spin (n : ℕ)
  | condDestroy
  | mutexDestroy
  | free
  | returned
  | refused
  deriving DecidableEq, Repr

/-- `thread_pool_t`; the queue carries the `next` fields of the tasks. -/
structure Pool (T : Type) where
  queue : LinkedQueue (Task T)
  waiting : ℤ
  threads : ℕ
  maxQueue : ℤ

/-- The worker that ran the task of the `index`-th acceptance. -/
structure Run (W T : Type) where
  index : ℕ
  worker : W
  task : Task T
  deriving DecidableEq

/-- What happened so far. -/
structure Log (W T : Type) where
  accepted : List (Task T)
  dequeued : List (W × Task T)
  called : List (Run W T)
  returned : List (Run W T)
  freed : List (Run W T)
  exits : List W
  outcome : Task T → Option Rc

structure State (W T : Type) where
  tp : Pool T
  taskId : ℕ
  id : Task T → ℕ
  live : Finset T
  worker : W → Pc T
  lock : ℕ
  destroyer : Destroyer
  log : Log W T

/-- The pool that `thread_pool_init` returns, with all workers at their start. -/
def start (W T : Type) [Fintype W] (maxQueue : ℤ) : State W T where
  tp := ⟨.empty fun _ => none, 0, Fintype.card W, maxQueue⟩
  taskId := 0
  id _ := 0
  live := ∅
  worker _ := .top
  lock := 0
  destroyer := .idle
  log := ⟨[], [], [], [], [], [], fun _ => none⟩

namespace State

variable {W T : Type} (s : State W T)

/-- The tasks accepted and not yet dequeued. -/
def queued : List (Task T) := s.log.accepted.drop s.log.dequeued.length

/-- The pool owns the task: it is queued, or a worker has it. -/
def Owned (task : Task T) : Prop := task ∈ s.queued ∨ ∃ w, (s.worker w).task = some task

/-- A signal wakes at least one blocked waiter if there is one. -/
def Wakes (wakes : Finset W) : Prop :=
  (∀ w ∈ wakes, s.worker w = .blocked) ∧ (wakes = ∅ → ∀ w, s.worker w ≠ .blocked)

variable [DecidableEq W] [DecidableEq T]

instance [Fintype W] (task : Task T) : Decidable (s.Owned task) :=
  inferInstanceAs (Decidable (_ ∨ _))

instance [Fintype W] (wakes : Finset W) : Decidable (s.Wakes wakes) :=
  inferInstanceAs (Decidable (_ ∧ _))

def setWorker (w : W) (pc : Pc T) : State W T :=
  { s with worker := Function.update s.worker w pc }

/-- `task->id = thread_pool_task_id++; task->next = NULL`. -/
def stamp (task : Task T) : State W T :=
  { s with
    tp := { s.tp with queue := s.tp.queue.setNext task none }
    taskId := wadd s.taskId 1
    id := Function.update s.id task s.taskId }

/-- `thread_cond_signal`. -/
def signal (wakes : Finset W) : State W T :=
  { s with worker := fun w => if w ∈ wakes then .woken else s.worker w }

/-- `*tp->queue.last = task; tp->queue.last = &task->next; tp->waiting++`. -/
def enqueue (task : Task T) : State W T :=
  { s with
    tp := { s.tp with queue := s.tp.queue.push task, waiting := s.tp.waiting + 1 }
    log := { s.log with accepted := s.log.accepted ++ [task] } }

def threadTaskPost (task : Task T) (lockRc signalRc : Rc) (wakes : Finset W) :
    Rc × State W T :=
  match lockRc with
  | .ERROR => (.ERROR, s)
  | .OK =>
    if s.tp.waiting ≥ s.tp.maxQueue then (.ERROR, s)
    else
      let s := s.stamp task
      match signalRc with
      | .ERROR => (.ERROR, s)
      | .OK => (.OK, (s.signal wakes).enqueue task)

/-- The caller of `thread_task_post` gets its result. -/
def post (task : Task T) (lockRc signalRc : Rc) (wakes : Finset W) : Rc × State W T :=
  let r := s.threadTaskPost task lockRc signalRc wakes
  (r.1, { r.2 with log := { r.2.log with
    outcome := Function.update r.2.log.outcome task (some r.1) } })

/-- The dequeue of `thread_pool_cycle`, and the unlock after it. -/
def dequeue (w : W) (task : Task T) (unlockRc : Rc) : State W T :=
  { s with
    tp := { s.tp with queue := s.tp.queue.pop task }
    worker := Function.update s.worker w
      (match unlockRc with
      | .OK => .got task s.log.dequeued.length
      | .ERROR => .left)
    log := { s.log with dequeued := s.log.dequeued ++ [(w, task)] } }

/-- `while (tp->queue.first == NULL)`, with the mutex held: the worker waits, or
goes on to the dequeue. -/
def takeTask (w : W) (unlockRc : Rc) : State W T :=
  match s.tp.queue.first with
  | none => s.setWorker w .blocked
  | some task => s.dequeue w task unlockRc

/-- `tp->waiting--`. -/
def decWaiting : State W T := { s with tp := { s.tp with waiting := s.tp.waiting - 1 } }

/-- The first critical section of an iteration. -/
def enter (w : W) (lockRc unlockRc : Rc) : State W T :=
  match lockRc with
  | .ERROR => s.setWorker w .left
  | .OK => s.decWaiting.takeTask w unlockRc

/-- `thread_cond_wait` returns with the mutex taken again. -/
def resume (w : W) (waitRc unlockRc : Rc) : State W T :=
  match waitRc with
  | .ERROR => s.setWorker w .left
  | .OK => s.takeTask w unlockRc

/-- `task->handler(task->ctx)` begins. -/
def call (w : W) (task : Task T) (i : ℕ) : State W T :=
  { s.setWorker w (.handling task i) with
    log := { s.log with called := ⟨i, w, task⟩ :: s.log.called } }

def ret (w : W) (task : Task T) (i : ℕ) : State W T :=
  { s.setWorker w (.handled task i) with
    log := { s.log with returned := ⟨i, w, task⟩ :: s.log.returned } }

/-- `task->next = NULL; free(task)`. -/
def freeTask (w : W) (task : Task T) (i : ℕ) : State W T :=
  { s.setWorker w .top with
    tp := { s.tp with queue := s.tp.queue.setNext task none }
    live := match task with
      | .heap t => s.live.erase t
      | .exit => s.live
    log := { s.log with freed := ⟨i, w, task⟩ :: s.log.freed } }

/-- `*lock = 0` of `thread_pool_exit_handler`. -/
def unlock (w : W) : State W T :=
  { s.setWorker w .exiting with
    lock := 0
    log := { s.log with exits := w :: s.log.exits } }

/-- One step of `thread_pool_destroy`. -/
def threadPoolDestroy (lockRc signalRc : Rc) (wakes : Finset W) : Option (State W T) :=
  match s.destroyer with
  | .idle => some { s with destroyer := .loop 0 }
  | .loop n =>
    if n < s.tp.threads then some { s with lock := 1, destroyer := .post n }
    else some { s with destroyer := .condDestroy }
  | .post n =>
    match s.post .exit lockRc signalRc wakes with
    | (.OK, s) => some { s with destroyer := .spin n }
    | (.ERROR, s) => some { s with destroyer := .refused }
  | .spin n => if s.lock ≠ 0 then some s else some { s with destroyer := .loop (n + 1) }
  | .condDestroy => some { s with destroyer := .mutexDestroy }
  | .mutexDestroy => some { s with destroyer := .free }
  | .free => some { s with destroyer := .returned }
  | .returned => none
  | .refused => none

end State

/-- The pool was not yet taken apart. -/
def Destroyer.Usable (d : Destroyer) : Prop :=
  d ≠ .mutexDestroy ∧ d ≠ .free ∧ d ≠ .returned

instance : DecidablePred Destroyer.Usable := fun _ =>
  inferInstanceAs (Decidable (_ ∧ _))

/-- The labels. The first three are steps of the producers, `wake` is a spurious
wake-up, and `destroy` is a step of the thread in `thread_pool_destroy`. -/
inductive Act (W T : Type)
  | alloc (t : T)
  | release (t : T)
  | post (t : T) (lockRc signalRc : Rc) (wakes : Finset W)
  | enter (w : W) (lockRc unlockRc : Rc)
  | resume (w : W) (waitRc unlockRc : Rc)
  | wake (w : W)
  | call (w : W)
  | ret (w : W)
  | free (w : W)
  | exit (w : W)
  | destroy (lockRc signalRc : Rc) (wakes : Finset W)

variable {W T : Type} [DecidableEq W] [DecidableEq T] [Fintype W]

/-- Producers post and free only what they own, and only while there is a pool.
A user's handler returns; `thread_pool_exit_handler` does not, it ends the thread. -/
def step (s : State W T) : Act W T → Option (State W T)
  | .alloc t =>
    if t ∉ s.live then some { s with
      live := insert t s.live
      tp := { s.tp with queue := s.tp.queue.setNext (.heap t) none }
      id := Function.update s.id (.heap t) 0
      log := { s.log with outcome := Function.update s.log.outcome (.heap t) none } }
    else none
  | .release t =>
    if t ∈ s.live ∧ ¬ s.Owned (.heap t) then some { s with live := s.live.erase t } else none
  | .post t lockRc signalRc wakes =>
    if t ∈ s.live ∧ ¬ s.Owned (.heap t) ∧ s.destroyer.Usable ∧ s.Wakes wakes then
      some (s.post (.heap t) lockRc signalRc wakes).2
    else none
  | .enter w lockRc unlockRc =>
    if s.worker w = .top then some (s.enter w lockRc unlockRc) else none
  | .resume w waitRc unlockRc =>
    if s.worker w = .woken then some (s.resume w waitRc unlockRc) else none
  | .wake w => if s.worker w = .blocked then some (s.setWorker w .woken) else none
  | .call w =>
    match s.worker w with
    | .got task i => some (s.call w task i)
    | _ => none
  | .ret w =>
    match s.worker w with
    | .handling (.heap t) i => some (s.ret w (.heap t) i)
    | _ => none
  | .free w =>
    match s.worker w with
    | .handled task i => some (s.freeTask w task i)
    | _ => none
  | .exit w =>
    match s.worker w with
    | .handling .exit _ => some (s.unlock w)
    | .exiting => some (s.setWorker w .exited)
    | _ => none
  | .destroy lockRc signalRc wakes =>
    if s.Wakes wakes then s.threadPoolDestroy lockRc signalRc wakes else none

section Inversion

variable {s s' : State W T} {w : W}

lemma step_call (hs : step s (.call w) = some s') :
    ∃ task i, s.worker w = .got task i ∧ s' = s.call w task i := by
  simp only [step] at hs
  split at hs <;> cases hs
  exact ⟨_, _, ‹_›, rfl⟩

lemma step_ret (hs : step s (.ret w) = some s') :
    ∃ t i, s.worker w = .handling (.heap t) i ∧ s' = s.ret w (.heap t) i := by
  simp only [step] at hs
  split at hs <;> cases hs
  exact ⟨_, _, ‹_›, rfl⟩

lemma step_free (hs : step s (.free w) = some s') :
    ∃ task i, s.worker w = .handled task i ∧ s' = s.freeTask w task i := by
  simp only [step] at hs
  split at hs <;> cases hs
  exact ⟨_, _, ‹_›, rfl⟩

/-- The two steps of a worker in `thread_pool_exit_handler`. -/
lemma step_exit (hs : step s (.exit w) = some s') :
    (∃ i, s.worker w = .handling .exit i ∧ s' = s.unlock w) ∨
    (s.worker w = .exiting ∧ s' = s.setWorker w .exited) := by
  simp only [step] at hs
  split at hs <;> cases hs
  · exact .inl ⟨_, ‹_›, rfl⟩
  · exact .inr ⟨‹_›, rfl⟩

end Inversion

/-- A pool with the workers `W`, for task objects at the addresses `T`. -/
def system (W T : Type) [DecidableEq W] [DecidableEq T] [Fintype W] (maxQueue : ℤ) :
    System (State W T) (Act W T) where
  init s := s = start W T maxQueue
  step := step

end ShareBike.ThreadPool
