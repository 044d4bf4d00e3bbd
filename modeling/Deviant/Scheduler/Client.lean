import Mathlib.Data.List.Basic
import Mathlib.Order.Nat
import Mathlib.Tactic.IntervalCases

namespace Deviant.Scheduler

/-! `SingleThreadedSchedulerClient`: any number of threads add callbacks, and any number of threads
service the queue of the scheduler. A step of a thread is what it does under one lock. -/

/-- Where a thread is inside the client. -/
inductive Place where
  /-- In `MaybeScheduleProcessQueue`, before its lock. -/
  | check
  /-- In `MaybeScheduleProcessQueue`, before it calls the scheduler. -/
  | schedule
  /-- In `ProcessQueue`, before its lock. -/
  | processQueue
deriving DecidableEq

/-- The callback that a thread runs, and where the thread is; a callback may add callbacks
itself. -/
structure Location (C : Type) where
  callback : Option C := none
  place : Option Place := none
deriving DecidableEq

structure Machine (T C : Type) where
  callbacksPending : List C := []
  areCallbacksRunning : Bool := false
  /-- The `ProcessQueue` tasks in the queue of the scheduler. -/
  tasks : Nat := 0
  location : T → Location C := fun _ => {}
  /-- All callbacks in the order they entered the list, and those whose run began, in that order. -/
  entered : List C := []
  started : List C := []

inductive Action (C : Type) where
  | add (func : C)
  | check
  | schedule
  | take
  | process
  | finish
deriving DecidableEq

variable {T C : Type} [DecidableEq T]

namespace Machine

def move (s : Machine T C) (t : T) (location : Location C) : Machine T C :=
  { s with location := Function.update s.location t location }

/-- Whether a step is the next one of a thread. Only the threads of the scheduler take tasks. -/
def ready (scheduler : T → Bool) (s : Machine T C) (t : T) : Action C → Bool
  | .add _ => (s.location t).place.isNone
  | .check => (s.location t).place == some .check
  | .schedule => (s.location t).place == some .schedule
  | .take => (s.location t).place.isNone && (s.location t).callback.isNone && scheduler t &&
    decide (0 < s.tasks)
  | .process => (s.location t).place == some .processQueue
  | .finish => (s.location t).place.isNone && (s.location t).callback.isSome

def processQueue (s : Machine T C) (t : T) : Machine T C :=
  match s.areCallbacksRunning, s.callbacksPending with
  | false, callback :: rest =>
    { s with areCallbacksRunning := true, callbacksPending := rest, started := s.started ++ [callback] }.move t
      { callback := some callback }
  | _, _ => s.move t { s.location t with place := none }

/-- A callback that throws finishes as well: the flag is reset by a destructor. -/
def perform (s : Machine T C) (t : T) : Action C → Machine T C
  | .add func =>
    { s with callbacksPending := s.callbacksPending ++ [func], entered := s.entered ++ [func] }.move t
      { s.location t with place := some .check }
  | .check =>
    let returns := s.areCallbacksRunning || s.callbacksPending.isEmpty
    s.move t { s.location t with place := if returns then none else some .schedule }
  | .schedule => { s with tasks := s.tasks + 1 }.move t { s.location t with place := none }
  | .take => { s with tasks := s.tasks - 1 }.move t { s.location t with place := some .processQueue }
  | .process => s.processQueue t
  | .finish => { s with areCallbacksRunning := false }.move t { place := some .check }

def Step (scheduler : T → Bool) (s : Machine T C) (t : T) (action : Action C)
    (after : Machine T C) : Prop :=
  s.ready scheduler t action = true ∧ after = s.perform t action

/-- What holds in every state: callbacks run in the order they entered, each at most once and never
two at a time, and while one is pending, one runs, a task is scheduled, or a thread is about to
look. -/
structure Serial (s : Machine T C) : Prop where
  order : s.entered = s.started ++ s.callbacksPending
  exclusive : ∀ t t' c c', (s.location t).callback = some c → (s.location t').callback = some c' →
    t = t'
  running : s.areCallbacksRunning = true ↔ ∃ t c, (s.location t).callback = some c
  last : ∀ t c, (s.location t).callback = some c → s.started.getLast? = some c
  awake : s.callbacksPending ≠ [] →
    s.areCallbacksRunning = true ∨ 0 < s.tasks ∨ ∃ t place, (s.location t).place = some place

variable {scheduler : T → Bool} {s after : Machine T C}

theorem move_location (s : Machine T C) (location : Location C) :
    (s.move t location).location u = if u = t then location else s.location u :=
      Function.update_apply ..

theorem move_callback {location : Location C} (same : location.callback = (s.location t).callback)
    (u : T) :
    ((s.move t location).location u).callback = (s.location u).callback := by
  rw [move_location]
  split
  case isTrue own => rw [same, own]
  case isFalse => rfl

omit [DecidableEq T] in
theorem Serial.keep (serial : s.Serial)
    (callbacks : ∀ u, (after.location u).callback = (s.location u).callback)
    (flag : after.areCallbacksRunning = s.areCallbacksRunning) (begun : after.started = s.started)
    (order : after.entered = s.started ++ after.callbacksPending)
    (awake : after.callbacksPending ≠ [] →
      after.areCallbacksRunning = true ∨ 0 < after.tasks ∨ ∃ t place,
      (after.location t).place = some place) :
    after.Serial where
  order := by rw [order, begun]
  exclusive := by simpa only [callbacks] using serial.exclusive
  running := by simpa only [callbacks, flag] using serial.running
  last := by simpa only [callbacks, begun] using serial.last
  awake := awake

theorem Serial.check (serial : s.Serial) (t : T) : Serial (s.move t { s.location t with
    place := if s.areCallbacksRunning || s.callbacksPending.isEmpty then none
      else some .schedule }) := by
  refine serial.keep (move_callback rfl) rfl rfl serial.order fun pending => ?_
  cases running : s.areCallbacksRunning with
  | true => exact .inl running
  | false =>
    have more : s.callbacksPending.isEmpty = false := List.isEmpty_eq_false_iff.mpr pending
    exact .inr (.inr ⟨t, .schedule, by simp [move_location, more]⟩)

theorem Serial.process (serial : s.Serial) (t : T) (idle : s.areCallbacksRunning = false)
    (pending : s.callbacksPending = callback :: rest) :
    Serial ({ s with areCallbacksRunning := true, callbacksPending := rest,
                     started := s.started ++ [callback] }.move t { callback := some callback }) := by
  have none (u : T) : (s.location u).callback = none := by
    by_contra busy
    obtain ⟨c, runs⟩ := Option.ne_none_iff_exists'.mp busy
    exact absurd (serial.running.mpr ⟨u, c, runs⟩) (by simp [idle])
  have only (u : T) (c : C)
      (runs : ((s.move t { callback := some callback }).location u).callback = some c) :
      u = t ∧ c = callback := by
    rw [move_location] at runs
    split at runs
    case isTrue own => exact ⟨own, (Option.some.inj runs).symm⟩
    case isFalse => simp [none u] at runs
  exact {
    order := by simp [move, serial.order, pending]
    exclusive := fun u u' c c' runs runs' => (only u c runs).1.trans (only u' c' runs').1.symm
    running := ⟨fun _ => ⟨t, callback, by rw [move_location, if_pos rfl]⟩, fun _ => rfl⟩
    last := fun u c runs => by simp [move, (only u c runs).2]
    awake := fun _ => .inl rfl }

theorem Serial.finish (serial : s.Serial) (t : T) (busy : (s.location t).callback = some c) :
    Serial ({ s with areCallbacksRunning := false }.move t { place := some .check }) := by
  have none (u : T) : ((s.move t { place := some .check }).location u).callback = none := by
    rw [move_location]
    split
    case isTrue => rfl
    case isFalse other =>
      by_contra runs
      obtain ⟨c', runs⟩ := Option.ne_none_iff_exists'.mp runs
      exact other (serial.exclusive u t c' c runs busy)
  exact {
    order := serial.order
    exclusive := fun u _ c _ runs _ => by cases (none u).symm.trans runs
    running := ⟨nofun, fun ⟨u, c, runs⟩ => by cases (none u).symm.trans runs⟩
    last := fun u c runs => by cases (none u).symm.trans runs
    awake := fun _ => .inr (.inr ⟨t, .check, by rw [move_location, if_pos rfl]⟩) }

theorem Serial.step (serial : s.Serial) (ran : s.Step scheduler t action after) : after.Serial := by
  obtain ⟨ready, rfl⟩ := ran
  cases action with
  | add func =>
    exact serial.keep (move_callback rfl) rfl rfl (by simp [perform, move, serial.order])
      fun _ => .inr (.inr ⟨t, .check, by rw [perform, move_location, if_pos rfl]⟩)
  | check => exact serial.check t
  | schedule =>
    exact serial.keep (move_callback rfl) rfl rfl serial.order fun _ =>
      .inr (.inl (Nat.succ_pos s.tasks))
  | take =>
    exact serial.keep (move_callback rfl) rfl rfl serial.order
      fun _ => .inr (.inr ⟨t, .processQueue, by rw [perform, move_location, if_pos rfl]⟩)
  | process =>
    unfold perform processQueue
    dsimp only
    split
    case h_1 idle pending => exact serial.process t idle pending
    case h_2 other =>
      refine serial.keep (move_callback rfl) rfl rfl serial.order fun pending => ?_
      cases running : s.areCallbacksRunning with
      | true => exact .inl running
      | false =>
        obtain ⟨c, rest, split⟩ := List.exists_cons_of_ne_nil pending
        exact absurd split (other c rest running)
  | finish =>
    obtain ⟨c, runs⟩ := Option.isSome_iff_exists.mp (Bool.and_eq_true_iff.mp ready).2
    exact serial.finish t runs

/-- A step begins one callback, or it begins none and the flag is not set. -/
theorem step_started (ran : s.Step scheduler t action after) :
    s.entered.length ≤ after.entered.length ∧
      (after.started.length = s.started.length + 1 ∨ after.started = s.started ∧
      (s.areCallbacksRunning = false → after.areCallbacksRunning = false)) := by
  obtain ⟨-, rfl⟩ := ran
  cases action
  case process =>
    unfold perform processQueue
    dsimp only
    split <;> simp [move]
  all_goals simp [perform, move]

end Machine

/-- The threads make steps, in any order and at any time. -/
structure Run (T C : Type) [DecidableEq T] (scheduler : T → Bool) where
  state : Nat → Machine T C
  start : state 0 = {}
  moves : ∀ n, state (n + 1) = state n ∨ ∃ t action,
    (state n).Step scheduler t action (state (n + 1))

/-- Threads go on, callbacks end, and the scheduler services its queue. -/
structure Run.Fair {scheduler : T → Bool} (run : Run T C scheduler) : Prop where
  threads : ∀ n t place, ((run.state n).location t).place = some place →
    ∃ m ≥ n, ((run.state m).location t).place = some place ∧
      ∃ action, (run.state m).Step scheduler t action (run.state (m + 1))
  callbacks : ∀ n t c, ((run.state n).location t).callback = some c →
    ∃ m ≥ n, (run.state m).Step scheduler t .finish (run.state (m + 1))
  serviced : ∀ n, 0 < (run.state n).tasks → ∃ m ≥ n, ∃ t,
    (run.state m).Step scheduler t .take (run.state (m + 1))

namespace Run

variable {scheduler : T → Bool} (run : Run T C scheduler)

theorem serial (n : Nat) : (run.state n).Serial := by
  induction n with
  | zero => rw [run.start]; constructor <;> simp
  | succ n ih =>
    rcases run.moves n with still | ⟨t, action, ran⟩
    · exact still ▸ ih
    · exact ih.step ran

theorem entered_le (later : n ≤ m) :
    (run.state n).entered.length ≤ (run.state m).entered.length := by
  induction later with
  | refl => exact Nat.le_refl _
  | @step m _ ih =>
    rcases run.moves m with still | ⟨t, action, ran⟩
    · exact still ▸ ih
    · exact ih.trans (Machine.step_started ran).1

/-- No callback begins from a moment on. -/
def Stuck (n : Nat) : Prop := ∀ m ≥ n, (run.state m).started.length ≤ (run.state n).started.length

variable {run}

theorem Stuck.keeps (stuck : run.Stuck n) (later : n ≤ m) :
    (run.state m).started = (run.state n).started ∧ ((run.state n).areCallbacksRunning = false →
      (run.state m).areCallbacksRunning = false) := by
  induction later with
  | refl => exact ⟨rfl, id⟩
  | @step m later ih =>
    rcases run.moves m with still | ⟨t, action, ran⟩
    · exact still ▸ ih
    · have bound := stuck (m + 1) (Nat.le_succ_of_le later)
      rcases (Machine.step_started ran).2 with begins | ⟨same, flag⟩
      · rw [begins, ih.1] at bound
        omega
      · exact ⟨same.trans ih.1, flag ∘ ih.2⟩

theorem Stuck.later (stuck : run.Stuck n) (later : n ≤ m) : run.Stuck m := by
  intro k above
  rw [(stuck.keeps later).1]
  exact stuck k (later.trans above)

/-- A run that is stuck with callbacks pending and none running. -/
structure Idle (run : Run T C scheduler) (n : Nat) : Prop where
  stuck : run.Stuck n
  pending : (run.state n).callbacksPending ≠ []
  flag : (run.state n).areCallbacksRunning = false

theorem pending_iff (n : Nat) : (run.state n).callbacksPending ≠ [] ↔
    (run.state n).started.length < (run.state n).entered.length := by
  rw [(run.serial n).order, List.length_append, ← List.length_pos_iff]
  omega

theorem Stuck.pending (stuck : run.Stuck n) (pending : (run.state n).callbacksPending ≠ [])
    (later : n ≤ m) :
    (run.state m).callbacksPending ≠ [] := by
  rw [pending_iff] at pending ⊢
  rw [(stuck.keeps later).1]
  exact pending.trans_le (run.entered_le later)

theorem Idle.later (idle : Idle run n) (later : n ≤ m) : Idle run m :=
  ⟨idle.stuck.later later, idle.stuck.pending idle.pending later,
    (idle.stuck.keeps later).2 idle.flag⟩

/-! Each place a thread can be at leads to the next one, and the last one begins a callback. -/

variable (fair : run.Fair)

include fair

theorem Idle.not_processQueue (idle : Idle run n) (t : T) :
    ((run.state n).location t).place ≠ some .processQueue := by
  intro place
  obtain ⟨m, later, there, action, ready, ran⟩ := fair.threads n t _ place
  have now := idle.later later
  obtain ⟨c, rest, pending⟩ := List.exists_cons_of_ne_nil now.pending
  have bound := now.stuck (m + 1) (Nat.le_succ m)
  cases action <;> simp [Machine.ready, there] at ready
  simp [ran, Machine.perform, Machine.processQueue, now.flag, pending, Machine.move] at bound

theorem Idle.tasks_eq_zero (idle : Idle run n) : (run.state n).tasks = 0 := by
  by_contra scheduled
  obtain ⟨m, later, t, -, ran⟩ := fair.serviced n (Nat.pos_of_ne_zero scheduled)
  refine (idle.later (later.trans (Nat.le_succ m))).not_processQueue fair t ?_
  rw [ran, Machine.perform, Machine.move_location, if_pos rfl]

theorem Idle.not_schedule (idle : Idle run n) (t : T) :
    ((run.state n).location t).place ≠ some .schedule := by
  intro place
  obtain ⟨m, later, there, action, ready, ran⟩ := fair.threads n t _ place
  have none := (idle.later (later.trans (Nat.le_succ m))).tasks_eq_zero fair
  cases action <;> simp [Machine.ready, there] at ready
  rw [ran] at none
  cases none

theorem Idle.not_check (idle : Idle run n) (t : T) :
    ((run.state n).location t).place ≠ some .check := by
  intro place
  obtain ⟨m, later, there, action, ready, ran⟩ := fair.threads n t _ place
  have now := idle.later later
  refine (idle.later (later.trans (Nat.le_succ m))).not_schedule fair t ?_
  cases action <;> simp [Machine.ready, there] at ready
  simp [ran, Machine.perform, Machine.move_location, now.flag, now.pending]

theorem not_idle : ¬ Idle run n := by
  intro idle
  rcases (run.serial n).awake idle.pending with running | scheduled | ⟨t, place, there⟩
  · simp [idle.flag] at running
  · simp [idle.tasks_eq_zero fair] at scheduled
  · cases place with
    | check => exact idle.not_check fair t there
    | schedule => exact idle.not_schedule fair t there
    | processQueue => exact idle.not_processQueue fair t there

theorem not_stuck (pending : (run.state n).callbacksPending ≠ []) : ¬ run.Stuck n := by
  intro stuck
  cases flag : (run.state n).areCallbacksRunning with
  | false => exact not_idle fair ⟨stuck, pending, flag⟩
  | true =>
    obtain ⟨t, c, runs⟩ := (run.serial n).running.mp flag
    obtain ⟨m, later, -, ran⟩ := fair.callbacks n t c runs
    have after := later.trans (Nat.le_succ m)
    exact not_idle fair ⟨stuck.later after, stuck.pending pending after, by rw [ran]; rfl⟩

theorem eventually_started (n : Nat) (entered : k < (run.state n).entered.length) :
    ∃ m ≥ n, k < (run.state m).started.length := by
  generalize distance : k + 1 - (run.state n).started.length = left
  induction left using Nat.strongRecOn generalizing n with
  | ind left ih =>
    by_cases done : k < (run.state n).started.length
    · exact ⟨n, Nat.le_refl n, done⟩
    · have pending : (run.state n).callbacksPending ≠ [] := by
        rw [pending_iff]
        omega
      have moves := not_stuck fair pending
      simp only [Stuck, not_forall, not_le] at moves
      obtain ⟨m, later, more⟩ := moves
      obtain ⟨m', above, started⟩ := ih _ (by omega) m (entered.trans_le (run.entered_le later)) rfl
      exact ⟨m', later.trans above, started⟩

end Run

/-- In every run, whatever the threads are and whichever of them are the scheduler's, the callbacks
that began are those that entered first, each begun once and in order; no two run at the same time;
a pending callback always has one that runs, a scheduled task, or a thread that is about to look. In
a fair run each callback that entered begins. -/
theorem callbacks_serial_in_order (scheduler : T → Bool) (run : Run T C scheduler) :
      (∀ n, (run.state n).Serial) ∧ (run.Fair → ∀ n k, k < (run.state n).entered.length →
        ∃ m ≥ n, k < (run.state m).started.length) :=
  ⟨run.serial, fun fair n _ entered => Run.eventually_started fair n entered⟩

/-! Two threads add a callback each, and then service the queue. -/

def sampleActions : List (Bool × Action Nat) :=
  [(false, .add 5), (true, .add 6), (false, .check), (true, .check), (false, .schedule),
    (true, .schedule), (false, .take), (true, .take), (false, .process), (true, .process),
    (false, .finish), (false, .check), (false, .schedule), (true, .take), (true, .process),
    (true, .finish), (true, .check)]

def sampleState (n : Nat) :
    Machine Bool Nat := (sampleActions.take n).foldl (fun s step => s.perform step.1 step.2) {}

theorem sampleState_step (acts : sampleActions[n]? = some (t, action)) :
    (sampleState n).Step (fun _ => true) t action (sampleState (n + 1)) := by
  have early : n < 17 := (List.getElem?_eq_some_iff.mp acts).1
  interval_cases n <;> cases acts <;> exact ⟨rfl, rfl⟩

theorem sampleState_later (acts : (t, action) ∈ sampleActions.drop n) :
    ∃ m ≥ n, (sampleState m).Step (fun _ => true) t action (sampleState (m + 1)) := by
  obtain ⟨k, acts⟩ := List.mem_iff_getElem?.mp acts
  rw [List.getElem?_drop] at acts
  exact ⟨n + k, Nat.le_add_right n k, sampleState_step acts⟩

theorem sampleState_ended (late : ¬n < 17) : sampleState n = sampleState 17 := by
  rw [sampleState, sampleState, List.take_of_length_le (Nat.le_of_not_lt late),
    List.take_of_length_le (Nat.le_refl 17)]

def sampleRun : Run Bool Nat (fun _ => true) where
  state := sampleState
  start := rfl
  moves n := by
    cases acts : sampleActions[n]? with
    | some step => exact .inr ⟨step.1, step.2, sampleState_step acts⟩
    | none =>
      have late := List.getElem?_eq_none_iff.mp acts
      exact .inl (by
        rw [sampleState_ended (Nat.not_lt.mpr late),
          sampleState_ended (Nat.not_lt.mpr (Nat.le_succ_of_le late))])

theorem sampleRun_fair : sampleRun.Fair where
  threads n t place there := by
    by_cases early : n < 17
    · have acts : ∀ n < 17, ∀ t, ((sampleState n).location t).place ≠ none → ∃ m < 17, n ≤ m ∧
          ((sampleState m).location t).place = ((sampleState n).location t).place ∧
          (sampleActions[m]?).map Prod.fst = some t := by decide
      obtain ⟨m, -, later, same, own⟩ := acts n early t (there ▸ Option.some_ne_none place)
      obtain ⟨step, acts, rfl⟩ := Option.map_eq_some_iff.mp own
      exact ⟨m, later, same.trans there, step.2, sampleState_step acts⟩
    · have idle :=
        (congrArg (fun s => (s.location t).place) (sampleState_ended early)).symm.trans there
      cases t <;> cases idle
  callbacks n t c runs := by
    by_cases early : n < 17
    · have acts : ∀ n < 17, ∀ t, ((sampleState n).location t).callback ≠ none →
          (t, .finish) ∈ sampleActions.drop n := by
        decide
      exact sampleState_later (acts n early t (runs ▸ Option.some_ne_none c))
    · have idle :=
        (congrArg (fun s => (s.location t).callback) (sampleState_ended early)).symm.trans runs
      cases t <;> cases idle
  serviced n scheduled := by
    by_cases early : n < 17
    · have acts : ∀ n < 17, 0 < (sampleState n).tasks →
        ∃ t, (t, .take) ∈ sampleActions.drop n := by decide
      obtain ⟨t, acts⟩ := acts n early scheduled
      obtain ⟨m, later, takes⟩ := sampleState_later acts
      exact ⟨m, later, t, takes⟩
    · have empty := (congrArg Machine.tasks (sampleState_ended early)).symm.trans_gt scheduled
      cases empty

theorem sampleRun_starts_callbacks :
    (sampleRun.state 2).entered = [5, 6] ∧ (sampleRun.state 9).started = [5] ∧ ∃ m ≥ 9,
      1 < (sampleRun.state m).started.length :=
  ⟨rfl, rfl, (callbacks_serial_in_order _ sampleRun).2 sampleRun_fair 9 1 (by decide)⟩

end Deviant.Scheduler
