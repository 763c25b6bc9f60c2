import Mathlib
import LiteDbModel.Lib.Run

/-!
# The connection pool of the Python runtime

`_ConnectionPool` of `driver.py`. What a task does under the lock is one step here;
opening and closing a connection are steps of their own, outside it. A task is one
`acquire` and what its caller then does with the connection, a `close`, or a run of
the idle timer, which may come at any time.
-/

namespace LiteDb.PythonPool
set_option autoImplicit false

/-- Where a task is. -/
inductive Pc
  | idle
  /-- In the loop of `acquire`, the lock is next. -/
  | ready (deadline : Option Nat)
  | waiting (deadline : Option Nat)
  /-- It reserved a slot; `factory` is next. -/
  | opening
  | has (conn : Nat)
  /-- `_free_slots(1)` is next. -/
  | freeing
  /-- It took these out of the pool; closing them is next. -/
  | dropping (conns : List Nat)

structure Pool where
  max : Nat
  acquireTimeout : Option Nat
  idleTimeout : Nat
  now : Nat
  /-- The free connections and when each was released, the oldest first. -/
  free : List (Nat × Nat)
  opened : Nat
  closed : Bool
  /-- How many connections `factory` made, and those that were closed. -/
  made : Nat
  gone : List Nat
  /-- The queue of the condition. -/
  waiters : List Nat
  tasks : List Pc

def init (max : Nat) (acquireTimeout : Option Nat) (idleTimeout : Nat) : Pool :=
  ⟨max, acquireTimeout, idleTimeout, 0, [], 0, false, 0, [], [], []⟩

def Pool.goto (s : Pool) (t : Nat) (pc : Pc) : Pool := { s with tasks := s.tasks.set t pc }

def wake (tasks : List Pc) (t : Nat) : List Pc :=
  match tasks[t]? with
  | some (.waiting deadline) => tasks.set t (.ready deadline)
  | _ => tasks

/-- `Condition.notify(n)`: the first of the queue go on. -/
def Pool.notify (s : Pool) (n : Nat) : Pool :=
  { s with waiters := s.waiters.drop n, tasks := (s.waiters.take n).foldl wake s.tasks }

/-- A turn of the loop of `acquire`, under the lock. -/
def turn (s : Pool) (t : Nat) (deadline : Option Nat) : Pool :=
  if s.closed then s.goto t .idle
  else
    match s.free.getLast? with
    | some (conn, _) => { s.goto t (.has conn) with free := s.free.dropLast }
    | none =>
      -- the slot is taken under the lock, the connection opened outside it
      if s.opened < s.max then { s.goto t .opening with opened := s.opened + 1 }
      else if deadline.any (· ≤ s.now) then s.goto t .idle
      else { s.goto t (.waiting deadline) with waiters := s.waiters ++ [t] }

/-- `factory`, which may raise. -/
def openConn (s : Pool) (t : Nat) (ok : Bool) : Pool :=
  if ok then { s.goto t (.has s.made) with made := s.made + 1 } else s.goto t .freeing

def freeSlots (s : Pool) (t : Nat) : Pool :=
  ({ s.goto t .idle with opened := s.opened - 1 }).notify 1

def release (s : Pool) (t conn : Nat) : Pool :=
  -- after close the slot stays counted; nobody opens one again
  if s.closed then s.goto t (.dropping [conn])
  else ({ s.goto t .idle with free := s.free ++ [(conn, s.now)] }).notify 1

/-- `discard` up to the slot. -/
def discard (s : Pool) (t conn : Nat) : Pool :=
  { s.goto t .freeing with gone := conn :: s.gone }

def close (s : Pool) (t : Nat) : Pool :=
  ({ s.goto t (.dropping (s.free.map Prod.fst)) with closed := true, free := [] }).notify
    s.waiters.length

def isExpired (s : Pool) (e : Nat × Nat) : Bool := e.2 + s.idleTimeout ≤ s.now

/-- `_reap`; a cutoff before the start expires nothing. -/
def reap (s : Pool) (t : Nat) : Pool :=
  let expired := s.free.filter (isExpired s)
  ({ s.goto t (.dropping (expired.map Prod.fst)) with
    free := s.free.filter fun e => !isExpired s e
    opened := s.opened - expired.length }).notify expired.length

def drop (s : Pool) (t : Nat) (conns : List Nat) : Pool :=
  { s.goto t .idle with gone := conns ++ s.gone }

inductive Action
  | spawn
  | tick (time : Nat)
  | acquire (t : Nat)
  | turn (t : Nat)
  | openConn (t : Nat) (ok : Bool)
  | freeSlots (t : Nat)
  | release (t : Nat)
  | discard (t : Nat)
  | close (t : Nat)
  | reap (t : Nat)
  | drop (t : Nat)

/-- A waiting task goes on by itself when its time is over. -/
def step (s : Pool) : Action → Option Pool
  | .spawn => some { s with tasks := s.tasks ++ [.idle] }
  | .tick time => some { s with now := s.now + time }
  | .acquire t =>
    match s.tasks[t]? with
    | some .idle => some (s.goto t (.ready (s.acquireTimeout.map (s.now + ·))))
    | _ => none
  | .turn t =>
    match s.tasks[t]? with
    | some (.ready deadline) => some (turn s t deadline)
    | some (.waiting deadline) =>
      if deadline.any (· ≤ s.now) then
        some (turn { s with waiters := s.waiters.erase t } t deadline)
      else none
    | _ => none
  | .openConn t ok =>
    match s.tasks[t]? with
    | some .opening => some (openConn s t ok)
    | _ => none
  | .freeSlots t =>
    match s.tasks[t]? with
    | some .freeing => some (freeSlots s t)
    | _ => none
  | .release t =>
    match s.tasks[t]? with
    | some (.has conn) => some (release s t conn)
    | _ => none
  | .discard t =>
    match s.tasks[t]? with
    | some (.has conn) => some (discard s t conn)
    | _ => none
  | .close t =>
    match s.tasks[t]? with
    | some .idle => some (close s t)
    | _ => none
  | .reap t =>
    match s.tasks[t]? with
    | some .idle => some (reap s t)
    | _ => none
  | .drop t =>
    match s.tasks[t]? with
    | some (.dropping conns) => some (drop s t conns)
    | _ => none

/-! ## What a step does -/

inductive Takes (s : Pool) : Action → Pool → Prop
  | spawn : Takes s .spawn { s with tasks := s.tasks ++ [.idle] }
  | tick (time : Nat) : Takes s (.tick time) { s with now := s.now + time }
  | acquire {t : Nat} (ht : s.tasks[t]? = some .idle) :
      Takes s (.acquire t) (s.goto t (.ready (s.acquireTimeout.map (s.now + ·))))
  | turn {t : Nat} {deadline : Option Nat} (ht : s.tasks[t]? = some (.ready deadline)) :
      Takes s (.turn t) (turn s t deadline)
  | timeout {t : Nat} {deadline : Option Nat} (ht : s.tasks[t]? = some (.waiting deadline)) :
      Takes s (.turn t) (PythonPool.turn { s with waiters := s.waiters.erase t } t deadline)
  | made {t : Nat} (ht : s.tasks[t]? = some .opening) :
      Takes s (.openConn t true) { s.goto t (.has s.made) with made := s.made + 1 }
  | raised {t : Nat} (ht : s.tasks[t]? = some .opening) :
      Takes s (.openConn t false) (s.goto t .freeing)
  | freeSlots {t : Nat} (ht : s.tasks[t]? = some .freeing) :
      Takes s (.freeSlots t) (freeSlots s t)
  | release {t conn : Nat} (ht : s.tasks[t]? = some (.has conn)) (hopen : ¬s.closed = true) :
      Takes s (.release t)
        (({ s.goto t .idle with free := s.free ++ [(conn, s.now)] } : Pool).notify 1)
  | late {t conn : Nat} (ht : s.tasks[t]? = some (.has conn)) (hclosed : s.closed = true) :
      Takes s (.release t) (s.goto t (.dropping [conn]))
  | discard {t conn : Nat} (ht : s.tasks[t]? = some (.has conn)) :
      Takes s (.discard t) (discard s t conn)
  | close {t : Nat} (ht : s.tasks[t]? = some .idle) : Takes s (.close t) (close s t)
  | reap {t : Nat} (ht : s.tasks[t]? = some .idle) : Takes s (.reap t) (reap s t)
  | drop {t : Nat} {conns : List Nat} (ht : s.tasks[t]? = some (.dropping conns)) :
      Takes s (.drop t) (drop s t conns)

theorem openConn_takes {s : Pool} {t : Nat} (ht : s.tasks[t]? = some .opening) (ok : Bool) :
    Takes s (.openConn t ok) (openConn s t ok) := by
  cases ok with
  | true => exact .made ht
  | false => exact .raised ht

theorem release_takes {s : Pool} {t conn : Nat} (ht : s.tasks[t]? = some (.has conn)) :
    Takes s (.release t) (release s t conn) := by
  unfold release
  split
  · exact .late ht ‹_›
  · exact .release ht ‹_›

theorem step_takes {s s' : Pool} {action : Action} (h : step s action = some s') :
    Takes s action s' := by
  cases action with
  | spawn =>
    obtain rfl := Option.some.inj h
    exact .spawn
  | tick time =>
    obtain rfl := Option.some.inj h
    exact .tick time
  | acquire t =>
    simp only [step] at h
    split at h
    · obtain rfl := Option.some.inj h
      exact .acquire ‹_›
    · cases h
  | turn t =>
    simp only [step] at h
    split at h
    · obtain rfl := Option.some.inj h
      exact .turn ‹_›
    · split at h
      · obtain rfl := Option.some.inj h
        exact .timeout ‹_›
      · cases h
    · cases h
  | openConn t ok =>
    simp only [step] at h
    split at h
    · obtain rfl := Option.some.inj h
      exact openConn_takes ‹_› ok
    · cases h
  | freeSlots t =>
    simp only [step] at h
    split at h
    · obtain rfl := Option.some.inj h
      exact .freeSlots ‹_›
    · cases h
  | release t =>
    simp only [step] at h
    split at h
    · obtain rfl := Option.some.inj h
      exact release_takes ‹_›
    · cases h
  | discard t =>
    simp only [step] at h
    split at h
    · obtain rfl := Option.some.inj h
      exact .discard ‹_›
    · cases h
  | close t =>
    simp only [step] at h
    split at h
    · obtain rfl := Option.some.inj h
      exact .close ‹_›
    · cases h
  | reap t =>
    simp only [step] at h
    split at h
    · obtain rfl := Option.some.inj h
      exact .reap ‹_›
    · cases h
  | drop t =>
    simp only [step] at h
    split at h
    · obtain rfl := Option.some.inj h
      exact .drop ‹_›
    · cases h

/-! ## What tasks have -/

def Pc.conns : Pc → List Nat
  | .has conn => [conn]
  | .dropping conns => conns
  | _ => []

/-- The slots of the pool that a task uses. -/
def Pc.slots : Pc → Nat
  | .opening | .has _ | .freeing => 1
  | _ => 0

def Pc.wants : Pc → Nat
  | .ready _ => 1
  | _ => 0

def weight (f : Pc → Nat) (tasks : List Pc) : Nat := (tasks.map f).sum

/-- How often a connection is free or in the hands of a task. -/
def Pool.held (s : Pool) (conn : Nat) : Nat :=
  (s.free.map Prod.fst).count conn + weight (fun pc => pc.conns.count conn) s.tasks

theorem weight_set (f : Pc → Nat) {tasks : List Pc} {t : Nat} {a : Pc} (ha : tasks[t]? = some a)
    (b : Pc) : weight f (tasks.set t b) + f a = weight f tasks + f b := by
  induction tasks generalizing t with
  | nil => cases ha
  | cons pc tasks ih =>
    cases t with
    | zero =>
      obtain rfl := Option.some.inj ha
      simp only [weight, List.set_cons_zero, List.map_cons, List.sum_cons]
      omega
    | succ t =>
      have hrest := ih ha
      simp only [weight, List.set_cons_succ, List.map_cons, List.sum_cons] at hrest ⊢
      omega

theorem weight_append (f : Pc → Nat) (tasks : List Pc) (pc : Pc) :
    weight f (tasks ++ [pc]) = weight f tasks + f pc := by
  simp [weight]

/-- All of these wait. -/
def Wait (tasks : List Pc) (ts : List Nat) : Prop :=
  ∀ t ∈ ts, ∃ deadline, tasks[t]? = some (.waiting deadline)

theorem wake_of_waiting {tasks : List Pc} {t : Nat} {deadline : Option Nat}
    (h : tasks[t]? = some (.waiting deadline)) : wake tasks t = tasks.set t (.ready deadline) := by
  rw [wake, h]

theorem Wait.wake {tasks : List Pc} {t : Nat} {ts : List Nat} (h : Wait tasks (t :: ts))
    (hnodup : (t :: ts).Nodup) : Wait (wake tasks t) ts := by
  obtain ⟨deadline, ht⟩ := h t List.mem_cons_self
  intro u hu
  obtain ⟨deadline', hu'⟩ := h u (List.mem_cons_of_mem t hu)
  have hne : t ≠ u := by
    rintro rfl
    exact (List.nodup_cons.mp hnodup).1 hu
  exact ⟨deadline', by rw [wake_of_waiting ht, List.getElem?_set_ne hne, hu']⟩

theorem weight_wake_same {f : Pc → Nat} (hf : ∀ d, f (.waiting d) = f (.ready d)) (tasks : List Pc)
    (ts : List Nat) : weight f (ts.foldl wake tasks) = weight f tasks := by
  induction ts generalizing tasks with
  | nil => rfl
  | cons t ts ih =>
    rw [List.foldl_cons, ih, wake]
    split
    · next deadline ht =>
      have hset := weight_set f ht (.ready deadline)
      have hd := hf deadline
      omega
    · rfl

theorem weight_wake_wants {tasks : List Pc} {ts : List Nat} (h : Wait tasks ts)
    (hnodup : ts.Nodup) :
    weight Pc.wants (ts.foldl wake tasks) = weight Pc.wants tasks + ts.length := by
  induction ts generalizing tasks with
  | nil => rfl
  | cons t ts ih =>
    obtain ⟨deadline, ht⟩ := h t List.mem_cons_self
    have hset := weight_set Pc.wants ht (.ready deadline)
    rw [List.foldl_cons, ih (h.wake hnodup) (List.nodup_cons.mp hnodup).2, wake_of_waiting ht,
      List.length_cons]
    simp only [Pc.wants] at hset
    omega

theorem waiting_wake {tasks : List Pc} {ts : List Nat} (h : Wait tasks ts) (hnodup : ts.Nodup)
    (u : Nat) (d : Option Nat) : (ts.foldl wake tasks)[u]? = some (.waiting d) ↔
      u ∉ ts ∧ tasks[u]? = some (.waiting d) := by
  induction ts generalizing tasks with
  | nil => simp
  | cons t ts ih =>
    obtain ⟨deadline, ht⟩ := h t List.mem_cons_self
    rw [List.foldl_cons, ih (h.wake hnodup) (List.nodup_cons.mp hnodup).2, wake_of_waiting ht,
      List.mem_cons, not_or]
    by_cases hu : u = t
    · subst hu
      rw [List.getElem?_set_self (List.getElem?_eq_some_iff.mp ht).1]
      simp
    · rw [List.getElem?_set_ne (Ne.symm hu)]
      simp [hu]

/-! ## Every connection is in one place -/

/-- A connection that was not closed is free or in the hands of one task. -/
structure Accounted (s : Pool) : Prop where
  held : ∀ conn, s.held conn = if conn < s.made ∧ conn ∉ s.gone then 1 else 0
  made : ∀ conn ∈ s.gone, conn < s.made
  nodup : s.gone.Nodup

section Accounted

variable {s s' : Pool} {t : Nat} {a : Pc}

theorem Accounted.keep (hs : Accounted s) (hmade : s'.made = s.made) (hgone : s'.gone = s.gone)
    (hheld : ∀ conn, s'.held conn = s.held conn) : Accounted s' where
  held conn := by rw [hheld, hs.held, hmade, hgone]
  made := by
    rw [hmade, hgone]
    exact hs.made
  nodup := hgone ▸ hs.nodup

/-- Some of the connections are closed. -/
theorem Accounted.close {conns : List Nat} (hs : Accounted s) (hmade : s'.made = s.made)
    (hgone : s'.gone = conns ++ s.gone)
    (hheld : ∀ conn, s'.held conn + conns.count conn = s.held conn) : Accounted s' := by
  have hopen : ∀ conn ∈ conns, conn < s.made ∧ conn ∉ s.gone ∧ conns.count conn = 1 := by
    intro conn hconn
    have hcount := List.one_le_count_iff.mpr hconn
    have hsum := hheld conn
    rw [hs.held] at hsum
    split at hsum
    · next h => exact ⟨h.1, h.2, by omega⟩
    · omega
  constructor
  · intro conn
    have hsum := hheld conn
    rw [hs.held] at hsum
    rw [hmade, hgone]
    by_cases hconn : conn ∈ conns
    · obtain ⟨hlt, hnot, hcount⟩ := hopen conn hconn
      rw [if_pos ⟨hlt, hnot⟩] at hsum
      rw [if_neg (by simp [hconn])]
      omega
    · rw [List.count_eq_zero.mpr hconn] at hsum
      simpa [hconn] using hsum
  · intro conn hconn
    rw [hgone] at hconn
    rw [hmade]
    rcases List.mem_append.mp hconn with hconn | hconn
    · exact (hopen conn hconn).1
    · exact hs.made conn hconn
  · rw [hgone]
    refine List.Nodup.append ?_ hs.nodup ?_
    · rw [List.nodup_iff_count_le_one]
      intro conn
      by_cases hconn : conn ∈ conns
      · exact (hopen conn hconn).2.2.le
      · rw [List.count_eq_zero.mpr hconn]
        exact Nat.zero_le 1
    · intro conn hconn hgone'
      exact (hopen conn hconn).2.1 hgone'

theorem held_notify (s : Pool) (n conn : Nat) : (s.notify n).held conn = s.held conn := by
  have hsame := weight_wake_same (f := fun pc => pc.conns.count conn) (fun _ => rfl) s.tasks
    (s.waiters.take n)
  rw [Pool.held, Pool.notify, hsame, Pool.held]

theorem held_goto (ha : s.tasks[t]? = some a) (b : Pc) (conn : Nat) :
    (s.goto t b).held conn + a.conns.count conn = s.held conn + b.conns.count conn := by
  have hset := weight_set (fun pc => pc.conns.count conn) ha b
  simp only [Pool.held, Pool.goto]
  omega

theorem getLast_split {free : List (Nat × Nat)} {e : Nat × Nat} (h : free.getLast? = some e) :
    free = free.dropLast ++ [e] := (List.dropLast_append_getLast? e h).symm

theorem turn_accounted (hs : Accounted s) (ha : s.tasks[t]? = some a) (hconns : a.conns = [])
    (deadline : Option Nat) : Accounted (turn s t deadline) := by
  have hgoto : ∀ b : Pc, ∀ conn, (s.goto t b).held conn = s.held conn + b.conns.count conn := by
    intro b conn
    have hheld := held_goto ha b conn
    rw [hconns, List.count_nil] at hheld
    omega
  unfold turn
  split
  · exact hs.keep rfl rfl (hgoto .idle)
  · split
    · next conn time hlast =>
      refine hs.keep rfl rfl ?_
      intro conn'
      have hheld := hgoto (.has conn) conn'
      have hfree := congrArg (fun l => (l.map Prod.fst).count conn') (getLast_split hlast)
      simp only [List.map_append, List.count_append, List.map_cons, List.map_nil] at hfree
      simp only [Pool.held, Pool.goto, Pc.conns] at hheld ⊢
      omega
    · split
      · exact hs.keep rfl rfl (hgoto .opening)
      · split
        · exact hs.keep rfl rfl (hgoto .idle)
        · exact hs.keep rfl rfl (hgoto (.waiting deadline))

theorem step_accounted (s : Pool) (action : Action) (s' : Pool) (hs : Accounted s)
    (h : step s action = some s') : Accounted s' := by
  cases step_takes h with
  | spawn =>
    refine hs.keep rfl rfl ?_
    intro conn
    simp only [Pool.held, weight_append, Pc.conns, List.count_nil, Nat.add_zero]
  | tick time => exact hs.keep rfl rfl fun _ => rfl
  | acquire ht => exact hs.keep rfl rfl fun conn => held_goto ht _ conn
  | turn ht => exact turn_accounted hs ht rfl _
  | @timeout t deadline ht =>
    have hs' : Accounted { s with waiters := s.waiters.erase t } := hs.keep rfl rfl fun _ => rfl
    exact turn_accounted hs' ht rfl _
  | @made t ht =>
    have hfresh : s.made ∉ s.gone := fun hmem => Nat.lt_irrefl _ (hs.made _ hmem)
    refine ⟨?_, fun conn hconn => Nat.lt_succ_of_lt (hs.made conn hconn), hs.nodup⟩
    intro conn
    have hheld := held_goto ht (.has s.made) conn
    have hold := hs.held conn
    show (s.goto t (.has s.made)).held conn = if conn < s.made + 1 ∧ conn ∉ s.gone then 1 else 0
    simp only [Pc.conns, List.count_nil, List.count_singleton] at hheld
    by_cases hconn : conn = s.made
    · subst hconn
      rw [if_neg (by omega)] at hold
      rw [if_pos ⟨Nat.lt_succ_self _, hfresh⟩]
      simp only [beq_self_eq_true, if_true] at hheld
      omega
    · have hlt : conn < s.made + 1 ↔ conn < s.made := by omega
      simp only [hlt, ← hold]
      simp only [beq_iff_eq, Ne.symm hconn, if_false] at hheld
      omega
  | raised ht => exact hs.keep rfl rfl fun conn => held_goto ht _ conn
  | freeSlots ht =>
    exact hs.keep rfl rfl fun conn => (held_notify _ 1 conn).trans (held_goto ht .idle conn)
  | release ht hopen =>
    refine hs.keep rfl rfl ?_
    intro conn
    rw [held_notify]
    have hheld := held_goto ht .idle conn
    simp only [Pool.held, Pool.goto, Pc.conns, List.map_append, List.count_append, List.map_cons,
      List.map_nil, List.count_nil] at hheld ⊢
    omega
  | late ht hclosed =>
    exact hs.keep rfl rfl fun conn => Nat.add_right_cancel (held_goto ht (.dropping [_]) conn)
  | @discard t conn ht =>
    have hgone : (discard s t conn).gone = [conn] ++ s.gone := rfl
    exact hs.close rfl hgone fun conn' => held_goto ht .freeing conn'
  | close ht =>
    refine hs.keep rfl rfl ?_
    intro conn
    rw [close, held_notify]
    have hheld := held_goto ht (.dropping (s.free.map Prod.fst)) conn
    simp only [Pool.held, Pool.goto, Pc.conns, List.map_nil, List.count_nil] at hheld ⊢
    omega
  | reap ht =>
    refine hs.keep rfl rfl ?_
    intro conn
    rw [reap, held_notify]
    have hheld := held_goto ht (.dropping ((s.free.filter (isExpired s)).map Prod.fst)) conn
    have hparts := (List.filter_append_perm (isExpired s) s.free).map Prod.fst
    have hcount := hparts.count_eq conn
    rw [List.map_append, List.count_append] at hcount
    simp only [Pool.held, Pool.goto, Pc.conns, List.count_nil] at hheld ⊢
    omega
  | drop ht => exact hs.close rfl rfl fun conn => held_goto ht .idle conn

end Accounted

/-! ## Slots -/

/-- How many connections are free, in use or being opened. -/
def Pool.used (s : Pool) : Nat := s.free.length + weight Pc.slots s.tasks

/-- The slots in use are counted, and never more than there are. -/
structure Slots (s : Pool) : Prop where
  used : s.used ≤ s.opened
  counted : s.closed = false → s.used = s.opened
  capacity : s.opened ≤ s.max

section Slots

variable {s s' : Pool} {t : Nat} {a : Pc}

theorem Slots.shift (hs : Slots s) (hmax : s'.max = s.max) (hclosed : s'.closed = s.closed)
    (hused : s'.used + s.opened = s.used + s'.opened) (hopened : s'.opened ≤ s.max) : Slots s' where
  used := by
    have hle := hs.used
    omega
  counted h := by
    have heq := hs.counted (hclosed ▸ h)
    omega
  capacity := hmax ▸ hopened

/-- After `close` a slot may stay counted. -/
theorem Slots.shut (hs : Slots s) (hmax : s'.max = s.max) (hclosed : s'.closed = true)
    (hused : s'.used ≤ s.used) (hopened : s'.opened = s.opened) : Slots s' where
  used := by
    rw [hopened]
    exact hused.trans hs.used
  counted h := by
    rw [hclosed] at h
    cases h
  capacity := by
    rw [hmax, hopened]
    exact hs.capacity

theorem used_notify (s : Pool) (n : Nat) : (s.notify n).used = s.used := by
  have hsame := weight_wake_same (f := Pc.slots) (fun _ => rfl) s.tasks (s.waiters.take n)
  rw [Pool.used, Pool.notify, hsame, Pool.used]

theorem used_goto (ha : s.tasks[t]? = some a) (b : Pc) :
    (s.goto t b).used + a.slots = s.used + b.slots := by
  have hset := weight_set Pc.slots ha b
  simp only [Pool.used, Pool.goto]
  omega

theorem turn_slots (hs : Slots s) (ha : s.tasks[t]? = some a) (hslots : a.slots = 0)
    (deadline : Option Nat) : Slots (turn s t deadline) := by
  have hgoto : ∀ b : Pc, (s.goto t b).used = s.used + b.slots := by
    intro b
    have hused := used_goto ha b
    omega
  have hsame : ∀ b : Pc, b.slots = 0 → (s.goto t b).used + s.opened = s.used + s.opened := by
    intro b hb
    rw [hgoto, hb, Nat.add_zero]
  unfold turn
  split
  · exact hs.shift rfl rfl (hsame .idle rfl) hs.capacity
  · split
    · next conn time hlast =>
      refine hs.shift rfl rfl ?_ hs.capacity
      have hused := hgoto (.has conn)
      have hfree := congrArg List.length (getLast_split hlast)
      rw [List.length_append, List.length_singleton] at hfree
      simp only [Pool.used, Pool.goto, Pc.slots] at hused ⊢
      omega
    · split
      · next hlt =>
        refine hs.shift rfl rfl ?_ hlt
        have hused := hgoto .opening
        simp only [Pool.used, Pool.goto, Pc.slots] at hused ⊢
        omega
      · split
        · exact hs.shift rfl rfl (hsame .idle rfl) hs.capacity
        · exact hs.shift rfl rfl (hsame (.waiting deadline) rfl) hs.capacity

theorem reap_length (s : Pool) : (s.free.filter (isExpired s)).length +
    (s.free.filter fun e => !isExpired s e).length = s.free.length := by
  have hparts := (List.filter_append_perm (isExpired s) s.free).length_eq
  rwa [List.length_append] at hparts

/-- A task goes elsewhere with as many slots as it had. -/
theorem Slots.goto (hs : Slots s) (ha : s.tasks[t]? = some a) (b : Pc)
    (hslots : b.slots = a.slots) : Slots (s.goto t b) := by
  have hused := used_goto ha b
  rw [hslots] at hused
  exact hs.shift rfl rfl (congrArg (· + s.opened) (Nat.add_right_cancel hused)) hs.capacity

theorem step_slots (s : Pool) (action : Action) (s' : Pool) (hs : Slots s)
    (h : step s action = some s') : Slots s' := by
  cases step_takes h with
  | spawn =>
    refine hs.shift rfl rfl ?_ hs.capacity
    simp only [Pool.used, weight_append, Pc.slots, Nat.add_zero]
  | tick time => exact hs.shift rfl rfl rfl hs.capacity
  | acquire ht => exact hs.goto ht _ rfl
  | turn ht => exact turn_slots hs ht rfl _
  | @timeout t deadline ht =>
    have hs' : Slots { s with waiters := s.waiters.erase t } :=
      ⟨hs.used, hs.counted, hs.capacity⟩
    exact turn_slots hs' ht rfl _
  | made ht =>
    have hgoto := hs.goto ht (.has s.made) rfl
    exact ⟨hgoto.used, hgoto.counted, hgoto.capacity⟩
  | raised ht => exact hs.goto ht .freeing rfl
  | freeSlots ht =>
    have hused := used_goto ht .idle
    have hle := hs.used
    refine hs.shift rfl rfl ?_ ((Nat.sub_le ..).trans hs.capacity)
    rw [freeSlots, used_notify]
    simp only [Pool.used, Pool.goto, Pool.notify, Pc.slots] at hused hle ⊢
    omega
  | release ht hopen =>
    have hused := used_goto ht .idle
    refine hs.shift rfl rfl ?_ hs.capacity
    rw [used_notify]
    simp only [Pool.used, Pool.goto, Pool.notify, Pc.slots, List.length_append,
      List.length_singleton] at hused ⊢
    omega
  | @late t conn ht hclosed =>
    have hused := used_goto ht (.dropping [conn])
    refine hs.shut rfl hclosed ?_ rfl
    simp only [Pc.slots] at hused
    omega
  | discard ht =>
    have hgoto := hs.goto ht .freeing rfl
    exact ⟨hgoto.used, hgoto.counted, hgoto.capacity⟩
  | close ht =>
    have hused := used_goto ht (.dropping (s.free.map Prod.fst))
    refine hs.shut rfl rfl ?_ rfl
    rw [close, used_notify]
    simp only [Pool.used, Pool.goto, Pc.slots, List.length_nil] at hused ⊢
    omega
  | reap ht =>
    have hused := used_goto ht (.dropping ((s.free.filter (isExpired s)).map Prod.fst))
    have hparts := reap_length s
    have hle := hs.used
    refine hs.shift rfl rfl ?_ ((Nat.sub_le ..).trans hs.capacity)
    rw [reap, used_notify]
    simp only [Pool.used, Pool.goto, Pool.notify, Pc.slots] at hused hle ⊢
    omega
  | drop ht =>
    have hgoto := hs.goto ht .idle rfl
    exact ⟨hgoto.used, hgoto.counted, hgoto.capacity⟩

end Slots

/-! ## No wakeup is lost -/

/-- What a task could take at once: a free connection or a slot. -/
def Pool.available (s : Pool) : Nat := s.free.length + (s.max - s.opened)

/-- While tasks wait, all that is available has a task that was woken for it. -/
structure Queue (s : Pool) : Prop where
  mem : ∀ t, t ∈ s.waiters ↔ ∃ deadline, s.tasks[t]? = some (.waiting deadline)
  nodup : s.waiters.Nodup
  shut : s.closed = true → s.free = [] ∧ s.waiters = []
  awake : s.waiters ≠ [] → s.available ≤ weight Pc.wants s.tasks

section Queue

variable {s s' : Pool} {t : Nat} {a b : Pc}

theorem waiting_set (ha : s.tasks[t]? = some a) (hb : ∀ d, b ≠ .waiting d) (u : Nat) :
    (∃ d, (s.tasks.set t b)[u]? = some (.waiting d)) ↔
      u ≠ t ∧ ∃ d, s.tasks[u]? = some (.waiting d) := by
  by_cases hu : u = t
  · subst hu
    rw [List.getElem?_set_self (List.getElem?_eq_some_iff.mp ha).1]
    constructor
    · rintro ⟨d, hd⟩
      exact absurd (Option.some.inj hd) (hb d)
    · rintro ⟨hne, -⟩
      exact absurd rfl hne
  · rw [List.getElem?_set_ne (Ne.symm hu), and_iff_right hu]

theorem not_waiting (hs : Queue s) (ha : s.tasks[t]? = some a) (hna : ∀ d, a ≠ .waiting d) :
    t ∉ s.waiters := by
  rw [hs.mem]
  rintro ⟨d, hd⟩
  exact hna d (Option.some.inj (ha.symm.trans hd))

/-- A task that did not wait and does not. -/
theorem mem_set (hs : Queue s) (ha : s.tasks[t]? = some a) (hna : ∀ d, a ≠ .waiting d)
    (hnb : ∀ d, b ≠ .waiting d) (u : Nat) :
    u ∈ s.waiters ↔ ∃ d, (s.tasks.set t b)[u]? = some (.waiting d) := by
  rw [waiting_set ha hnb, ← hs.mem]
  constructor
  · intro hu
    refine ⟨?_, hu⟩
    rintro rfl
    exact not_waiting hs ha hna hu
  · exact And.right

theorem Queue.moves (hs : Queue s) (ha : s.tasks[t]? = some a) (hna : ∀ d, a ≠ .waiting d)
    (hnb : ∀ d, b ≠ .waiting d) (htasks : s'.tasks = s.tasks.set t b)
    (hwaiters : s'.waiters = s.waiters) (hclosed : s'.closed = s.closed) (hfree : s'.free = s.free)
    (havailable : s'.available + a.wants ≤ s.available + b.wants) : Queue s' where
  mem u := by
    rw [hwaiters, htasks]
    exact mem_set hs ha hna hnb u
  nodup := hwaiters ▸ hs.nodup
  shut h := by
    rw [hwaiters, hfree]
    exact hs.shut (hclosed ▸ h)
  awake h := by
    rw [hwaiters] at h
    have hawake := hs.awake h
    have hset := weight_set Pc.wants ha b
    rw [htasks]
    omega

/-- What became available is notified. -/
theorem queue_notify {n : Nat}
    (hmem : ∀ u, u ∈ s.waiters ↔ ∃ d, s.tasks[u]? = some (.waiting d)) (hnodup : s.waiters.Nodup)
    (hshut : s.closed = true → s.free = [] ∧ s.waiters.length ≤ n)
    (hawake : s.waiters ≠ [] → s.available ≤ weight Pc.wants s.tasks + n) : Queue (s.notify n) := by
  have hwait : Wait s.tasks (s.waiters.take n) :=
    fun u hu => (hmem u).mp (List.mem_of_mem_take hu)
  have htake : (s.waiters.take n).Nodup := hnodup.sublist (List.take_sublist n _)
  have hsplit := List.take_append_drop n s.waiters
  constructor
  · intro u
    have hwaiting : (∃ d, (s.notify n).tasks[u]? = some (.waiting d)) ↔
        u ∉ s.waiters.take n ∧ u ∈ s.waiters := by
      rw [hmem, ← exists_and_left]
      exact exists_congr fun d => waiting_wake hwait htake u d
    rw [hwaiting]
    show u ∈ s.waiters.drop n ↔ _
    constructor
    · intro hu
      rw [← hsplit] at hnodup
      have hdisjoint := (List.nodup_append'.mp hnodup).2.2
      exact ⟨fun hu' => hdisjoint hu' hu, List.mem_of_mem_drop hu⟩
    · rintro ⟨hnot, hu⟩
      rw [← hsplit] at hu
      exact (List.mem_append.mp hu).resolve_left hnot
  · exact hnodup.sublist (List.drop_sublist n _)
  · intro h
    exact ⟨(hshut h).1, List.drop_eq_nil_of_le (hshut h).2⟩
  · intro h
    have hlong : n < s.waiters.length := by
      by_contra hle
      exact h (List.drop_eq_nil_of_le (Nat.le_of_not_lt hle))
    have hne : s.waiters ≠ [] := by
      intro hnil
      rw [hnil] at hlong
      cases hlong
    have hwants := weight_wake_wants hwait htake
    rw [List.length_take, Nat.min_eq_left hlong.le] at hwants
    have hle := hawake hne
    show s.available ≤ weight Pc.wants ((s.waiters.take n).foldl wake s.tasks)
    omega

/-- A task at its turn: the queue has the others. -/
structure AtTurn (s : Pool) (t : Nat) (a : Pc) : Prop where
  pc : s.tasks[t]? = some a
  wants : a.wants ≤ 1
  mem : ∀ u, u ∈ s.waiters ↔ u ≠ t ∧ ∃ d, s.tasks[u]? = some (.waiting d)
  nodup : s.waiters.Nodup
  shut : s.closed = true → s.free = [] ∧ s.waiters = []
  awake : s.waiters ≠ [] → s.available ≤ weight Pc.wants s.tasks

/-- It takes something available, or nothing is. -/
theorem AtTurn.takes (hs : AtTurn s t a) (hb : ∀ d, b ≠ .waiting d)
    (htasks : s'.tasks = s.tasks.set t b) (hwaiters : s'.waiters = s.waiters)
    (hclosed : s'.closed = s.closed) (hfree : s.free = [] → s'.free = [])
    (havailable : s.waiters ≠ [] → s'.available ≤ s.available - 1) : Queue s' where
  mem u := by
    rw [hwaiters, htasks, hs.mem, waiting_set hs.pc hb]
  nodup := hwaiters ▸ hs.nodup
  shut h := by
    rw [hwaiters]
    have hshut := hs.shut (hclosed ▸ h)
    exact ⟨hfree hshut.1, hshut.2⟩
  awake h := by
    rw [hwaiters] at h
    have hle := havailable h
    have hawake := hs.awake h
    have hset := weight_set Pc.wants hs.pc b
    have hwants := hs.wants
    rw [htasks]
    omega

theorem turn_queue (hs : AtTurn s t a) (deadline : Option Nat) : Queue (turn s t deadline) := by
  unfold turn
  split
  · next hclosed =>
    exact hs.takes (by simp) rfl rfl rfl id fun h => absurd (hs.shut hclosed).2 h
  · next hopen =>
    split
    · next conn time hlast =>
      have hfree := congrArg List.length (getLast_split hlast)
      rw [List.length_append, List.length_singleton] at hfree
      refine hs.takes (b := .has conn) (by simp) rfl rfl rfl ?_ ?_
      · intro hnil
        rw [hnil] at hlast
        cases hlast
      · intro _
        simp only [Pool.available, Pool.goto]
        omega
    · next hnone =>
      have hnil : s.free = [] := List.getLast?_eq_none_iff.mp hnone
      split
      · next hlt =>
        refine hs.takes (b := .opening) (by simp) rfl rfl rfl id ?_
        intro _
        simp only [Pool.available, Pool.goto]
        omega
      · next hfull =>
        have hzero : s.available = 0 := by
          rw [Pool.available, hnil, List.length_nil]
          omega
        split
        · refine hs.takes (b := .idle) (by simp) rfl rfl rfl id ?_
          exact fun _ => hzero.le.trans (Nat.zero_le _)
        · constructor
          · intro u
            show u ∈ s.waiters ++ [t] ↔
              ∃ d, (s.tasks.set t (.waiting deadline))[u]? = some (.waiting d)
            rw [List.mem_append, List.mem_singleton, hs.mem]
            by_cases hu : u = t
            · subst hu
              rw [List.getElem?_set_self (List.getElem?_eq_some_iff.mp hs.pc).1]
              simp
            · rw [List.getElem?_set_ne (Ne.symm hu)]
              simp [hu]
          · refine List.Nodup.append hs.nodup (List.nodup_singleton t) ?_
            intro u hu hut
            exact ((hs.mem u).mp hu).1 (List.mem_singleton.mp hut)
          · intro hclosed
            exact absurd hclosed hopen
          · intro _
            exact hzero.le.trans (Nat.zero_le _)

theorem spawn_queue (hs : Queue s) : Queue { s with tasks := s.tasks ++ [.idle] } := by
  refine ⟨?_, hs.nodup, hs.shut, ?_⟩
  · intro u
    rw [hs.mem]
    show _ ↔ ∃ d, (s.tasks ++ [Pc.idle])[u]? = some (.waiting d)
    rw [List.getElem?_append]
    split
    · exact Iff.rfl
    · next hle =>
      rw [List.getElem?_eq_none (Nat.le_of_not_lt hle), List.getElem?_singleton]
      constructor
      · rintro ⟨d, hd⟩
        cases hd
      · rintro ⟨d, hd⟩
        split at hd
        · cases hd
        · cases hd
  · intro hne
    rw [weight_append]
    exact (hs.awake hne).trans (Nat.le_add_right _ _)

theorem atTurn_ready (hs : Queue s) {deadline : Option Nat}
    (ht : s.tasks[t]? = some (.ready deadline)) : AtTurn s t (.ready deadline) := by
  refine ⟨ht, Nat.le_refl 1, ?_, hs.nodup, hs.shut, hs.awake⟩
  intro u
  rw [← hs.mem]
  refine ⟨fun hu => ⟨?_, hu⟩, And.right⟩
  rintro rfl
  exact not_waiting hs ht (by simp) hu

theorem atTurn_timeout (hs : Queue s) {deadline : Option Nat}
    (ht : s.tasks[t]? = some (.waiting deadline)) :
    AtTurn { s with waiters := s.waiters.erase t } t (.waiting deadline) := by
  refine ⟨ht, Nat.zero_le 1, ?_, hs.nodup.erase t, ?_, ?_⟩
  · intro u
    rw [hs.nodup.mem_erase_iff, hs.mem]
  · intro hclosed
    obtain ⟨hfree, hnil⟩ := hs.shut hclosed
    refine ⟨hfree, ?_⟩
    rw [hnil]
    rfl
  · intro hne
    apply hs.awake
    intro hnil
    rw [hnil] at hne
    exact hne rfl

theorem step_queue (s : Pool) (action : Action) (s' : Pool) (hs : Queue s)
    (h : step s action = some s') : Queue s' := by
  cases step_takes h with
  | spawn => exact spawn_queue hs
  | tick time => exact ⟨hs.mem, hs.nodup, hs.shut, hs.awake⟩
  | acquire ht => exact hs.moves ht (by simp) (by simp) rfl rfl rfl rfl (Nat.le_add_right _ _)
  | turn ht => exact turn_queue (atTurn_ready hs ht) _
  | timeout ht => exact turn_queue (atTurn_timeout hs ht) _
  | made ht =>
    exact hs.moves ht (by simp) (b := .has s.made) (by simp) rfl rfl rfl rfl (Nat.le_refl _)
  | raised ht =>
    exact hs.moves ht (by simp) (b := .freeing) (by simp) rfl rfl rfl rfl (Nat.le_refl _)
  | freeSlots ht =>
    have hset := weight_set Pc.wants ht .idle
    show Queue (Pool.notify _ _)
    apply queue_notify
    · exact mem_set hs ht (by simp) (by simp)
    · exact hs.nodup
    · intro hclosed
      obtain ⟨hfree, hnil⟩ := hs.shut hclosed
      refine ⟨hfree, ?_⟩
      show s.waiters.length ≤ 1
      rw [hnil]
      exact Nat.zero_le 1
    · intro hne
      have hawake := hs.awake hne
      simp only [Pool.available, Pool.goto, Pc.wants] at hset hawake ⊢
      omega
  | release ht hopen =>
    have hset := weight_set Pc.wants ht .idle
    apply queue_notify
    · exact mem_set hs ht (by simp) (by simp)
    · exact hs.nodup
    · intro hclosed
      exact absurd hclosed hopen
    · intro hne
      have hawake := hs.awake hne
      simp only [Pool.available, Pool.goto, Pc.wants, List.length_append,
        List.length_singleton] at hset hawake ⊢
      omega
  | @late t conn ht hclosed =>
    exact hs.moves ht (by simp) (b := .dropping [conn]) (by simp) rfl rfl rfl rfl (Nat.le_refl _)
  | discard ht =>
    exact hs.moves ht (by simp) (b := .freeing) (by simp) rfl rfl rfl rfl (Nat.le_refl _)
  | close ht =>
    have hset := weight_set Pc.wants ht (.dropping (s.free.map Prod.fst))
    show Queue (Pool.notify _ _)
    apply queue_notify
    · exact mem_set hs ht (by simp) (by simp)
    · exact hs.nodup
    · exact fun _ => ⟨rfl, Nat.le_refl _⟩
    · intro hne
      have hawake := hs.awake hne
      simp only [Pool.available, Pool.goto, Pc.wants, List.length_nil] at hset hawake ⊢
      omega
  | reap ht =>
    have hset := weight_set Pc.wants ht (.dropping ((s.free.filter (isExpired s)).map Prod.fst))
    have hparts := reap_length s
    show Queue (Pool.notify _ _)
    apply queue_notify
    · exact mem_set hs ht (by simp) (by simp)
    · exact hs.nodup
    · intro hclosed
      obtain ⟨hfree, hnil⟩ := hs.shut hclosed
      refine ⟨?_, ?_⟩
      · show s.free.filter _ = []
        rw [hfree]
        rfl
      · show s.waiters.length ≤ _
        rw [hnil]
        exact Nat.zero_le _
    · intro hne
      have hawake := hs.awake hne
      simp only [Pool.available, Pool.goto, Pc.wants] at hset hawake ⊢
      omega
  | drop ht => exact hs.moves ht (by simp) (b := .idle) (by simp) rfl rfl rfl rfl (Nat.le_refl _)

end Queue

/-! ## Every run -/

section Runs

variable {max idleTimeout : Nat} {acquireTimeout : Option Nat} {actions : List Action} {s : Pool}

theorem run_accounted (h : Run.run step (init max acquireTimeout idleTimeout) actions = some s) :
    Accounted s := by
  refine Run.invariant step_accounted ?_ h
  exact ⟨fun conn => by simp [Pool.held, init, weight], fun conn h => absurd h List.not_mem_nil,
    List.nodup_nil⟩

theorem run_slots (h : Run.run step (init max acquireTimeout idleTimeout) actions = some s) :
    Slots s := by
  refine Run.invariant step_slots ?_ h
  exact ⟨Nat.le_refl 0, fun _ => rfl, Nat.zero_le max⟩

theorem run_queue (h : Run.run step (init max acquireTimeout idleTimeout) actions = some s) :
    Queue s := by
  refine Run.invariant step_queue ?_ h
  exact ⟨fun t => by simp [init], List.nodup_nil, fun h => absurd h (by simp [init]),
    fun h => absurd rfl h⟩

theorem turn_max (s : Pool) (t : Nat) (deadline : Option Nat) :
    (turn s t deadline).max = s.max := by
  unfold turn
  split
  · rfl
  · split
    · rfl
    · split
      · rfl
      · split
        · rfl
        · rfl

theorem step_max (s : Pool) (action : Action) (s' : Pool) (h : step s action = some s') :
    s'.max = s.max := by
  cases step_takes h with
  | turn ht => exact turn_max s _ _
  | timeout ht => exact turn_max _ _ _
  | _ => rfl

theorem run_max (h : Run.run step (init max acquireTimeout idleTimeout) actions = some s) :
    s.max = max := by
  have hstep : ∀ (s : Pool) (action : Action) (s' : Pool), s.max = max →
      step s action = some s' → s'.max = max := by
    intro s action s' hmax h
    rw [step_max s action s' h, hmax]
  exact Run.invariant hstep rfl h

end Runs

/-- In every order of steps: a connection that was not closed is free or in the hands of exactly
one task and a closed one of nobody, none is closed twice, and those free, in use or being opened
are never more than the pool's size. -/
theorem connections_accounted (max idleTimeout : Nat) (acquireTimeout : Option Nat)
    (actions : List Action) (s : Pool)
    (h : Run.run step (init max acquireTimeout idleTimeout) actions = some s) :
    (∀ conn, s.held conn = if conn < s.made ∧ conn ∉ s.gone then 1 else 0) ∧ s.gone.Nodup ∧
      s.used ≤ max := by
  have haccounted := run_accounted h
  have hslots := run_slots h
  have hcapacity := hslots.used.trans hslots.capacity
  rw [run_max h] at hcapacity
  exact ⟨haccounted.held, haccounted.nodup, hcapacity⟩

/-- In every order of steps: while tasks wait, the pool is open and for every free connection and
every slot that is not reserved a task was woken; so where none was woken, no connection is free
and every slot is in use. -/
theorem no_wakeup_lost (max idleTimeout : Nat) (acquireTimeout : Option Nat)
    (actions : List Action) (s : Pool)
    (h : Run.run step (init max acquireTimeout idleTimeout) actions = some s)
    (hwait : s.waiters ≠ []) :
    s.closed = false ∧ s.available ≤ weight Pc.wants s.tasks ∧
      (weight Pc.wants s.tasks = 0 → s.free = [] ∧ weight Pc.slots s.tasks = max) := by
  have hqueue := run_queue h
  have hslots := run_slots h
  have hopen : s.closed = false := by
    rw [Bool.eq_false_iff]
    intro hclosed
    exact hwait (hqueue.shut hclosed).2
  have hawake := hqueue.awake hwait
  refine ⟨hopen, hawake, ?_⟩
  intro hzero
  have hcounted := hslots.counted hopen
  have hcapacity := hslots.capacity
  rw [run_max h] at hcapacity
  rw [hzero, Pool.available, run_max h] at hawake
  have hfree : s.free.length = 0 := by omega
  refine ⟨List.length_eq_zero_iff.mp hfree, ?_⟩
  rw [Pool.used, hfree] at hcounted
  omega

/-- One connection: the second task waits for it, gets it, and the timer closes it after that. -/
def handOver : List Action :=
  [.spawn, .spawn, .spawn, .acquire 0, .turn 0, .openConn 0 true, .acquire 1, .turn 1, .release 0,
    .turn 1, .release 1, .tick 10, .reap 2, .drop 2]

theorem connections_accounted_handOver : ∃ s,
    Run.run step (init 1 none 10) handOver = some s ∧ s.gone = [0] ∧
      (∀ conn, s.held conn = if conn < s.made ∧ conn ∉ s.gone then 1 else 0) ∧ s.gone.Nodup ∧
      s.used ≤ 1 :=
  ⟨_, rfl, rfl, connections_accounted 1 10 none handOver _ rfl⟩

theorem no_wakeup_lost_handOver : ∃ s,
    Run.run step (init 1 none 10) (handOver.take 8) = some s ∧ s.waiters = [1] ∧
      s.closed = false ∧ s.available ≤ weight Pc.wants s.tasks ∧
      (weight Pc.wants s.tasks = 0 → s.free = [] ∧ weight Pc.slots s.tasks = 1) :=
  ⟨_, rfl, rfl, no_wakeup_lost 1 10 none (handOver.take 8) _ rfl (List.cons_ne_nil 1 [])⟩

end LiteDb.PythonPool
