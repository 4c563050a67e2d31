import Mathlib.Data.List.Sigma
import Mathlib.Data.List.Sort

/-! A store kept as a log of timestamped batches, read at a timestamp.

A read at `ts` replays, in timestamp order, the batches whose timestamp is at most
`ts`; batches with one timestamp replay in commit order. When the timestamps strictly
increase along the log, replay order and commit order coincide, and a read at or after
the last timestamp sees every batch exactly once. -/

namespace Symphony.VersionedLog

structure Commit (Ts Op : Type) where
  ts : Ts
  ops : List Op
  deriving DecidableEq, Repr

section Replay

variable {Op Key Cell : Type}

/-- The cell of `key` after a batch of operations, each acting on one cell. -/
def replay (act : Op → Key → Cell → Cell) (key : Key) (cell : Cell) (ops : List Op) : Cell :=
  ops.foldl (fun current op => act op key current) cell

theorem replay_append (act : Op → Key → Cell → Cell) (key : Key) (cell : Cell)
    (first second : List Op) :
    replay act key cell (first ++ second) = replay act key (replay act key cell first) second :=
  List.foldl_append

theorem replay_cons (act : Op → Key → Cell → Cell) (key : Key) (cell : Cell)
    (op : Op) (ops : List Op) :
    replay act key cell (op :: ops) = replay act key (act op key cell) ops := rfl

theorem replay_untouched (act : Op → Key → Cell → Cell) (key : Key) (cell : Cell) (ops : List Op)
    (idle : ∀ op ∈ ops, ∀ current, act op key current = current) :
    replay act key cell ops = cell := by
  induction ops generalizing cell with
  | nil => rfl
  | cons op ops ih =>
      rw [replay_cons, idle op List.mem_cons_self]
      exact ih cell (by intro other member; exact idle other (List.mem_cons_of_mem op member))

theorem replay_induction {holds : Cell → Prop} {act : Op → Key → Cell → Cell} {key : Key}
    {cell : Cell} (start : holds cell) (keeps : ∀ op current, holds current → holds (act op key current))
    (ops : List Op) : holds (replay act key cell ops) := by
  induction ops generalizing cell with
  | nil => exact start
  | cons op ops ih => exact ih (keeps op cell start)

/-- A batch that can only leave a cell alone or settle it, and does settle it once. -/
theorem replay_settled (act : Op → Key → Cell → Cell) (key : Key) (cell value : Cell)
    (ops : List Op) (settling : ∀ op ∈ ops, ∀ current, act op key current = current ∨
      act op key current = value)
    (settled : ∃ op ∈ ops, ∀ current, act op key current = value) :
    replay act key cell ops = value := by
  have stays (rest : List Op) (inside : ∀ op ∈ rest, op ∈ ops) :
      replay act key value rest = value := by
    induction rest with
    | nil => rfl
    | cons op rest ih =>
        have same : act op key value = value := by
          rcases settling op (inside op List.mem_cons_self) value with left | right
          · exact left
          · exact right
        rw [replay_cons, same]
        exact ih (by intro other member; exact inside other (List.mem_cons_of_mem op member))
  obtain ⟨op, member, final⟩ := settled
  obtain ⟨front, back, rfl⟩ := List.append_of_mem member
  rw [replay_append, replay_cons, final]
  apply stays
  intro other inside
  exact List.mem_append_right front (List.mem_cons_of_mem op inside)

theorem replay_keyed {Action : Type} [DecidableEq Key] (act : Op → Key → Cell → Cell) (key : Key)
    (cell : Cell) (entries : List (Sigma (fun _ : Key => Action))) (ops : Key → Action → List Op)
    (effect : Action → Cell → Cell)
    (reach : ∀ target action current, replay act key current (ops target action) =
      if target = key then effect action current else current)
    (distinct : entries.NodupKeys) :
    replay act key cell (entries.flatMap (fun entry => ops entry.1 entry.2)) =
      (entries.dlookup key).elim cell (fun action => effect action cell) := by
  induction entries generalizing cell with
  | nil => rfl
  | cons entry rest ih =>
      obtain ⟨target, action⟩ := entry
      have tail := List.nodupKeys_cons.mp distinct
      rw [List.flatMap_cons, replay_append, reach]
      by_cases same : target = key
      · subst same
        have absent : rest.dlookup target = none := List.dlookup_eq_none.mpr tail.1
        rw [if_pos rfl, ih _ tail.2, absent, List.dlookup_cons_eq]
        rfl
      · rw [if_neg same, ih _ tail.2, List.dlookup_cons_ne _ _ (fun equal => same equal.symm)]

end Replay

variable {Ts Op Key Cell : Type} [LinearOrder Ts]

def visible (log : List (Commit Ts Op)) (ts : Ts) : List (Commit Ts Op) :=
  (log.filter (fun commit => decide (commit.ts ≤ ts))).insertionSort
    (fun first second => first.ts ≤ second.ts)

def readAt (act : Op → Key → Cell → Cell) (empty : Cell) (log : List (Commit Ts Op))
    (ts : Ts) (key : Key) : Cell :=
  replay act key empty ((visible log ts).flatMap Commit.ops)

/-- Every commit carries a strictly greater timestamp than all earlier ones. -/
def Increasing (log : List (Commit Ts Op)) : Prop :=
  log.Pairwise (fun earlier later => earlier.ts < later.ts)

instance (log : List (Commit Ts Op)) : Decidable (Increasing log) :=
  inferInstanceAs (Decidable (log.Pairwise _))

theorem increasing_left {log more : List (Commit Ts Op)} (increasing : Increasing (log ++ more)) :
    Increasing log :=
  (List.pairwise_append.mp increasing).1

theorem increasing_prefix {log later : List (Commit Ts Op)} (earlier : log <+: later)
    (increasing : Increasing later) : Increasing log :=
  List.Pairwise.sublist earlier.sublist increasing

theorem increasing_lt {log more : List (Commit Ts Op)} (increasing : Increasing (log ++ more))
    {earlier later : Commit Ts Op} (before : earlier ∈ log) (after : later ∈ more) :
    earlier.ts < later.ts :=
  (List.pairwise_append.mp increasing).2.2 earlier before later after

theorem visible_eq_filter (log : List (Commit Ts Op)) (ts : Ts) (increasing : Increasing log) :
    visible log ts = log.filter (fun commit => decide (commit.ts ≤ ts)) := by
  apply List.Pairwise.insertionSort_eq
  exact (increasing.imp (fun less => le_of_lt less)).filter _

theorem readAt_covering (act : Op → Key → Cell → Cell) (empty : Cell)
    (log : List (Commit Ts Op)) (first second : Ts) (key : Key)
    (coversFirst : ∀ commit ∈ log, commit.ts ≤ first)
    (coversSecond : ∀ commit ∈ log, commit.ts ≤ second) :
    readAt act empty log first key = readAt act empty log second key := by
  have whole (ts : Ts) (covers : ∀ commit ∈ log, commit.ts ≤ ts) :
      log.filter (fun commit => decide (commit.ts ≤ ts)) = log := by
    rw [List.filter_eq_self]
    intro commit member
    exact decide_eq_true (covers commit member)
  simp only [readAt, visible, whole first coversFirst, whole second coversSecond]

theorem readAt_append_later (act : Op → Key → Cell → Cell) (empty : Cell)
    (log more : List (Commit Ts Op)) (ts : Ts) (key : Key)
    (later : ∀ commit ∈ more, ts < commit.ts) :
    readAt act empty (log ++ more) ts key = readAt act empty log ts key := by
  have hidden : more.filter (fun commit => decide (commit.ts ≤ ts)) = [] := by
    rw [List.filter_eq_nil_iff]
    intro commit member seen
    exact absurd (of_decide_eq_true seen) (not_le_of_gt (later commit member))
  simp only [readAt, visible, List.filter_append, hidden, List.append_nil]

theorem readAt_append_seen (act : Op → Key → Cell → Cell) (empty : Cell)
    (log : List (Commit Ts Op)) (commit : Commit Ts Op) (ts : Ts) (key : Key)
    (increasing : Increasing (log ++ [commit])) (seen : commit.ts ≤ ts) :
    readAt act empty (log ++ [commit]) ts key =
      replay act key (readAt act empty log ts key) commit.ops := by
  have last : [commit].filter (fun c => decide (c.ts ≤ ts)) = [commit] := by
    simp [seen]
  rw [readAt, visible_eq_filter _ _ increasing, readAt,
    visible_eq_filter _ _ (increasing_left increasing), List.filter_append, last,
    List.flatMap_append, replay_append]
  simp only [List.flatMap_cons, List.flatMap_nil, List.append_nil]

/-- Reading at the timestamp of a commit gives the state right after it, whatever was
committed since. -/
theorem readAt_commit (act : Op → Key → Cell → Cell) (empty : Cell)
    (log more : List (Commit Ts Op)) (commit : Commit Ts Op) (top : Ts) (key : Key)
    (increasing : Increasing (log ++ commit :: more))
    (covers : ∀ c ∈ log ++ [commit], c.ts ≤ top) :
    readAt act empty (log ++ commit :: more) commit.ts key =
      readAt act empty (log ++ [commit]) top key := by
  have split : log ++ commit :: more = (log ++ [commit]) ++ more := by simp
  have later : ∀ c ∈ more, commit.ts < c.ts := by
    intro c member
    rw [split] at increasing
    exact increasing_lt increasing (List.mem_append_right log (List.mem_singleton_self commit)) member
  rw [split, readAt_append_later act empty _ more commit.ts key later]
  apply readAt_covering _ _ _ _ _ _ _ covers
  intro c member
  rcases List.mem_append.mp member with old | new
  · exact le_of_lt (increasing_lt increasing old List.mem_cons_self)
  · rw [List.mem_singleton.mp new]

end Symphony.VersionedLog
