import Mathlib.Data.List.Count
import Symphony.Sync.StageSpec

/-! The order of commit timestamps, within a process and across restarts. -/

namespace Symphony

open Encdec
open VersionedLog (Commit readAt replay Increasing)

/-- A commit made at the clock reading `now`, at either of the two commit sites. -/
inductive CommitStep (before : StorageHandler) (now : U64) : StorageHandler → Prop where
  | applied (accepted : Bool) (task : FinalizedTask) (point : Point) (maxRollback : U64)
      (mempoolTimestamp : Option U64) (after : StorageHandler)
      (success : before.applyIndexingTask now accepted task point maxRollback mempoolTimestamp =
        .ok after) : CommitStep before now after
  | undone (accepted : Bool) (stage after : Stage) (point : Point) (handler : stage.db = before)
      (success : stage.rollbackToPoint now accepted point = .ok after) :
      CommitStep before now after.db

inductive Lifetime (db : DB) : List U64 → StorageHandler → Prop where
  | opened : Lifetime db [] (StorageHandler.openDb db)
  | commit {readings : List U64} {handler after : StorageHandler} {now : U64}
      (before : Lifetime db readings handler) (step : CommitStep handler now after) :
      Lifetime db (readings ++ [now]) after

inductive Lifetimes : List (List U64) → DB → Prop where
  | created : Lifetimes [] DB.empty
  | restarted {earlier : List (List U64)} {db : DB} {readings : List U64}
      {handler : StorageHandler} (before : Lifetimes earlier db)
      (process : Lifetime db readings handler) : Lifetimes (earlier ++ [readings]) handler.db

namespace Timestamp

theorem toNat_asU64 (ts : Timestamp) :
    ts.asU64.toNat = (ts.physical.toNat * 2 ^ 18 + ts.logical.toNat) % 2 ^ 64 := by
  rw [asU64, BitVec.toNat_add, BitVec.toNat_shiftLeft, Nat.shiftLeft_eq, logicalBits]
  omega

theorem val_asRocksTs (ts : Timestamp) :
    ts.asRocksTs.val = (ts.physical.toNat * 2 ^ 18 + ts.logical.toNat) % 2 ^ 64 :=
  toNat_asU64 ts

end Timestamp

/-- The batch ends with the timestamp entry of its own commit, if with any. -/
def StoresOwn (ts : Timestamp) (batch : List WriteOp) : Prop :=
  ∀ kind, ∀ entry : TimestampEntry,
    batch.getLast? = some (.put (TimestampsKV.encodeKey kind) (encode entry)) →
      entry.rocksTimestamp = ts.asU64

theorem storesOwn_batch (task : FinalizedTask) (point : Point) (maxRollback : U64)
    (ts : Timestamp) (mempoolTimestamp : Option U64) :
    StoresOwn ts (task.batch point maxRollback ts mempoolTimestamp) := by
  intro kind entry last
  rw [FinalizedTask.batch, List.getLast?_append, FinalizedTask.timestampOp] at last
  simp only [List.getLast?_singleton, Option.some_or, Option.some.injEq, WriteOp.put.injEq] at last
  rw [← encode_injective trivial trivial last.2]

theorem storesOwn_undo (ts : Timestamp) (blocks : List PointWithOriginalKVs) :
    StoresOwn ts (blocks.flatMap PointWithOriginalKVs.undoOps) := by
  intro kind entry last
  rw [List.getLast?_flatMap] at last
  obtain ⟨block, _, ending⟩ := List.exists_of_findSome?_eq_some last
  rw [PointWithOriginalKVs.undoOps, List.getLast?_flatMap] at ending
  obtain ⟨original, _, removal⟩ := List.exists_of_findSome?_eq_some ending
  simp at removal

theorem CommitStep.committed {before after : StorageHandler} {now : U64}
    (step : CommitStep before now after) :
    ∃ batch, StorageHandler.Committed before after
        (Timestamp.next before.previousTimestamp now) batch ∧
      StoresOwn (Timestamp.next before.previousTimestamp now) batch := by
  cases step with
  | applied _ _ _ _ _ _ success =>
      exact ⟨_, StorageHandler.applyIndexingTask_committed success, storesOwn_batch _ _ _ _ _⟩
  | undone _ stage after _ handler success =>
      obtain ⟨index, db, _, wrote, rfl⟩ := Stage.rollbackToPoint_ok success
      rw [← handler]
      exact ⟨_, StorageHandler.commit_committed wrote, storesOwn_undo _ _⟩

/-- The packed value of a commit with `position` commits before it in its second. -/
def packed (seconds position : Nat) : Nat := (seconds * 2 ^ 18 + position) % 2 ^ 64

/-- The last timestamp of a process whose clock has not gone back. -/
def Stamped (readings : List U64) (previous : Option Timestamp) : Prop :=
  (readings = [] ∧ previous = none) ∨
    ∃ last ∈ readings, (∀ earlier ∈ readings, earlier ≤ last) ∧
      previous = some ⟨last, BitVec.ofNat 64 (readings.count last - 1)⟩

theorem after_eq (last now : U64) (count : Nat) (positive : 0 < count) :
    Timestamp.after ⟨last, BitVec.ofNat 64 (count - 1)⟩ now =
      ⟨now, BitVec.ofNat 64 (if now ≤ last then count else 0)⟩ := by
  have counted : BitVec.ofNat 64 (count - 1) + 1 = BitVec.ofNat 64 count := by
    rw [show (1 : U64) = BitVec.ofNat 64 1 from rfl, ← BitVec.ofNat_add,
      Nat.sub_add_cancel positive]
  rw [Timestamp.after]
  split
  · rw [counted]
  · rfl

theorem Stamped.next_eq {readings : List U64} {previous : Option Timestamp} {now : U64}
    (stamped : Stamped readings previous) (forward : ∀ earlier ∈ readings, earlier ≤ now) :
    Timestamp.next previous now = ⟨now, BitVec.ofNat 64 (readings.count now)⟩ := by
  rcases stamped with ⟨rfl, rfl⟩ | ⟨last, member, newest, rfl⟩
  · rfl
  · rw [Timestamp.next, after_eq last now _ (List.count_pos_iff.mpr member)]
    by_cases same : now = last
    · subst same
      rw [if_pos (BitVec.le_refl now)]
    · have later : ¬ now ≤ last := by
        intro below
        exact same (BitVec.le_antisymm below (forward last member))
      have absent : readings.count now = 0 := by
        rw [List.count_eq_zero]
        intro present
        exact later (newest now present)
      rw [if_neg later, absent]

theorem Stamped.snoc {readings : List U64} {previous : Option Timestamp} {now : U64}
    (stamped : Stamped readings previous) (forward : ∀ earlier ∈ readings, earlier ≤ now) :
    Stamped (readings ++ [now]) (some (Timestamp.next previous now)) := by
  refine Or.inr ⟨now, by simp, ?_, ?_⟩
  · intro earlier member
    rcases List.mem_append.mp member with old | new
    · exact forward earlier old
    · rw [List.mem_singleton.mp new]
      exact BitVec.le_refl now
  · rw [stamped.next_eq forward, List.count_append, List.count_singleton_self,
      Nat.add_sub_cancel]

theorem val_asRocksTs_ofNat (seconds : U64) (position : Nat) :
    (⟨seconds, BitVec.ofNat 64 position⟩ : Timestamp).asRocksTs.val =
      packed seconds.toNat position := by
  rw [Timestamp.val_asRocksTs, packed, BitVec.toNat_ofNat]
  exact Nat.add_mod_mod _ _ _

theorem Stamped.val_next {readings : List U64} {previous : Option Timestamp} {now : U64}
    (stamped : Stamped readings previous) (forward : ∀ earlier ∈ readings, earlier ≤ now) :
    (Timestamp.next previous now).asRocksTs.val = packed now.toNat (readings.count now) := by
  rw [stamped.next_eq forward, val_asRocksTs_ofNat]

def Carries (readings : List U64) (value : Nat) : Prop :=
  ∃ second ∈ readings, ∃ position < readings.count second, value = packed second.toNat position

theorem carries_snoc (readings : List U64) (now : U64) (value : Nat) :
    Carries (readings ++ [now]) value ↔
      Carries readings value ∨ value = packed now.toNat (readings.count now) := by
  have counts (second : U64) : (readings ++ [now]).count second =
      readings.count second + if now = second then 1 else 0 := by
    rw [List.count_append, List.count_singleton]
    simp
  constructor
  · rintro ⟨second, member, position, bound, rfl⟩
    rw [counts] at bound
    by_cases old : position < readings.count second
    · exact Or.inl ⟨second, List.count_pos_iff.mp (by omega), position, old, rfl⟩
    · split at bound
      · rename_i same
        subst same
        obtain rfl : position = readings.count now := by omega
        exact Or.inr rfl
      · omega
  · rintro (⟨second, member, position, bound, rfl⟩ | rfl)
    · refine ⟨second, List.mem_append_left _ member, position, ?_, rfl⟩
      rw [counts]
      omega
    · refine ⟨now, by simp, readings.count now, ?_, rfl⟩
      rw [counts, if_pos rfl]
      omega

namespace Lifetime

variable {db : DB} {readings : List U64} {handler : StorageHandler}

theorem stamped (process : Lifetime db readings handler) (forward : readings.Pairwise (· ≤ ·)) :
    Stamped readings handler.previousTimestamp := by
  induction process with
  | opened => exact Or.inl ⟨rfl, rfl⟩
  | commit before step ih =>
      obtain ⟨older, _, latest⟩ := List.pairwise_append.mp forward
      obtain ⟨batch, committed, _⟩ := step.committed
      rw [committed.previous]
      exact (ih older).snoc (by intro earlier member; exact latest earlier member _ (by simp))

theorem commits (process : Lifetime db readings handler) (forward : readings.Pairwise (· ≤ ·)) :
    ∃ commits, handler.db.log = db.log ++ commits ∧
      ∀ value, (∃ commit ∈ commits, commit.ts.val = value) ↔ Carries readings value := by
  induction process with
  | opened => exact ⟨[], by simp [StorageHandler.openDb], by simp [Carries]⟩
  | @commit readings handler after now before step ih =>
      obtain ⟨older, _, latest⟩ := List.pairwise_append.mp forward
      have ahead : ∀ earlier ∈ readings, earlier ≤ now := by
        intro earlier member
        exact latest earlier member now (by simp)
      obtain ⟨commits, log, values⟩ := ih older
      obtain ⟨batch, committed, _⟩ := step.committed
      refine ⟨_, by rw [committed.log, log, List.append_assoc], ?_⟩
      intro value
      rw [carries_snoc, ← values, ← (before.stamped older).val_next ahead]
      constructor
      · rintro ⟨commit, member, rfl⟩
        rcases List.mem_append.mp member with old | new
        · exact Or.inl ⟨commit, old, rfl⟩
        · rw [List.mem_singleton.mp new]
          exact Or.inr rfl
      · rintro (⟨commit, old, rfl⟩ | rfl)
        · exact ⟨commit, List.mem_append_left _ old, rfl⟩
        · exact ⟨_, List.mem_append_right _ (List.mem_singleton_self _), rfl⟩

end Lifetime

structure Paced (readings : List U64) : Prop where
  forward : readings.Pairwise (· ≤ ·)
  spaced : ∀ second ∈ readings, ∀ later ∈ readings, second < later →
    second.toNat * 2 ^ 18 + readings.count second ≤ later.toNat * 2 ^ 18
  inRange : ∀ second ∈ readings, second.toNat * 2 ^ 18 + readings.count second ≤ 2 ^ 64

theorem paced_snoc (readings : List U64) (last now : U64) (paced : Paced readings)
    (member : last ∈ readings) (newest : ∀ earlier ∈ readings, earlier ≤ last)
    (bound : now.toNat < 2 ^ 46) :
    Paced (readings ++ [now]) ↔
      (last = now ∧ last.toNat * 2 ^ 18 + readings.count last < 2 ^ 64) ∨
      (last < now ∧ last.toNat * 2 ^ 18 + readings.count last ≤ now.toNat * 2 ^ 18) := by
  have counts (second : U64) : (readings ++ [now]).count second =
      readings.count second + if now = second then 1 else 0 := by
    rw [List.count_append, List.count_singleton]
    simp
  constructor
  · intro extended
    have ahead : last ≤ now :=
      (List.pairwise_append.mp extended.forward).2.2 last member now (by simp)
    by_cases same : last = now
    · subst same
      have room := extended.inRange last (by simp)
      rw [counts, if_pos rfl, ← Nat.add_assoc] at room
      exact Or.inl ⟨rfl, Nat.lt_of_succ_le room⟩
    · have less : last < now := BitVec.lt_of_le_ne ahead same
      have room := extended.spaced last (by simp [member]) now (by simp) less
      rw [counts, if_neg (Ne.symm same)] at room
      exact Or.inr ⟨less, room⟩
  · intro fits
    have ahead : last ≤ now := by
      rcases fits with ⟨rfl, _⟩ | ⟨less, _⟩
      · exact BitVec.le_refl _
      · exact BitVec.le_of_lt less
    have older : ∀ earlier ∈ readings, earlier ≤ now := by
      intro earlier present
      exact BitVec.le_trans (newest earlier present) ahead
    refine ⟨?_, ?_, ?_⟩
    · rw [List.pairwise_append]
      refine ⟨paced.forward, List.pairwise_singleton _ _, ?_⟩
      intro earlier present later new
      rw [List.mem_singleton.mp new]
      exact older earlier present
    · intro second present later following less
      have different : second ≠ now := by
        rintro rfl
        rcases List.mem_append.mp following with old | new
        · exact absurd less (BitVec.not_lt.mpr (older later old))
        · rw [List.mem_singleton.mp new] at less
          exact BitVec.lt_irrefl _ less
      have inside : second ∈ readings := by
        rcases List.mem_append.mp present with old | new
        · exact old
        · exact absurd (List.mem_singleton.mp new) different
      rw [counts, if_neg (Ne.symm different), Nat.add_zero]
      rcases List.mem_append.mp following with old | new
      · exact paced.spaced second inside later old less
      · rw [List.mem_singleton.mp new] at less ⊢
        by_cases top : second = last
        · subst top
          rcases fits with ⟨same, _⟩ | ⟨_, room⟩
          · exact absurd same different
          · exact room
        · have below : second < last := BitVec.lt_of_le_ne (newest second inside) top
          calc second.toNat * 2 ^ 18 + readings.count second
              ≤ last.toNat * 2 ^ 18 := paced.spaced second inside last member below
            _ ≤ now.toNat * 2 ^ 18 := Nat.mul_le_mul_right _ (BitVec.le_def.mp ahead)
    · intro second present
      rw [counts]
      by_cases new : now = second
      · subst new
        rw [if_pos rfl, ← Nat.add_assoc]
        apply Nat.succ_le_of_lt
        rcases fits with ⟨rfl, room⟩ | ⟨less, _⟩
        · exact room
        · have absent : readings.count now = 0 := by
            rw [List.count_eq_zero]
            intro inside
            exact absurd less (BitVec.not_lt.mpr (newest now inside))
          omega
      · rw [if_neg new, Nat.add_zero]
        apply paced.inRange
        rcases List.mem_append.mp present with old | added
        · exact old
        · exact absurd (List.mem_singleton.mp added).symm new

/-- The property of a process's commits: their timestamps strictly increase, reads replay
them in the order they were made, and the timestamp an indexing commit stores for itself is
read back as the one it was made at. -/
structure Ordered (commits : List (Commit RocksTs WriteOp)) : Prop where
  increasing : Increasing commits
  unshadowed : ∀ ts key, readAt WriteOp.act (.ok none) commits ts key =
    replay WriteOp.act key (.ok none)
      ((commits.filter (fun commit => decide (commit.ts ≤ ts))).flatMap Commit.ops)
  stored : ∀ commit ∈ commits, ∀ kind, ∀ entry : TimestampEntry,
    commit.ops.getLast? = some (.put (TimestampsKV.encodeKey kind) (encode entry)) →
      (Timestamp.fromU64 entry.rocksTimestamp).asRocksTs = commit.ts

theorem packed_lt_packed (last now count : Nat) (positive : 0 < count)
    (room : last * 2 ^ 18 + count ≤ 2 ^ 64) (bound : now < 2 ^ 46) :
    packed last (count - 1) < packed now (if now ≤ last then count else 0) ↔
      (last = now ∧ last * 2 ^ 18 + count < 2 ^ 64) ∨
      (last < now ∧ last * 2 ^ 18 + count ≤ now * 2 ^ 18) := by
  have previous : packed last (count - 1) = last * 2 ^ 18 + (count - 1) :=
    Nat.mod_eq_of_lt (by omega)
  rw [previous]
  rcases Nat.lt_trichotomy now last with back | same | ahead
  · have value : packed now count = now * 2 ^ 18 + count := Nat.mod_eq_of_lt (by omega)
    rw [if_pos (by omega), value]
    omega
  · subst same
    rw [if_pos le_rfl, packed]
    omega
  · have value : packed now 0 = now * 2 ^ 18 := by
      have small : now * 2 ^ 18 < 2 ^ 64 := by omega
      rw [packed, Nat.add_zero, Nat.mod_eq_of_lt small]
    rw [if_neg (by omega), value]
    omega

structure Recorded (db : DB) (handler : StorageHandler) (commits : List (Commit RocksTs WriteOp)) :
    Prop where
  log : handler.db.log = db.log ++ commits
  fresh : handler.previousTimestamp = none → commits = []
  remembered : ∀ previous, handler.previousTimestamp = some previous →
    ∃ commit ∈ commits, commit.ts = previous.asRocksTs
  newest : Increasing commits → ∀ previous, handler.previousTimestamp = some previous →
    ∀ commit ∈ commits, commit.ts ≤ previous.asRocksTs
  stored : ∀ commit ∈ commits, ∀ kind, ∀ entry : TimestampEntry,
    commit.ops.getLast? = some (.put (TimestampsKV.encodeKey kind) (encode entry)) →
      (Timestamp.fromU64 entry.rocksTimestamp).asRocksTs = commit.ts

theorem recorded_openDb (db : DB) : Recorded db (StorageHandler.openDb db) [] where
  log := by simp [StorageHandler.openDb]
  fresh := by intro _; rfl
  remembered := by intro previous found; cases found
  newest := by intro _ previous found; cases found
  stored := by intro commit member; cases member

theorem Recorded.step {db : DB} {handler after : StorageHandler} {now : U64}
    {commits : List (Commit RocksTs WriteOp)} (recorded : Recorded db handler commits)
    (step : CommitStep handler now after) :
    ∃ commit, commit.ts = (Timestamp.next handler.previousTimestamp now).asRocksTs ∧
      Recorded db after (commits ++ [commit]) := by
  obtain ⟨batch, committed, own⟩ := step.committed
  refine ⟨⟨(Timestamp.next handler.previousTimestamp now).asRocksTs, batch⟩, rfl,
    ?_, ?_, ?_, ?_, ?_⟩
  · rw [committed.log, recorded.log, List.append_assoc]
  · intro absent
    rw [committed.previous] at absent
    cases absent
  · intro previous found
    obtain rfl := Option.some.inj (committed.previous.symm.trans found)
    exact ⟨_, List.mem_append_right _ (List.mem_singleton_self _), rfl⟩
  · intro increasing previous found commit member
    obtain rfl := Option.some.inj (committed.previous.symm.trans found)
    rcases List.mem_append.mp member with old | new
    · exact le_of_lt (VersionedLog.increasing_lt increasing old (List.mem_singleton_self _))
    · rw [List.mem_singleton.mp new]
  · intro commit member kind entry last
    rcases List.mem_append.mp member with old | new
    · exact recorded.stored commit old kind entry last
    · rw [List.mem_singleton.mp new] at last ⊢
      rw [own kind entry last, Timestamp.asRocksTs, Timestamp.asU64_fromU64]
      rfl

theorem Recorded.increasing_snoc {db : DB} {handler : StorageHandler}
    {commits : List (Commit RocksTs WriteOp)} {commit : Commit RocksTs WriteOp}
    (recorded : Recorded db handler commits) :
    Increasing (commits ++ [commit]) ↔ Increasing commits ∧
      ∀ previous, handler.previousTimestamp = some previous → previous.asRocksTs < commit.ts := by
  constructor
  · intro increasing
    refine ⟨VersionedLog.increasing_left increasing, ?_⟩
    intro previous found
    obtain ⟨earlier, member, same⟩ := recorded.remembered previous found
    rw [← same]
    exact VersionedLog.increasing_lt increasing member (List.mem_singleton_self _)
  · rintro ⟨increasing, later⟩
    refine List.pairwise_append.mpr ⟨increasing, List.pairwise_singleton _ _, ?_⟩
    intro earlier member new added
    rw [List.mem_singleton.mp added]
    cases previous : handler.previousTimestamp with
    | none =>
        rw [recorded.fresh previous] at member
        cases member
    | some last =>
        exact lt_of_le_of_lt (recorded.newest increasing last previous earlier member)
          (later last previous)

theorem Paced.left {readings : List U64} {now : U64} (paced : Paced (readings ++ [now])) :
    Paced readings := by
  have counts (second : U64) : readings.count second ≤ (readings ++ [now]).count second := by
    rw [List.count_append]
    omega
  refine ⟨(List.pairwise_append.mp paced.forward).1, ?_, ?_⟩
  · intro second member later following less
    exact (Nat.add_le_add_left (counts second) _).trans
      (paced.spaced second (List.mem_append_left _ member) later (List.mem_append_left _ following)
        less)
  · intro second member
    exact (Nat.add_le_add_left (counts second) _).trans
      (paced.inRange second (List.mem_append_left _ member))

theorem paced_singleton (now : U64) (bound : now.toNat < 2 ^ 46) : Paced [now] := by
  refine ⟨List.pairwise_singleton _ _, ?_, ?_⟩
  · intro second member later following less
    rw [List.mem_singleton.mp member, List.mem_singleton.mp following] at less
    exact absurd less (BitVec.lt_irrefl now)
  · intro second member
    rw [List.mem_singleton.mp member, List.count_singleton_self]
    apply Nat.succ_le_of_lt
    omega

theorem Paced.next_iff {readings : List U64} {previous : Option Timestamp} {now : U64}
    (paced : Paced readings) (stamped : Stamped readings previous) (bound : now.toNat < 2 ^ 46) :
    (∀ last, previous = some last →
      last.asRocksTs < (Timestamp.next previous now).asRocksTs) ↔ Paced (readings ++ [now]) := by
  rcases stamped with ⟨rfl, rfl⟩ | ⟨last, member, newest, rfl⟩
  · constructor
    · intro _
      exact paced_singleton now bound
    · intro _ last found
      cases found
  · have positive : 0 < readings.count last := List.count_pos_iff.mpr member
    have order := packed_lt_packed last.toNat now.toNat (readings.count last) positive
      (paced.inRange last member) bound
    rw [paced_snoc readings last now paced member newest bound, ← BitVec.toNat_inj,
      BitVec.lt_def, ← order, ← val_asRocksTs_ofNat, ← val_asRocksTs_ofNat, Timestamp.next,
      after_eq last now _ positive]
    constructor
    · intro later
      exact later _ rfl
    · intro later previous found
      rw [← Option.some.inj found]
      exact later

theorem Lifetime.increasing_iff {db : DB} {readings : List U64} {handler : StorageHandler}
    (process : Lifetime db readings handler)
    (bounded : ∀ reading ∈ readings, reading.toNat < 2 ^ 46) :
    ∃ commits, Recorded db handler commits ∧ (Increasing commits ↔ Paced readings) := by
  induction process with
  | opened =>
      refine ⟨[], recorded_openDb db, ?_⟩
      exact ⟨fun _ => ⟨List.Pairwise.nil, by simp, by simp⟩, fun _ => List.Pairwise.nil⟩
  | @commit readings handler after now before step ih =>
      obtain ⟨commits, recorded, increasing⟩ := ih (by
        intro reading member
        exact bounded reading (List.mem_append_left _ member))
      have bound : now.toNat < 2 ^ 46 := bounded now (by simp)
      obtain ⟨commit, ts, grown⟩ := recorded.step step
      refine ⟨commits ++ [commit], grown, ?_⟩
      rw [recorded.increasing_snoc, ts, increasing]
      constructor
      · rintro ⟨paced, later⟩
        exact (paced.next_iff (before.stamped paced.forward) bound).mp later
      · intro paced
        exact ⟨paced.left,
          (paced.left.next_iff (before.stamped paced.left.forward) bound).mpr paced⟩

/-- The commits of a process are ordered exactly if its clock readings are paced. -/
theorem commits_ordered_iff (db : DB) (readings : List U64) (handler : StorageHandler)
    (process : Lifetime db readings handler)
    (bounded : ∀ reading ∈ readings, reading.toNat < 2 ^ 46) :
    ∃ commits, handler.db.log = db.log ++ commits ∧ (Ordered commits ↔ Paced readings) := by
  obtain ⟨commits, recorded, increasing⟩ := process.increasing_iff bounded
  refine ⟨commits, recorded.log, ?_⟩
  rw [← increasing]
  constructor
  · intro ordered
    exact ordered.increasing
  · intro increases
    refine ⟨increases, ?_, recorded.stored⟩
    intro ts key
    rw [readAt, VersionedLog.visible_eq_filter commits ts increases]

def idleCommit (handler : StorageHandler) (now : U64) : StorageHandler where
  db := (handler.db.write (Timestamp.next handler.previousTimestamp now)
    [FinalizedTask.timestampOp ⟨∅, none, true⟩ ⟨0, List.Vector.replicate 32 0⟩
      (Timestamp.next handler.previousTimestamp now) none])
  previousTimestamp := some (Timestamp.next handler.previousTimestamp now)

theorem idleCommit_step (handler : StorageHandler) (now : U64) :
    CommitStep handler now (idleCommit handler now) :=
  .applied true ⟨∅, none, true⟩ ⟨0, List.Vector.replicate 32 0⟩ 0 none _ rfl

theorem idle_lifetime (db : DB) (first second : U64) :
    Lifetime db [first, second]
      (idleCommit (idleCommit (StorageHandler.openDb db) first) second) :=
  .commit (.commit .opened (idleCommit_step _ first)) (idleCommit_step _ second)

theorem commits_ordered_same_second :
    ∃ commits, (idleCommit (idleCommit (StorageHandler.openDb DB.empty) 5) 5).db.log =
        DB.empty.log ++ commits ∧ (Ordered commits ↔ Paced [5, 5]) :=
  commits_ordered_iff DB.empty [5, 5] _ (idle_lifetime DB.empty 5 5) (by simp)

/-- A clock that steps back by one second makes the second commit the older one. -/
theorem clock_step_back_unordered :
    ∃ handler, Lifetime DB.empty [5, 4] handler ∧
      handler.db.log.map (fun commit => commit.ts.val) = [5 * 2 ^ 18, 4 * 2 ^ 18 + 1] ∧
      ¬ Ordered handler.db.log := by
  refine ⟨_, idle_lifetime DB.empty 5 4, by decide, ?_⟩
  intro ordered
  exact absurd ordered.increasing (by decide)

theorem Lifetimes.carries {earlier : List (List U64)} {db : DB} (history : Lifetimes earlier db)
    (forward : earlier.flatten.Pairwise (· ≤ ·)) (value : Nat) :
    (∃ commit ∈ db.log, commit.ts.val = value) ↔ ∃ readings ∈ earlier, Carries readings value := by
  induction history with
  | created => simp [DB.empty]
  | @restarted earlier db readings handler before process ih =>
      rw [List.flatten_append, List.flatten_singleton, List.pairwise_append] at forward
      obtain ⟨commits, log, values⟩ := process.commits forward.2.1
      have old := ih forward.1
      constructor
      · rintro ⟨commit, member, rfl⟩
        rw [log] at member
        rcases List.mem_append.mp member with before | own
        · obtain ⟨lifetime, inside, carried⟩ := old.mp ⟨commit, before, rfl⟩
          exact ⟨lifetime, List.mem_append_left _ inside, carried⟩
        · exact ⟨readings, by simp, (values _).mp ⟨commit, own, rfl⟩⟩
      · rintro ⟨lifetime, inside, carried⟩
        rw [log]
        rcases List.mem_append.mp inside with before | own
        · obtain ⟨commit, member, same⟩ := old.mpr ⟨lifetime, before, carried⟩
          exact ⟨commit, List.mem_append_left _ member, same⟩
        · rw [List.mem_singleton.mp own] at carried
          obtain ⟨commit, member, same⟩ := (values _).mpr carried
          exact ⟨commit, List.mem_append_right _ member, same⟩

/-- Below `2 ^ 46` seconds, the number of commits in a second decides. -/
theorem packed_below_iff (second first count : Nat) (ahead : second ≤ first)
    (bound : first < 2 ^ 46) :
    (∀ position < count, packed second position < packed first 0) ↔
      second * 2 ^ 18 + count ≤ first * 2 ^ 18 := by
  have small : first * 2 ^ 18 < 2 ^ 64 := by omega
  have start : packed first 0 = first * 2 ^ 18 := by
    rw [packed, Nat.add_zero, Nat.mod_eq_of_lt small]
  rw [start]
  constructor
  · intro below
    by_contra beyond
    have reached := below (first * 2 ^ 18 - second * 2 ^ 18) (by omega)
    rw [packed, Nat.add_sub_of_le (Nat.mul_le_mul_right _ ahead), Nat.mod_eq_of_lt small] at reached
    exact lt_irrefl _ reached
  · intro room position inside
    calc packed second position ≤ second * 2 ^ 18 + position := Nat.mod_le _ _
      _ < second * 2 ^ 18 + count := Nat.add_lt_add_left inside _
      _ ≤ first * 2 ^ 18 := room

/-- The first commit after a restart is later than every earlier one exactly if the clock
has left each second behind by as much as the commits in it need. -/
theorem restart_commit_later_iff (earlier : List (List U64)) (db : DB) (first : U64)
    (after : StorageHandler) (history : Lifetimes earlier db)
    (forward : (earlier.flatten ++ [first]).Pairwise (· ≤ ·))
    (step : CommitStep (StorageHandler.openDb db) first after) :
    ∃ commit, after.db.log = db.log ++ [commit] ∧
      ((∀ old ∈ db.log, old.ts < commit.ts) ↔
        ∀ readings ∈ earlier, ∀ second ∈ readings, ∀ position < readings.count second,
          packed second.toNat position < packed first.toNat 0) ∧
      (first.toNat < 2 ^ 46 → ((∀ old ∈ db.log, old.ts < commit.ts) ↔
        ∀ readings ∈ earlier, ∀ second ∈ readings,
          second.toNat * 2 ^ 18 + readings.count second ≤ first.toNat * 2 ^ 18)) := by
  obtain ⟨batch, committed, _⟩ := step.committed
  have value : (Timestamp.next none first).asRocksTs.val = packed first.toNat 0 :=
    val_asRocksTs_ofNat first 0
  have carried := history.carries (List.pairwise_append.mp forward).1
  have exact : (∀ old ∈ db.log, old.ts < (Timestamp.next none first).asRocksTs) ↔
      ∀ readings ∈ earlier, ∀ second ∈ readings, ∀ position < readings.count second,
        packed second.toNat position < packed first.toNat 0 := by
    constructor
    · intro later readings inside second member position bound
      obtain ⟨commit, old, same⟩ :=
        (carried _).mpr ⟨readings, inside, second, member, position, bound, rfl⟩
      rw [← same, ← value]
      exact later commit old
    · intro below commit old
      obtain ⟨readings, inside, second, member, position, bound, same⟩ :=
        (carried _).mp ⟨commit, old, rfl⟩
      rw [Fin.lt_def, same]
      exact (below readings inside second member position bound).trans_eq value.symm
  refine ⟨_, committed.log, exact, ?_⟩
  intro bound
  apply exact.trans
  have perSecond : ∀ readings ∈ earlier, ∀ second ∈ readings,
      ((∀ position < readings.count second, packed second.toNat position < packed first.toNat 0) ↔
        second.toNat * 2 ^ 18 + readings.count second ≤ first.toNat * 2 ^ 18) := by
    intro readings inside second member
    apply packed_below_iff _ _ _ _ bound
    exact (List.pairwise_append.mp forward).2.2 second
      (List.mem_flatten.mpr ⟨readings, inside, member⟩) first (by simp)
  constructor
  · intro below readings inside second member
    exact (perSecond readings inside second member).mp (below readings inside second member)
  · intro room readings inside second member
    exact (perSecond readings inside second member).mpr (room readings inside second member)

theorem one_lifetime (first : U64) :
    Lifetimes [[first]] (idleCommit (StorageHandler.openDb DB.empty) first).db :=
  .restarted .created (.commit .opened (idleCommit_step _ first))

theorem restart_one_second_later :
    ∃ commit, (idleCommit (StorageHandler.openDb
        (idleCommit (StorageHandler.openDb DB.empty) 5).db) 6).db.log =
        (idleCommit (StorageHandler.openDb DB.empty) 5).db.log ++ [commit] ∧
      ((∀ old ∈ (idleCommit (StorageHandler.openDb DB.empty) 5).db.log, old.ts < commit.ts) ↔
        ∀ readings ∈ [[(5 : U64)]], ∀ second ∈ readings, ∀ position < readings.count second,
          packed second.toNat position < packed (6 : U64).toNat 0) ∧
      ((6 : U64).toNat < 2 ^ 46 →
        ((∀ old ∈ (idleCommit (StorageHandler.openDb DB.empty) 5).db.log, old.ts < commit.ts) ↔
          ∀ readings ∈ [[(5 : U64)]], ∀ second ∈ readings,
            second.toNat * 2 ^ 18 + readings.count second ≤ (6 : U64).toNat * 2 ^ 18)) :=
  restart_commit_later_iff [[5]] _ 6 _ (one_lifetime 5) (by decide) (idleCommit_step _ 6)

/-- A restart within one second commits at the timestamp of the commit before it. -/
theorem restart_same_second_not_later :
    ∃ db after old commit, Lifetimes [[5]] db ∧ CommitStep (StorageHandler.openDb db) 5 after ∧
      db.log = [old] ∧ after.db.log = db.log ++ [commit] ∧ old.ts.val = 5 * 2 ^ 18 ∧
      ¬ old.ts < commit.ts :=
  ⟨_, _, _, _, one_lifetime 5, idleCommit_step _ 5, rfl, rfl, by decide, by decide⟩

end Symphony
