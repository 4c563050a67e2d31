import Symphony.Storage.KvStore

/-! The in-memory rollback buffer (`sync/stages/index/rollback/buffer.rs`), newest block
first. -/

namespace Symphony

open Encdec

def defaultMaxRollback : Nat := 16

structure PointWithOriginalKVs where
  point : Point
  originalKvs : HashMap RawKey PreviousValue

structure RollbackBuffer where
  points : List PointWithOriginalKVs
  size : Nat
  safeMode : Bool

namespace RollbackBuffer

/-- One slot more for the rollback point and one for the mempool pseudo point. -/
def new (size : Nat) (safeMode : Bool) : RollbackBuffer := ⟨[], size + 2, safeMode⟩

def position (buffer : RollbackBuffer) (point : Point) : Option Nat :=
  buffer.points.findIdx? (fun entry => entry.point = point)

def isEmpty (buffer : RollbackBuffer) : Bool := buffer.points.isEmpty

def latest (buffer : RollbackBuffer) : Option PointWithOriginalKVs := buffer.points.head?

def addBlock (buffer : RollbackBuffer) (point : Point)
    (originalKvs : HashMap RawKey PreviousValue) : RollbackBuffer :=
  { buffer with points := (⟨point, originalKvs⟩ :: buffer.points).take buffer.size }

def rollbackToPoint (buffer : RollbackBuffer) (point : Point) :
    Except Error (List PointWithOriginalKVs × RollbackBuffer) :=
  match buffer.position point with
  | some index =>
      .ok (buffer.points.take index, { buffer with points := buffer.points.drop index })
  | none => .error (.rollback point)

def pointsSince (buffer : RollbackBuffer) (point : Point) :
    Except Error (List PointWithOriginalKVs) :=
  match buffer.position point with
  | some index => .ok (buffer.points.take index)
  | none => .error (.rollback point)

def extend (entry : PointWithOriginalKVs) (newActions : HashMap RawKey PreviousValue) :
    PointWithOriginalKVs :=
  { entry with originalKvs :=
      newActions.entries.foldl (fun kvs action => kvs.insert action.1 action.2) entry.originalKvs }

def insertActionsForPoint (buffer : RollbackBuffer) (point : Point)
    (newActions : HashMap RawKey PreviousValue) : Except Error RollbackBuffer :=
  match buffer.position point with
  | some index =>
      if buffer.safeMode && newActions.keys.any (fun key =>
          (buffer.points[index]?.map (fun entry => decide (key ∈ entry.originalKvs))).getD false)
      then .error (.panicked "inserting action for key already present in rb buf")
      else .ok { buffer with points := buffer.points.modify index (extend · newActions) }
  | none => .ok (buffer.addBlock point newActions)

/-- Reload the persisted entries in ascending key order. -/
def fetchFromStorage (maxRollback : Nat) (safeMode : Bool) (db : StorageHandler) :
    Except Error RollbackBuffer := do
  let range := RollbackBufferKV.encodeRange none none
  let items := (db.reader Timestamp.latest).iterKvs RollbackBufferKV range false
  items.foldlM (fun buffer item => do
    let (key, value) ← item
    buffer.insertActionsForPoint ⟨key.height, key.hash⟩ (AList.singleton key.key value))
    (new maxRollback safeMode)

theorem pointsSince_ok {buffer : RollbackBuffer} {point : Point}
    {blocks : List PointWithOriginalKVs} (found : buffer.pointsSince point = .ok blocks) :
    ∃ index, buffer.position point = some index ∧ blocks = buffer.points.take index := by
  cases position : buffer.position point with
  | none => simp [pointsSince, position] at found
  | some index =>
      refine ⟨index, rfl, ?_⟩
      simpa [pointsSince, position] using found.symm

theorem position_some {buffer : RollbackBuffer} {point : Point} {index : Nat}
    (found : buffer.position point = some index) :
    ∃ entry, buffer.points[index]? = some entry ∧ entry.point = point ∧
      ∀ earlier other, earlier < index → buffer.points[earlier]? = some other →
        other.point ≠ point := by
  rw [position, List.findIdx?_eq_some_iff_getElem] at found
  obtain ⟨bound, matching, before⟩ := found
  refine ⟨buffer.points[index], List.getElem?_eq_getElem bound, by simpa using matching, ?_⟩
  intro earlier other smaller lookup same
  obtain ⟨inside, rfl⟩ := List.getElem?_eq_some_iff.mp lookup
  exact before earlier smaller (by simpa using same)

end RollbackBuffer

end Symphony
