import Symphony.Storage.KvStore

/-! The reader an API request works on (`serve/mod.rs`, `serve/reader_wrapper.rs`). -/

namespace Symphony.Serve

open BigEndian (Byte)
open Encdec

inductive ServeError where
  | internal (message : String)
  | decoding (failure : DecodingError)
  | notFound
  | malformedRequest (message : String)
  | symphony (failure : Error)
  | unexpectedMissingData (key : String)
  deriving DecidableEq

structure ChainTip where
  blockHash : String
  blockHeight : U64
  deriving DecidableEq

structure EstimatedBlock where
  blockHeight : U64
  deriving DecidableEq

structure IndexerInfo where
  chainTip : ChainTip
  mempoolTimestamp : Option String
  estimatedBlocks : List EstimatedBlock
  deriving DecidableEq

def hexDigit (value : Nat) : Char :=
  if value < 10 then Char.ofNat (48 + value) else Char.ofNat (87 + value)

/-- `BlockHash::to_string`: hexadecimal, last byte first. -/
def displayHash (hash : BlockHash) : String :=
  String.ofList (hash.toList.reverse.flatMap
    (fun byte => [hexDigit (byte.val / 16), hexDigit (byte.val % 16)]))

def debugPointKind : PointKind → String
  | .confirmed => "Confirmed"
  | .mempool => "Mempool"

def getMaybe (reader : Reader) (kind : PointKind) : Except ServeError (Option TimestampEntry) :=
  match reader.get TimestampsKV kind with
  | .ok entry => .ok entry
  | .error failure => .error (.symphony failure)

def getExpected (reader : Reader) (kind : PointKind) : Except ServeError TimestampEntry :=
  match reader.get TimestampsKV kind with
  | .ok (some entry) => .ok entry
  | .ok none => .error (.unexpectedMissingData (debugPointKind kind))
  | .error failure => .error (.symphony failure)

/-- The seconds of a snapshot as a date; `formatUtc` stands for `chrono`, which has no date
for seconds out of its range. -/
def formatTimestamp (formatUtc : Nat → Option String) (seconds : U64) : Except ServeError String :=
  if seconds.toNat < 2 ^ 63 then
    match formatUtc seconds.toNat with
    | some text => .ok text
    | none => .error (.symphony (.panicked "timestamp out of range"))
  else .error (.symphony (.panicked "out of range integral type conversion attempted"))

def mempoolTimestamp (formatUtc : Nat → Option String) (entry : TimestampEntry) :
    Except ServeError (Option String) :=
  match entry.mempoolTimestamp with
  | some seconds => (formatTimestamp formatUtc seconds).map some
  | none => .ok none

/-- The heights above the confirmed tip up to the pseudo height of the snapshot. -/
def estimatedBlocks (confirmed mempool : TimestampEntry) : List EstimatedBlock :=
  (List.range (saturatingSub mempool.tipHeight confirmed.tipHeight).toNat).map
    (fun index => ⟨confirmed.tipHeight + BitVec.ofNat 64 index + 1⟩)

/-- `AppState::start_reader` on the storage it shares with the index stage. -/
def startReader (formatUtc : Nat → Option String) (storage : StorageHandler) (mempool : Bool) :
    Except ServeError (Reader × IndexerInfo) := do
  let latestReader := storage.reader Timestamp.latest
  let confirmedPoint ← getExpected latestReader .confirmed
  let chainTip : ChainTip := ⟨displayHash confirmedPoint.tipHash, confirmedPoint.tipHeight⟩
  let confirmed : Reader × IndexerInfo :=
    (storage.reader (Timestamp.fromU64 confirmedPoint.rocksTimestamp), ⟨chainTip, none, []⟩)
  if mempool then
    match ← getMaybe latestReader .mempool with
    | none => return confirmed
    | some mempoolPoint =>
        -- the stored snapshot may build on another block than the confirmed tip
        if mempoolPoint.tipHash ≠ confirmedPoint.tipHash then return confirmed
        else
          let timestamp ← mempoolTimestamp formatUtc mempoolPoint
          return (storage.reader (Timestamp.fromU64 mempoolPoint.rocksTimestamp),
            ⟨chainTip, timestamp, estimatedBlocks confirmedPoint mempoolPoint⟩)
  else return confirmed

/-- A reader is on the confirmed point, or on the stored snapshot built on it. -/
theorem startReader_cases {formatUtc : Nat → Option String} {storage : StorageHandler}
    {mempool : Bool} {reader : Reader} {info : IndexerInfo}
    (success : startReader formatUtc storage mempool = .ok (reader, info)) :
    ∃ confirmed : TimestampEntry,
      (storage.reader Timestamp.latest).get TimestampsKV .confirmed = .ok (some confirmed) ∧
      info.chainTip = ⟨displayHash confirmed.tipHash, confirmed.tipHeight⟩ ∧
      ((reader = storage.reader (Timestamp.fromU64 confirmed.rocksTimestamp) ∧
          info.estimatedBlocks = [] ∧
          (mempool = true → ∀ snapshot : TimestampEntry,
            (storage.reader Timestamp.latest).get TimestampsKV .mempool = .ok (some snapshot) →
              snapshot.tipHash ≠ confirmed.tipHash)) ∨
        ∃ snapshot : TimestampEntry, mempool = true ∧
          (storage.reader Timestamp.latest).get TimestampsKV .mempool = .ok (some snapshot) ∧
          snapshot.tipHash = confirmed.tipHash ∧
          reader = storage.reader (Timestamp.fromU64 snapshot.rocksTimestamp) ∧
          info.estimatedBlocks = estimatedBlocks confirmed snapshot) := by
  simp only [startReader, bind, Except.bind, pure, Except.pure] at success
  split at success
  · cases success
  · rename_i confirmed expected
    have found : (storage.reader Timestamp.latest).get TimestampsKV .confirmed =
        .ok (some confirmed) := by
      simp only [getExpected] at expected
      split at expected
      · rename_i entry read
        rw [read, Except.ok.inj expected]
      · cases expected
      · cases expected
    refine ⟨confirmed, found, ?_⟩
    cases mempool with
    | false =>
        cases success
        refine ⟨rfl, Or.inl ⟨rfl, rfl, ?_⟩⟩
        intro impossible
        cases impossible
    | true =>
        simp only [if_true] at success
        split at success
        · cases success
        · rename_i stored maybe
          have read : (storage.reader Timestamp.latest).get TimestampsKV .mempool = .ok stored := by
            simp only [getMaybe] at maybe
            split at maybe
            · rename_i entry read
              rw [read, Except.ok.inj maybe]
            · cases maybe
          cases stored with
          | none =>
              cases success
              refine ⟨rfl, Or.inl ⟨rfl, rfl, ?_⟩⟩
              intro _ snapshot present
              rw [read] at present
              cases present
          | some snapshot =>
              simp only at success
              split at success
              · rename_i differs
                cases success
                refine ⟨rfl, Or.inl ⟨rfl, rfl, ?_⟩⟩
                intro _ other present
                rw [read, Except.ok.injEq, Option.some.injEq] at present
                rw [← present]
                exact differs
              · rename_i same
                split at success
                · cases success
                · cases success
                  exact ⟨rfl, Or.inr ⟨snapshot, rfl, read, not_not.mp same, rfl, rfl⟩⟩

end Symphony.Serve
