import Symphony.Proof.RuneSupply

/-! The records of a transaction: what each script sent and each output received. -/

namespace Symphony

open Encdec
open RunesIndexer

section Keyed

variable {Entry Key Item : Type} {entries : List Entry} {entry : Entry}

theorem flatMap_of_mem {keyOf : Entry → Key} (distinct : (entries.map keyOf).Nodup)
    (member : entry ∈ entries) {items : Entry → List Item}
    (others : ∀ other ∈ entries, keyOf other ≠ keyOf entry → items other = []) :
    entries.flatMap items = items entry := by
  induction entries with
  | nil => cases member
  | cons first entries ih =>
      rw [List.map_cons, List.nodup_cons] at distinct
      rw [List.forall_mem_cons] at others
      rw [List.flatMap_cons]
      rcases List.mem_cons.mp member with rfl | later
      · have rest : entries.flatMap items = [] := by
          rw [List.flatMap_eq_nil_iff]
          intro other inside
          apply others.2 other inside
          intro same
          exact distinct.1 (List.mem_map.mpr ⟨other, inside, same⟩)
        rw [rest, List.append_nil]
      · have apart : keyOf first ≠ keyOf entry := by
          intro same
          exact distinct.1 (List.mem_map.mpr ⟨entry, later, same.symm⟩)
        rw [others.1 apart, List.nil_append, ih distinct.2 later others.2]

end Keyed

section Iter

variable {Key Value : Type} (order : MapOrder Key Value) (map : HashMap Key Value)

theorem MapOrder.nodup_iter : ((order.iter map).map Prod.fst).Nodup := by
  apply ((order.perm map).map Prod.fst).nodup_iff.mpr
  rw [List.map_map]
  exact map.nodupKeys

theorem MapOrder.mem_iter [DecidableEq Key] {entry : Key × Value} :
    entry ∈ order.iter map ↔ map.lookup entry.1 = some entry.2 := by
  have found := @AList.mem_lookup_iff _ _ _ entry.1 entry.2 map
  rw [Option.mem_def] at found
  rw [(order.perm map).mem_iff, found, List.mem_map]
  constructor
  · rintro ⟨inside, member, rfl⟩
    exact member
  · intro inside
    exact ⟨⟨entry.1, entry.2⟩, inside, rfl⟩

end Iter

/-- What the outputs of a script among the references hold of a rune. -/
def sentOf (set : UtxoSet) (refs : List TxoRef) (script : ScriptPubKey) (id : RuneId) : Nat :=
  (refs.map (fun ref => match set ref with
    | none => 0
    | some utxo => if utxo.script = script then amountIn utxo.runes id else 0)).sum

def amountsAt (vout : U32) (id : RuneId) (runes : UtxoRunes) : List (U32 × U128) :=
  runes.flatMap (fun rune => if rune.1 = id then [(vout, rune.2)] else [])

def receivedOf (order : Nat → MapOrder RuneId U128) (items : List ((TxOut × RuneBalances) × Nat))
    (key : AddressRuneKey) : List (U32 × U128) :=
  items.flatMap (fun item => if key.script = item.1.1.scriptPubkey
    then amountsAt (BitVec.ofNat 32 item.2) key.runeId ((outputRunes order item).getD []) else [])

namespace RuneActivities

variable {activities : RuneActivities} {key : AddressRuneKey}

@[simp] theorem activityOf_empty : activityOf ∅ key = ⟨0, []⟩ := rfl

theorem activityOf_insert (activity : RuneActivity) (other : AddressRuneKey) :
    activityOf (activities.insert key activity) other =
      if other = key then activity else activities.activityOf other := by
  simp only [activityOf]
  by_cases same : other = key
  · rw [if_pos same, same, AList.lookup_insert, Option.getD_some]
  · rw [if_neg same, AList.lookup_insert_ne same]

theorem sendAll_ok {script : ScriptPubKey} {runes : UtxoRunes}
    (bounded : ∀ id, (activities.activityOf ⟨script, id⟩).sent.toNat + amountIn runes id < 2 ^ 128) :
    ∃ after, (∀ build, sendAll build script runes activities = .ok after) ∧ ∀ key,
      (after.activityOf key).received = (activities.activityOf key).received ∧
        (after.activityOf key).sent.toNat = (activities.activityOf key).sent.toNat +
          if key.script = script then amountIn runes key.runeId else 0 := by
  induction runes generalizing activities with
  | nil => exact ⟨activities, fun _ => rfl, by simp⟩
  | cons rune runes ih =>
      rcases rune with ⟨id, amount⟩
      have room := bounded id
      simp only [amountIn_cons, if_true] at room
      have fits : (activities.activityOf ⟨script, id⟩).sent.toNat + amount.toNat < 2 ^ 128 := by omega
      have sum : ((activities.activityOf ⟨script, id⟩).sent + amount).toNat =
          (activities.activityOf ⟨script, id⟩).sent.toNat + amount.toNat := by
        rw [BitVec.toNat_add, Nat.mod_eq_of_lt fits]
      have room' (other : RuneId) : ((RuneActivities.activityOf (activities.insert ⟨script, id⟩
          { activities.activityOf ⟨script, id⟩ with
            sent := (activities.activityOf ⟨script, id⟩).sent + amount })
          ⟨script, other⟩).sent.toNat + amountIn runes other < 2 ^ 128) := by
        have whole := bounded other
        rw [amountIn_cons] at whole
        rw [activityOf_insert]
        by_cases same : other = id
        · subst same
          rw [if_pos rfl] at whole ⊢
          simp only [sum]
          omega
        · rw [if_neg (by simpa using same)]
          rw [if_neg (fun equal => same equal.symm)] at whole
          omega
      rcases ih room' with ⟨after, sent, rest⟩
      refine ⟨after, ?_, ?_⟩
      · intro build
        rw [sendAll]
        simp only [build.add_ok fits]
        exact sent build
      intro key
      rw [(rest key).1, (rest key).2, activityOf_insert, amountIn_cons]
      by_cases same : key = ⟨script, id⟩
      · subst same
        simp only [if_true, sum]
        exact ⟨trivial, by omega⟩
      · rw [if_neg same]
        refine ⟨rfl, ?_⟩
        by_cases own : key.script = script
        · have other : id ≠ key.runeId := by
            rintro rfl
            exact same (by rw [← own])
          rw [if_pos own, if_pos own, if_neg other, Nat.zero_add]
        · rw [if_neg own, if_neg own]

theorem activityOf_receiveAll (script : ScriptPubKey) (vout : U32) (runes : UtxoRunes) :
    (receiveAll script vout runes activities).activityOf key =
      ⟨(activities.activityOf key).sent, (activities.activityOf key).received ++
        if key.script = script then amountsAt vout key.runeId runes else []⟩ := by
  induction runes generalizing activities with
  | nil => simp [receiveAll, amountsAt]
  | cons rune runes ih =>
      rcases rune with ⟨id, amount⟩
      rw [receiveAll, ih, activityOf_insert]
      by_cases same : key = ⟨script, id⟩
      · subst same
        simp [amountsAt]
      · rw [if_neg same]
        by_cases own : key.script = script
        · have other : id ≠ key.runeId := by
            rintro rfl
            exact same (by rw [← own])
          rw [if_pos own, if_pos own, amountsAt, amountsAt, List.flatMap_cons, if_neg other]
          rfl
        · rw [if_neg own, if_neg own]

theorem of_mem_changesOf {activity : RuneActivity} {change : RuneBalanceChange}
    (member : change ∈ changesOf key activity) :
    change.script = key.script ∧ change.runeId = key.runeId := by
  rcases List.mem_append.mp member with sent | received
  · split at sent
    · cases sent
    · rw [List.mem_singleton.mp sent]
      exact ⟨rfl, rfl⟩
  · rcases List.mem_filterMap.mp received with ⟨_, _, made⟩
    split at made
    · cases made
    · cases made
      exact ⟨rfl, rfl⟩

theorem sent_changesOf (key : AddressRuneKey) (activity : RuneActivity) :
    (changesOf key activity).filter (fun change => change.outputIndex = none) =
      if activity.sent = 0 then [] else [⟨key.runeId, key.script, activity.sent, 0, none⟩] := by
  have received : (activity.received.filterMap (fun received => if received.2 = 0 then none
      else some (⟨key.runeId, key.script, 0, received.2, some received.1⟩ : RuneBalanceChange))).filter
        (fun change => change.outputIndex = none) = [] := by
    rw [List.filter_eq_nil_iff]
    intro change member
    rcases List.mem_filterMap.mp member with ⟨received, _, made⟩
    split at made
    · cases made
    · cases made
      simp
  rw [changesOf, List.filter_append, received, List.append_nil]
  split
  · rfl
  · rfl

theorem received_changesOf (key : AddressRuneKey) (activity : RuneActivity) (place : U32) :
    (changesOf key activity).filter (fun change => change.outputIndex = some place) =
      (activity.received.filter (fun received => received.1 = place ∧ received.2 ≠ 0)).map
        (fun received => ⟨key.runeId, key.script, 0, received.2, some received.1⟩) := by
  have sent : (if activity.sent = 0 then []
      else [(⟨key.runeId, key.script, activity.sent, 0, none⟩ : RuneBalanceChange)]).filter
        (fun change => change.outputIndex = some place) = [] := by
    split
    · rfl
    · rfl
  rw [changesOf, List.filter_append, sent, List.nil_append]
  induction activity.received with
  | nil => rfl
  | cons received rest ih =>
      rw [List.filterMap_cons, List.filter_cons]
      by_cases none : received.2 = 0
      · simp only [none, if_true, ne_eq, not_true_eq_false, and_false, decide_false,
          Bool.false_eq_true, if_false]
        exact ih
      · simp only [none, if_false, List.filter_cons, ih, Option.some.injEq, ne_eq,
          not_false_eq_true, and_true]
        split
        · rw [List.map_cons]
        · rfl

end RuneActivities

section Sums

variable {set : UtxoSet} {refs : List TxoRef} {activities : RuneActivities}

theorem sentOf_cons (ref : TxoRef) (script : ScriptPubKey) (id : RuneId) :
    sentOf set (ref :: refs) script id = (match set ref with
      | none => 0
      | some utxo => if utxo.script = script then amountIn utxo.runes id else 0) +
        sentOf set refs script id := by
  rw [sentOf, List.map_cons, List.sum_cons]
  rfl

theorem sentOf_le (script : ScriptPubKey) (id : RuneId) :
    sentOf set refs script id ≤ amountIn (heldRunes set refs) id := by
  induction refs with
  | nil => exact Nat.zero_le _
  | cons ref refs ih =>
      rw [sentOf_cons, heldRunes, List.flatMap_cons, amountIn_append]
      apply Nat.add_le_add _ ih
      cases set ref with
      | none => exact Nat.zero_le _
      | some utxo =>
          simp only [Option.map_some, Option.getD_some]
          split
          · exact le_rfl
          · exact Nat.zero_le _

theorem sendRefs_ok (bounded : ∀ key : AddressRuneKey, (activities.activityOf key).sent.toNat +
      sentOf set refs key.script key.runeId < 2 ^ 128) :
    ∃ after, (∀ build, sendRefs build set refs activities = .ok after) ∧ ∀ key : AddressRuneKey,
      (after.activityOf key).received = (activities.activityOf key).received ∧
        (after.activityOf key).sent.toNat = (activities.activityOf key).sent.toNat +
          sentOf set refs key.script key.runeId := by
  induction refs generalizing activities with
  | nil => exact ⟨activities, fun _ => rfl, fun _ => ⟨rfl, rfl⟩⟩
  | cons ref refs ih =>
      simp only [sentOf_cons, sendRefs] at bounded ⊢
      cases found : set ref with
      | none =>
          simp only [found, Nat.zero_add] at bounded ⊢
          exact ih bounded
      | some utxo =>
          simp only [found] at bounded ⊢
          have room (id : RuneId) : (activities.activityOf ⟨utxo.script, id⟩).sent.toNat +
              amountIn utxo.runes id < 2 ^ 128 := by
            have whole := bounded ⟨utxo.script, id⟩
            simp only [if_true] at whole
            omega
          rcases @RuneActivities.sendAll_ok _ _ _ room with ⟨middle, first, added⟩
          have rest (other : AddressRuneKey) : (middle.activityOf other).sent.toNat +
              sentOf set refs other.script other.runeId < 2 ^ 128 := by
            have whole := bounded other
            rw [(added other).2]
            simp only [@eq_comm _ other.script]
            omega
          rcases ih rest with ⟨after, sent, later⟩
          refine ⟨after, fun build => by rw [first]; exact sent build, ?_⟩
          intro key
          rw [(later key).1, (later key).2, (added key).1, (added key).2]
          simp only [@eq_comm _ key.script]
          exact ⟨trivial, by omega⟩

theorem sendRefs_start (bounded : ∀ id, amountIn (heldRunes set refs) id < 2 ^ 128) :
    ∃ after, (∀ build, sendRefs build set refs ∅ = .ok after) ∧ ∀ key : AddressRuneKey,
      (after.activityOf key).received = [] ∧
        (after.activityOf key).sent.toNat = sentOf set refs key.script key.runeId := by
  have zero : (0 : U128).toNat = 0 := rfl
  have room (key : AddressRuneKey) : ((∅ : RuneActivities).activityOf key).sent.toNat +
      sentOf set refs key.script key.runeId < 2 ^ 128 := by
    have whole := @sentOf_le set refs key.script key.runeId
    have bound := bounded key.runeId
    rw [RuneActivities.activityOf_empty, zero]
    omega
  rcases sendRefs_ok room with ⟨after, sends, totals⟩
  refine ⟨after, sends, ?_⟩
  intro key
  rw [(totals key).1, (totals key).2, RuneActivities.activityOf_empty, zero, Nat.zero_add]
  exact ⟨rfl, rfl⟩

theorem activityOf_receiveOutputs (order : Nat → MapOrder RuneId U128)
    (items : List ((TxOut × RuneBalances) × Nat)) (key : AddressRuneKey) :
    (receiveOutputs true order items activities).activityOf key =
      ⟨(activities.activityOf key).sent,
        (activities.activityOf key).received ++ receivedOf order items key⟩ := by
  induction items generalizing activities with
  | nil => simp [receiveOutputs, receivedOf]
  | cons item items ih =>
      have split : receivedOf order (item :: items) key = (if key.script = item.1.1.scriptPubkey
          then amountsAt (BitVec.ofNat 32 item.2) key.runeId ((outputRunes order item).getD [])
          else []) ++ receivedOf order items key := List.flatMap_cons
      rw [receiveOutputs, ih, split]
      cases outputRunes order item with
      | none => simp [amountsAt]
      | some runes =>
          simp only [if_true, RuneActivities.activityOf_receiveAll, Option.getD_some,
            List.append_assoc]

theorem filter_recordsOf (order : MapOrder AddressRuneKey RuneActivity) (key : AddressRuneKey)
    (wanted : RuneBalanceChange → Bool) (others : ∀ other, other ≠ key →
      (RuneActivities.changesOf other (activities.activityOf other)).filter wanted = []) :
    (recordsOf order activities).filter wanted =
      (RuneActivities.changesOf key (activities.activityOf key)).filter wanted := by
  rw [recordsOf, List.filter_flatMap]
  have single : ∀ item ∈ order.iter activities, item.1 ≠ key →
      (RuneActivities.changesOf item.1 item.2).filter wanted = [] := by
    intro item member other
    have value := (order.mem_iter activities).mp member
    have empty := others item.1 other
    rw [RuneActivities.activityOf, value] at empty
    exact empty
  cases found : activities.lookup key with
  | some activity =>
      have member : (key, activity) ∈ order.iter activities := (order.mem_iter activities).mpr found
      rw [flatMap_of_mem (order.nodup_iter activities) member single, RuneActivities.activityOf, found]
      rfl
  | none =>
      have nothing : (order.iter activities).flatMap (fun item =>
          (RuneActivities.changesOf item.1 item.2).filter wanted) = [] := by
        rw [List.flatMap_eq_nil_iff]
        intro item member
        apply single item member
        intro same
        have value := (order.mem_iter activities).mp member
        rw [same, found] at value
        cases value
      rw [nothing, RuneActivities.activityOf, found]
      rfl

theorem of_mem_recordsOf {order : MapOrder AddressRuneKey RuneActivity} {record : RuneBalanceChange}
    (member : record ∈ recordsOf order activities) :
    ∃ key, record ∈ RuneActivities.changesOf key (activities.activityOf key) := by
  rcases List.mem_flatMap.mp member with ⟨entry, inside, own⟩
  have value := (order.mem_iter activities).mp inside
  refine ⟨entry.1, ?_⟩
  rw [RuneActivities.activityOf, value]
  exact own

end Sums

theorem amountsAt_iter (order : MapOrder RuneId U128) (balances : RuneBalances) (vout : U32)
    (id : RuneId) :
    (amountsAt vout id (order.iter balances)).filter (fun received => received.2 ≠ 0) =
      if RuneBalances.amount balances id = 0 then []
      else [(vout, (balances.lookup id).getD 0)] := by
  rw [RuneBalances.amount]
  cases found : balances.lookup id with
  | none =>
      have nothing : amountsAt vout id (order.iter balances) = [] := by
        rw [amountsAt, List.flatMap_eq_nil_iff]
        intro rune member
        rw [if_neg]
        rintro rfl
        rw [(order.mem_iter balances).mp member] at found
        cases found
      rw [nothing]
      rfl
  | some amount =>
      have single : amountsAt vout id (order.iter balances) = [(vout, amount)] := by
        have member : (id, amount) ∈ order.iter balances := (order.mem_iter balances).mpr found
        rw [amountsAt, flatMap_of_mem (order.nodup_iter balances) member]
        · exact if_pos rfl
        · intro other _ apart
          exact if_neg apart
      have zero : amount.toNat = 0 ↔ amount = 0 :=
        ⟨fun none => BitVec.eq_of_toNat_eq none, fun none => by rw [none]; rfl⟩
      simp only [single, Option.getD_some, zero, List.filter_cons, List.filter_nil]
      by_cases none : amount = 0
      · simp [none]
      · rw [if_neg none, if_pos (decide_eq_true none)]

/-- The records show, once each, what every script sent of a rune and what every output received of
it, and nothing else; nothing is shown of amounts that are zero. -/
structure ExactRecords (set : UtxoSet) (tx : TransactionWithId) (allocated : List RuneBalances)
    (records : List RuneBalanceChange) : Prop where
  fits : ∀ script id, sentOf set tx.spends script id < 2 ^ 128
  sent : ∀ script id, records.filter (fun record => record.outputIndex = none ∧
      record.script = script ∧ record.runeId = id) =
    if sentOf set tx.spends script id = 0 then []
    else [⟨id, script, BitVec.ofNat 128 (sentOf set tx.spends script id), 0, none⟩]
  received : ∀ (index : Nat) output balances, tx.tx.output[index]? = some output →
    allocated[index]? = some balances → ∀ id,
      records.filter (fun record => record.outputIndex = some (BitVec.ofNat 32 index) ∧
        record.runeId = id) =
          if RuneBalances.amount balances id = 0 then []
          else [⟨id, output.scriptPubkey, 0, (balances.lookup id).getD 0,
            some (BitVec.ofNat 32 index)⟩]
  placed : ∀ record ∈ records, ∀ place, record.outputIndex = some place →
    place.toNat < tx.tx.output.length

namespace RuneReceipts

variable {indexer : RunesIndexer} {set : UtxoSet} {tx : TransactionWithId} {key : AddressRuneKey}
variable (receipts : RuneReceipts indexer set tx)

def activities : RuneActivities := receiveOutputs true receipts.order receipts.items receipts.sent

theorem activityOf_activities (active : indexer.indexActivity)
    (bounded : ∀ id, amountIn (heldRunes set tx.spends) id < 2 ^ 128) (key : AddressRuneKey) :
    (receipts.activities.activityOf key).sent.toNat = sentOf set tx.spends key.script key.runeId ∧
      (receipts.activities.activityOf key).received = receivedOf receipts.order receipts.items key := by
  rcases sendRefs_start bounded with ⟨after, sends, totals⟩
  have sending : receipts.sent = after :=
    Except.ok.inj ((receipts.sends active).symm.trans (sends indexer.build))
  rcases totals key with ⟨nothing, sent⟩
  rw [← sending] at nothing sent
  rw [activities, activityOf_receiveOutputs, nothing]
  exact ⟨sent, List.nil_append _⟩

theorem filter_receivedOf {item : (TxOut × RuneBalances) × Nat} (member : item ∈ receipts.items)
    (small : tx.tx.output.length < 2 ^ 32) (own : key.script = item.1.1.scriptPubkey) :
    (receivedOf receipts.order receipts.items key).filter (fun received =>
      received.1 = BitVec.ofNat 32 item.2 ∧ received.2 ≠ 0) =
        if RuneBalances.amount item.1.2 key.runeId = 0 then []
        else [(BitVec.ofNat 32 item.2, (item.1.2.lookup key.runeId).getD 0)] := by
  have places : (receipts.items.map Prod.snd).Nodup := List.nodup_zipIdx_map_snd _
  have place {other : (TxOut × RuneBalances) × Nat} (inside : other ∈ receipts.items) :
      other.2 < 2 ^ 32 := by
    have bounded := List.snd_lt_of_mem_zipIdx inside
    rw [List.length_zip] at bounded
    omega
  have vouts {vout : U32} {runes : UtxoRunes} {received : U32 × U128}
      (listed : received ∈ amountsAt vout key.runeId runes) : received.1 = vout := by
    rcases List.mem_flatMap.mp listed with ⟨rune, _, made⟩
    split at made
    · rw [List.mem_singleton.mp made]
    · cases made
  rw [receivedOf, List.filter_flatMap, flatMap_of_mem places member]
  · rw [if_pos own]
    have held : outputRunes receipts.order item = if item.1.2.entries.isEmpty then none
      else some ((receipts.order item.2).iter item.1.2) := rfl
    have same : (amountsAt (BitVec.ofNat 32 item.2) key.runeId
        ((outputRunes receipts.order item).getD [])).filter (fun received =>
          received.1 = BitVec.ofNat 32 item.2 ∧ received.2 ≠ 0) =
        (amountsAt (BitVec.ofNat 32 item.2) key.runeId
          ((outputRunes receipts.order item).getD [])).filter (fun received => received.2 ≠ 0) := by
      apply List.filter_congr
      intro received listed
      simp only [vouts listed, true_and]
    rw [same, ← amountsAt_iter (receipts.order item.2), held]
    split
    · rename_i empty
      have nothing : (receipts.order item.2).iter item.1.2 = [] := by
        have perm := (receipts.order item.2).perm item.1.2
        rw [List.isEmpty_iff.mp empty] at perm
        exact List.perm_nil.mp perm
      rw [nothing]
      rfl
    · rfl
  · intro other inside apart
    rw [List.filter_eq_nil_iff]
    intro received listed
    split at listed
    · rw [vouts listed]
      simp only [decide_eq_true_eq, not_and]
      intro same
      have numbers := congrArg BitVec.toNat same
      rw [BitVec.toNat_ofNat, BitVec.toNat_ofNat, Nat.mod_eq_of_lt (place inside),
        Nat.mod_eq_of_lt (place member)] at numbers
      exact absurd numbers apart
    · cases listed

theorem mem_items {index : Nat} {output : TxOut} {balances : RuneBalances}
    (listed : tx.tx.output[index]? = some output) (given : receipts.allocated[index]? = some balances) :
    ((output, balances), index) ∈ receipts.items := by
  rw [items, List.mem_zipIdx_iff_getElem?, List.getElem?_zip_eq_some]
  exact ⟨listed, given⟩

theorem of_mem_receivedOf {received : U32 × U128}
    (member : received ∈ receivedOf receipts.order receipts.items key) :
    ∃ item ∈ receipts.items, key.script = item.1.1.scriptPubkey ∧
      received.1 = BitVec.ofNat 32 item.2 := by
  rcases List.mem_flatMap.mp member with ⟨item, inside, listed⟩
  split at listed
  · rename_i own
    rcases List.mem_flatMap.mp listed with ⟨rune, _, made⟩
    split at made
    · rw [List.mem_singleton.mp made]
      exact ⟨item, inside, own, rfl⟩
    · cases made
  · cases listed

theorem item_lt {item : (TxOut × RuneBalances) × Nat} (member : item ∈ receipts.items) :
    item.2 < tx.tx.output.length := by
  have bound := List.snd_lt_of_mem_zipIdx member
  rw [List.length_zip] at bound
  omega

theorem of_outputIndex {record : RuneBalanceChange} {place : U32} (active : indexer.indexActivity)
    (bounded : ∀ id, amountIn (heldRunes set tx.spends) id < 2 ^ 128)
    (member : record ∈ RuneActivities.changesOf key (receipts.activities.activityOf key))
    (at' : record.outputIndex = some place) : ∃ item ∈ receipts.items,
      key.script = item.1.1.scriptPubkey ∧ place = BitVec.ofNat 32 item.2 := by
  have inside : record ∈ (RuneActivities.changesOf key (receipts.activities.activityOf key)).filter
      (fun change => change.outputIndex = some place) :=
    List.mem_filter.mpr ⟨member, decide_eq_true at'⟩
  rw [RuneActivities.received_changesOf, (receipts.activityOf_activities active bounded key).2,
    List.mem_map] at inside
  rcases inside with ⟨received, found, _⟩
  rw [List.mem_filter, decide_eq_true_eq] at found
  rcases receipts.of_mem_receivedOf found.1 with ⟨item, here, own, vout⟩
  exact ⟨item, here, own, by rw [← vout, found.2.1]⟩

theorem sent_records (active : indexer.indexActivity)
    (bounded : ∀ id, amountIn (heldRunes set tx.spends) id < 2 ^ 128) (script : ScriptPubKey)
    (id : RuneId) :
    (recordsOf receipts.activityOrder receipts.activities).filter (fun record => record.outputIndex = none ∧
      record.script = script ∧ record.runeId = id) =
        if sentOf set tx.spends script id = 0 then []
        else [⟨id, script, BitVec.ofNat 128 (sentOf set tx.spends script id), 0, none⟩] := by
  rw [filter_recordsOf receipts.activityOrder ⟨script, id⟩]
  · have same : (RuneActivities.changesOf ⟨script, id⟩
        (receipts.activities.activityOf ⟨script, id⟩)).filter (fun record =>
          record.outputIndex = none ∧ record.script = script ∧ record.runeId = id) =
        (RuneActivities.changesOf ⟨script, id⟩ (receipts.activities.activityOf ⟨script, id⟩)).filter
          (fun record => record.outputIndex = none) := by
      apply List.filter_congr
      intro record member
      rcases RuneActivities.of_mem_changesOf member with ⟨rfl, rfl⟩
      simp
    have sent := (receipts.activityOf_activities active bounded ⟨script, id⟩).1
    have zero : (receipts.activities.activityOf ⟨script, id⟩).sent = 0 ↔
        sentOf set tx.spends script id = 0 := by
      rw [← sent]
      exact ⟨fun none => by rw [none]; rfl, fun none => BitVec.eq_of_toNat_eq none⟩
    have amount : BitVec.ofNat 128 (sentOf set tx.spends script id) =
        (receipts.activities.activityOf ⟨script, id⟩).sent := by
      rw [← sent, BitVec.ofNat_toNat, BitVec.setWidth_eq]
    rw [same, RuneActivities.sent_changesOf, amount]
    simp only [zero]
  · intro other apart
    rw [List.filter_eq_nil_iff]
    intro record member
    rcases RuneActivities.of_mem_changesOf member with ⟨script', id'⟩
    simp only [decide_eq_true_eq, not_and]
    intro _ own same
    apply apart
    rw [← own, ← same, script', id']

theorem received_records (active : indexer.indexActivity) (small : tx.tx.output.length < 2 ^ 32)
    (bounded : ∀ id, amountIn (heldRunes set tx.spends) id < 2 ^ 128)
    {item : (TxOut × RuneBalances) × Nat} (member : item ∈ receipts.items) (id : RuneId) :
    (recordsOf receipts.activityOrder receipts.activities).filter (fun record =>
      record.outputIndex = some (BitVec.ofNat 32 item.2) ∧ record.runeId = id) =
        if RuneBalances.amount item.1.2 id = 0 then []
        else [⟨id, item.1.1.scriptPubkey, 0, (item.1.2.lookup id).getD 0,
          some (BitVec.ofNat 32 item.2)⟩] := by
  rw [filter_recordsOf receipts.activityOrder ⟨item.1.1.scriptPubkey, id⟩]
  · have same : (RuneActivities.changesOf ⟨item.1.1.scriptPubkey, id⟩
        (receipts.activities.activityOf ⟨item.1.1.scriptPubkey, id⟩)).filter (fun record =>
          record.outputIndex = some (BitVec.ofNat 32 item.2) ∧ record.runeId = id) =
        (RuneActivities.changesOf ⟨item.1.1.scriptPubkey, id⟩
          (receipts.activities.activityOf ⟨item.1.1.scriptPubkey, id⟩)).filter
            (fun record => record.outputIndex = some (BitVec.ofNat 32 item.2)) := by
      apply List.filter_congr
      intro record inside
      rw [(RuneActivities.of_mem_changesOf inside).2]
      simp
    rw [same, RuneActivities.received_changesOf, (receipts.activityOf_activities active bounded _).2,
      receipts.filter_receivedOf member small rfl]
    split
    · rfl
    · rfl
  · intro other apart
    rw [List.filter_eq_nil_iff]
    intro record inside
    simp only [decide_eq_true_eq, not_and]
    intro at' same
    apply apart
    rcases receipts.of_outputIndex active bounded inside at' with ⟨item', here, own, vout⟩
    have numbers := congrArg BitVec.toNat vout
    have bound := receipts.item_lt member
    have bound' := receipts.item_lt here
    rw [BitVec.toNat_ofNat, BitVec.toNat_ofNat, Nat.mod_eq_of_lt (by omega),
      Nat.mod_eq_of_lt (by omega)] at numbers
    have first := List.mem_zipIdx_iff_getElem?.mp member
    have second := List.mem_zipIdx_iff_getElem?.mp here
    rw [← numbers, first, Option.some.injEq] at second
    have rune := (RuneActivities.of_mem_changesOf inside).2
    rw [same] at rune
    cases other
    simp only at own rune
    rw [own, ← second, ← rune]

theorem exactRecords (active : indexer.indexActivity) (small : tx.tx.output.length < 2 ^ 32)
    (bounded : ∀ id, amountIn (heldRunes set tx.spends) id < 2 ^ 128) :
    ExactRecords set tx receipts.allocated receipts.records := by
  have listed : receipts.records = recordsOf receipts.activityOrder receipts.activities := if_pos active
  rw [listed]
  constructor
  · intro script id
    exact lt_of_le_of_lt (sentOf_le script id) (bounded id)
  · exact receipts.sent_records active bounded
  · intro index output balances place given id
    exact receipts.received_records active small bounded (receipts.mem_items place given) id
  · intro record member place at'
    rcases of_mem_recordsOf member with ⟨key, inside⟩
    rcases receipts.of_outputIndex active bounded inside at' with ⟨item, here, _, vout⟩
    have bound := receipts.item_lt here
    rw [vout, BitVec.toNat_ofNat, Nat.mod_eq_of_lt (by omega)]
    exact bound

end RuneReceipts

end Symphony
